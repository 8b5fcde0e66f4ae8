import DasIndexer.Lib.LittleEndian
import DasIndexer.Schema.Values

/-!
# Inscription accounts

`InscriptionData::try_unpack_data` reads an account of the inscription program by offsets into its data: a
discriminator, three keys, two numbers, two strings behind their lengths, and a byte that says whether a third
string follows.  Only the total length is compared with anything, and with a constant, so where a length leads
out of the data, or a string is not UTF-8, the function panics.

`Layout` is what an account should look like.  **`unpack_layout`**: a laid out account is read as what it is,
whatever follows it.  **`no_panic_iff`**: no other account with the discriminator and the minimal length is
read without a panic.
-/

namespace DasIndexer.Blockbuster.Inscriptions

/-! ### Computations that may panic -/

/-- The errors of `try_unpack_data`. -/
inductive BlockbusterError where
  | invalidAccountType
  | customDeserializationError (msg : String)
deriving DecidableEq

/-- What a call comes to. -/
inductive Outcome (α : Type) where
  | ok (a : α)
  | err (e : BlockbusterError)
  | panic
deriving DecidableEq

namespace Outcome

variable {α β : Type}

def bind (x : Outcome α) (f : α → Outcome β) : Outcome β :=
  match x with
  | ok a => f a
  | err e => err e
  | panic => panic

instance : Monad Outcome where
  pure := ok
  bind := bind

instance : LawfulMonad Outcome := LawfulMonad.mk' Outcome
  (fun x => by cases x <;> rfl) (fun _ _ => rfl) (fun x _ _ => by cases x <;> rfl)

/-- `unwrap`. -/
def unwrap : Option α → Outcome α
  | some a => ok a
  | none => panic

theorem ok_bind (a : α) (f : α → Outcome β) : ok a >>= f = f a := rfl

/-- Where the whole does not panic, an unwrapped value is there and the rest does not panic. -/
theorem unwrap_bind {o : Option α} {f : α → Outcome β} (h : unwrap o >>= f ≠ panic) :
    ∃ a, o = some a ∧ f a ≠ panic := by
  cases o with
  | none => exact absurd rfl h
  | some a => exact ⟨a, rfl, h⟩

end Outcome

open Outcome

/-! ### The parser -/

/-- `&data[from..to]`.  An end that does not fit a `usize` panics too, where it is computed. -/
def slice (data : Bytes) (start stop : ℕ) : Outcome Bytes :=
  unwrap (if stop < 2 ^ 64 ∧ start ≤ stop ∧ stop ≤ data.length
    then some ((data.drop start).take (stop - start)) else none)

/-- `Pubkey::try_from(&data[from..to]).unwrap()`. -/
def readPubkey (data : Bytes) (start stop : ℕ) : Outcome Pubkey := do
  let bytes ← slice data start stop
  unwrap (if h : bytes.length = 32 then some ⟨bytes, h⟩ else none)

/-- `uN::from_le_bytes(data[from..to].try_into().unwrap())`, of `width` bytes. -/
def readLe (width : ℕ) (data : Bytes) (start stop : ℕ) : Outcome ℕ := do
  let bytes ← slice data start stop
  unwrap (if bytes.length = width then some (LittleEndian.decode bytes) else none)

/-- `String::from_utf8`. -/
def fromUtf8 (bytes : Bytes) : Option String := String.fromUTF8? ⟨bytes.toArray⟩

/-- `String::from_utf8(data[from..to].to_vec()).unwrap()`. -/
def readString (data : Bytes) (start stop : ℕ) : Outcome String := do
  let bytes ← slice data start stop
  unwrap (fromUtf8 bytes)

structure InscriptionData where
  authority : String
  root : String
  content : String
  encoding : String
  inscriptionData : String
  order : ℕ
  size : ℕ
  validationHash : Option String
deriving DecidableEq

/-- `InscriptionData::BASE_SIZE`. -/
def baseSize : ℕ := 121

/-- `InscriptionData::INSCRIPTION_ACC_DATA_DISC`. -/
def inscriptionAccDataDisc : Bytes := [232, 120, 205, 47, 153, 239, 229, 224]

/-- `InscriptionData::try_unpack_data`. -/
def tryUnpackData (data : Bytes) : Outcome InscriptionData := do
  let accDisc ← slice data 0 8
  if accDisc ≠ inscriptionAccDataDisc then .err .invalidAccountType
  else if data.length < baseSize then
    .err (.customDeserializationError "Inscription Data is too short")
  else
    let authority ← readPubkey data 8 40
    let mint ← readPubkey data 40 72
    let inscriptionData ← readPubkey data 72 104
    let order ← readLe 8 data 104 112
    let size ← readLe 4 data 112 116
    let contentTypeLen ← readLe 4 data 116 120
    let content ← readString data 120 (120 + contentTypeLen)
    let encodingLen ← readLe 4 data (120 + contentTypeLen) (124 + contentTypeLen)
    let encoding ← readString data (124 + contentTypeLen) (124 + contentTypeLen + encodingLen)
    let validationExists ← readLe 1 data (124 + contentTypeLen + encodingLen)
      (124 + contentTypeLen + encodingLen + 1)
    let validationHash ← if validationExists = 1 then do
        let validationHashLen ← readLe 4 data (124 + contentTypeLen + encodingLen + 1)
          (128 + contentTypeLen + encodingLen + 1)
        let hash ← readString data (128 + contentTypeLen + encodingLen + 1)
          (128 + contentTypeLen + encodingLen + 1 + validationHashLen)
        pure (some hash)
      else pure none
    pure
      { authority := authority.toString
        root := mint.toString
        content
        encoding
        inscriptionData := inscriptionData.toString
        order
        size
        validationHash }

/-! ### The layout -/

/-- A string whose length fits 32 bits. -/
structure Text where
  text : String
  fits : (utf8 text).length < 2 ^ 32

/-- A string behind its length. -/
def Text.bytes (t : Text) : Bytes := LittleEndian.encode 4 (utf8 t.text).length ++ utf8 t.text

/-- The end of an account: any byte but 1, or 1 and a hash. -/
inductive Validation where
  | absent (flag : UInt8) (h : flag ≠ 1)
  | present (hash : Text)

def Validation.bytes : Validation → Bytes
  | .absent flag _ => [flag]
  | .present hash => 1 :: hash.bytes

def Validation.hash : Validation → Option String
  | .absent _ _ => none
  | .present hash => some hash.text

/-- What an inscription account holds. -/
structure Layout where
  authority : Pubkey
  mint : Pubkey
  inscriptionData : Pubkey
  order : ℕ
  order_lt : order < 2 ^ 64
  size : ℕ
  size_lt : size < 2 ^ 32
  content : Text
  encoding : Text
  validation : Validation

/-- The account, without its discriminator. -/
def Layout.body (l : Layout) : Bytes :=
  l.authority.bytes ++ (l.mint.bytes ++ (l.inscriptionData.bytes ++ (LittleEndian.encode 8 l.order
    ++ (LittleEndian.encode 4 l.size ++ (l.content.bytes ++ (l.encoding.bytes ++ l.validation.bytes))))))

def Layout.bytes (l : Layout) : Bytes := inscriptionAccDataDisc ++ l.body

/-- What should be read of it. -/
def Layout.unpacked (l : Layout) : InscriptionData where
  authority := l.authority.toString
  root := l.mint.toString
  content := l.content.text
  encoding := l.encoding.text
  inscriptionData := l.inscriptionData.toString
  order := l.order
  size := l.size
  validationHash := l.validation.hash

/-! ### Readers -/

/-- From a position on the data is this. -/
def At (data : Bytes) (pos : ℕ) (rest : Bytes) : Prop := pos ≤ data.length ∧ data.drop pos = rest

/-- Reading what stands at a position, and what stands behind it. -/
theorem slice_of_at {data bs rest : Bytes} {pos : ℕ} (h : At data pos (bs ++ rest)) (stop : ℕ)
    (hstop : stop = pos + bs.length) (hfits : stop < 2 ^ 64) :
    slice data pos stop = ok bs ∧ At data stop rest := by
  obtain ⟨hle, hdrop⟩ := h
  have hlength : data.length - pos = bs.length + rest.length := by
    rw [← List.length_drop, hdrop, List.length_append]
  have hbounds : stop < 2 ^ 64 ∧ pos ≤ stop ∧ stop ≤ data.length := ⟨hfits, by omega, by omega⟩
  have htake : (data.drop pos).take (stop - pos) = bs := by
    rw [hdrop, hstop, Nat.add_sub_cancel_left, List.take_left]
  refine ⟨?_, hbounds.2.2, ?_⟩
  · rw [slice, if_pos hbounds, htake]
    rfl
  · rw [hstop, ← List.drop_drop, hdrop, List.drop_left]

/-- A slice that is read as a value, without a panic, is what stands there. -/
theorem read_bind {data rest : Bytes} {pos stop : ℕ} {α β : Type} {g : Bytes → Option α} {f : α → Outcome β}
    (h : At data pos rest) (hf : ((slice data pos stop >>= fun bytes => unwrap (g bytes)) >>= f) ≠ panic) :
    ∃ bs rest' a, rest = bs ++ rest' ∧ bs.length = stop - pos ∧ At data stop rest' ∧ g bs = some a ∧
      f a ≠ panic := by
  rw [bind_assoc] at hf
  obtain ⟨bs, hbs, hread⟩ := unwrap_bind hf
  obtain ⟨⟨_, hpos, hstop⟩, hbs⟩ := Option.ite_none_right_eq_some.mp hbs
  obtain rfl := Option.some.inj hbs
  obtain ⟨a, ha, hfa⟩ := unwrap_bind hread
  obtain ⟨hle, rfl⟩ := h
  refine ⟨_, data.drop stop, a, ?_, ?_, ⟨hstop, rfl⟩, ha, hfa⟩
  · have hdrop : data.drop stop = (data.drop pos).drop (stop - pos) := by
      rw [List.drop_drop, Nat.add_sub_cancel' hpos]
    rw [hdrop, List.take_append_drop]
  · rw [List.length_take, List.length_drop]
    omega

theorem readPubkey_of_at {data rest : Bytes} {pos : ℕ} {k : Pubkey} (h : At data pos (k.bytes ++ rest))
    (stop : ℕ) (hstop : stop = pos + 32) (hfits : stop < 2 ^ 64) :
    readPubkey data pos stop = ok k ∧ At data stop rest := by
  obtain ⟨hslice, hrest⟩ := slice_of_at h stop (by rw [k.length_bytes, hstop]) hfits
  refine ⟨?_, hrest⟩
  rw [readPubkey, hslice, ok_bind, dif_pos k.length_bytes]
  rfl

theorem readPubkey_bind {data rest : Bytes} {pos stop : ℕ} {α : Type} {f : Pubkey → Outcome α}
    (h : At data pos rest) (hf : (readPubkey data pos stop >>= f) ≠ panic) :
    ∃ k rest', rest = Pubkey.bytes k ++ rest' ∧ At data stop rest' ∧ f k ≠ panic := by
  obtain ⟨bs, rest', k, hsplit, _, hat, hk, hfk⟩ := read_bind h hf
  by_cases hlength : bs.length = 32
  · rw [dif_pos hlength] at hk
    obtain rfl := Option.some.inj hk
    exact ⟨_, rest', hsplit, hat, hfk⟩
  · rw [dif_neg hlength] at hk
    cases hk

theorem readLe_of_at {data rest : Bytes} {pos width n : ℕ}
    (h : At data pos (LittleEndian.encode width n ++ rest)) (stop : ℕ) (hn : n < 256 ^ width)
    (hstop : stop = pos + width) (hfits : stop < 2 ^ 64) :
    readLe width data pos stop = ok n ∧ At data stop rest := by
  have hlength := LittleEndian.length_encode width n
  obtain ⟨hslice, hrest⟩ := slice_of_at h stop (by rw [hlength, hstop]) hfits
  refine ⟨?_, hrest⟩
  rw [readLe, hslice, ok_bind, if_pos hlength, LittleEndian.decode_encode hn]
  rfl

theorem readLe_bind {data rest : Bytes} {pos stop width : ℕ} {α : Type} {f : ℕ → Outcome α}
    (h : At data pos rest) (hf : (readLe width data pos stop >>= f) ≠ panic) :
    ∃ n rest', rest = LittleEndian.encode width n ++ rest' ∧ n < 256 ^ width ∧ At data stop rest' ∧
      f n ≠ panic := by
  obtain ⟨bs, rest', n, hsplit, _, hat, hn, hfn⟩ := read_bind h hf
  obtain ⟨rfl, hvalue⟩ := Option.ite_none_right_eq_some.mp hn
  obtain rfl := Option.some.inj hvalue
  refine ⟨_, rest', ?_, LittleEndian.decode_lt bs, hat, hfn⟩
  rw [LittleEndian.encode_decode, hsplit]

theorem fromUtf8_utf8 (s : String) : fromUtf8 (utf8 s) = some s := by
  rw [fromUtf8, utf8, Array.toArray_toList]
  exact dif_pos s.isValidUTF8

theorem utf8_of_fromUtf8 {bs : Bytes} {s : String} (h : fromUtf8 bs = some s) : utf8 s = bs := by
  rw [fromUtf8, String.fromUTF8?] at h
  split at h
  · obtain rfl := Option.some.inj h
    rfl
  · cases h

theorem readString_of_at {data rest : Bytes} {pos : ℕ} {s : String} (h : At data pos (utf8 s ++ rest))
    (stop : ℕ) (hstop : stop = pos + (utf8 s).length) (hfits : stop < 2 ^ 64) :
    readString data pos stop = ok s ∧ At data stop rest := by
  obtain ⟨hslice, hrest⟩ := slice_of_at h stop hstop hfits
  refine ⟨?_, hrest⟩
  rw [readString, hslice, ok_bind, fromUtf8_utf8]
  rfl

theorem readString_bind {data rest : Bytes} {pos stop : ℕ} {α : Type} {f : String → Outcome α}
    (h : At data pos rest) (hf : (readString data pos stop >>= f) ≠ panic) :
    ∃ s rest', rest = utf8 s ++ rest' ∧ (utf8 s).length = stop - pos ∧ At data stop rest' ∧ f s ≠ panic := by
  obtain ⟨bs, rest', s, hsplit, hlength, hat, hs, hfs⟩ := read_bind h hf
  obtain rfl := utf8_of_fromUtf8 hs
  exact ⟨s, rest', hsplit, hlength, hat, hfs⟩

/-- A string behind its length. -/
theorem text_of_at {data rest : Bytes} {pos : ℕ} {t : Text} (h : At data pos (t.bytes ++ rest))
    (start stop : ℕ) (hstart : start = pos + 4) (hstop : stop = start + (utf8 t.text).length)
    (hfits : stop < 2 ^ 64) :
    readLe 4 data pos start = ok (utf8 t.text).length ∧ readString data start stop = ok t.text ∧
      At data stop rest := by
  rw [Text.bytes, List.append_assoc] at h
  obtain ⟨hlength, hat⟩ := readLe_of_at h start t.fits hstart (by omega)
  obtain ⟨hstring, hat⟩ := readString_of_at hat stop hstop hfits
  exact ⟨hlength, hstring, hat⟩

/-! ### Every account -/

theorem length_disc : inscriptionAccDataDisc.length = 8 := rfl

theorem Text.length_bytes (t : Text) : t.bytes.length = 4 + (utf8 t.text).length := by
  rw [Text.bytes, List.length_append, LittleEndian.length_encode]

/-- A laid out account is not too short. -/
theorem Layout.baseSize_le (l : Layout) (trailing : Bytes) : baseSize ≤ (l.bytes ++ trailing).length := by
  have hvalidation : 1 ≤ l.validation.bytes.length := by
    cases l.validation with
    | absent flag h => exact le_refl 1
    | present hash => exact Nat.le_add_left 1 _
  simp only [Layout.bytes, Layout.body, List.length_append, length_disc, Pubkey.length_bytes,
    LittleEndian.length_encode, Text.length_bytes, baseSize]
  omega

/-- A byte is a number of one byte. -/
theorem encode_byte (b : UInt8) : LittleEndian.encode 1 b.toNat = [b] :=
  LittleEndian.encode_decode [b]

/-- The end of an account. -/
theorem validation_of_at {data rest : Bytes} {v : Validation} {pos : ℕ} (h : At data pos (v.bytes ++ rest))
    (hpos : pos < 2 ^ 34) :
    ∃ flag, readLe 1 data pos (pos + 1) = ok flag ∧ ((flag ≠ 1 ∧ v.hash = none) ∨
      (flag = 1 ∧ ∃ length hash, v.hash = some hash ∧ readLe 4 data (pos + 1) (pos + 5) = ok length ∧
        readString data (pos + 5) (pos + 5 + length) = ok hash)) := by
  cases v with
  | absent flag hflag =>
    have hbyte : At data pos (LittleEndian.encode 1 flag.toNat ++ rest) := by
      rw [encode_byte]
      exact h
    obtain ⟨hread, _⟩ := readLe_of_at hbyte (pos + 1) flag.toNat_lt rfl (by omega)
    exact ⟨flag.toNat, hread, Or.inl ⟨fun hone => hflag (UInt8.toNat_inj.mp hone), rfl⟩⟩
  | present hash =>
    have hbyte : At data pos (LittleEndian.encode 1 1 ++ (hash.bytes ++ rest)) := h
    obtain ⟨hread, h⟩ := readLe_of_at hbyte (pos + 1) (by norm_num) rfl (by omega)
    have hfits := hash.fits
    obtain ⟨hlength, hstring, _⟩ := text_of_at h (pos + 5) (pos + 5 + (utf8 hash.text).length) rfl rfl
      (by omega)
    exact ⟨1, hread, Or.inr ⟨rfl, _, hash.text, rfl, hlength, hstring⟩⟩

/-- Data that starts with a laid out account. -/
theorem tryUnpackData_of_at {data trailing : Bytes} {l : Layout} (hlong : baseSize ≤ data.length)
    (h : At data 0 (l.bytes ++ trailing)) : tryUnpackData data = ok l.unpacked := by
  rw [Layout.bytes, Layout.body] at h
  simp only [List.append_assoc] at h
  obtain ⟨hdisc, h⟩ := slice_of_at h 8 rfl (by norm_num)
  obtain ⟨hauthority, h⟩ := readPubkey_of_at h 40 rfl (by norm_num)
  obtain ⟨hmint, h⟩ := readPubkey_of_at h 72 rfl (by norm_num)
  obtain ⟨hinscription, h⟩ := readPubkey_of_at h 104 rfl (by norm_num)
  obtain ⟨horder, h⟩ := readLe_of_at h 112 l.order_lt rfl (by norm_num)
  obtain ⟨hsize, h⟩ := readLe_of_at h 116 l.size_lt rfl (by norm_num)
  -- from here on the offsets depend on the two lengths
  obtain ⟨m, hm⟩ : ∃ m, (utf8 l.content.text).length = m := ⟨_, rfl⟩
  obtain ⟨n, hn⟩ : ∃ n, (utf8 l.encoding.text).length = n := ⟨_, rfl⟩
  have hm' : m < 2 ^ 32 := hm ▸ l.content.fits
  have hn' : n < 2 ^ 32 := hn ▸ l.encoding.fits
  obtain ⟨hcontentLen, hcontent, h⟩ := text_of_at h 120 (120 + m) rfl (by rw [hm]) (by omega)
  obtain ⟨hencodingLen, hencoding, h⟩ :=
    text_of_at h (124 + m) (124 + m + n) (by omega) (by rw [hn]) (by omega)
  rw [hm] at hcontentLen
  rw [hn] at hencodingLen
  have hfive : 124 + m + n + 5 = 128 + m + n + 1 := by omega
  obtain ⟨flag, hflag, hend⟩ := validation_of_at h (by omega)
  rw [hfive] at hend
  rw [tryUnpackData]
  simp only [hdisc, ok_bind, ne_eq, not_true_eq_false, if_false, if_neg (not_lt.mpr hlong), hauthority, hmint,
    hinscription, horder, hsize, hcontentLen, hcontent, hencodingLen, hencoding, hflag]
  rcases hend with ⟨hother, hnone⟩ | ⟨rfl, length, hash, hsome, hlength, hstring⟩
  · rw [if_neg hother, Layout.unpacked, hnone]
    rfl
  · rw [if_pos rfl, hlength, ok_bind, hstring, Layout.unpacked, hsome]
    rfl

/-- **Reading undoes the layout**, whatever follows it. -/
theorem unpack_layout (l : Layout) (trailing : Bytes) :
    tryUnpackData (l.bytes ++ trailing) = ok l.unpacked :=
  tryUnpackData_of_at (l.baseSize_le trailing) ⟨Nat.zero_le _, rfl⟩

/-- A length and a string that are read are the bytes of a text. -/
theorem text_of_reads {rest rest' rest'' : Bytes} {length pos : ℕ} {text : String}
    (hlength : length < 256 ^ 4) (hfirst : rest = LittleEndian.encode 4 length ++ rest')
    (hsecond : rest' = utf8 text ++ rest'') (hsize : (utf8 text).length = pos + length - pos) :
    ∃ t : Text, t.text = text ∧ (utf8 t.text).length = length ∧ rest = t.bytes ++ rest'' := by
  rw [Nat.add_sub_cancel_left] at hsize
  subst hsize
  refine ⟨⟨text, hlength⟩, rfl, rfl, ?_⟩
  rw [hfirst, hsecond, Text.bytes, List.append_assoc]

/-- An end that is read without a panic is one of the two. -/
theorem validation_of_bind {data rest : Bytes} {flag start stop : ℕ} {α : Type}
    (f : Option String → Outcome α) (hflag : flag < 256 ^ 1) (hat : At data start rest)
    (h : (if flag = 1 then do
        let length ← readLe 4 data start stop
        let hash ← readString data stop (stop + length)
        f (some hash)
      else f none) ≠ panic) :
    ∃ (v : Validation) (trailing : Bytes), LittleEndian.encode 1 flag ++ rest = v.bytes ++ trailing := by
  by_cases hone : flag = 1
  · rw [if_pos hone] at h
    obtain ⟨length, rest', hfirst, hlength, hat, h⟩ := readLe_bind hat h
    obtain ⟨hash, rest'', hsecond, hsize, _⟩ := readString_bind hat h
    obtain ⟨t, _, _, ht⟩ := text_of_reads hlength hfirst hsecond hsize
    exact ⟨.present t, rest'', by rw [hone, ht]; rfl⟩
  · have hbyte : UInt8.ofNat flag ≠ 1 := by
      intro heq
      have hnat : (UInt8.ofNat flag).toNat = 1 := congrArg UInt8.toNat heq
      rw [UInt8.toNat_ofNat', Nat.mod_eq_of_lt (by omega)] at hnat
      exact hone hnat
    exact ⟨.absent (UInt8.ofNat flag) hbyte, rest, rfl⟩

/-- The discriminator is read without a panic only of 8 bytes. -/
theorem length_of_ne_panic {data : Bytes} (h : tryUnpackData data ≠ panic) : 8 ≤ data.length := by
  rw [tryUnpackData, slice] at h
  obtain ⟨_, hslice, _⟩ := unwrap_bind h
  exact (Option.ite_none_right_eq_some.mp hslice).1.2.2

theorem slice_disc {data : Bytes} (h : 8 ≤ data.length) : slice data 0 8 = ok (data.take 8) := by
  rw [slice, if_pos ⟨by norm_num, Nat.zero_le 8, h⟩]
  rfl

/-- Data that is not turned away, and is read without a panic, starts with a laid out account. -/
theorem exists_layout_of_ne_panic {data : Bytes} (h : tryUnpackData data ≠ panic)
    (hdisc : data.take 8 = inscriptionAccDataDisc) (hlong : ¬ data.length < baseSize) :
    ∃ (l : Layout) (trailing : Bytes), data = l.bytes ++ trailing := by
  have hlength := length_of_ne_panic h
  rw [tryUnpackData, slice_disc hlength, ok_bind, if_neg (not_not.mpr hdisc), if_neg hlong] at h
  have hat : At data 8 (data.drop 8) := ⟨hlength, rfl⟩
  obtain ⟨authority, r₁, h₁, hat, h⟩ := readPubkey_bind hat h
  obtain ⟨mint, r₂, h₂, hat, h⟩ := readPubkey_bind hat h
  obtain ⟨inscriptionData, r₃, h₃, hat, h⟩ := readPubkey_bind hat h
  obtain ⟨order, r₄, h₄, horder, hat, h⟩ := readLe_bind hat h
  obtain ⟨size, r₅, h₅, hsize, hat, h⟩ := readLe_bind hat h
  obtain ⟨contentLen, r₆, h₆, hcontentLen, hat, h⟩ := readLe_bind hat h
  obtain ⟨content, r₇, h₇, hcontent, hat, h⟩ := readString_bind hat h
  obtain ⟨encodingLen, r₈, h₈, hencodingLen, hat, h⟩ := readLe_bind hat h
  obtain ⟨encoding, r₉, h₉, hencoding, hat, h⟩ := readString_bind hat h
  obtain ⟨flag, r₁₀, h₁₀, hflag, hat, h⟩ := readLe_bind hat h
  obtain ⟨validation, trailing, hend⟩ := validation_of_bind (fun validationHash => ok
    { authority := authority.toString, root := mint.toString, content, encoding
      inscriptionData := inscriptionData.toString, order, size, validationHash : InscriptionData })
    hflag hat h
  obtain ⟨c, _, _, hc⟩ := text_of_reads hcontentLen h₆ h₇ hcontent
  obtain ⟨e, _, _, he⟩ := text_of_reads hencodingLen h₈ h₉ hencoding
  refine ⟨⟨authority, mint, inscriptionData, order, horder, size, hsize, c, e, validation⟩, trailing, ?_⟩
  have hhead : data = inscriptionAccDataDisc ++ data.drop 8 := by
    rw [← hdisc, List.take_append_drop]
  rw [hhead, h₁, h₂, h₃, h₄, h₅, hc, he, h₁₀, hend]
  simp only [Layout.bytes, Layout.body, List.append_assoc]

/-- **Where an account is read without a panic**: it is too short for the rest but not for the discriminator,
or it has another discriminator, or it is laid out as it should be. -/
theorem no_panic_iff (data : Bytes) :
    tryUnpackData data ≠ panic ↔ 8 ≤ data.length ∧ (data.take 8 ≠ inscriptionAccDataDisc ∨
      data.length < baseSize ∨ ∃ (l : Layout) (trailing : Bytes), data = l.bytes ++ trailing) := by
  constructor
  · intro h
    refine ⟨length_of_ne_panic h, ?_⟩
    by_cases hdisc : data.take 8 = inscriptionAccDataDisc
    · by_cases hshort : data.length < baseSize
      · exact Or.inr (Or.inl hshort)
      · exact Or.inr (Or.inr (exists_layout_of_ne_panic h hdisc hshort))
    · exact Or.inl hdisc
  · rintro ⟨hlength, hor⟩
    by_cases hlaid : ∃ (l : Layout) (trailing : Bytes), data = l.bytes ++ trailing
    · obtain ⟨l, trailing, rfl⟩ := hlaid
      rw [tryUnpackData_of_at (l.baseSize_le trailing) ⟨Nat.zero_le _, rfl⟩]
      nofun
    · rw [tryUnpackData, slice_disc hlength, ok_bind]
      by_cases hother : data.take 8 ≠ inscriptionAccDataDisc
      · rw [if_pos hother]
        nofun
      · have hshort : data.length < baseSize := (hor.resolve_left hother).resolve_right hlaid
        rw [if_neg hother, if_pos hshort]
        nofun

/-- The discriminator and a content length that leads out of the data. -/
def overlong : Bytes :=
  inscriptionAccDataDisc ++ (List.replicate 108 0 ++ (LittleEndian.encode 4 (2 ^ 32 - 1) ++ [0]))

/-- Seven bytes, and an account of minimal length whose content should have `2 ^ 32 - 1` bytes. -/
theorem short_and_overlong_panic :
    tryUnpackData (List.replicate 7 0) = panic ∧ tryUnpackData overlong = panic := by
  constructor
  · decide +kernel
  · decide +kernel

end DasIndexer.Blockbuster.Inscriptions
