import Mathlib.Data.Nat.Digits.Lemmas
import Mathlib.Tactic.Common

/-!
# Base 58

Keys, hashes and signatures leave and enter the program as base-58 text: one `1` for each leading
zero byte, then the digits of the bytes read as a big-endian number.  Decoding rejects a character
outside the alphabet and is otherwise total.

The text reads back as the bytes (`decode_encode`): a leading `1` is a zero digit, so the text determines the
number, its leading `1`s are the leading zeros, and the number determines the bytes after them.  Two byte
strings with the same text are therefore the same (`encode_injective`).
-/

namespace Base58

/-- A byte string. -/
abbrev Bytes := List UInt8

/-- The digits, in order of value. -/
def alphabet : List Char := "123456789ABCDEFGHJKLMNPQRSTUVWXYZabcdefghijkmnopqrstuvwxyz".toList

/-- The character of a digit. -/
def digitChar (d : ℕ) : Char := alphabet.getD d '1'

/-- The value of a character. -/
def charDigit (c : Char) : Option ℕ := alphabet.idxOf? c

/-- The bytes as a big-endian number. -/
def number (bs : Bytes) : ℕ := Nat.ofDigits 256 (bs.reverse.map UInt8.toNat)

/-- The characters of the encoding. -/
def chars (bs : Bytes) : List Char :=
  List.replicate (bs.takeWhile (· == 0)).length '1'
    ++ ((Nat.digits 58 (number bs)).map digitChar).reverse

/-- `bs58::encode(..).into_string()`. -/
def encode (bs : Bytes) : String := String.ofList (chars bs)

/-- `bs58::decode(..).into_vec()`. -/
def decode (s : String) : Option Bytes := do
  let ds ← s.toList.mapM charDigit
  let zeros := (s.toList.takeWhile (· == '1')).length
  let n := Nat.ofDigits 58 ds.reverse
  return List.replicate zeros 0 ++ ((Nat.digits 256 n).map UInt8.ofNat).reverse

/-! ### Reading back -/

theorem charDigit_digitChar {d : ℕ} (h : d < 58) : charDigit (digitChar d) = some d := by
  revert d
  decide

/-- The value of the digits of a text, whatever its leading `1`s. -/
def value (cs : List Char) : ℕ := Nat.ofDigits 58 (cs.reverse.map fun c => (charDigit c).getD 0)

theorem value_chars (bs : Bytes) : value (chars bs) = number bs := by
  have hone : (charDigit '1').getD 0 = 0 := by decide
  have hdigits : ((Nat.digits 58 (number bs)).map digitChar).map (fun c => (charDigit c).getD 0)
      = Nat.digits 58 (number bs) := by
    rw [List.map_map]
    conv_rhs => rw [← List.map_id (Nat.digits 58 (number bs))]
    apply List.map_congr_left
    intro d hd
    have hlt : d < 58 := Nat.digits_lt_base (by norm_num) hd
    simp [charDigit_digitChar hlt]
  rw [value, chars, List.reverse_append, List.reverse_reverse, List.map_append, hdigits,
    List.reverse_replicate, List.map_replicate, hone, Nat.ofDigits_append_replicate_zero,
    Nat.ofDigits_digits]

theorem takeWhile_zero (bs : Bytes) :
    bs.takeWhile (· == 0) = List.replicate (bs.takeWhile (· == 0)).length 0 := by
  refine List.eq_replicate_iff.mpr ⟨rfl, fun b hb => ?_⟩
  simpa using List.all_eq_true.mp List.all_takeWhile b hb

/-- The bytes without their leading zeros are the digits of the number. -/
theorem digits_number (bs : Bytes) :
    Nat.digits 256 (number bs) = (bs.dropWhile (· == 0)).reverse.map UInt8.toNat := by
  have hnumber : number bs = number (bs.dropWhile (· == 0)) := by
    conv_lhs => rw [← List.takeWhile_append_dropWhile (p := (· == 0)) (l := bs), takeWhile_zero]
    rw [number, List.reverse_append, List.map_append, List.reverse_replicate, List.map_replicate]
    exact Nat.ofDigits_append_replicate_zero _
  rw [hnumber]
  refine Nat.digits_ofDigits 256 (by norm_num) _ ?_ ?_
  · intro d hd
    obtain ⟨x, _, rfl⟩ := List.mem_map.mp hd
    exact UInt8.toNat_lt x
  · intro hne hzero
    rw [List.getLast_map, List.getLast_reverse] at hzero
    have hhead := List.head_dropWhile_not (fun b : UInt8 => b == 0) (l := bs) (by simpa using hne)
    have hhead0 : (bs.dropWhile (· == 0)).head (by simpa using hne) = 0 :=
      UInt8.toNat_inj.mp (hzero.trans UInt8.toNat_zero.symm)
    rw [hhead0] at hhead
    exact absurd hhead (by decide)

/-- The leading `1`s stand for the leading zeros. -/
theorem takeWhile_chars (bs : Bytes) :
    (chars bs).takeWhile (· == '1') = List.replicate (bs.takeWhile (· == 0)).length '1' := by
  have hchar : ∀ d, d < 58 → d ≠ 0 → (digitChar d == '1') = false := by decide
  have hdigits : (((Nat.digits 58 (number bs)).map digitChar).reverse).takeWhile (· == '1') = [] := by
    by_cases hzero : number bs = 0
    · rw [hzero]
      rfl
    · have hne : Nat.digits 58 (number bs) ≠ [] := Nat.digits_ne_nil_iff_ne_zero.mpr hzero
      have hlt : (Nat.digits 58 (number bs)).getLast hne < 58 :=
        Nat.digits_lt_base (by norm_num) (List.getLast_mem hne)
      rw [← List.dropLast_append_getLast hne, List.map_append, List.reverse_append]
      exact List.takeWhile_cons_of_neg (by
        simp [hchar _ hlt (Nat.getLast_digit_ne_zero 58 hzero)])
  rw [chars, List.takeWhile_append_of_pos (by simp), hdigits, List.append_nil]

/-- Every character of an encoding has a value. -/
theorem charDigit_of_mem_chars {bs : Bytes} {c : Char} (h : c ∈ chars bs) :
    charDigit c = some ((charDigit c).getD 0) := by
  have hone : charDigit '1' = some ((charDigit '1').getD 0) := by decide
  rcases List.mem_append.mp h with hmem | hmem
  · rw [List.eq_of_mem_replicate hmem]
    exact hone
  · obtain ⟨d, hd, rfl⟩ := List.mem_map.mp (List.mem_reverse.mp hmem)
    have hlt : d < 58 := Nat.digits_lt_base (by norm_num) hd
    rw [charDigit_digitChar hlt, Option.getD_some]

theorem mapM_charDigit {cs : List Char} (h : ∀ c ∈ cs, charDigit c = some ((charDigit c).getD 0)) :
    cs.mapM charDigit = some (cs.map fun c => (charDigit c).getD 0) := by
  induction cs with
  | nil => rfl
  | cons c cs ih =>
    rw [List.mapM_cons, h c List.mem_cons_self, ih fun c' hc' => h c' (List.mem_cons_of_mem _ hc')]
    rfl

/-- **Decoding reads every encoding back.** -/
theorem decode_encode (bs : Bytes) : decode (encode bs) = some bs := by
  have hdigits : (chars bs).mapM charDigit = some ((chars bs).map fun c => (charDigit c).getD 0) :=
    mapM_charDigit fun c hc => charDigit_of_mem_chars hc
  have hnumber : Nat.ofDigits 58 ((chars bs).map fun c => (charDigit c).getD 0).reverse = number bs := by
    rw [← List.map_reverse]
    exact value_chars bs
  have hbytes : ((Nat.digits 256 (number bs)).map UInt8.ofNat).reverse = bs.dropWhile (· == 0) := by
    rw [digits_number, List.map_map, ← List.map_reverse, List.reverse_reverse]
    conv_rhs => rw [← List.map_id (bs.dropWhile (· == 0))]
    exact List.map_congr_left fun b _ => UInt8.ofNat_toNat
  simp only [decode, encode, String.toList_ofList, hdigits, Option.bind_eq_bind, Option.bind_some, hnumber,
    hbytes, takeWhile_chars, List.length_replicate]
  rw [← takeWhile_zero, List.takeWhile_append_dropWhile]
  rfl

/-- **The text determines the bytes.** -/
theorem encode_injective : Function.Injective encode := by
  intro a b h
  have hdecoded := decode_encode a
  rw [h, decode_encode b] at hdecoded
  exact (Option.some.inj hdecoded).symm

/-! ### Writing back -/

theorem digitChar_of_charDigit {c : Char} {d : ℕ} (h : charDigit c = some d) : d < 58 ∧ digitChar d = c := by
  obtain ⟨hlt, hc, -⟩ := List.idxOf?_eq_some_iff.mp h
  refine ⟨hlt, ?_⟩
  rw [digitChar, List.getD_eq_getElem?_getD, List.getElem?_eq_getElem hlt, Option.getD_some]
  exact hc

/-- The characters of a text that decodes are those of its digits. -/
theorem map_digitChar {cs : List Char} {ds : List ℕ} (h : cs.mapM charDigit = some ds) :
    ds.map digitChar = cs ∧ ∀ d ∈ ds, d < 58 := by
  induction cs generalizing ds with
  | nil =>
    obtain rfl := Option.some.inj h
    exact ⟨rfl, fun d hd => absurd hd List.not_mem_nil⟩
  | cons c cs ih =>
    rw [List.mapM_cons] at h
    obtain ⟨d, hd, h⟩ := Option.bind_eq_some_iff.mp h
    obtain ⟨ds', hds', h⟩ := Option.bind_eq_some_iff.mp h
    obtain rfl := Option.some.inj h
    obtain ⟨hlt, hc⟩ := digitChar_of_charDigit hd
    obtain ⟨hmap, hall⟩ := ih hds'
    refine ⟨by rw [List.map_cons, hc, hmap], fun x hx => ?_⟩
    rcases List.mem_cons.mp hx with rfl | hx
    · exact hlt
    · exact hall x hx

/-- The digits of a number that is read from digits are these, without the leading zeros. -/
theorem digits_ofDigits_reverse {b : ℕ} (hb : 1 < b) {ds : List ℕ} (h : ∀ d ∈ ds, d < b) :
    Nat.digits b (Nat.ofDigits b ds.reverse) = (ds.dropWhile (· == 0)).reverse := by
  have hzeros : ds.takeWhile (· == 0) = List.replicate (ds.takeWhile (· == 0)).length 0 :=
    List.eq_replicate_iff.mpr ⟨rfl, fun d hd => by simpa using List.all_eq_true.mp List.all_takeWhile d hd⟩
  have hnumber : Nat.ofDigits b ds.reverse = Nat.ofDigits b (ds.dropWhile (· == 0)).reverse := by
    conv_lhs => rw [← List.takeWhile_append_dropWhile (p := (· == 0)) (l := ds), hzeros]
    rw [List.reverse_append, List.reverse_replicate]
    exact Nat.ofDigits_append_replicate_zero _
  rw [hnumber]
  refine Nat.digits_ofDigits b hb _ (fun d hd => ?_) fun hne hzero => ?_
  · exact h d (List.dropWhile_sublist _ |>.subset (List.mem_reverse.mp hd))
  · rw [List.getLast_reverse] at hzero
    have hhead := List.head_dropWhile_not (fun d : ℕ => d == 0) (l := ds) (by simpa using hne)
    rw [hzero] at hhead
    exact absurd hhead (by decide)

/-- Only the digit zero is written as `1`. -/
theorem dropWhile_map_digitChar {ds : List ℕ} (h : ∀ d ∈ ds, d < 58) :
    (ds.map digitChar).dropWhile (· == '1') = (ds.dropWhile (· == 0)).map digitChar := by
  have hone : ∀ d, d < 58 → (digitChar d == '1') = (d == 0) := by decide
  induction ds with
  | nil => rfl
  | cons d ds ih =>
    rw [List.map_cons, List.dropWhile_cons, List.dropWhile_cons, hone d (h d List.mem_cons_self)]
    split
    · exact ih fun d' hd' => h d' (List.mem_cons_of_mem _ hd')
    · rfl

/-- The bytes of a number do not start with a zero. -/
theorem takeWhile_bytes (n : ℕ) : (((Nat.digits 256 n).map UInt8.ofNat).reverse).takeWhile (· == 0) = [] := by
  by_cases hzero : n = 0
  · rw [hzero]
    rfl
  · have hne : Nat.digits 256 n ≠ [] := Nat.digits_ne_nil_iff_ne_zero.mpr hzero
    have hlt : (Nat.digits 256 n).getLast hne < 256 := Nat.digits_lt_base (by norm_num) (List.getLast_mem hne)
    have hbyte : UInt8.ofNat ((Nat.digits 256 n).getLast hne) ≠ 0 := by
      intro h
      have hnat := congrArg UInt8.toNat h
      rw [UInt8.toNat_ofNat', Nat.mod_eq_of_lt hlt] at hnat
      exact Nat.getLast_digit_ne_zero 256 hzero hnat
    rw [← List.dropLast_append_getLast hne, List.map_append, List.reverse_append]
    exact List.takeWhile_cons_of_neg (by simpa using hbyte)

/-- **Encoding writes every text that decodes back.** -/
theorem encode_decode {s : String} {bs : Bytes} (h : decode s = some bs) : encode bs = s := by
  obtain ⟨ds, hds, h⟩ := Option.bind_eq_some_iff.mp h
  obtain rfl := Option.some.inj h
  obtain ⟨hmap, hlt⟩ := map_digitChar hds
  set n := Nat.ofDigits 58 ds.reverse with hn
  set zeros := (s.toList.takeWhile (· == '1')).length with hzeros
  have hbytes : ((Nat.digits 256 n).map UInt8.ofNat).map UInt8.toNat = Nat.digits 256 n := by
    rw [List.map_map]
    conv_rhs => rw [← List.map_id (Nat.digits 256 n)]
    exact List.map_congr_left fun d hd =>
      UInt8.toNat_ofNat'.trans (Nat.mod_eq_of_lt (Nat.digits_lt_base (by norm_num) hd))
  have hnumber : number (List.replicate zeros 0 ++ ((Nat.digits 256 n).map UInt8.ofNat).reverse) = n := by
    rw [number, List.reverse_append, List.reverse_reverse, List.reverse_replicate, List.map_append,
      List.map_replicate, hbytes]
    exact (Nat.ofDigits_append_replicate_zero _).trans (Nat.ofDigits_digits 256 n)
  have hlength : ((List.replicate zeros 0 ++ ((Nat.digits 256 n).map UInt8.ofNat).reverse).takeWhile
      (· == (0 : UInt8))).length = zeros := by
    rw [List.takeWhile_append_of_pos (by simp), takeWhile_bytes, List.append_nil, List.length_replicate]
  have hones : s.toList.takeWhile (· == '1') = List.replicate zeros '1' :=
    List.eq_replicate_iff.mpr ⟨rfl, fun c hc => by simpa using List.all_eq_true.mp List.all_takeWhile c hc⟩
  have hrest : ((Nat.digits 58 n).map digitChar).reverse = s.toList.dropWhile (· == '1') := by
    rw [hn, digits_ofDigits_reverse (by norm_num) hlt, ← List.map_reverse, List.reverse_reverse,
      ← dropWhile_map_digitChar hlt, hmap]
  rw [encode, chars, hnumber, hlength, hrest, ← hones, List.takeWhile_append_dropWhile, String.ofList_toList]

example : decode (encode [0, 0, 1, 255]) = some [0, 0, 1, 255] := by decide

end Base58
