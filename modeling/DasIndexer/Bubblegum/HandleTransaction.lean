import DasIndexer.Blockbuster.Ordering
import DasIndexer.Bubblegum.Db

/-!
# Handing the instructions of a transaction to their parsers

`handleTransaction` goes through the ordered instructions, resolves the accounts of each, and hands it to
the parser of its program; it stops at the first error.  The parsers read accounts by position, so that the
resolved keys have to stand where the instruction has their indices (`Positional`).

Before it resolves them the loop compares the greatest index with the number of keys, and lets an index
pass that is equal to it; the resolution then leaves the index out.  **`positional_iff`** says for which
transactions this never reaches a parser: where an instruction has this index, it has one above it as well,
or an earlier instruction has.
-/

namespace DasIndexer

open Fallible

/-- `ProgramTransformer`: the programs with a parser, and what parser and handler make of a bundle.  `true`
is an instruction with a handler. -/
structure ProgramTransformer (σ : Type) where
  keySet : List Pubkey
  handleInstruction : σ → InstructionBundle → σ × Except ProgramTransformerError Bool

namespace ProgramTransformer

variable {σ : Type}

/-- The loop of `handle_transaction`: the bundles handed to parsers, and the number of instructions without
a handler. -/
def handleInstructions (T : ProgramTransformer σ) (tx : TransactionInfo) (s : σ) :
    List OrderedIx →
      List InstructionBundle × Except ProgramTransformerError ℕ
  | [] => ([], .ok 0)
  | entry :: rest =>
    match tx.bundleOf entry with
    | none => ([], .error (.deserializationError "Missing Accounts in Serialized Ixn/Txn"))
    | some ix =>
      if ix.program ∈ T.keySet then
        match T.handleInstruction s ix with
        | (_, .error e) => ([ix], .error e)
        | (s', .ok implemented) =>
          let r := handleInstructions T tx s' rest
          (ix :: r.1, r.2.map fun notImpl => if implemented then notImpl else notImpl + 1)
      else handleInstructions T tx s rest

/-- `handle_transaction`, with the bundles that it has handed to parsers; `none` where
`break_transaction` panics. -/
def handleTransaction (T : ProgramTransformer σ) (tx : TransactionInfo) (s : σ) :
    Option (List InstructionBundle × Except ProgramTransformerError Unit) :=
  (tx.breakTransaction T.keySet).map fun instructions =>
    let r := T.handleInstructions tx s instructions
    (r.1, r.2.bind fun notImpl =>
      if notImpl = instructions.length then .error .notImplemented else .ok ())

end ProgramTransformer

/-! ### The check on the greatest index -/

theorem UInt8.toNat_max (a b : UInt8) : (max a b).toNat = max a.toNat b.toNat := by
  show (if a ≤ b then b else a).toNat = _
  split
  · rename_i h
    exact (Nat.max_eq_right (UInt8.le_iff_toNat_le.mp h)).symm
  · rename_i h
    have hlt := Nat.lt_of_not_le fun hle => h (UInt8.le_iff_toNat_le.mpr hle)
    exact (Nat.max_eq_left (Nat.le_of_lt hlt)).symm

/-- The greatest of some bytes is above a bound where one of them is. -/
theorem lt_foldl_max_iff (n : ℕ) (b : UInt8) (accounts : List UInt8) :
    n < (accounts.foldl max b).toNat ↔ n < b.toNat ∨ ∃ a ∈ accounts, n < a.toNat := by
  induction accounts generalizing b with
  | nil => simp
  | cons a accounts ih =>
    rw [List.foldl_cons, ih, UInt8.toNat_max, lt_max_iff, List.exists_mem_cons_iff, or_assoc]

namespace TransactionInfo

/-- An instruction with an account index above the number of keys. -/
def BeyondKeys (tx : TransactionInfo) (accounts : List UInt8) : Prop :=
  ∃ a ∈ accounts, tx.accountKeys.length < a.toNat

/-- An instruction with the account index that is one too large. -/
def PastTheEnd (tx : TransactionInfo) (accounts : List UInt8) : Prop :=
  ∃ a ∈ accounts, a.toNat = tx.accountKeys.length

/-- The keys of a bundle stand where the instruction has their indices. -/
def Positional (tx : TransactionInfo) (accounts : List UInt8) (ix : InstructionBundle) : Prop :=
  ix.keys.length = accounts.length ∧
    ∀ (i : ℕ) (a : UInt8), accounts[i]? = some a →
      ∃ key, tx.accountKeys[a.toNat]? = some key ∧ ix.keys[i]? = some key

/-- What a run of the loop that ended in `r` did with each of the instructions: it was over with an error
before the instruction, or the parser got the keys by position. -/
def HandedByPosition {ε : Type} (tx : TransactionInfo) (entries : List OrderedIx)
    (r : List InstructionBundle × Except ε Unit) : Prop :=
  ∀ i entry, entries[i]? = some entry →
    (r.1.length ≤ i ∧ ∃ e, r.2 = .error e) ∨
    ∃ ix, r.1[i]? = some ix ∧ ix.program = entry.1.1 ∧ ix.instruction = some entry.1.2 ∧
      tx.Positional entry.1.2.accounts ix

/-- Where the loop stops with "Missing Accounts in Serialized Ixn/Txn". -/
theorem bundleOf_eq_none_iff (tx : TransactionInfo) (entry : OrderedIx) :
    tx.bundleOf entry = none ↔ tx.BeyondKeys entry.1.2.accounts := by
  have hmax := lt_foldl_max_iff tx.accountKeys.length 0 entry.1.2.accounts
  simp only [UInt8.toNat_zero, Nat.not_lt_zero, false_or] at hmax
  rw [BeyondKeys, ← hmax]
  simp only [bundleOf]
  split
  · rename_i hlt
    exact iff_of_true rfl hlt
  · rename_i hlt
    exact iff_of_false (by simp) hlt

/-- The keys of a bundle are those of the instruction, by position, unless an index is one too large. -/
theorem positional_bundleOf_iff {tx : TransactionInfo} {entry : OrderedIx}
    {ix : InstructionBundle} (h : tx.bundleOf entry = some ix) :
    tx.Positional entry.1.2.accounts ix ↔ ¬ tx.PastTheEnd entry.1.2.accounts := by
  have hbelow : ¬ tx.BeyondKeys entry.1.2.accounts := fun hbeyond => by
    rw [(tx.bundleOf_eq_none_iff entry).mpr hbeyond] at h
    cases h
  have hkeys : ix.keys = entry.1.2.accounts.filterMap fun a => tx.accountKeys[a.toNat]? := by
    simp only [bundleOf] at h
    split at h
    · cases h
    · cases h
      rfl
  constructor
  · rintro hpositional ⟨a, ha, hlast⟩
    obtain ⟨i, hi⟩ := List.mem_iff_getElem?.mp ha
    obtain ⟨key, hkey, _⟩ := hpositional.2 i a hi
    have hlt := (List.getElem?_eq_some_iff.mp hkey).1
    omega
  · intro hpast
    have hall : ∀ a ∈ entry.1.2.accounts, ∃ key, tx.accountKeys[a.toNat]? = some key := by
      intro a ha
      have hle : ¬ tx.accountKeys.length < a.toNat := fun hlt => hbelow ⟨a, ha, hlt⟩
      have hne : ¬ a.toNat = tx.accountKeys.length := fun heq => hpast ⟨a, ha, heq⟩
      exact ⟨_, List.getElem?_eq_getElem (by omega)⟩
    have hget := getElem?_of_mapM (mapM_eq_some_filterMap hall)
    rw [← hkeys] at hget
    refine ⟨?_, fun i a ha => ?_⟩
    · rw [hkeys, List.length_filterMap_eq_countP, List.countP_eq_length]
      intro a ha
      obtain ⟨key, hkey⟩ := hall a ha
      rw [hkey]
      rfl
    · obtain ⟨key, hkey⟩ := hall a (List.mem_of_getElem? ha)
      refine ⟨key, hkey, ?_⟩
      rw [hget, ha]
      exact hkey

theorem bundleOf_program {tx : TransactionInfo} {entry : OrderedIx}
    {ix : InstructionBundle} (h : tx.bundleOf entry = some ix) :
    ix.program = entry.1.1 ∧ ix.instruction = some entry.1.2 := by
  simp only [bundleOf] at h
  split at h
  · cases h
  · cases h
    exact ⟨rfl, rfl⟩

end TransactionInfo

/-! ### The loop -/

/-- Every ordered instruction is of a known program. -/
theorem orderOne_known {programs accountKeys : List Pubkey}
    {metaInnerInstructions : List InnerInstructions} {messageInstruction : CompiledInstruction} {k : ℕ}
    {entries : List OrderedIx}
    (h : orderOne programs accountKeys metaInnerInstructions messageInstruction k = some entries) :
    ∀ entry ∈ entries, entry.1.1 ∈ programs := by
  obtain ⟨inner, _, h⟩ := Option.bind_eq_some_iff.mp h
  cases h
  intro entry hentry
  rcases List.mem_append.mp hentry with hmem | hmem
  · have hfst : entry.1 ∈ (hoistKnownPrograms programs inner).map (·.1) := List.mem_map_of_mem hmem
    rw [hoistKnownPrograms_fst] at hfst
    exact of_decide_eq_true (List.mem_filter.mp hfst).2
  · split at hmem
    · split at hmem
      · rw [List.mem_singleton.mp hmem]
        assumption
      · cases hmem
    · cases hmem

theorem breakTransaction_known {tx : TransactionInfo} {programs : List Pubkey}
    {entries : List OrderedIx} (h : tx.breakTransaction programs = some entries) :
    ∀ entry ∈ entries, entry.1.1 ∈ programs := by
  rw [TransactionInfo.breakTransaction_eq] at h
  obtain ⟨blocks, hblocks, rfl⟩ := Option.map_eq_some_iff.mp h
  intro entry hentry
  obtain ⟨block, hblock, hmem⟩ := List.mem_flatten.mp hentry
  obtain ⟨k, hk⟩ := List.mem_iff_getElem?.mp hblock
  rw [getElem?_of_mapM hblocks k] at hk
  obtain ⟨e, _, he⟩ := Option.bind_eq_some_iff.mp hk
  exact orderOne_known he entry hmem

namespace ProgramTransformer

variable {σ : Type} {T : ProgramTransformer σ} {tx : TransactionInfo}

variable (tx) in
/-- Either the loop was over with an error before an instruction, or it handed the bundle of it over. -/
theorem handleInstructions_spec {entries : List OrderedIx}
    (hknown : ∀ entry ∈ entries, entry.1.1 ∈ T.keySet) (s : σ) (i : ℕ)
    {entry : OrderedIx} (hi : entries[i]? = some entry) :
    ((T.handleInstructions tx s entries).1.length ≤ i ∧
      ∃ e, (T.handleInstructions tx s entries).2 = .error e) ∨
    ∃ ix, (T.handleInstructions tx s entries).1[i]? = some ix ∧ tx.bundleOf entry = some ix := by
  induction entries generalizing s i with
  | nil => simp at hi
  | cons first rest ih =>
    have hrest : ∀ entry ∈ rest, entry.1.1 ∈ T.keySet := fun e he => hknown e (List.mem_cons_of_mem _ he)
    rw [handleInstructions]
    cases hfirst : tx.bundleOf first with
    | none => exact Or.inl ⟨Nat.zero_le i, _, rfl⟩
    | some ix =>
      have hprogram : ix.program ∈ T.keySet := by
        rw [(TransactionInfo.bundleOf_program hfirst).1]
        exact hknown first List.mem_cons_self
      simp only [if_pos hprogram]
      rcases hrun : T.handleInstruction s ix with ⟨s', e | implemented⟩
      · -- the parser failed: this instruction was still handed over
        cases i with
        | zero =>
          cases hi
          exact Or.inr ⟨ix, rfl, hfirst⟩
        | succ i => exact Or.inl ⟨Nat.succ_le_succ (Nat.zero_le i), e, rfl⟩
      · cases i with
        | zero =>
          cases hi
          exact Or.inr ⟨ix, rfl, hfirst⟩
        | succ i =>
          rcases ih hrest s' i hi with ⟨hlength, e, he⟩ | hhanded
          · refine Or.inl ⟨Nat.succ_le_succ hlength, e, ?_⟩
            simp only [he]
            rfl
          · exact Or.inr hhanded

/-- A transformer whose parsers and handlers take everything. -/
def takesAll (programs : List Pubkey) : ProgramTransformer Unit := ⟨programs, fun s _ => (s, .ok true)⟩

/-- It reaches every instruction that comes before the first with an index beyond the keys. -/
theorem takesAll_hands {programs : List Pubkey} {entries : List OrderedIx}
    (hknown : ∀ entry ∈ entries, entry.1.1 ∈ programs) (i : ℕ)
    (hbefore : ∀ j entry, j ≤ i → entries[j]? = some entry → tx.bundleOf entry ≠ none) (hi : i < entries.length) :
    i < ((takesAll programs).handleInstructions tx () entries).1.length := by
  induction entries generalizing i with
  | nil => simp at hi
  | cons first rest ih =>
    have hrest : ∀ entry ∈ rest, entry.1.1 ∈ programs := fun e he => hknown e (List.mem_cons_of_mem _ he)
    obtain ⟨ix, hfirst⟩ := Option.ne_none_iff_exists'.mp (hbefore 0 first (Nat.zero_le i) rfl)
    have hprogram : ix.program ∈ programs := by
      rw [(TransactionInfo.bundleOf_program hfirst).1]
      exact hknown first List.mem_cons_self
    rw [handleInstructions, hfirst]
    simp only [takesAll, if_pos hprogram]
    cases i with
    | zero => exact Nat.succ_pos _
    | succ i =>
      refine Nat.succ_lt_succ (ih hrest i (fun j entry hj hentry => ?_) (Nat.lt_of_succ_lt_succ hi))
      exact hbefore (j + 1) entry (Nat.succ_le_succ hj) hentry

theorem handleTransaction_eq {s : σ} {entries : List OrderedIx}
    {r : List InstructionBundle × Except ProgramTransformerError Unit}
    (hbreak : tx.breakTransaction T.keySet = some entries) (h : T.handleTransaction tx s = some r) :
    r.1 = (T.handleInstructions tx s entries).1 ∧
      ∀ e, (T.handleInstructions tx s entries).2 = .error e → r.2 = .error e := by
  rw [handleTransaction, hbreak] at h
  cases h
  refine ⟨rfl, fun e he => ?_⟩
  simp only [he]
  rfl

end ProgramTransformer

/-- **Accounts resolve by position.**  Whatever the parsers and handlers do, every instruction of a transaction
is handed over with its keys by position or comes after an error, if and only if an instruction with the index
one past the keys has an index above it as well, or comes after one that has. -/
theorem positional_iff (programs : List Pubkey) (tx : TransactionInfo)
    (entries : List OrderedIx) (hbreak : tx.breakTransaction programs = some entries) :
    (∀ (σ : Type) (T : ProgramTransformer σ) (s : σ)
        (r : List InstructionBundle × Except ProgramTransformerError Unit),
      T.keySet = programs → T.handleTransaction tx s = some r → tx.HandedByPosition entries r) ↔
    ∀ (i : ℕ) (entry : OrderedIx), entries[i]? = some entry → tx.PastTheEnd entry.1.2.accounts →
      ∃ (j : ℕ) (before : OrderedIx), j ≤ i ∧ entries[j]? = some before ∧ tx.BeyondKeys before.1.2.accounts := by
  have hknown := breakTransaction_known hbreak
  constructor
  · intro hall i entry hi hpast
    by_contra hnone
    have hbefore : ∀ j before, j ≤ i → entries[j]? = some before → tx.bundleOf before ≠ none := by
      intro j before hj hget hbundle
      exact hnone ⟨j, before, hj, hget, (tx.bundleOf_eq_none_iff before).mp hbundle⟩
    have hlt := ProgramTransformer.takesAll_hands hknown i hbefore (List.getElem?_eq_some_iff.mp hi).1
    have hrun : (ProgramTransformer.takesAll programs).handleTransaction tx () ≠ none := by
      show (tx.breakTransaction programs).map _ ≠ none
      rw [hbreak]
      exact Option.some_ne_none _
    obtain ⟨r, hr⟩ := Option.ne_none_iff_exists'.mp hrun
    have heq := (ProgramTransformer.handleTransaction_eq (T := ProgramTransformer.takesAll programs) hbreak hr).1
    rw [← heq] at hlt
    rcases hall Unit _ () r rfl hr i entry hi with ⟨hle, _⟩ | ⟨ix, hix, _, _, hpositional⟩
    · omega
    · rw [heq] at hix
      rcases ProgramTransformer.handleInstructions_spec (T := ProgramTransformer.takesAll programs) tx
        hknown () i hi with ⟨hle, _⟩ | ⟨ix', hix', hbundle⟩
      · rw [heq] at hlt
        omega
      · rw [hix] at hix'
        cases hix'
        exact (TransactionInfo.positional_bundleOf_iff hbundle).mp hpositional hpast
  · rintro hcond σ T s r rfl hr i entry hi
    obtain ⟨hhanded, herror⟩ := ProgramTransformer.handleTransaction_eq hbreak hr
    rw [hhanded]
    have hspec := fun (j : ℕ) (before : OrderedIx) (hj : entries[j]? = some before) =>
      ProgramTransformer.handleInstructions_spec (T := T) tx hknown s j hj
    rcases hspec i entry hi with ⟨hle, e, he⟩ | ⟨ix, hix, hbundle⟩
    · exact Or.inl ⟨hle, e, herror e he⟩
    · by_cases hpast : tx.PastTheEnd entry.1.2.accounts
      · -- the loop has stopped at an instruction with an index beyond the keys
        obtain ⟨j, before, hj, hget, hbeyond⟩ := hcond i entry hi hpast
        rcases hspec j before hget with ⟨hle, e, he⟩ | ⟨_, _, hbundle'⟩
        · exact Or.inl ⟨Nat.le_trans hle hj, e, herror e he⟩
        · rw [(tx.bundleOf_eq_none_iff before).mpr hbeyond] at hbundle'
          cases hbundle'
      · obtain ⟨hprogram, hinstruction⟩ := TransactionInfo.bundleOf_program hbundle
        exact Or.inr ⟨ix, hix, hprogram, hinstruction,
          (TransactionInfo.positional_bundleOf_iff hbundle).mpr hpast⟩

/-- A transaction with three keys and one instruction of a known program, with these accounts. -/
def callWith (accounts : List UInt8) : TransactionInfo where
  slot := 1
  signature := "1"
  accountKeys := [Pubkey.fill 1, Pubkey.fill 2, Pubkey.fill 3]
  messageInstructions := [⟨1, accounts, []⟩]
  metaInnerInstructions := []

/-- An index two too large is refused, also beside one that is one too large. -/
theorem positional_beyond :
    (∀ (σ : Type) (T : ProgramTransformer σ) (s : σ)
        (r : List InstructionBundle × Except ProgramTransformerError Unit),
      T.keySet = [Pubkey.fill 2] → T.handleTransaction (callWith [0, 3, 4]) s = some r →
        (callWith [0, 3, 4]).HandedByPosition [((Pubkey.fill 2, ⟨1, [0, 3, 4], []⟩), some [])] r) ↔
    ∀ (i : ℕ) (entry : OrderedIx),
      [((Pubkey.fill 2, ⟨1, [0, 3, 4], []⟩), some ([] : List IxPair))][i]? = some entry →
      (callWith [0, 3, 4]).PastTheEnd entry.1.2.accounts →
        ∃ (j : ℕ) (before : OrderedIx), j ≤ i ∧
          [((Pubkey.fill 2, ⟨1, [0, 3, 4], []⟩), some ([] : List IxPair))][j]? = some before ∧
          (callWith [0, 3, 4]).BeyondKeys before.1.2.accounts :=
  positional_iff [Pubkey.fill 2] (callWith [0, 3, 4]) _ (by decide)

/-- With the accounts `[0, 3, 1]` of three keys the parser gets two keys, and the second is that of the third
account. -/
theorem index_past_the_end_dropped :
    ∃ r, (ProgramTransformer.takesAll [Pubkey.fill 2]).handleTransaction (callWith [0, 3, 1]) () = some r ∧
      r.2 = .ok () ∧ r.1.map (·.keys) = [[Pubkey.fill 1, Pubkey.fill 2]] ∧
      ∀ entries, (callWith [0, 3, 1]).breakTransaction [Pubkey.fill 2] = some entries →
        ¬ (callWith [0, 3, 1]).HandedByPosition entries r := by
  refine ⟨_, rfl, rfl, by decide, fun entries hentries hall => ?_⟩
  cases hentries
  rcases hall 0 _ rfl with ⟨hle, _⟩ | ⟨ix, hix, _, _, hlength, _⟩
  · cases hle
  · cases hix
    exact absurd hlength (by decide)

end DasIndexer
