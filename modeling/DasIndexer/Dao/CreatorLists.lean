import DasIndexer.Dao.Assembled
import DasIndexer.Lib.LatestRows

/-!
# Creator lists as they are read

A creator list is kept by position, and a list that became shorter leaves rows behind.  The reader orders
the rows by position, keeps those of the newest slot, and among these those of one sequence number: zero if
there is one, else the highest.  `filterOutStaleCreators_eq_filter` says which rows that are, and
**`read_newest`** that, where they are the elements of one list, the reader returns that list in its order.
-/

namespace DasIndexer.Dao

open Sql LatestRows

/-- What a reader sees of a creator row. -/
def shownCreator (c : CreatorModel) : Bytes × ℤ × Bool := (c.2.creator, c.2.share, c.2.verified)

/-! ### Which rows are kept -/

/-- The rows of a slot and a sequence number are kept, where no slot is newer and the sequence number is the
one that counts. -/
theorem filterOutStaleCreators_eq_filter {cs : List CreatorModel} {slot seq : Option ℤ}
    (hhead : ∀ c, cs.head? = some c → c.2.creator ≠ [])
    (hkept : ∃ c ∈ cs, c.2.slotUpdated = slot ∧ c.2.seq = seq)
    (hslot : ∀ c ∈ cs, asColumn c.2.slotUpdated ≤ asColumn slot)
    (hseq : seq = some 0 ∨ ∀ c ∈ cs, c.2.slotUpdated = slot →
      c.2.seq ≠ some 0 ∧ asColumn c.2.seq ≤ asColumn seq) :
    filterOutStaleCreators cs
      = cs.filter fun c => decide (c.2.slotUpdated = slot) && decide (c.2.seq = seq) := by
  obtain ⟨c₀, hc₀, hslot₀, hseq₀⟩ := hkept
  have hnosentinel : cs.head?.any (fun c => c.2.creator.isEmpty) = false := by
    cases hc : cs.head? with
    | none => rfl
    | some c => simpa using hhead c hc
  have hmaxSlot : maxColumn (cs.map fun c => c.2.slotUpdated) = some slot := by
    refine maxColumn_eq_some.mpr ⟨List.mem_map.mpr ⟨c₀, hc₀, hslot₀⟩, fun x hx => ?_⟩
    obtain ⟨c, hc, rfl⟩ := List.mem_map.mp hx
    exact hslot c hc
  have hnewest₀ : c₀ ∈ cs.filter fun c => decide (c.2.slotUpdated = slot) :=
    List.mem_filter.mpr ⟨hc₀, decide_eq_true hslot₀⟩
  have hseqKept : (if (cs.filter fun c => decide (c.2.slotUpdated = slot)).any
        (fun c => decide (c.2.seq = some 0)) then some (some 0)
      else maxColumn ((cs.filter fun c => decide (c.2.slotUpdated = slot)).map fun c => c.2.seq))
      = some seq := by
    rcases hseq with hzero | hle
    · rw [if_pos (List.any_eq_true.mpr ⟨c₀, hnewest₀, decide_eq_true (hseq₀.trans hzero)⟩), hzero]
    · rw [if_neg]
      · refine maxColumn_eq_some.mpr ⟨List.mem_map.mpr ⟨c₀, hnewest₀, hseq₀⟩, fun x hx => ?_⟩
        obtain ⟨c, hc, rfl⟩ := List.mem_map.mp hx
        obtain ⟨hc', hcslot⟩ := List.mem_filter.mp hc
        exact (hle c hc' (of_decide_eq_true hcslot)).2
      · intro hany
        obtain ⟨c, hc, hczero⟩ := List.any_eq_true.mp hany
        obtain ⟨hc', hcslot⟩ := List.mem_filter.mp hc
        exact (hle c hc' (of_decide_eq_true hcslot)).1 (of_decide_eq_true hczero)
  simp only [filterOutStaleCreators, hnosentinel, hmaxSlot, retainColumn, hseqKept]
  rw [if_neg (by simp), List.filter_filter]
  refine List.filter_congr fun c _ => ?_
  rw [Bool.and_comm]

/-- An empty creator in front stands for no creators at all. -/
theorem filterOutStaleCreators_sentinel {cs : List CreatorModel} {c : CreatorModel}
    (hhead : cs.head? = some c) (hempty : c.2.creator = []) : filterOutStaleCreators cs = [] := by
  simp [filterOutStaleCreators, hhead, hempty]

theorem mem_retainColumn {α : Type} {column : α → Option ℤ} {value : Option (Option ℤ)} {rows : List α} {r : α} :
    r ∈ retainColumn column value rows ↔ r ∈ rows ∧ ∀ v, value = some v → column r = v := by
  cases value <;> simp [retainColumn]

/-- A row with the maximum of a column bounds the others. -/
theorem maxColumn_map_eq {α : Type} {column : α → Option ℤ} {rows : List α} {r : α} (hr : r ∈ rows)
    (hmax : ∀ v, maxColumn (rows.map column) = some v → column r = v) :
    ∀ r' ∈ rows, asColumn (column r') ≤ asColumn (column r) := by
  intro r' hr'
  cases hvalue : maxColumn (rows.map column) with
  | none =>
    have hnil := List.map_eq_nil_iff.mp (maxColumn_eq_none.mp hvalue)
    exact absurd hr (by simp [hnil])
  | some v =>
    rw [hmax v hvalue]
    exact (maxColumn_eq_some.mp hvalue).2 _ (List.mem_map_of_mem hr')

/-- A row is newest among others: no slot is newer, the sequence number is the one that counts, and the first
row does not stand for an empty list. -/
structure NewestCreator (cs : List CreatorModel) (c : CreatorModel) : Prop where
  noSentinel : ∀ c', cs.head? = some c' → c'.2.creator ≠ []
  slot : ∀ c' ∈ cs, asColumn c'.2.slotUpdated ≤ asColumn c.2.slotUpdated
  seq : c.2.seq = some 0 ∨ ∀ c' ∈ cs, c'.2.slotUpdated = c.2.slotUpdated →
    c'.2.seq ≠ some 0 ∧ asColumn c'.2.seq ≤ asColumn c.2.seq

/-- The newest rows are kept, and no others. -/
theorem mem_filterOutStaleCreators {cs : List CreatorModel} {c : CreatorModel} :
    c ∈ filterOutStaleCreators cs ↔ c ∈ cs ∧ NewestCreator cs c := by
  constructor
  · intro hc
    by_cases hhead : cs.head?.any (fun c => c.2.creator.isEmpty) = true
    · rw [filterOutStaleCreators, if_pos hhead] at hc
      exact absurd hc List.not_mem_nil
    · have hnoSentinel : ∀ c', cs.head? = some c' → c'.2.creator ≠ [] := by
        intro c' hc' hempty
        exact hhead (by rw [hc', Option.any_some, hempty]; rfl)
      rw [filterOutStaleCreators, if_neg hhead] at hc
      obtain ⟨hc, hseq⟩ := mem_retainColumn.mp hc
      obtain ⟨hmem, hslot⟩ := mem_retainColumn.mp hc
      have hmaxSlot := maxColumn_map_eq hmem hslot
      refine ⟨hmem, hnoSentinel, hmaxSlot, ?_⟩
      split at hseq
      · exact Or.inl (hseq (some 0) rfl)
      · rename_i hzero
        refine Or.inr fun c' hc' hslot' => ?_
        have hkept : c' ∈ retainColumn (fun c => c.2.slotUpdated) (maxColumn (cs.map fun c => c.2.slotUpdated)) cs :=
          mem_retainColumn.mpr ⟨hc', fun m hm => hslot'.trans (hslot m hm)⟩
        refine ⟨fun hzero' => hzero ?_, maxColumn_map_eq hc hseq c' hkept⟩
        exact List.any_eq_true.mpr ⟨c', hkept, decide_eq_true hzero'⟩
  · intro ⟨hc, hnewest⟩
    rw [filterOutStaleCreators_eq_filter hnewest.noSentinel ⟨c, hc, rfl, rfl⟩ hnewest.slot hnewest.seq]
    exact List.mem_filter.mpr ⟨hc, by simp⟩

/-! ### Rows by position -/

section Positions

variable {db : Database} {id : Bytes}

theorem mem_creatorsOf {c : CreatorModel} :
    c ∈ creatorsOf db id ↔ db.assetCreators.lookup c.1 = some c.2 ∧ c.1.1 = id := by
  obtain ⟨k, r⟩ := c
  simp [creatorsOf, mem_scan]

theorem nodup_creatorsOf : (creatorsOf db id).Nodup :=
  (List.perm_insertionSort _ _).nodup_iff.mpr ((nodup_scan db.assetCreators).filter _)

theorem pairwise_creatorsOf : (creatorsOf db id).Pairwise fun a b => a.1.2 ≤ b.1.2 :=
  List.pairwise_insertionSort _ _

/-- The row at position zero comes first, where no position is below. -/
theorem head_creatorsOf {r : AssetCreatorRow} (hr : db.assetCreators.lookup (id, 0) = some r)
    (hpos : ∀ pos r', db.assetCreators.lookup (id, pos) = some r' → 0 ≤ pos) :
    (creatorsOf db id).head? = some ((id, 0), r) := by
  have hmem : (((id, 0), r) : CreatorModel) ∈ creatorsOf db id := mem_creatorsOf.mpr ⟨hr, rfl⟩
  cases hcs : creatorsOf db id with
  | nil =>
    rw [hcs] at hmem
    exact absurd hmem (by simp)
  | cons c cs =>
    have hc : c ∈ creatorsOf db id := by
      rw [hcs]
      exact List.mem_cons_self
    obtain ⟨hstored, hid⟩ := mem_creatorsOf.mp hc
    obtain ⟨⟨id', pos⟩, r'⟩ := c
    have hid' : id' = id := hid
    subst hid'
    have hle : pos ≤ 0 := by
      rw [hcs] at hmem
      rcases List.mem_cons.mp hmem with heq | htail
      · exact le_of_eq (congrArg (fun c : CreatorModel => c.1.2) heq).symm
      · have hsorted : (creatorsOf db id').Pairwise fun a b => a.1.2 ≤ b.1.2 := pairwise_creatorsOf
        rw [hcs] at hsorted
        exact List.rel_of_pairwise_cons hsorted htail
    have hzero : pos = 0 := le_antisymm hle (hpos pos r' hstored)
    subst hzero
    rw [List.head?_cons, Option.some.inj (hr.symm.trans hstored)]

/-- The rows that pass a test come as a list, where they are its elements by position. -/
theorem filter_creatorsOf {kept : AssetCreatorRow → Bool} {rows : List AssetCreatorRow}
    (hrows : ∀ pos r, db.assetCreators.lookup (id, pos) = some r ∧ kept r = true ↔
      ∃ i : ℕ, pos = i ∧ rows[i]? = some r) :
    ((creatorsOf db id).filter fun c => kept c.2) = listed id rows := by
  have hmem : ∀ c, c ∈ ((creatorsOf db id).filter fun c => kept c.2) ↔ c ∈ listed id rows := by
    intro ⟨⟨id', pos⟩, r⟩
    rw [List.mem_filter, mem_creatorsOf, mem_listed, ← hrows]
    constructor
    · intro ⟨⟨hr, hid⟩, hkept⟩
      have hid' : id' = id := hid
      exact ⟨hid', hid' ▸ hr, hkept⟩
    · rintro ⟨rfl, hr, hkept⟩
      exact ⟨⟨hr, rfl⟩, hkept⟩
  refine @List.Perm.eq_of_pairwise _ (fun a b : CreatorModel => a.1.2 ≤ b.1.2) _ _ ?_
    (pairwise_creatorsOf.filter _) ((pairwise_listed id rows).imp le_of_lt)
    ((List.perm_ext_iff_of_nodup (nodup_creatorsOf.filter _) (nodup_listed id rows)).mpr hmem)
  intro a b ha hb hab hba
  obtain ⟨ha', _⟩ := List.mem_filter.mp ha
  obtain ⟨hb', _⟩ := List.mem_filter.mp ((hmem b).mpr hb)
  obtain ⟨hra, hida⟩ := mem_creatorsOf.mp ha'
  obtain ⟨hrb, hidb⟩ := mem_creatorsOf.mp hb'
  have hkey : a.1 = b.1 := Prod.ext (hida.trans hidb.symm) (le_antisymm hab hba)
  rw [hkey] at hra
  exact Prod.ext hkey (Option.some.inj (hra.symm.trans hrb))

/-- **The newest list.**  Where the rows of the newest slot and sequence number are the elements of a list,
and no position is below zero, the reader returns that list. -/
theorem read_newest {rows : List AssetCreatorRow} {slot seq : Option ℤ} (hne : rows ≠ [])
    (hcreator : ∀ r ∈ rows, r.creator ≠ [])
    (hrows : ∀ pos r, db.assetCreators.lookup (id, pos) = some r ∧ (r.slotUpdated = slot ∧ r.seq = seq) ↔
      ∃ i : ℕ, pos = i ∧ rows[i]? = some r)
    (hslot : ∀ pos r, db.assetCreators.lookup (id, pos) = some r →
      0 ≤ pos ∧ asColumn r.slotUpdated ≤ asColumn slot)
    (hseq : seq = some 0 ∨ ∀ pos r, db.assetCreators.lookup (id, pos) = some r → r.slotUpdated = slot →
      r.seq ≠ some 0 ∧ asColumn r.seq ≤ asColumn seq) :
    filterOutStaleCreators (creatorsOf db id) = listed id rows := by
  have hlookup : ∀ c ∈ creatorsOf db id, db.assetCreators.lookup (id, c.1.2) = some c.2 := by
    intro c hc
    obtain ⟨hr, hid⟩ := mem_creatorsOf.mp hc
    rw [← hid]
    exact hr
  obtain ⟨r₀, rest, rfl⟩ := List.exists_cons_of_ne_nil hne
  obtain ⟨hr₀, hslot₀, hseq₀⟩ := (hrows 0 r₀).mpr ⟨0, rfl, rfl⟩
  have hhead := head_creatorsOf hr₀ fun pos r' hr' => (hslot pos r' hr').1
  rw [@filterOutStaleCreators_eq_filter _ slot seq]
  · have hkept : ∀ pos r, db.assetCreators.lookup (id, pos) = some r ∧
        (decide (r.slotUpdated = slot) && decide (r.seq = seq)) = true ↔
        ∃ i : ℕ, pos = i ∧ (r₀ :: rest)[i]? = some r := by
      intro pos r
      rw [← hrows, Bool.and_eq_true, decide_eq_true_eq, decide_eq_true_eq]
    exact filter_creatorsOf hkept
  · intro c hc
    obtain rfl := Option.some.inj (hhead.symm.trans hc)
    exact hcreator r₀ List.mem_cons_self
  · exact ⟨((id, 0), r₀), mem_creatorsOf.mpr ⟨hr₀, rfl⟩, hslot₀, hseq₀⟩
  · exact fun c hc => (hslot c.1.2 c.2 (hlookup c hc)).2
  · rcases hseq with hzero | hle
    · exact Or.inl hzero
    · exact Or.inr fun c hc => hle c.1.2 c.2 (hlookup c hc)

end Positions

end DasIndexer.Dao
