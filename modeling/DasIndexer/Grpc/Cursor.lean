import Mathlib.Data.List.AList
import Mathlib.Data.List.Count

/-!
# The resume cursor

The cursor of the stream ingester is a watermark: the newest slot below which every update has been
written.  It trails both the newest finalized slot and the oldest slot that still has a write in flight, so
it is moved whenever one of these changes (`advance`), and past a gap once that gap has been logged
(`skipGap`).

`Tracks` ties the map of pending slots to the writes that are really in flight; `beginWrite_tracks` and
`endWrite_tracks` keep it.  `advance_watermark` is all that the safety argument needs to know of the
arithmetic: a new watermark is below the finalized slot and below every pending one.
-/

namespace DasIndexer.Grpc

/-- `cursor::Inner`. -/
structure Inner where
  /-- slot -> writes started but not finished -/
  pending : AList (fun _ : ℕ => ℕ) := ∅
  highestFinalized : Option ℕ := none
  watermark : Option ℕ := none

/-- Move a watermark up to a candidate. -/
def raise (candidate : ℕ) (watermark : Option ℕ) : Option ℕ :=
  match watermark with
  | none => some candidate
  | some w => if w < candidate then some candidate else some w

namespace Inner

/-- The newest slot that `advance` may move to, given the newest finalized one. -/
def candidate (c : Inner) (finalized : ℕ) : ℕ :=
  match c.pending.keys.min? with
  | some lowestPending => min (finalized - 1) (lowestPending - 1)
  | none => finalized - 1

/-- `Inner::advance`. -/
def advance (c : Inner) : Inner :=
  match c.highestFinalized with
  | none => c
  | some finalized => { c with watermark := raise (c.candidate finalized) c.watermark }

/-- The state that `Cursor::load` starts from, without `--start-slot`. -/
def load (saved : Option ℕ) : Inner := { watermark := saved }

/-- `Cursor::resume_slot`. -/
def resumeSlot (c : Inner) : Option ℕ := c.watermark.map (· + 1)

/-- `Cursor::begin`. -/
def beginWrite (c : Inner) (slot : ℕ) : Inner :=
  { c with pending := c.pending.insert slot ((c.pending.lookup slot).getD 0 + 1) }

/-- One write less in the pending map. -/
def release (pending : AList (fun _ : ℕ => ℕ)) (slot : ℕ) : AList (fun _ : ℕ => ℕ) :=
  match pending.lookup slot with
  | some count => if count - 1 = 0 then pending.erase slot else pending.insert slot (count - 1)
  | none => pending

/-- `Cursor::end`. -/
def endWrite (c : Inner) (slot : ℕ) : Inner :=
  advance { c with pending := release c.pending slot }

/-- `Cursor::finalized`. -/
def finalized (c : Inner) (slot : ℕ) : Inner :=
  advance { c with highestFinalized := some (c.highestFinalized.elim slot fun h => max h slot) }

/-- The second half of `Cursor::record_gap`, after the line is on disk. -/
def skipGap (c : Inner) (toExclusive : ℕ) : Inner :=
  { c with watermark := raise (toExclusive - 1) c.watermark }

/-! ### The watermark -/

/-- `b` is a watermark at least as high as `a`. -/
def NotBelow (a b : Option ℕ) : Prop := ∀ w, a = some w → ∃ w', b = some w' ∧ w ≤ w'

theorem NotBelow.refl (a : Option ℕ) : NotBelow a a := fun w hw => ⟨w, hw, Nat.le_refl w⟩

theorem NotBelow.trans {a b c : Option ℕ} (hab : NotBelow a b) (hbc : NotBelow b c) : NotBelow a c := by
  intro w hw
  obtain ⟨x, hx, hwx⟩ := hab w hw
  obtain ⟨y, hy, hxy⟩ := hbc x hx
  exact ⟨y, hy, Nat.le_trans hwx hxy⟩

theorem raise_notBelow (n : ℕ) (w : Option ℕ) : NotBelow w (raise n w) := by
  intro x hx
  subst hx
  unfold raise
  split
  · cases ‹some x = none›
  · rename_i y heq
    cases heq
    split
    · exact ⟨n, rfl, by omega⟩
    · exact ⟨x, rfl, Nat.le_refl x⟩

theorem raise_eq_some {n x : ℕ} {w : Option ℕ} (h : raise n w = some x) : w = some x ∨ x = n := by
  unfold raise at h
  split at h
  · exact Or.inr (Option.some.inj h).symm
  · split at h
    · exact Or.inr (Option.some.inj h).symm
    · exact Or.inl h

theorem raise_ne_none (n : ℕ) (w : Option ℕ) : raise n w ≠ none := by
  unfold raise
  split
  · simp
  · split <;> simp

@[simp] theorem advance_pending (c : Inner) : c.advance.pending = c.pending := by
  unfold advance
  split <;> rfl

@[simp] theorem advance_highestFinalized (c : Inner) :
    c.advance.highestFinalized = c.highestFinalized := by
  unfold advance
  split
  · rfl
  · rename_i h
    exact h ▸ rfl

theorem advance_notBelow (c : Inner) : NotBelow c.watermark c.advance.watermark := by
  unfold advance
  split
  · exact NotBelow.refl _
  · exact raise_notBelow _ _

theorem finalized_notBelow (c : Inner) (slot : ℕ) : NotBelow c.watermark (c.finalized slot).watermark :=
  advance_notBelow { c with
    highestFinalized := some (c.highestFinalized.elim slot fun h => max h slot) }

theorem endWrite_notBelow (c : Inner) (slot : ℕ) : NotBelow c.watermark (c.endWrite slot).watermark :=
  advance_notBelow { c with pending := release c.pending slot }

/-- The candidate is below the finalized slot and below every pending one. -/
theorem candidate_le (c : Inner) (f : ℕ) :
    c.candidate f ≤ f - 1 ∧ ∀ n ∈ c.pending, c.candidate f ≤ n - 1 := by
  unfold candidate
  cases hmin : c.pending.keys.min? with
  | none =>
    refine ⟨Nat.le_refl _, fun n hn => ?_⟩
    rw [List.min?_eq_none_iff] at hmin
    have hkey := AList.mem_keys.mp hn
    rw [hmin] at hkey
    cases hkey
  | some low =>
    refine ⟨Nat.min_le_left _ _, fun n hn => ?_⟩
    have hlow : low ≤ n := (List.min?_eq_some_iff.mp hmin).2 n (AList.mem_keys.mp hn)
    simp only
    omega

/-- **What `advance` can do**: nothing, or move below the finalized slot and every pending one. -/
theorem advance_watermark {c : Inner} {w : ℕ} (h : c.advance.watermark = some w) :
    c.watermark = some w ∨
      ∃ f, c.highestFinalized = some f ∧ w ≤ f - 1 ∧ ∀ n ∈ c.pending, w ≤ n - 1 := by
  unfold advance at h
  split at h
  · exact Or.inl h
  · rename_i f hf
    rcases raise_eq_some h with hold | hnew
    · exact Or.inl hold
    · obtain ⟨hle, hpending⟩ := candidate_le c f
      exact Or.inr ⟨f, hf, by omega, fun n hn => hnew ▸ hpending n hn⟩

/-- A finalized slot always leaves a watermark. -/
theorem advance_isSome {c : Inner} {f : ℕ} (h : c.highestFinalized = some f) :
    c.advance.watermark ≠ none := by
  unfold advance
  rw [h]
  exact raise_ne_none _ _

/-! ### The pending map -/

/-- The pending map counts the writes in flight, `slots` being the slots of these. -/
def Tracks (c : Inner) (slots : List ℕ) : Prop :=
  ∀ n, c.pending.lookup n = if slots.count n = 0 then none else some (slots.count n)

theorem Tracks.mem {c : Inner} {slots : List ℕ} (h : c.Tracks slots) {n : ℕ} (hn : n ∈ slots) :
    n ∈ c.pending := by
  rw [← AList.lookup_isSome, h n, if_neg (by have := List.count_pos_iff.mpr hn; omega)]
  rfl

theorem beginWrite_tracks {c : Inner} {slots : List ℕ} (h : c.Tracks slots) (slot : ℕ) :
    (c.beginWrite slot).Tracks (slot :: slots) := by
  intro n
  show (c.pending.insert slot _).lookup n = _
  by_cases hn : n = slot
  · subst hn
    rw [AList.lookup_insert, h n, List.count_cons_self, if_neg (Nat.succ_ne_zero _)]
    split
    · rename_i h0
      rw [h0]
      rfl
    · rfl
  · rw [AList.lookup_insert_ne hn, h n, List.count_cons_of_ne (Ne.symm hn)]

theorem endWrite_tracks {c : Inner} {slots : List ℕ} {slot : ℕ} (h : c.Tracks (slot :: slots)) :
    (c.endWrite slot).Tracks slots := by
  intro n
  show (c.endWrite slot).pending.lookup n = _
  have hself : c.pending.lookup slot = some (slots.count slot + 1) := by
    rw [h slot, List.count_cons_self, if_neg (Nat.succ_ne_zero _)]
  have hother : n ≠ slot → c.pending.lookup n
      = if slots.count n = 0 then none else some (slots.count n) := by
    intro hn
    rw [h n, List.count_cons_of_ne (Ne.symm hn)]
  rw [endWrite, advance_pending, release, hself]
  simp only [Nat.add_sub_cancel]
  split
  · rename_i h0
    by_cases hn : n = slot
    · subst hn
      rw [AList.lookup_erase, if_pos h0]
    · rw [AList.lookup_erase_ne hn, hother hn]
  · rename_i h0
    by_cases hn : n = slot
    · subst hn
      rw [AList.lookup_insert, if_neg h0]
    · rw [AList.lookup_insert_ne hn, hother hn]

/-- The order of the writes in flight does not matter. -/
theorem Tracks.perm {c : Inner} {slots slots' : List ℕ} (h : c.Tracks slots)
    (hp : slots.Perm slots') : c.Tracks slots' := by
  intro n
  rw [h n, hp.count_eq]

end Inner

end DasIndexer.Grpc
