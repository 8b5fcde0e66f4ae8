import DasIndexer.Backfill.Backfiller
import DasIndexer.Backfill.CleanUp
import DasIndexer.Lib.Fallible

/-!
# The backfiller's tree in the table

The backfiller at work is a state machine over the rows of one tree, with natural numbers for the columns and a
statement for a step.  Here these rows are those of the tree in the table (`RowsOf`): what `get_missing_data` reads
from the one it reads from the other (**`getMissingData_rowsOf`**), and the statements of a clean-up that nothing
interrupts leave the rows that the table has after it (**`cleanUp_rowsOf`**).
-/

namespace DasIndexer.BackfillItems

open GuardedRuns Fallible
open Backfill (i64 BackfillItem State Round Worker Action)

/-- A row of the tree in the table. -/
structure RowOf (tree : Bytes) (r : BackfillItem) (m : Model) : Prop where
  tree : m.tree = tree
  id : m.id = r.id
  seq : m.seq = r.seq
  slot : m.slot = r.slot
  forceChk : m.forceChk = r.forceChk
  backfilled : m.backfilled = r.backfilled
  failed : m.failed = r.failed
  locked : m.locked = r.locked

/-- The rows of the tree, in the order of the table. -/
def RowsOf (tree : Bytes) (rows : List BackfillItem) (items : List Model) : Prop :=
  List.Forall₂ (RowOf tree) rows (items.filter fun m => decide (m.tree = tree))

def ofSimple (x : Backfill.SimpleBackfillItem) : SimpleBackfillItem := ⟨x.seq, x.slot⟩

def ofGap (g : Backfill.GapInfo) : GapInfo := ⟨ofSimple g.prev, ofSimple g.curr⟩

/-! ### What is read -/

section Read

variable {tree : Bytes} {rows : List BackfillItem} {items : List Model}

/-- The rows of the tree that a filter keeps. -/
theorem RowsOf.filter (h : RowsOf tree rows items) {p : BackfillItem → Bool} {q : Model → Bool}
    (hpq : ∀ r m, RowOf tree r m → p r = q m) :
    List.Forall₂ (RowOf tree) (rows.filter p) (items.filter fun m => q m && decide (m.tree = tree)) := by
  rw [← List.filter_filter]
  refine List.rel_filter (fun r m hr => ?_) h
  show p r = true ↔ q m = true
  rw [hpq r m hr]

theorem RowsOf.seq_lt (h : RowsOf tree rows items) {r : BackfillItem} (hr : r ∈ rows) : (r.seq : ℤ) < 2 ^ 63 := by
  have hseqs : (items.filter fun m => decide (m.tree = tree)).map (·.seq) = (rows.map (·.seq)).map Nat.cast :=
    map_eq_of_forall₂ h fun _ _ hrow => hrow.seq
  have hmem : (r.seq : ℤ) ∈ (rows.map (·.seq)).map Nat.cast := List.mem_map_of_mem (List.mem_map_of_mem hr)
  rw [← hseqs] at hmem
  obtain ⟨m, -, hm⟩ := List.mem_map.mp hmem
  rw [← hm]
  exact m.seq_mem.2

theorem startSeq_rowsOf (h : RowsOf tree rows items) : startSeq tree items = Backfill.startSeq rows := by
  have hrows := h.filter (p := fun r => r.backfilled) (q := fun m => m.backfilled) fun _ _ hr => hr.backfilled.symm
  have hseqs : (items.filter fun m => decide (m.tree = tree) && m.backfilled).map (·.seq)
      = ((rows.filter (·.backfilled)).map (·.seq)).map Nat.cast := by
    rw [List.filter_congr fun m _ => Bool.and_comm _ _]
    exact map_eq_of_forall₂ hrows fun _ _ hr => hr.seq
  unfold startSeq Backfill.startSeq
  rw [hseqs, ← List.map_insertionSort (· ≥ ·) (· ≥ ·) Nat.cast _ fun _ _ _ _ => Nat.cast_le.symm, ← List.map_take,
    List.getLast?_map]
  cases ((((rows.filter (·.backfilled)).map (·.seq)).insertionSort (· ≥ ·)).take 1).getLast? <;> rfl

theorem ofSimple_injective : Function.Injective ofSimple := by
  intro ⟨seq, slot⟩ ⟨seq', slot'⟩ hxy
  obtain ⟨hseq, hslot⟩ := SimpleBackfillItem.mk.inj hxy
  obtain rfl : seq = seq' := Int.ofNat.inj hseq
  obtain rfl : slot = slot' := Int.ofNat.inj hslot
  rfl

theorem rowsSince_rowsOf (h : RowsOf tree rows items) (start : ℕ) :
    rowsSince tree start items = (Backfill.rowsSince start rows).map ofSimple := by
  have hrows := h.filter (p := fun r => decide (start ≤ r.seq)) (q := fun m => decide ((start : ℤ) ≤ m.seq))
    fun r m hr => by rw [hr.seq, decide_eq_decide, Nat.cast_le]
  have hitems : (items.filter fun m => decide ((start : ℤ) ≤ m.seq) && decide (m.tree = tree)).map Model.simple
      = ((rows.filter fun r => decide (start ≤ r.seq)).map fun r => ⟨r.seq, r.slot⟩).map ofSimple :=
    map_eq_of_forall₂ hrows fun r m hr => by rw [Model.simple, hr.seq, hr.slot]; rfl
  rw [rowsSince, hitems, List.dedup_map_of_injective ofSimple_injective, Backfill.rowsSince,
    List.map_insertionSort (fun x y : Backfill.SimpleBackfillItem => x.seq ≤ y.seq) (fun x y => x.seq ≤ y.seq)]
  intro x _ y _
  exact Nat.cast_le.symm

/-- The loop over neighbours in the order of their sequence numbers, which are those of the type `i64`. -/
theorem gapsOf_map {pairs : List (Backfill.SimpleBackfillItem × Backfill.SimpleBackfillItem)}
    (h : ∀ p ∈ pairs, p.1.seq ≤ p.2.seq ∧ (p.2.seq : ℤ) < 2 ^ 63) :
    gapsOf (pairs.map (Prod.map ofSimple ofSimple)) = (Backfill.gapsOf pairs).map (List.map ofGap) := by
  induction pairs with
  | nil => rfl
  | cons p pairs ih =>
    obtain ⟨prev, curr⟩ := p
    obtain ⟨hle, hlt⟩ := h (prev, curr) List.mem_cons_self
    have htail := ih fun q hq => h q (List.mem_cons_of_mem _ hq)
    have hdiff : i64 ((curr.seq : ℤ) - prev.seq) > 1 ↔ curr.seq - prev.seq > 1 := by
      dsimp only at hle hlt
      rw [Backfill.i64_eq_self (by omega) (by omega)]
      omega
    rw [List.map_cons, Prod.map_apply, gapsOf, Backfill.gapsOf, htail]
    by_cases hsame : curr.seq = prev.seq
    · rw [if_pos (show (ofSimple curr).seq = (ofSimple prev).seq from congrArg Nat.cast hsame), if_pos hsame]
      rfl
    · have hsame' : (ofSimple curr).seq ≠ (ofSimple prev).seq := fun heq => hsame (Int.ofNat.inj heq)
      rw [if_neg hsame', if_neg hsame]
      cases Backfill.gapsOf pairs with
      | error message => rfl
      | ok gaps =>
        show (if i64 ((curr.seq : ℤ) - prev.seq) > 1 then Except.ok (ofGap ⟨prev, curr⟩ :: gaps.map ofGap)
            else Except.ok (gaps.map ofGap))
          = Except.map (List.map ofGap) (if curr.seq - prev.seq > 1 then Except.ok (⟨prev, curr⟩ :: gaps)
              else Except.ok gaps)
        by_cases hgap : curr.seq - prev.seq > 1
        · rw [if_pos (hdiff.mpr hgap), if_pos hgap]
          rfl
        · rw [if_neg (mt hdiff.mp hgap), if_neg hgap]
          rfl

/-- **What `get_missing_data` reads of a tree** is what it reads of the rows of the tree. -/
theorem getMissingData_rowsOf (h : RowsOf tree rows items) :
    getMissingData tree items
      = (Backfill.getMissingData rows).map fun data => (data.1.map Nat.cast, data.2.map ofGap) := by
  have hpairs : ∀ p ∈ (Backfill.rowsSince (Backfill.startSeq rows) rows).zip
      (Backfill.rowsSince (Backfill.startSeq rows) rows).tail, p.1.seq ≤ p.2.seq ∧ (p.2.seq : ℤ) < 2 ^ 63 := by
    intro p hp
    have hsorted := Backfill.pairwise_rowsSince (Backfill.startSeq rows) rows
    obtain ⟨-, hcurr, -⟩ := Windows.not_between_neighbours hsorted hp
    obtain ⟨r, hr, -, hx⟩ := Backfill.mem_rowsSince.mp hcurr
    refine ⟨Windows.rel_of_neighbours hsorted hp, ?_⟩
    rw [← hx]
    exact h.seq_lt hr
  unfold getMissingData Backfill.getMissingData Backfill.missingSince
  rw [startSeq_rowsOf h, rowsSince_rowsOf h]
  dsimp only
  rw [← List.map_tail, List.zip_map, gapsOf_map hpairs, List.getLast?_map, Option.map_map]
  cases Backfill.gapsOf _ with
  | error message => rfl
  | ok gaps =>
    show Except.ok (_, _) = Except.ok (Option.map Nat.cast (Option.map _ _), _)
    rw [Option.map_map]
    rfl

end Read

/-! ### What a clean-up leaves -/

section CleanUp

variable {tree : Bytes} {rows : List BackfillItem} {items : List Model}

/-- An update of the rows of the tree. -/
theorem RowsOf.update (h : RowsOf tree rows items) {f : BackfillItem → BackfillItem} {set : Model → Model}
    (htree : ∀ m, (set m).tree = m.tree) (hset : ∀ r m, RowOf tree r m → RowOf tree (f r) (set m)) :
    RowsOf tree (rows.map f) (updateTree tree set items) := by
  have hrows : (updateTree tree set items).filter (fun m => decide (m.tree = tree))
      = (items.filter fun m => decide (m.tree = tree)).map set := by
    rw [updateTree, List.filter_map]
    have hsame : (fun m : Model => decide (m.tree = tree)) ∘ (fun m => if m.tree = tree then set m else m)
        = fun m => decide (m.tree = tree) := by
      funext m
      by_cases hm : m.tree = tree
      · simp [hm, htree]
      · simp [hm]
    rw [hsame]
    refine List.map_congr_left fun m hm => ?_
    exact if_pos (of_decide_eq_true (List.mem_filter.mp hm).2)
  rw [RowsOf, hrows, List.forall₂_map_left_iff, List.forall₂_map_right_iff]
  exact h.imp hset

/-- A deletion that concerns rows of the tree. -/
theorem RowsOf.delete (h : RowsOf tree rows items) {p : BackfillItem → Bool} {q : Model → Bool}
    (hpq : ∀ r m, RowOf tree r m → p r = q m) : RowsOf tree (rows.filter p) (items.filter q) := by
  rw [RowsOf, List.filter_filter, List.filter_congr fun m _ => Bool.and_comm _ _]
  exact h.filter hpq

/-- The statements of a clean-up, one after the other. -/
theorem run_cleanUp (s : State) (round : Round) (hworker : s.worker = .cleaning round .delete) :
    run State.step s (List.replicate 5 .cleanUp) = some
      { s with
        rows := (((s.rows.filter fun r => decide (r.seq = round.maxSeq)).map fun r =>
          { r with backfilled := true }).map fun r => { r with forceChk := false }).map fun r =>
            { r with locked := false }
        worker := .idle } := by
  have hnone : (s.rows.filter fun r => decide (r.seq = round.maxSeq)).filter (fun r => decide (r.seq ≠ round.maxSeq))
      = [] := by
    refine List.filter_eq_nil_iff.mpr fun r hr hne => ?_
    exact of_decide_eq_true hne (of_decide_eq_true (List.mem_filter.mp hr).2)
  have hstep : ∀ (t : State) (next : Backfill.CleanUp) (as : List Action), t.worker = .cleaning round next →
      run State.step t (.cleanUp :: as) = run State.step (t.cleanUp round next) as := by
    intro t next as ht
    rw [run, State.step, ht]
    rfl
  have hselect : ((s.cleanUp round .delete).cleanUp round .selectDuplicates)
      = { s.cleanUp round .delete with worker := .cleaning round .markBackfilled } := by
    simp only [State.cleanUp, hnone]
    rfl
  have hlist : List.replicate 5 Action.cleanUp = [.cleanUp, .cleanUp, .cleanUp, .cleanUp, .cleanUp] := rfl
  rw [hlist, hstep s .delete _ hworker, hstep (s.cleanUp round .delete) .selectDuplicates _ rfl, hselect,
    hstep _ .markBackfilled _ rfl, hstep _ .clearForceChk _ rfl, hstep _ .unlock _ rfl]
  rfl

/-- **The clean-up of a tree that nothing interrupts** leaves the rows that the table has of it. -/
theorem cleanUp_rowsOf {s : State} {round : Round} (hworker : s.worker = .cleaning round .delete)
    (h : RowsOf tree s.rows items) :
    ∃ rows, run State.step s (List.replicate 5 .cleanUp) = some { s with rows, worker := .idle } ∧
      RowsOf tree rows (cleanUpBackfilledTree (some round.maxSeq) tree items) := by
  refine ⟨_, run_cleanUp s round hworker, ?_⟩
  show RowsOf tree _ (deleteExtraRowsAndMarkAsBackfilled tree round.maxSeq items)
  rw [deleteExtraRows_eq, ← updates_eq]
  have hdeleted : RowsOf tree (s.rows.filter fun r => decide (r.seq = round.maxSeq))
      (items.filter fun m => !extra tree round.maxSeq m) := by
    refine h.delete fun r m hr => ?_
    simp [extra, hr.tree, hr.seq]
  have hmarked : RowsOf tree ((s.rows.filter fun r => decide (r.seq = round.maxSeq)).map fun r =>
      { r with backfilled := true }) (markTreeAsBackfilled tree (items.filter fun m => !extra tree round.maxSeq m)) :=
    hdeleted.update (by intro m; rfl) (by intro r m hr; exact { hr with backfilled := rfl })
  refine RowsOf.update (RowsOf.update hmarked ?_ ?_) ?_ ?_
  · intro m
    rfl
  · intro r m hr
    exact { hr with forceChk := rfl }
  · intro m
    rfl
  · intro r m hr
    exact { hr with locked := rfl }

end CleanUp

end DasIndexer.BackfillItems
