import DasIndexer.Backfill.MissingData

/-!
# The clean-up of a backfilled tree

When a tree has been backfilled, one of its rows must remain in `backfill_items`, so that gaps can be detected
after later inserts: the row of the highest sequence number, marked as backfilled.  Its duplicates, which a
replay inserts, are to be removed.  They are selected by the filter of the rows that have just been deleted, so
that none is found and all of them remain; and a tree that has been backfilled from the start is cleaned up
for the sequence number 0, so that all rows above are deleted (`duplicates_and_no_anchor`).

**`one_anchor_iff`**: one row remains as it should exactly when one row has the sequence number that is passed
and none a higher one.
-/

namespace DasIndexer.BackfillItems

/-! ### The statements -/

/-- An `update_many` of the rows of a tree. -/
def updateTree (tree : Bytes) (set : Model → Model) (items : List Model) : List Model :=
  items.map fun r => if r.tree = tree then set r else r

def markTreeAsBackfilled (tree : Bytes) : List Model → List Model :=
  updateTree tree fun r => { r with backfilled := true }

def markTreeAsFailed (tree : Bytes) : List Model → List Model := updateTree tree fun r => { r with failed := true }

def clearForceChkFlag (tree : Bytes) : List Model → List Model :=
  updateTree tree fun r => { r with forceChk := false }

def unlockTree (tree : Bytes) : List Model → List Model := updateTree tree fun r => { r with locked := false }

/-- The filter of `delete_extra_rows_and_mark_as_backfilled`. -/
def extra (tree : Bytes) (maxSeq : ℤ) (r : Model) : Bool := decide (r.tree = tree) && decide (r.seq ≠ maxSeq)

def deleteById (id : ℤ) (items : List Model) : List Model := items.filter fun r => decide (r.id ≠ id)

def deleteExtraRowsAndMarkAsBackfilled (tree : Bytes) (maxSeq : ℤ) (items : List Model) : List Model :=
  let items := items.filter fun r => !extra tree maxSeq r
  -- the source selects the duplicates by `ne` as well
  let duplicates := items.filter (extra tree maxSeq)
  let items :=
    if 1 < duplicates.length then (duplicates.drop 1).foldl (fun items item => deleteById item.id items) items
    else items
  unlockTree tree (clearForceChkFlag tree (markTreeAsBackfilled tree items))

def cleanUpBackfilledTree (optMaxSeq : Option ℤ) (tree : Bytes) (items : List Model) : List Model :=
  match optMaxSeq with
  | some maxSeq => deleteExtraRowsAndMarkAsBackfilled tree maxSeq items
  | none => markTreeAsFailed tree items

/-- What `fetch_and_plug_gaps` returns when every gap has been plugged. -/
def fetchAndPlugGaps (tree : Bytes) (items : List Model) : Except String (Option ℤ) :=
  (getMissingData tree items).map (·.1)

/-- What `backfill_tree_from_seq_1` returns when every slot has been plugged. -/
def backfillTreeFromSeq1 : Except String (Option ℤ) := .ok (some 0)

/-! ### What should remain -/

/-- One row of the tree remains, that of the highest sequence number, with its flags set for the next round, and
the rows of other trees are as they were. -/
structure OneAnchor (tree : Bytes) (before after : List Model) : Prop where
  anchor : ∃ row, after.filter (fun r => decide (r.tree = tree)) = [row] ∧
    (∃ r ∈ before, r.tree = tree ∧ r.id = row.id ∧ r.seq = row.seq) ∧
    (∀ r ∈ before, r.tree = tree → r.seq ≤ row.seq) ∧
    row.backfilled = true ∧ row.forceChk = false ∧ row.locked = false
  others : after.filter (fun r => !decide (r.tree = tree)) = before.filter fun r => !decide (r.tree = tree)

/-! ### What remains -/

section Remaining

variable {tree : Bytes} {maxSeq : ℤ} {items : List Model}

/-- The three updates of a row. -/
def settle (tree : Bytes) (r : Model) : Model :=
  if r.tree = tree then { r with backfilled := true, forceChk := false, locked := false } else r

theorem settle_of_eq {r : Model} (h : r.tree = tree) :
    settle tree r = { r with backfilled := true, forceChk := false, locked := false } := if_pos h

theorem settle_of_ne {r : Model} (h : r.tree ≠ tree) : settle tree r = r := if_neg h

@[simp] theorem settle_tree (r : Model) : (settle tree r).tree = r.tree := by
  unfold settle
  split <;> rfl

/-- Two updates of a tree, of which the first leaves the rows in it. -/
theorem updateTree_updateTree {set set' : Model → Model} (h : ∀ r, (set r).tree = r.tree) :
    updateTree tree set' (updateTree tree set items) = updateTree tree (set' ∘ set) items := by
  rw [updateTree, updateTree, List.map_map]
  refine List.map_congr_left fun r _ => ?_
  by_cases htree : r.tree = tree
  · simp only [Function.comp_apply, if_pos htree, h]
  · simp only [Function.comp_apply, if_neg htree]

theorem updates_eq : unlockTree tree (clearForceChkFlag tree (markTreeAsBackfilled tree items))
    = items.map (settle tree) := by
  rw [markTreeAsBackfilled, clearForceChkFlag, updateTree_updateTree (by intro r; rfl), unlockTree,
    updateTree_updateTree (by intro r; rfl)]
  rfl

/-- **The duplicates are not found**: what the first statement leaves is updated and nothing else is deleted. -/
theorem deleteExtraRows_eq : deleteExtraRowsAndMarkAsBackfilled tree maxSeq items
    = (items.filter fun r => !extra tree maxSeq r).map (settle tree) := by
  have hnone : (items.filter fun r => !extra tree maxSeq r).filter (extra tree maxSeq) = [] := by
    refine List.filter_eq_nil_iff.mpr fun r hr hextra => ?_
    have hkept := (List.mem_filter.mp hr).2
    rw [hextra] at hkept
    cases hkept
  simp only [deleteExtraRowsAndMarkAsBackfilled, hnone, List.length_nil, Nat.not_lt_zero, if_false]
  exact updates_eq

/-- Of the tree, the rows of the sequence number remain. -/
theorem rows_of_tree : (deleteExtraRowsAndMarkAsBackfilled tree maxSeq items).filter (fun r => decide (r.tree = tree))
    = (items.filter fun r => decide (r.tree = tree) && decide (r.seq = maxSeq)).map (settle tree) := by
  rw [deleteExtraRows_eq, List.filter_map, List.filter_filter]
  refine congrArg (List.map (settle tree)) (List.filter_congr fun r _ => ?_)
  by_cases htree : r.tree = tree
  · by_cases hseq : r.seq = maxSeq
    · simp [extra, htree, hseq]
    · simp [extra, htree, hseq]
  · simp [htree]

/-- Of other trees, all rows remain. -/
theorem rows_of_others :
    (deleteExtraRowsAndMarkAsBackfilled tree maxSeq items).filter (fun r => !decide (r.tree = tree))
      = items.filter fun r => !decide (r.tree = tree) := by
  have hkept : (items.filter fun r => !extra tree maxSeq r).filter ((fun r => !decide (r.tree = tree)) ∘ settle tree)
      = items.filter fun r => !decide (r.tree = tree) := by
    rw [List.filter_filter]
    refine List.filter_congr fun r _ => ?_
    by_cases htree : r.tree = tree
    · simp [htree]
    · simp [extra, htree]
  rw [deleteExtraRows_eq, List.filter_map, hkept]
  refine (List.map_congr_left fun r hr => ?_).trans (List.map_id _)
  exact settle_of_ne (by simpa using (List.mem_filter.mp hr).2)

end Remaining

/-- **When one row remains**: exactly one row of the tree has the sequence number that is passed, and none a
higher one. -/
theorem one_anchor_iff (tree : Bytes) (maxSeq : ℤ) (items : List Model) :
    OneAnchor tree items (deleteExtraRowsAndMarkAsBackfilled tree maxSeq items) ↔
      (items.countP fun r => decide (r.tree = tree) && decide (r.seq = maxSeq)) = 1 ∧
        ∀ r ∈ items, r.tree = tree → r.seq ≤ maxSeq := by
  have hmem : ∀ {r}, r ∈ items.filter (fun r => decide (r.tree = tree) && decide (r.seq = maxSeq)) →
      r ∈ items ∧ r.tree = tree ∧ r.seq = maxSeq := by
    intro r hr
    obtain ⟨hin, hboth⟩ := List.mem_filter.mp hr
    simp only [Bool.and_eq_true, decide_eq_true_eq] at hboth
    exact ⟨hin, hboth⟩
  rw [List.countP_eq_length_filter]
  constructor
  · intro hanchor
    obtain ⟨row, hafter, -, hhighest, -⟩ := hanchor.anchor
    rw [rows_of_tree] at hafter
    obtain ⟨r, hone, rfl⟩ := List.map_eq_singleton_iff.mp hafter
    obtain ⟨-, htree, hseq⟩ := hmem (hone ▸ List.mem_singleton_self r)
    refine ⟨by rw [hone]; rfl, fun r' hr' htree' => ?_⟩
    rw [settle_of_eq htree] at hhighest
    exact (hhighest r' hr' htree').trans_eq hseq
  · intro ⟨hlength, hhighest⟩
    obtain ⟨r, hone⟩ := List.length_eq_one_iff.mp hlength
    obtain ⟨hin, htree, hseq⟩ := hmem (hone ▸ List.mem_singleton_self r)
    refine ⟨⟨settle tree r, ?_, ?_⟩, rows_of_others⟩
    · rw [rows_of_tree, hone]
      rfl
    · rw [settle_of_eq htree]
      exact ⟨⟨r, hin, htree, rfl, rfl⟩, fun r' hr' htree' => (hhighest r' hr' htree').trans_eq hseq.symm, rfl, rfl, rfl⟩

/-- Two rows of the change 3, the second from a replay. -/
def replayed : List Model :=
  [⟨⟨[7], 3, 30, false, false, false, true⟩, 1, by decide⟩, ⟨⟨[7], 3, 30, false, false, false, true⟩, 2, by decide⟩]

/-- The first row of a tree, which asks for a backfill from the start. -/
def forced : List Model := [⟨⟨[7], 3, 30, true, false, false, true⟩, 1, by decide⟩]

/-- Of the duplicates both remain; of the tree that was backfilled from the start no row remains. -/
theorem duplicates_and_no_anchor :
    (fetchAndPlugGaps [7] replayed = .ok (some 3) ∧
        ¬ OneAnchor [7] replayed (cleanUpBackfilledTree (some 3) [7] replayed)) ∧
      backfillTreeFromSeq1 = .ok (some 0) ∧
        ¬ OneAnchor [7] forced (cleanUpBackfilledTree (some 0) [7] forced) := by
  refine ⟨⟨by decide, fun h => ?_⟩, rfl, fun h => ?_⟩
  · obtain ⟨row, hafter, -⟩ := h.anchor
    have hlength := congrArg List.length hafter
    rw [List.length_singleton] at hlength
    exact absurd hlength (by decide)
  · obtain ⟨row, hafter, -⟩ := h.anchor
    have hlength := congrArg List.length hafter
    rw [List.length_singleton] at hlength
    exact absurd hlength (by decide)

end DasIndexer.BackfillItems
