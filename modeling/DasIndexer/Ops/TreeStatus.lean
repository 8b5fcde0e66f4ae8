import DasIndexer.Bubblegum.Convergence
import DasIndexer.Lib.HeapTree
import DasIndexer.Lib.StampedUpsert
import Mathlib.Data.Int.Interval

/-!
# Completeness of a tree

`tree-status` compares the sequence number of a tree on chain with the highest one in `cl_items` and with the
number of different ones there, and lists those that are not there.  But `cl_items` has one row per node of
the tree, with the number of the last change that passed it.  A change whose leaf is written again has none
of its rows left (`mem_visibleSeqs_iff`).

**`status_correct_iff`**: the tool says of every tree what was ingested of it exactly when no two of the
ingested changes are of the same leaf.
-/

namespace DasIndexer.Ops

open Sql Bubblegum LastWriter

/-! ### The tool -/

/-- The sequence numbers in the rows of a tree. -/
def visibleSeqs (db : Database) (tree : Pubkey) : List ℤ :=
  ((scan db.clItems).filter fun e => decide (e.1.1 = tree.bytes)).map fun e => e.2.seq

structure MaxSeqItem where
  maxSeq : ℤ
  cntSeq : ℤ

/-- `get_tree_max_seq`.  Of a tree without rows the maximum is `NULL`, which is no `i64`. -/
def getTreeMaxSeq (db : Database) (tree : Pubkey) : Option MaxSeqItem :=
  (visibleSeqs db tree).max?.map fun maxSeq => ⟨maxSeq, ((visibleSeqs db tree).dedup.length : ℤ)⟩

/-- `get_missing_seq`, over `generate_series(1, max_seq)`. -/
def getMissingSeq (db : Database) (tree : Pubkey) (maxSeq : ℕ) : List ℕ :=
  (List.range' 1 maxSeq).filter fun s => decide ((s : ℤ) ∉ visibleSeqs db tree)

/-- What `check_tree` logs: how the highest number compares with the one on chain, whether there are gaps, and
the missing numbers where the indexing is failed. -/
structure TreeReport where
  tip : Ordering
  gaps : Bool
  missing : Option (List ℕ)

/-- `check_tree`; `none` is its error for a tree that is missing from the index. -/
def checkTree (db : Database) (tree : Pubkey) (seq : ℕ) : Option TreeReport :=
  (getTreeMaxSeq db tree).map fun indexedSeq =>
    { tip := compare indexedSeq.maxSeq (seq : ℤ)
      gaps := indexedSeq.maxSeq != indexedSeq.cntSeq
      missing := if indexedSeq.maxSeq = (seq : ℤ) ∧ indexedSeq.maxSeq = indexedSeq.cntSeq then none
        else some (getMissingSeq db tree seq) }

/-- `indexing is complete`. -/
def SaysComplete (db : Database) (tree : Pubkey) (seq : ℕ) : Prop :=
  ∃ report, checkTree db tree seq = some report ∧ report.missing = none

/-! ### Trees and their changes -/

/-- A change of a tree, in a transaction whose signature is base-58 text. -/
structure TreeChange where
  leaf : ℕ
  hash : ℕ → Pubkey
  slot : ℕ
  txnId : String
  instruction : String
  decodes : (Base58.decode txnId).isSome

/-- A tree of some depth with its changes, by their sequence numbers from 1 to the last. -/
structure TreeHistory where
  tree : Pubkey
  depth : ℕ
  seq : ℕ
  seq_pos : 1 ≤ seq
  change : ℕ → TreeChange
  leaf_lt : ∀ s, (change s).leaf < 2 ^ depth

namespace TreeHistory

variable (H : TreeHistory)

/-- The number of the node at a level above the leaf of a change. -/
def nodeIndex (s level : ℕ) : ℕ := (2 ^ H.depth + (H.change s).leaf) / 2 ^ level

/-- The event of a change: the nodes from its leaf to the root. -/
def event (s : ℕ) : ChangeLogEventV1 where
  id := H.tree
  path := (List.range (H.depth + 1)).map fun level => ⟨(H.change s).hash level, H.nodeIndex s level⟩
  seq := s
  index := (H.change s).leaf

/-- Ingest the changes with some numbers, one after the other. -/
def ingest (order : List ℕ) (db : Database) : Database :=
  Session.afterAll (fun s => insertChangeLog (H.event s) (H.change s).slot (H.change s).txnId
    (H.change s).instruction) order db

/-- What the tool says of a tree of which some changes were ingested is right. -/
structure StatusCorrect (order : List ℕ) (db : Database) : Prop where
  complete_iff : SaysComplete db H.tree H.seq ↔ ∀ s, 1 ≤ s → s ≤ H.seq → s ∈ order
  missing_eq : getMissingSeq db H.tree H.seq = (List.range' 1 H.seq).filter fun s => decide (s ∉ order)

end TreeHistory

/-! ### The rows of a tree -/

/-- The row of a node with its sequence number. -/
def cellAt (db : Database) (tree : Pubkey) (node : ℤ) : Option (ℤ × ClItemRow) :=
  (db.clItems.lookup (tree.bytes, node)).map fun r => (r.seq, r)

theorem mem_visibleSeqs (db : Database) (tree : Pubkey) (s : ℤ) :
    s ∈ visibleSeqs db tree ↔ ∃ node x, cellAt db tree node = some x ∧ x.1 = s := by
  rw [visibleSeqs, List.mem_map]
  constructor
  · rintro ⟨⟨⟨t, node⟩, r⟩, hmem, rfl⟩
    obtain ⟨hscan, htree⟩ := List.mem_filter.mp hmem
    obtain rfl := of_decide_eq_true htree
    refine ⟨node, (r.seq, r), ?_, rfl⟩
    rw [cellAt, (mem_scan _ _ _).mp hscan]
    rfl
  · rintro ⟨node, x, hcell, rfl⟩
    obtain ⟨r, hr, rfl⟩ := Option.map_eq_some_iff.mp hcell
    exact ⟨((tree.bytes, node), r), List.mem_filter.mpr ⟨(mem_scan _ _ _).mpr hr, decide_eq_true rfl⟩, rfl⟩

/-- A statement of a path writes the cell of its node. -/
theorem cellAt_upsert (event : ChangeLogEventV1) (depth i : ℕ) (p : PathNode) (db : Database) (node : ℤ) :
    cellAt (Database.upsertClItem (event.id.bytes, (p.index : ℤ)) (clItem event depth i p) db) event.id node
      = if node = p.index
        then newer false (cellAt db event.id node) ((event.seq : ℤ), (clItem event depth i p).new)
        else cellAt db event.id node := by
  by_cases hnode : node = p.index
  · subst hnode
    have hold : (db.clItems.lookup (event.id.bytes, (p.index : ℤ)))
        = (cellAt db event.id p.index).map Prod.snd := by
      rw [cellAt, Option.map_map]
      exact Option.map_id'.symm
    have hguard : ∀ x, cellAt db event.id p.index = some x →
        (holds ((clItem event depth i p).guard x.2) = true ↔ x.1 < (event.seq : ℤ)) := by
      intro x hx
      obtain ⟨r, _, rfl⟩ := Option.map_eq_some_iff.mp hx
      simp [clItem]
    have hrow := StampedUpsert.row_of_strict (clItem event depth i p) (cellAt db event.id p.index)
      ((event.seq : ℤ), (clItem event depth i p).new) rfl hguard fun _ _ => rfl
    rw [if_pos rfl]
    show (AList.lookup _ (upsert _ _ _)).map _ = _
    rw [lookup_upsert_self, hold, hrow, Option.map_map]
    -- what the cell holds is stamped with the number in the row
    have hstamp : ∀ x, newer false (cellAt db event.id p.index)
        ((event.seq : ℤ), (clItem event depth i p).new) = some x → (x.2.seq, x.2) = x := by
      intro x hx
      obtain ⟨y, hy, hfrom, _⟩ := newer_spec false (cellAt db event.id p.index)
        ((event.seq : ℤ), (clItem event depth i p).new)
      obtain rfl := Option.some.inj (hy.symm.trans hx)
      rcases hfrom with rfl | hfrom
      · rfl
      · obtain ⟨r, _, rfl⟩ := Option.map_eq_some_iff.mp hfrom
        rfl
    cases hcell : newer false (cellAt db event.id p.index)
      ((event.seq : ℤ), (clItem event depth i p).new) with
    | none => rfl
    | some x => exact congrArg some (hstamp x hcell)
  · rw [if_neg hnode]
    show (AList.lookup _ (upsert _ _ _)).map _ = _
    rw [lookup_upsert_ne _ _ fun h => hnode (Prod.mk.inj h).2]
    rfl

/-- A path writes the cells of its nodes, and no others, with the number of its change. -/
theorem cellAt_path (event : ChangeLogEventV1) (depth i : ℕ) (ps : List PathNode) (db : Database) (node : ℤ) :
    ∃ ws : List (ℤ × ClItemRow), cellAt (pathEffect event depth i ps db) event.id node
        = ws.foldl (newer false) (cellAt db event.id node) ∧
      (∀ w ∈ ws, w.1 = event.seq) ∧ (ws ≠ [] ↔ ∃ p ∈ ps, node = p.index) := by
  induction ps generalizing i db with
  | nil => exact ⟨[], rfl, by simp, by simp⟩
  | cons p ps ih =>
    obtain ⟨ws, hcell, hseq, hne⟩ := ih (i + 1)
      (Database.upsertClItem (event.id.bytes, (p.index : ℤ)) (clItem event depth i p) db)
    rw [cellAt_upsert] at hcell
    by_cases hnode : node = p.index
    · rw [if_pos hnode] at hcell
      refine ⟨((event.seq : ℤ), (clItem event depth i p).new) :: ws, hcell, ?_, ?_⟩
      · intro w hw
        rcases List.mem_cons.mp hw with rfl | hw
        · rfl
        · exact hseq w hw
      · exact iff_of_true (List.cons_ne_nil _ _) ⟨p, List.mem_cons_self, hnode⟩
    · rw [if_neg hnode] at hcell
      refine ⟨ws, hcell, hseq, hne.trans ?_⟩
      simp [hnode]

namespace TreeHistory

variable (H : TreeHistory)

/-- A change passes a node. -/
def Passes (s : ℕ) (node : ℤ) : Prop := ∃ level ≤ H.depth, node = (H.nodeIndex s level : ℤ)

theorem passes_iff (s : ℕ) (node : ℤ) : H.Passes s node ↔ ∃ p ∈ (H.event s).path, node = p.index := by
  simp [Passes, event]

/-- The rows after one change. -/
theorem cellAt_after (s : ℕ) (db : Database) (node : ℤ) :
    ∃ ws : List (ℤ × ClItemRow), cellAt (Session.after (insertChangeLog (H.event s) (H.change s).slot
        (H.change s).txnId (H.change s).instruction) db) H.tree node
        = ws.foldl (newer false) (cellAt db H.tree node) ∧
      (∀ w ∈ ws, w.1 = s) ∧ (ws ≠ [] ↔ H.Passes s node) := by
  obtain ⟨tx, htx⟩ := Option.isSome_iff_exists.mp (H.change s).decodes
  obtain ⟨ws, hcell, hseq, hne⟩ := cellAt_path (H.event s) ((H.event s).path.length - 1) 0 (H.event s).path
    db node
  refine ⟨ws, ?_, hseq, hne.trans (H.passes_iff s node).symm⟩
  rw [(insertChangeLog_runs (H.event s) (H.change s).slot (H.change s).instruction htx).after_eq]
  exact hcell

/-- The rows after a run: the cell of a node has been written by the changes that pass it. -/
theorem cellAt_ingest (order : List ℕ) (db : Database) (node : ℤ) :
    ∃ ws : List (ℤ × ClItemRow), cellAt (H.ingest order db) H.tree node
        = ws.foldl (newer false) (cellAt db H.tree node) ∧
      ∀ n : ℤ, (∃ w ∈ ws, w.1 = n) ↔ ∃ s ∈ order, H.Passes s node ∧ (s : ℤ) = n := by
  induction order generalizing db with
  | nil => exact ⟨[], rfl, by simp⟩
  | cons s order ih =>
    obtain ⟨ws, hcell, hseq, hne⟩ := H.cellAt_after s db node
    obtain ⟨ws', hcell', hseq'⟩ := ih (Session.after (insertChangeLog (H.event s) (H.change s).slot
      (H.change s).txnId (H.change s).instruction) db)
    refine ⟨ws ++ ws', ?_, fun n => ?_⟩
    · rw [List.foldl_append, ← hcell, ← hcell']
      rfl
    · have hfirst : (∃ w ∈ ws, w.1 = n) ↔ H.Passes s node ∧ (s : ℤ) = n := by
        rw [← hne]
        constructor
        · rintro ⟨w, hw, rfl⟩
          exact ⟨List.ne_nil_of_mem hw, (hseq w hw).symm⟩
        · rintro ⟨hws, rfl⟩
          obtain ⟨w, hw⟩ := List.exists_mem_of_ne_nil ws hws
          exact ⟨w, hw, hseq w hw⟩
      simp only [List.mem_append, or_and_right, exists_or, List.mem_cons, exists_eq_left, hfirst, hseq' n]

/-- Nothing of the tree is in `cl_items`. -/
def Fresh (db : Database) : Prop := ∀ node, db.clItems.lookup (H.tree.bytes, node) = none

/-- The number in the row of a node is the highest of the changes that passed it. -/
theorem cellAt_ingest_spec {db : Database} (hfresh : H.Fresh db) (order : List ℕ) (node n : ℤ) :
    (∃ x, cellAt (H.ingest order db) H.tree node = some x ∧ x.1 = n) ↔
      (∃ s ∈ order, H.Passes s node ∧ (s : ℤ) = n) ∧ ∀ t ∈ order, H.Passes t node → (t : ℤ) ≤ n := by
  obtain ⟨ws, hcell, hseq⟩ := H.cellAt_ingest order db node
  have hempty : cellAt db H.tree node = none := by
    rw [cellAt, hfresh node, Option.map_none]
  rw [hempty] at hcell
  rw [hcell]
  constructor
  · rintro ⟨x, hx, rfl⟩
    obtain ⟨hfrom, hmax, _⟩ := foldl_newer_spec false ws none x hx
    have hmem : x ∈ ws := hfrom.resolve_right (by simp)
    refine ⟨(hseq x.1).mp ⟨x, hmem, rfl⟩, fun t ht hpass => ?_⟩
    obtain ⟨w, hw, hwt⟩ := (hseq t).mpr ⟨t, ht, hpass, rfl⟩
    rw [← hwt]
    exact hmax w hw
  · intro ⟨hpassed, hmax⟩
    obtain ⟨w, hw, rfl⟩ := (hseq n).mpr hpassed
    obtain ⟨x, hx⟩ := Option.isSome_iff_exists.mp
      (foldl_newer_isSome false ws none (Or.inr (List.ne_nil_of_mem hw)))
    obtain ⟨hfrom, hle, _⟩ := foldl_newer_spec false ws none x hx
    have hmem : x ∈ ws := hfrom.resolve_right (by simp)
    obtain ⟨t, ht, hpass, hxt⟩ := (hseq x.1).mp ⟨x, hmem, rfl⟩
    refine ⟨x, hx, le_antisymm ?_ (hle w hw)⟩
    rw [← hxt]
    exact hmax t ht hpass

/-- The leaf of a change is passed by the changes of this leaf alone. -/
theorem passes_leaf_iff (s t : ℕ) :
    H.Passes t (H.nodeIndex s 0 : ℤ) ↔ (H.change t).leaf = (H.change s).leaf := by
  constructor
  · rintro ⟨level, hlevel, hnode⟩
    have hindex : H.nodeIndex s 0 = H.nodeIndex t level := by exact_mod_cast hnode
    rw [nodeIndex, nodeIndex, pow_zero, Nat.div_one, HeapTree.index_div hlevel] at hindex
    obtain ⟨hheight, hleaf⟩ := HeapTree.index_inj (H.leaf_lt s)
      (HeapTree.position_lt hlevel (H.leaf_lt t)) hindex
    have hzero : level = 0 := by omega
    rw [hleaf, hzero, pow_zero, Nat.div_one]
  · intro hleaf
    exact ⟨0, Nat.zero_le _, by rw [nodeIndex, nodeIndex, hleaf]⟩

/-- Changes of one leaf pass the same nodes. -/
theorem passes_of_leaf_eq {s t : ℕ} (h : (H.change t).leaf = (H.change s).leaf) {node : ℤ}
    (hpass : H.Passes s node) : H.Passes t node := by
  obtain ⟨level, hlevel, rfl⟩ := hpass
  exact ⟨level, hlevel, by rw [nodeIndex, nodeIndex, h]⟩

/-- **A change is visible when it is ingested and no later one of its leaf is.** -/
theorem mem_visibleSeqs_iff {db : Database} (hfresh : H.Fresh db) (order : List ℕ) (n : ℤ) :
    n ∈ visibleSeqs (H.ingest order db) H.tree ↔
      ∃ s ∈ order, (s : ℤ) = n ∧ ∀ t ∈ order, (H.change t).leaf = (H.change s).leaf → t ≤ s := by
  simp only [mem_visibleSeqs, H.cellAt_ingest_spec hfresh]
  constructor
  · rintro ⟨node, ⟨s, hs, hpass, rfl⟩, hmax⟩
    refine ⟨s, hs, rfl, fun t ht hleaf => ?_⟩
    exact_mod_cast hmax t ht (H.passes_of_leaf_eq hleaf hpass)
  · rintro ⟨s, hs, rfl, hmax⟩
    refine ⟨(H.nodeIndex s 0 : ℤ), ⟨s, hs, (H.passes_leaf_iff s s).mpr rfl, rfl⟩, fun t ht hpass => ?_⟩
    exact_mod_cast hmax t ht ((H.passes_leaf_iff s t).mp hpass)

/-! ### The tool and the tree -/

/-- No two ingested changes are of the same leaf. -/
def OneChangePerLeaf (order : List ℕ) : Prop :=
  ∀ s ∈ order, ∀ t ∈ order, (H.change s).leaf = (H.change t).leaf → s = t

/-- Then what is visible is what was ingested. -/
theorem mem_visibleSeqs_of_oneChangePerLeaf {db : Database} (hfresh : H.Fresh db) {order : List ℕ}
    (hone : H.OneChangePerLeaf order) (n : ℤ) :
    n ∈ visibleSeqs (H.ingest order db) H.tree ↔ ∃ s ∈ order, (s : ℤ) = n := by
  rw [H.mem_visibleSeqs_iff hfresh]
  constructor
  · rintro ⟨s, hs, hn, _⟩
    exact ⟨s, hs, hn⟩
  · rintro ⟨s, hs, hn⟩
    exact ⟨s, hs, hn, fun t ht hleaf => le_of_eq (hone t ht s hs hleaf)⟩

end TreeHistory

/-- The tool says complete when the last number is visible and there are as many as it says. -/
theorem saysComplete_iff_count {db : Database} {tree : Pubkey} {seq : ℕ} :
    SaysComplete db tree seq ↔ (visibleSeqs db tree).max? = some (seq : ℤ) ∧
      (seq : ℤ) = ((visibleSeqs db tree).dedup.length : ℤ) := by
  rw [SaysComplete, checkTree, getTreeMaxSeq]
  cases (visibleSeqs db tree).max? with
  | none => simp
  | some m =>
    simp only [Option.map_some, Option.some.injEq, exists_eq_left', ite_eq_left_iff, reduceCtorEq,
      imp_false, not_not]
    constructor
    · rintro ⟨rfl, hcnt⟩
      exact ⟨rfl, hcnt⟩
    · rintro ⟨rfl, hcnt⟩
      exact ⟨rfl, hcnt⟩

/-- The tool says complete when the visible numbers are those from 1 to the last. -/
theorem saysComplete_iff {db : Database} {tree : Pubkey} {seq : ℕ} (hpos : 1 ≤ seq)
    (hrange : ∀ n ∈ visibleSeqs db tree, 1 ≤ n ∧ n ≤ (seq : ℤ)) :
    SaysComplete db tree seq ↔ ∀ n : ℤ, 1 ≤ n → n ≤ seq → n ∈ visibleSeqs db tree := by
  have hsub : (visibleSeqs db tree).toFinset ⊆ Finset.Icc 1 (seq : ℤ) := by
    intro n hn
    exact Finset.mem_Icc.mpr (hrange n (List.mem_toFinset.mp hn))
  have hcard : ((visibleSeqs db tree).dedup.length : ℤ) = ((visibleSeqs db tree).toFinset.card : ℤ) := by
    rw [List.card_toFinset]
  have hinterval : (Finset.Icc 1 (seq : ℤ)).card = seq := by
    rw [Int.card_Icc]
    omega
  rw [saysComplete_iff_count, hcard]
  constructor
  · rintro ⟨_, hcount⟩ n hlow hhigh
    have hall : (visibleSeqs db tree).toFinset = Finset.Icc 1 (seq : ℤ) := by
      refine Finset.eq_of_subset_of_card_le hsub ?_
      rw [hinterval]
      exact le_of_eq (by exact_mod_cast hcount)
    exact List.mem_toFinset.mp (hall ▸ Finset.mem_Icc.mpr ⟨hlow, hhigh⟩)
  · intro hall
    have heq : (visibleSeqs db tree).toFinset = Finset.Icc 1 (seq : ℤ) := by
      refine Finset.Subset.antisymm hsub fun n hn => ?_
      obtain ⟨hlow, hhigh⟩ := Finset.mem_Icc.mp hn
      exact List.mem_toFinset.mpr (hall n hlow hhigh)
    have hlast : (seq : ℤ) ∈ visibleSeqs db tree := hall seq (by exact_mod_cast hpos) le_rfl
    refine ⟨?_, by rw [heq, hinterval]⟩
    exact List.max?_eq_some_iff.mpr ⟨hlast, fun n hn => (hrange n hn).2⟩

namespace TreeHistory

variable (H : TreeHistory)

/-- A change whose leaf is written again is listed as missing. -/
theorem overwritten_is_listed {db : Database} (hfresh : H.Fresh db) {order : List ℕ} {s t : ℕ} (ht : t ∈ order)
    (hleaf : (H.change s).leaf = (H.change t).leaf) (hlt : s < t) (hrange : 1 ≤ s ∧ s ≤ H.seq) :
    s ∈ getMissingSeq (H.ingest order db) H.tree H.seq := by
  have hinvisible : (s : ℤ) ∉ visibleSeqs (H.ingest order db) H.tree := by
    intro hvisible
    obtain ⟨u, _, hus, hmax⟩ := (H.mem_visibleSeqs_iff hfresh order s).mp hvisible
    obtain rfl : u = s := by exact_mod_cast hus
    exact absurd (hmax t ht hleaf.symm) (not_le.mpr hlt)
  obtain ⟨hlow, hhigh⟩ := hrange
  exact List.mem_filter.mpr ⟨List.mem_range'_1.mpr ⟨hlow, by omega⟩, decide_eq_true hinvisible⟩

/-- **When the tool is right about a tree**: exactly when no two of the ingested changes are of one leaf. -/
theorem status_correct_iff (order : List ℕ) (db : Database) (hfresh : H.Fresh db)
    (horder : ∀ s ∈ order, 1 ≤ s ∧ s ≤ H.seq) :
    H.StatusCorrect order (H.ingest order db) ↔ H.OneChangePerLeaf order := by
  constructor
  · intro hcorrect
    have hnotlater : ∀ s ∈ order, ∀ t ∈ order, (H.change s).leaf = (H.change t).leaf → ¬ s < t := by
      intro s hs t ht hleaf hlt
      have hlisted := H.overwritten_is_listed hfresh ht hleaf hlt (horder s hs)
      rw [hcorrect.missing_eq] at hlisted
      exact of_decide_eq_true (List.mem_filter.mp hlisted).2 hs
    intro s hs t ht hleaf
    exact le_antisymm (not_lt.mp (hnotlater t ht s hs hleaf.symm)) (not_lt.mp (hnotlater s hs t ht hleaf))
  · intro hone
    have hvisible := H.mem_visibleSeqs_of_oneChangePerLeaf hfresh hone
    refine ⟨?_, ?_⟩
    · rw [saysComplete_iff H.seq_pos]
      · constructor
        · intro hall s hlow hhigh
          obtain ⟨t, ht, hts⟩ := (hvisible s).mp (hall s (by exact_mod_cast hlow) (by exact_mod_cast hhigh))
          obtain rfl : t = s := by exact_mod_cast hts
          exact ht
        · intro hall n hlow hhigh
          obtain ⟨s, rfl⟩ := Int.eq_ofNat_of_zero_le (le_trans zero_le_one hlow)
          exact (hvisible s).mpr ⟨s, hall s (by exact_mod_cast hlow) (by exact_mod_cast hhigh), rfl⟩
      · intro n hn
        obtain ⟨s, hs, rfl⟩ := (hvisible n).mp hn
        obtain ⟨hlow, hhigh⟩ := horder s hs
        exact ⟨by exact_mod_cast hlow, by exact_mod_cast hhigh⟩
    · refine List.filter_congr fun s _ => ?_
      have hmem : (s : ℤ) ∈ visibleSeqs (H.ingest order db) H.tree ↔ s ∈ order := by
        rw [hvisible]
        simp
      simp only [hmem]

end TreeHistory

/-- A change of a leaf. -/
def sampleChange (leaf : ℕ) : TreeChange where
  leaf := leaf
  hash := fun _ => Pubkey.fill 5
  slot := 1
  txnId := Base58.encode [1]
  instruction := "MintV1"
  decodes := by rw [Base58.decode_encode]; rfl

/-- A tree of depth 1 with two changes: of its two leaves, or both of the first one. -/
def sampleTree (second : Fin 2) : TreeHistory where
  tree := Pubkey.fill 3
  depth := 1
  seq := 2
  seq_pos := by decide
  change := fun s => sampleChange (if s = 2 then second else 0)
  leaf_lt := by
    intro s
    show (if s = 2 then (second : ℕ) else 0) < 2 ^ 1
    split
    · exact second.isLt
    · decide

/-- Two leaves, ingested in the wrong order. -/
theorem two_leaves_correct :
    (sampleTree 1).StatusCorrect [2, 1] ((sampleTree 1).ingest [2, 1] Database.empty) := by
  refine ((sampleTree 1).status_correct_iff [2, 1] Database.empty (fun _ => rfl) (by decide)).mpr ?_
  intro s hs t ht hleaf
  simp only [sampleTree, sampleChange, List.mem_cons, List.not_mem_nil, or_false] at hs ht hleaf
  rcases hs with rfl | rfl <;> rcases ht with rfl | rfl <;> simp_all

/-- One leaf written twice: both changes are ingested, and the tool says that the first is missing. -/
theorem rewritten_leaf_is_a_gap :
    getMissingSeq ((sampleTree 0).ingest [1, 2] Database.empty) (sampleTree 0).tree 2 = [1] ∧
      ¬ SaysComplete ((sampleTree 0).ingest [1, 2] Database.empty) (sampleTree 0).tree 2 ∧
      ¬ (sampleTree 0).StatusCorrect [1, 2] ((sampleTree 0).ingest [1, 2] Database.empty) := by
  have hleaf : ∀ s, ((sampleTree 0).change s).leaf = 0 := by
    intro s
    show (if s = 2 then 0 else 0) = 0
    exact ite_self 0
  have hvisible : ∀ n : ℤ, n ∈ visibleSeqs ((sampleTree 0).ingest [1, 2] Database.empty) (sampleTree 0).tree
      ↔ n = 2 := by
    intro n
    rw [(sampleTree 0).mem_visibleSeqs_iff (fun _ => rfl)]
    simp only [hleaf, forall_const]
    constructor
    · rintro ⟨s, hs, rfl, hmax⟩
      have htwo := hmax 2 (by decide)
      have hle : s ≤ 2 := by
        simp only [List.mem_cons, List.not_mem_nil, or_false] at hs
        omega
      exact_mod_cast le_antisymm hle htwo
    · rintro rfl
      exact ⟨2, by decide, rfl, by decide⟩
  have hmissing : getMissingSeq ((sampleTree 0).ingest [1, 2] Database.empty) (sampleTree 0).tree 2
      = [1] := by
    simp only [getMissingSeq, hvisible]
    decide
  refine ⟨hmissing, fun hcomplete => ?_, fun hcorrect => ?_⟩
  · have hall := (saysComplete_iff (by decide) fun n hn => ?_).mp hcomplete 1 le_rfl (by decide)
    · exact absurd ((hvisible 1).mp hall) (by decide)
    · obtain rfl := (hvisible n).mp hn
      decide
  · have hlist := hcorrect.missing_eq
    rw [show (sampleTree 0).seq = 2 from rfl, hmissing] at hlist
    exact absurd hlist (by decide)

end DasIndexer.Ops
