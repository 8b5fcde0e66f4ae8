import DasIndexer.Bubblegum.Convergence
import DasIndexer.Dapi.ChangeLogs
import DasIndexer.Lib.HeapTree

/-!
# Served proofs verify

A tree of depth `d` is written leaf by leaf, and every write emits a change log with the path from the
leaf to the root as it is after the write.  The events reach `insertChangeLog` in any order and any number
of times.  Afterwards a stored node is the current node of the tree, and a node that is not stored roots a
subtree that was never written (`processAll_storesNode`), so the proof that is served for a written leaf
folds to the current root: **`served_proof_verifies`**.
-/

namespace DasIndexer.Dapi

open Sql LastWriter HeapTree Bubblegum

/-! ### The history of a tree -/

section History

variable (H : Pubkey → Pubkey → Pubkey) (tree : Pubkey) (d : ℕ)

/-- The nodes from leaf `j` up to the root, with their heap numbers, after some writes. -/
def pathAfter (ws : List (ℕ × Pubkey)) (j : ℕ) : List PathNode :=
  (List.range (d + 1)).map fun l =>
    ⟨node H (leaves Pubkey.default ws) l (j / 2 ^ l), (2 ^ d + j) / 2 ^ l⟩

/-- The event of write number `k`, counted from zero. -/
def eventOf (ws : List (ℕ × Pubkey)) (k j : ℕ) : ChangeLogEventV1 :=
  { id := tree, path := pathAfter H d (ws.take (k + 1)) j, seq := k + 1, index := j }

/-- The events of a history. -/
def events (ws : List (ℕ × Pubkey)) : List ChangeLogEventV1 :=
  ws.zipIdx.map fun e => eventOf H tree d ws e.2 e.1.1

theorem mem_events {ws : List (ℕ × Pubkey)} {e : ChangeLogEventV1} :
    e ∈ events H tree d ws ↔ ∃ k w, ws[k]? = some w ∧ e = eventOf H tree d ws k w.1 := by
  constructor
  · intro he
    obtain ⟨⟨w, k⟩, hw, rfl⟩ := List.mem_map.mp he
    exact ⟨k, w, List.mem_zipIdx_iff_getElem?.mp hw, rfl⟩
  · intro ⟨k, w, hw, he⟩
    exact List.mem_map.mpr ⟨(w, k), List.mem_zipIdx_iff_getElem?.mpr hw, he.symm⟩

end History

/-! ### Processing the events -/

/-- A call of `insertChangeLog`. -/
structure ChangeLogCall where
  event : ChangeLogEventV1
  slot : ℕ
  txnId : String
  instruction : String

/-- The tables after a call in which no statement fails. -/
def ChangeLogCall.process (c : ChangeLogCall) (db : Database) : Database :=
  ((insertChangeLog c.event c.slot c.txnId c.instruction).run noFaults (World.init db)).2.db

/-- The tables after some calls. -/
def processAll (calls : List ChangeLogCall) (db : Database) : Database :=
  calls.foldl (fun db c => c.process db) db

/-- The nodes are written whether or not the signature of the transaction decodes, and no asset is. -/
theorem process_frame (c : ChangeLogCall) (db : Database) :
    (c.process db).clItems
        = (pathEffect c.event (c.event.path.length - 1) 0 c.event.path db).clItems ∧
      (c.process db).asset = db.asset := by
  have hasset : ∀ (depth i : ℕ) (ps : List PathNode) (db : Database),
      (pathEffect c.event depth i ps db).asset = db.asset := by
    intro depth i ps
    induction ps generalizing i with
    | nil => exact fun _ => rfl
    | cons p ps ih => exact fun db => ih (i + 1) _
  cases hdec : Base58.decode c.txnId with
  | some tx =>
    obtain ⟨_, hdb⟩ := insertChangeLog_runs c.event c.slot c.instruction hdec (World.init db)
    rw [ChangeLogCall.process, hdb]
    exact ⟨rfl, hasset _ _ _ _⟩
  | none =>
    obtain ⟨hok, hdb⟩ := insertPath_runs c.event (c.event.path.length - 1) 0 c.event.path
      (World.init db)
    rw [ChangeLogCall.process, insertChangeLog, hdec, Session.run_bind]
    rcases hrun : (insertPath c.event (c.event.path.length - 1) 0 c.event.path).run noFaults
      (World.init db) with ⟨r, w'⟩
    rw [hrun] at hok hdb
    have hr : r = .ok () := hok
    subst hr
    have hw : w'.db = pathEffect c.event (c.event.path.length - 1) 0 c.event.path db := hdb
    show w'.db.clItems = _ ∧ w'.db.asset = db.asset
    rw [hw]
    exact ⟨rfl, hasset _ _ _ _⟩

theorem processAll_asset (calls : List ChangeLogCall) (db : Database) :
    (processAll calls db).asset = db.asset := by
  induction calls generalizing db with
  | nil => rfl
  | cons c cs ih => exact (ih (c.process db)).trans (process_frame c db).2

/-! ### One path -/

theorem lookup_pathEffect_of_forall_ne {event : ChangeLogEventV1} {depth i : ℕ} {ps : List PathNode}
    {db : Database} {idx : ℤ} (h : ∀ p ∈ ps, (p.index : ℤ) ≠ idx) :
    (pathEffect event depth i ps db).clItems.lookup (event.id.bytes, idx)
      = db.clItems.lookup (event.id.bytes, idx) := by
  induction ps generalizing i db with
  | nil => rfl
  | cons p ps ih =>
    rw [pathEffect, ih fun q hq => h q (List.mem_cons_of_mem _ hq)]
    refine lookup_upsert_ne _ _ fun heq => ?_
    exact h p List.mem_cons_self (Prod.mk.inj heq).2.symm

/-- A node that stands once on a path gets the row of its level. -/
theorem lookup_pathEffect_of_getElem? {event : ChangeLogEventV1} {depth i m : ℕ}
    {ps : List PathNode} {db : Database} {p : PathNode} (hm : ps[m]? = some p)
    (huniq : ∀ n q, ps[n]? = some q → q.index = p.index → n = m) :
    (pathEffect event depth i ps db).clItems.lookup (event.id.bytes, (p.index : ℤ))
      = some ((clItem event depth (i + m) p).row
        (db.clItems.lookup (event.id.bytes, (p.index : ℤ)))) := by
  induction ps generalizing i m db with
  | nil => simp at hm
  | cons q ps ih =>
    rw [pathEffect]
    cases m with
    | zero =>
      have hq : q = p := by simpa using hm
      subst hq
      rw [lookup_pathEffect_of_forall_ne]
      · exact lookup_upsert_self _ _ _
      · intro q' hq' hidx
        obtain ⟨n, hn⟩ := List.mem_iff_getElem?.mp hq'
        exact absurd (huniq (n + 1) q' (by simpa using hn) (by omega)) (by omega)
    | succ m =>
      have hne : (event.id.bytes, (p.index : ℤ)) ≠ (event.id.bytes, (q.index : ℤ)) := by
        intro heq
        have hidx : (p.index : ℤ) = q.index := (Prod.mk.inj heq).2
        exact absurd (huniq 0 q (by simp) (by omega)) (by omega)
      rw [ih (by simpa using hm) fun n q' hn hidx => by
        have := huniq (n + 1) q' (by simpa using hn) hidx
        omega]
      rw [show i + 1 + m = i + (m + 1) from by omega]
      congr 2
      exact lookup_upsert_ne _ _ hne

/-- A row with its sequence number as the stamp. -/
def stamped (r : ClItemRow) : ℤ × ClItemRow := (r.seq, r)

/-- The upsert of a node is the write of a cell that keeps ties. -/
theorem stamped_row (event : ChangeLogEventV1) (depth i : ℕ) (p : PathNode) (o : Option ClItemRow) :
    some (stamped ((clItem event depth i p).row o))
      = newer false (o.map stamped) (stamped (clItem event depth i p).new) := by
  cases o with
  | none => rfl
  | some r =>
    have hguard : holds ((clItem event depth i p).guard r) = decide (r.seq < (event.seq : ℤ)) :=
      holds_gt_some _ _
    rw [Option.map_some, newer_false_some, Upsert.row_some, hguard]
    by_cases hlt : r.seq < (event.seq : ℤ)
    · rw [if_pos (decide_eq_true hlt)]
      exact (if_pos hlt).symm
    · rw [if_neg (by simpa using hlt)]
      exact (if_neg hlt).symm

/-! ### One node -/

section Node

variable (H : Pubkey → Pubkey → Pubkey) {tree : Pubkey} {d : ℕ} (ws : List (ℕ × Pubkey))

/-- The heap number of a node. -/
def heapIdx (d l p : ℕ) : ℕ := 2 ^ (d - l) + p

/-- The stored row of a node. -/
def cell (tree : Pubkey) (d l p : ℕ) (db : Database) : Option (ℤ × ClItemRow) :=
  (db.clItems.lookup (tree.bytes, (heapIdx d l p : ℤ))).map stamped

theorem cell_map_snd (tree : Pubkey) (d l p : ℕ) (db : Database) :
    (cell tree d l p db).map Prod.snd = db.clItems.lookup (tree.bytes, (heapIdx d l p : ℤ)) := by
  rw [cell, Option.map_map]
  exact Option.map_id'

/-- The row of a node after the first `n` writes. -/
def rowAfter (l p n : ℕ) : ClItemRow :=
  { leafIdx := if l = 0 then some (p : ℤ) else none
    seq := n
    level := l
    hash := (node H (leaves Pubkey.default (ws.take n)) l p).bytes }

/-- What an event writes to a node: nothing, if the leaf is not below it. -/
def nodeWrite (l p : ℕ) (e : ChangeLogEventV1) : Option (ℤ × ClItemRow) :=
  if e.index / 2 ^ l = p then some ((e.seq : ℤ), rowAfter H ws l p e.seq) else none

theorem length_pathAfter (j : ℕ) : (pathAfter H d ws j).length = d + 1 := by
  simp [pathAfter]

theorem getElem?_pathAfter (j : ℕ) {l : ℕ} (hl : l ≤ d) : (pathAfter H d ws j)[l]?
    = some ⟨node H (leaves Pubkey.default ws) l (j / 2 ^ l), heapIdx d l (j / 2 ^ l)⟩ := by
  have hlt : l < d + 1 := by omega
  simp [pathAfter, hlt, index_div hl, heapIdx]

variable {H ws}

theorem heapIdx_inj {l m p q : ℕ} (hl : l ≤ d) (hm : m ≤ d) (hp : p < 2 ^ (d - l))
    (hq : q < 2 ^ (d - m)) (h : heapIdx d l p = heapIdx d m q) : l = m ∧ p = q := by
  obtain ⟨hlevel, hpos⟩ := index_inj hp hq h
  exact ⟨by omega, hpos⟩

/-- The nodes of a path are at different numbers. -/
theorem pathAfter_index_inj {j : ℕ} (hj : j < 2 ^ d) {l m : ℕ} {p q : PathNode}
    (hp : (pathAfter H d ws j)[l]? = some p) (hq : (pathAfter H d ws j)[m]? = some q)
    (h : q.index = p.index) : m = l := by
  have hlen : (pathAfter H d ws j).length = d + 1 := length_pathAfter H ws j
  have hl : l ≤ d := by
    have := (List.getElem?_eq_some_iff.mp hp).1
    omega
  have hm : m ≤ d := by
    have := (List.getElem?_eq_some_iff.mp hq).1
    omega
  rw [getElem?_pathAfter H ws j hl, Option.some.injEq] at hp
  rw [getElem?_pathAfter H ws j hm, Option.some.injEq] at hq
  subst hp hq
  exact (heapIdx_inj hm hl (position_lt hm hj) (position_lt hl hj) h).1

/-- **One event and one node.**  The row of a node on the path is replaced by a newer one; every other
node keeps its row. -/
theorem process_cell {c : ChangeLogCall} (hc : c.event ∈ events H tree d ws)
    (hws : ∀ w ∈ ws, w.1 < 2 ^ d) {l p : ℕ} (hl : l ≤ d) (hp : p < 2 ^ (d - l)) (db : Database) :
    cell tree d l p (c.process db)
      = (nodeWrite H ws l p c.event).elim (cell tree d l p db) (newer false (cell tree d l p db)) := by
  obtain ⟨k, w, hw, he⟩ := (mem_events H tree d).mp hc
  have hj : w.1 < 2 ^ d := hws w (List.mem_of_getElem? hw)
  have hid : c.event.id = tree := by rw [he]; rfl
  have hpath : c.event.path = pathAfter H d (ws.take (k + 1)) w.1 := by rw [he]; rfl
  have hindex : c.event.index = w.1 := by rw [he]; rfl
  have hseq : c.event.seq = k + 1 := by rw [he]; rfl
  have hdepth : c.event.path.length - 1 = d := by rw [hpath, length_pathAfter]; rfl
  have hrows := (process_frame c db).1
  rw [hdepth, hpath] at hrows
  rw [nodeWrite, hindex, hseq]
  by_cases hpass : w.1 / 2 ^ l = p
  · have hget := getElem?_pathAfter H (ws.take (k + 1)) w.1 hl
    rw [hpass] at hget
    have hlook : (c.process db).clItems.lookup (tree.bytes, (heapIdx d l p : ℤ)) = some
        ((clItem c.event d (0 + l)
          ⟨node H (leaves Pubkey.default (ws.take (k + 1))) l p, heapIdx d l p⟩).row
          (db.clItems.lookup (tree.bytes, (heapIdx d l p : ℤ)))) := by
      rw [hrows, ← hid]
      exact lookup_pathEffect_of_getElem? hget fun n q hq => pathAfter_index_inj hj hget hq
    have hnew : (clItem c.event d (0 + l)
        ⟨node H (leaves Pubkey.default (ws.take (k + 1))) l p, heapIdx d l p⟩).new
          = rowAfter H ws l p (k + 1) := by
      simp only [clItem, rowAfter, hseq, nodeIdxToLeafIdx, heapIdx, Nat.zero_add]
      congr 1
      split
      · subst l
        simp
      · rfl
    rw [if_pos hpass, Option.elim_some, cell, hlook, Option.map_some, stamped_row, hnew]
    rfl
  · rw [if_neg hpass, Option.elim_none, cell, hrows, ← hid]
    rw [lookup_pathEffect_of_forall_ne]
    · rfl
    · intro q hq hidx
      obtain ⟨m, hm⟩ := List.mem_iff_getElem?.mp hq
      have hmd : m ≤ d := by
        have := (List.getElem?_eq_some_iff.mp hm).1
        rw [length_pathAfter] at this
        omega
      rw [getElem?_pathAfter H _ _ hmd, Option.some.injEq] at hm
      subst hm
      obtain ⟨hml, hmp⟩ := heapIdx_inj hmd hl (position_lt hmd hj) hp (by exact_mod_cast hidx)
      exact hpass (by rw [← hml]; exact hmp)

/-- **A run and one node.**  The row of a node follows the events below which it stands. -/
theorem processAll_cell {calls : List ChangeLogCall} (hcalls : ∀ c ∈ calls, c.event ∈ events H tree d ws)
    (hws : ∀ w ∈ ws, w.1 < 2 ^ d) {l p : ℕ} (hl : l ≤ d) (hp : p < 2 ^ (d - l)) (db : Database) :
    cell tree d l p (processAll calls db)
      = (calls.filterMap fun c => nodeWrite H ws l p c.event).foldl (newer false)
        (cell tree d l p db) := by
  induction calls generalizing db with
  | nil => rfl
  | cons c cs ih =>
    show cell tree d l p (processAll cs (c.process db)) = _
    rw [ih fun c' hc' => hcalls c' (List.mem_cons_of_mem _ hc'),
      process_cell (hcalls c List.mem_cons_self) hws hl hp]
    cases hwrite : nodeWrite H ws l p c.event with
    | none => simp only [List.filterMap_cons, hwrite, Option.elim_none]
    | some x => simp only [List.filterMap_cons, hwrite, Option.elim_some, List.foldl_cons]

end Node

/-! ### The nodes after a run -/

/-- The row of a node of the tree as it is now. -/
def currentRow (H : Pubkey → Pubkey → Pubkey) (ws : List (ℕ × Pubkey)) (l p : ℕ) (seq : ℤ) :
    ClItemRow :=
  { leafIdx := if l = 0 then some (p : ℤ) else none, seq, level := l,
    hash := (node H (leaves Pubkey.default ws) l p).bytes }

/-- The row of a node holds the node, or there is none and the subtree is empty. -/
def StoresNode (H : Pubkey → Pubkey → Pubkey) (tree : Pubkey) (d : ℕ) (ws : List (ℕ × Pubkey))
    (db : Database) (l p : ℕ) : Prop :=
  (∃ seq : ℤ, db.clItems.lookup (tree.bytes, (heapIdx d l p : ℤ)) = some (currentRow H ws l p seq)) ∨
  (db.clItems.lookup (tree.bytes, (heapIdx d l p : ℤ)) = none ∧ (∀ w ∈ ws, w.1 / 2 ^ l ≠ p))

section Run

variable {H : Pubkey → Pubkey → Pubkey} {tree : Pubkey} {d : ℕ} {ws : List (ℕ × Pubkey)}
  {calls : List ChangeLogCall} {db : Database}

/-- The writes to a node are those of the events below it. -/
theorem mem_nodeWrites (hcalls : ∀ e, e ∈ events H tree d ws ↔ ∃ c ∈ calls, c.event = e) {l p : ℕ}
    {x : ℤ × ClItemRow} :
    x ∈ (calls.filterMap fun c => nodeWrite H ws l p c.event) ↔
      ∃ k w, ws[k]? = some w ∧ w.1 / 2 ^ l = p ∧ x = (((k + 1 : ℕ) : ℤ), rowAfter H ws l p (k + 1)) := by
  constructor
  · intro hx
    obtain ⟨c, hc, hwrite⟩ := List.mem_filterMap.mp hx
    obtain ⟨k, w, hw, he⟩ := (mem_events H tree d).mp ((hcalls c.event).mpr ⟨c, hc, rfl⟩)
    rw [he, nodeWrite] at hwrite
    split at hwrite
    · rename_i hpass
      exact ⟨k, w, hw, hpass, (Option.some.inj hwrite).symm⟩
    · cases hwrite
  · intro ⟨k, w, hw, hpass, hx⟩
    obtain ⟨c, hc, he⟩ := (hcalls _).mp ((mem_events H tree d).mpr ⟨k, w, hw, rfl⟩)
    refine List.mem_filterMap.mpr ⟨c, hc, ?_⟩
    rw [he, hx, nodeWrite]
    exact if_pos hpass

/-- **Every node of the tree is stored as it is now**, or was never touched. -/
theorem processAll_storesNode (hcalls : ∀ e, e ∈ events H tree d ws ↔ ∃ c ∈ calls, c.event = e)
    (hws : ∀ w ∈ ws, w.1 < 2 ^ d) (hdb : ∀ idx, db.clItems.lookup (tree.bytes, idx) = none)
    {l p : ℕ} (hl : l ≤ d) (hp : p < 2 ^ (d - l)) :
    StoresNode H tree d ws (processAll calls db) l p := by
  have hcell := processAll_cell (fun c hc => (hcalls c.event).mpr ⟨c, hc, rfl⟩) hws hl hp db
  have hnone : cell tree d l p db = none := by rw [cell, hdb, Option.map_none]
  rw [hnone] at hcell
  cases hrun : (calls.filterMap fun c => nodeWrite H ws l p c.event).foldl (newer false) none with
  | none =>
    right
    have hempty : (calls.filterMap fun c => nodeWrite H ws l p c.event) = [] := by
      by_contra hne
      have hsome := foldl_newer_isSome false _ none (Or.inr hne)
      rw [hrun] at hsome
      cases hsome
    refine ⟨?_, ?_⟩
    · rw [← cell_map_snd, hcell, hrun, Option.map_none]
    · intro w hw hpass
      obtain ⟨k, hk⟩ := List.mem_iff_getElem?.mp hw
      have := (mem_nodeWrites hcalls).mpr ⟨k, w, hk, hpass, rfl⟩
      rw [hempty] at this
      cases this
  | some r =>
    left
    obtain ⟨hin, hmax, _⟩ := foldl_newer_spec false _ none r hrun
    have hr := hin.resolve_right (by simp)
    obtain ⟨k, w, hw, hpass, rfl⟩ := (mem_nodeWrites hcalls).mp hr
    refine ⟨((k + 1 : ℕ) : ℤ), ?_⟩
    rw [← cell_map_snd, hcell, hrun, Option.map_some]
    -- no later write is below the node, so it is as it was after write `k`
    have hlast : ∀ w' ∈ ws.drop (k + 1), w'.1 / 2 ^ l ≠ p := by
      intro w' hw' hpass'
      obtain ⟨m, hm⟩ := List.mem_iff_getElem?.mp hw'
      rw [List.getElem?_drop] at hm
      have := hmax _ ((mem_nodeWrites hcalls).mpr ⟨k + 1 + m, w', hm, hpass', rfl⟩)
      simp only at this
      omega
    show some (rowAfter H ws l p (k + 1)) = _
    rw [rowAfter, node_leaves_take H hlast]
    rfl

/-- A run stores nodes of the tree only. -/
theorem processAll_only_nodes (hcalls : ∀ c ∈ calls, c.event ∈ events H tree d ws)
    (hws : ∀ w ∈ ws, w.1 < 2 ^ d) (hdb : ∀ idx, db.clItems.lookup (tree.bytes, idx) = none)
    {idx : ℤ} {r : ClItemRow} (hr : (processAll calls db).clItems.lookup (tree.bytes, idx) = some r) :
    ∃ l p, l ≤ d ∧ p < 2 ^ (d - l) ∧ idx = (heapIdx d l p : ℤ) := by
  by_contra hnot
  have hkeep : ∀ db : Database, (processAll calls db).clItems.lookup (tree.bytes, idx)
      = db.clItems.lookup (tree.bytes, idx) := by
    clear hr hdb
    induction calls with
    | nil => exact fun _ => rfl
    | cons c cs ih =>
      intro db
      show (processAll cs (c.process db)).clItems.lookup (tree.bytes, idx) = _
      rw [ih fun c' hc' => hcalls c' (List.mem_cons_of_mem _ hc'), (process_frame c db).1]
      obtain ⟨k, w, hw, he⟩ := (mem_events H tree d).mp (hcalls c List.mem_cons_self)
      have hid : c.event.id = tree := by rw [he]; rfl
      rw [← hid]
      refine lookup_pathEffect_of_forall_ne fun q hq hidx => hnot ?_
      have hpath : c.event.path = pathAfter H d (ws.take (k + 1)) w.1 := by rw [he]; rfl
      rw [hpath] at hq
      obtain ⟨m, hm, rfl⟩ := List.mem_map.mp hq
      have hmd : m ≤ d := by
        have := List.mem_range.mp hm
        omega
      refine ⟨m, w.1 / 2 ^ m, hmd, position_lt hmd (hws w (List.mem_of_getElem? hw)), ?_⟩
      rw [← hidx, heapIdx, ← index_div hmd]
  rw [hkeep, hdb] at hr
  cases hr

end Run

/-! ### The proof that is served -/

/-- The position of the required node at a level: the sibling on the way up, and at the end the root. -/
def requiredPos (d j l : ℕ) : ℕ := if l < d then sibling (j / 2 ^ l) else 0

theorem requiredPos_lt {d j l : ℕ} (hj : j < 2 ^ d) (hl : l ≤ d) :
    requiredPos d j l < 2 ^ (d - l) := by
  unfold requiredPos
  split
  · exact sibling_lt (by omega) (position_lt hl hj)
  · exact Nat.two_pow_pos _

/-- **The required nodes of a leaf**, level by level. -/
theorem getRequiredNodesForProof_eq {d j : ℕ} (hj : j < 2 ^ d) :
    getRequiredNodesForProof ((2 ^ d + j : ℕ) : ℤ)
      = (List.range (d + 1)).map fun l => (heapIdx d l (requiredPos d j l) : ℤ) := by
  induction d generalizing j with
  | zero =>
    have h0 : j = 0 := by simpa using hj
    subst h0
    exact getRequiredNodesForProof_one
  | succ d ih =>
    have hpos : 0 < 2 ^ d := Nat.two_pow_pos d
    have hpow : 2 ^ (d + 1) = 2 * 2 ^ d := pow_succ' 2 d
    have hhalf : ((2 ^ (d + 1) + j : ℕ) : ℤ) / 2 = ((2 ^ d + j / 2 : ℕ) : ℤ) := by omega
    rw [getRequiredNodesForProof_of_lt (by omega), hhalf, List.range_succ_eq_map, List.map_cons,
      List.map_map, ih (by omega)]
    congr 1
    · simp only [requiredPos, heapIdx, sibling, Nat.zero_lt_succ, if_true, pow_zero, Nat.div_one,
        Nat.sub_zero]
      split <;> split <;> omega
    · apply List.map_congr_left
      intro l _
      have hlevel : d + 1 - (l + 1) = d - l := by omega
      have hup : j / 2 ^ (l + 1) = j / 2 / 2 ^ l := by rw [Nat.div_div_eq_div_mul, ← pow_succ']
      simp only [Function.comp_def, heapIdx, requiredPos, hlevel, hup, Nat.succ_eq_add_one,
        Nat.add_lt_add_iff_right]

section Serve

variable {H : Pubkey → Pubkey → Pubkey} {emptyNode : ℕ → Pubkey} {tree : Pubkey} {d : ℕ}
  {ws : List (ℕ × Pubkey)} {db : Database}

theorem emptyNode_eq (h0 : emptyNode 0 = Pubkey.default)
    (hs : ∀ l, emptyNode (l + 1) = H (emptyNode l) (emptyNode l)) (l : ℕ) :
    emptyNode l = HeapTree.empty H Pubkey.default l := by
  induction l with
  | zero => exact h0
  | succ l ih => rw [hs, ih, HeapTree.empty]

theorem mem_requiredNodes {t : Bytes} {req : List ℤ} {n : SimpleChangeLog} :
    n ∈ requiredNodes db t req ↔ ∃ idx r, idx ∈ req ∧ db.clItems.lookup (t, idx) = some r ∧
      n = { hash := r.hash, level := r.level, nodeIdx := idx, seq := r.seq, tree := t } := by
  unfold requiredNodes
  rw [List.mem_insertionSort, List.mem_map]
  constructor
  · intro ⟨⟨⟨t', idx⟩, r⟩, he, hn⟩
    obtain ⟨hscan, hkey⟩ := List.mem_filter.mp he
    obtain ⟨rfl, hidx⟩ := of_decide_eq_true hkey
    exact ⟨idx, r, hidx, (mem_scan _ _ _).mp hscan, hn.symm⟩
  · intro ⟨idx, r, hidx, hlook, hn⟩
    refine ⟨((t, idx), r), List.mem_filter.mpr ⟨(mem_scan _ _ _).mpr hlook, ?_⟩, hn.symm⟩
    exact decide_eq_true ⟨rfl, hidx⟩

/-- A stored node among the required ones is the one of its level. -/
theorem mem_requiredNodes_of_store
    (hstore : ∀ l p, l ≤ d → p < 2 ^ (d - l) → StoresNode H tree d ws db l p) {j : ℕ}
    (hj : j < 2 ^ d) {n : SimpleChangeLog}
    (hn : n ∈ requiredNodes db tree.bytes (getRequiredNodesForProof ((2 ^ d + j : ℕ) : ℤ))) :
    ∃ l seq, l ≤ d ∧ db.clItems.lookup (tree.bytes, (heapIdx d l (requiredPos d j l) : ℤ))
        = some (currentRow H ws l (requiredPos d j l) seq) ∧
      n = { hash := (node H (leaves Pubkey.default ws) l (requiredPos d j l)).bytes, level := l,
            nodeIdx := (heapIdx d l (requiredPos d j l) : ℤ), seq, tree := tree.bytes } := by
  obtain ⟨idx, r, hidx, hlook, hn⟩ := mem_requiredNodes.mp hn
  rw [getRequiredNodesForProof_eq hj] at hidx
  obtain ⟨l, hl, rfl⟩ := List.mem_map.mp hidx
  have hld : l ≤ d := by
    have := List.mem_range.mp hl
    omega
  rcases hstore l _ hld (requiredPos_lt hj hld) with ⟨seq, hrow⟩ | ⟨hnone, _⟩
  · rw [hrow, Option.some.injEq] at hlook
    subst hlook
    exact ⟨l, seq, hld, hrow, hn⟩
  · rw [hnone] at hlook
    cases hlook

/-- Only the node of its level can stand at a level. -/
theorem mem_requiredNodes_at_level
    (hstore : ∀ l p, l ≤ d → p < 2 ^ (d - l) → StoresNode H tree d ws db l p) {j l : ℕ}
    (hj : j < 2 ^ d) {n : SimpleChangeLog}
    (hn : n ∈ requiredNodes db tree.bytes (getRequiredNodesForProof ((2 ^ d + j : ℕ) : ℤ)))
    (hlevel : n.level = l) :
    ∃ seq, db.clItems.lookup (tree.bytes, (heapIdx d l (requiredPos d j l) : ℤ))
        = some (currentRow H ws l (requiredPos d j l) seq) ∧
      n = { hash := (node H (leaves Pubkey.default ws) l (requiredPos d j l)).bytes, level := l,
            nodeIdx := (heapIdx d l (requiredPos d j l) : ℤ), seq, tree := tree.bytes } := by
  obtain ⟨l', seq, _, hsome, rfl⟩ := mem_requiredNodes_of_store hstore hj hn
  have hll : l' = l := Int.ofNat_inj.mp hlevel
  subst hll
  exact ⟨seq, hsome, rfl⟩

/-- The hashes of the final list are the required nodes of the tree. -/
theorem finalNodeList_map_hash (h0 : emptyNode 0 = Pubkey.default)
    (hs : ∀ l, emptyNode (l + 1) = H (emptyNode l) (emptyNode l))
    (hstore : ∀ l p, l ≤ d → p < 2 ^ (d - l) → StoresNode H tree d ws db l p) {j : ℕ}
    (hj : j < 2 ^ d) :
    (finalNodeList emptyNode tree.bytes (getRequiredNodesForProof ((2 ^ d + j : ℕ) : ℤ))
        (requiredNodes db tree.bytes (getRequiredNodesForProof ((2 ^ d + j : ℕ) : ℤ)))).map
          SimpleChangeLog.hash
      = (List.range (d + 1)).map fun l =>
        (node H (leaves Pubkey.default ws) l (requiredPos d j l)).bytes := by
  set req := getRequiredNodesForProof ((2 ^ d + j : ℕ) : ℤ) with hreq
  have hlen : req.length = d + 1 := by rw [hreq, getRequiredNodesForProof_eq hj]; simp
  have hpos : ∀ n ∈ requiredNodes db tree.bytes req, 0 ≤ n.level := by
    intro n hn
    obtain ⟨l, seq, _, _, rfl⟩ := mem_requiredNodes_of_store hstore hj hn
    exact Int.natCast_nonneg l
  have hne : ∀ n ∈ requiredNodes db tree.bytes req, n.nodeIdx ≠ 0 := by
    intro n hn
    obtain ⟨l, seq, _, _, rfl⟩ := mem_requiredNodes_of_store hstore hj hn
    have := Nat.two_pow_pos (d - l)
    simp only [heapIdx]
    omega
  apply List.ext_getElem?
  intro l
  rw [List.getElem?_map]
  rcases Nat.lt_or_ge l (d + 1) with hlt | hge
  · have hl : l ≤ d := by omega
    rw [List.getElem?_map, List.getElem?_range hlt, Option.map_some]
    apply finalNodeList_hash hpos hne (by omega)
    rcases hstore l _ hl (requiredPos_lt hj hl) with ⟨seq, hrow⟩ | ⟨hnone, huntouched⟩
    · left
      refine ⟨_, mem_requiredNodes.mpr ⟨_, _, ?_, hrow, rfl⟩, rfl, rfl, ?_⟩
      · rw [hreq, getRequiredNodesForProof_eq hj]
        exact List.mem_map.mpr ⟨l, List.mem_range.mpr hlt, rfl⟩
      · intro m hm hlevel
        obtain ⟨seq', hrow', rfl⟩ := mem_requiredNodes_at_level hstore hj hm hlevel
        rw [hrow, Option.some.injEq] at hrow'
        have hseq : seq = seq' := congrArg ClItemRow.seq hrow'
        rw [hseq]
        rfl
    · right
      refine ⟨fun m hm hlevel => ?_, ?_⟩
      · obtain ⟨_, hsome, _⟩ := mem_requiredNodes_at_level hstore hj hm hlevel
        rw [hnone] at hsome
        cases hsome
      · rw [emptyNode_eq h0 hs, node_leaves_eq_empty H huntouched]
  · have hfinal : (finalNodeList emptyNode tree.bytes req
        (requiredNodes db tree.bytes req)).length ≤ l := by
      simp only [finalNodeList, List.length_map, List.length_zipIdx, List.length_zip,
        length_foldl_place, List.length_replicate]
      omega
    rw [List.getElem?_eq_none hfinal, List.getElem?_eq_none (by simpa using hge), Option.map_none]

/-- The newest leaf row of an asset is that of its leaf. -/
theorem leafRows_head? {assetId : Bytes} {asset : AssetRow} {j : ℕ} {seq : ℤ}
    (hasset : db.asset.lookup assetId = some asset) (htree : asset.treeId = some tree.bytes)
    (hnonce : asset.nonce = some (j : ℤ))
    (hstore : ∀ l p, l ≤ d → p < 2 ^ (d - l) → StoresNode H tree d ws db l p)
    (honly : ∀ idx r, db.clItems.lookup (tree.bytes, idx) = some r →
      ∃ l p, l ≤ d ∧ p < 2 ^ (d - l) ∧ idx = (heapIdx d l p : ℤ))
    (hleaf : db.clItems.lookup (tree.bytes, (heapIdx d 0 j : ℤ)) = some (currentRow H ws 0 j seq)) :
    (leafRows db assetId).head?
      = some ((tree.bytes, (heapIdx d 0 j : ℤ)), currentRow H ws 0 j seq) := by
  -- a row that the join finds is the row of this leaf
  have hfound : ∀ e ∈ leafRows db assetId,
      e = ((tree.bytes, (heapIdx d 0 j : ℤ)), currentRow H ws 0 j seq) := by
    intro ⟨⟨t, idx⟩, r⟩ he
    obtain ⟨a, n, ha, ht, hn, hlook, hidx, hlevel⟩ := mem_leafRows.mp he
    rw [hasset, Option.some.injEq] at ha
    subst ha
    rw [htree, Option.some.injEq] at ht
    subst ht
    rw [hnonce, Option.some.injEq] at hn
    subst hn
    obtain ⟨l, p, hl, hp, rfl⟩ := honly idx r hlook
    rcases hstore l p hl hp with ⟨seq', hrow⟩ | ⟨hnone, _⟩
    · rw [hlook, Option.some.injEq] at hrow
      subst hrow
      have hl0 : l = 0 := Int.ofNat_inj.mp hlevel
      subst hl0
      have hpj : p = j := Int.ofNat_inj.mp (Option.some.inj hidx)
      subst hpj
      rw [hlook] at hleaf
      rw [Option.some.inj hleaf]
    · rw [hnone] at hlook
      cases hlook
  have hmem : ((tree.bytes, (heapIdx d 0 j : ℤ)), currentRow H ws 0 j seq) ∈ leafRows db assetId :=
    mem_leafRows.mpr ⟨asset, j, hasset, htree, hnonce, hleaf, rfl, rfl⟩
  cases hhead : (leafRows db assetId).head? with
  | none =>
    rw [List.head?_eq_none_iff.mp hhead] at hmem
    cases hmem
  | some e => rw [hfound e (List.mem_of_head? hhead)]

/-- The proof of a leaf whose tree is stored as it is now. -/
theorem getProofForAsset_of_store (h0 : emptyNode 0 = Pubkey.default)
    (hs : ∀ l, emptyNode (l + 1) = H (emptyNode l) (emptyNode l)) {assetId : Bytes} {asset : AssetRow}
    {j : ℕ} (hasset : db.asset.lookup assetId = some asset) (htree : asset.treeId = some tree.bytes)
    (hnonce : asset.nonce = some (j : ℤ)) (hj : j < 2 ^ d) (hwritten : ∃ w ∈ ws, w.1 = j)
    (hstore : ∀ l p, l ≤ d → p < 2 ^ (d - l) → StoresNode H tree d ws db l p)
    (honly : ∀ idx r, db.clItems.lookup (tree.bytes, idx) = some r →
      ∃ l p, l ≤ d ∧ p < 2 ^ (d - l) ∧ idx = (heapIdx d l p : ℤ)) :
    getProofForAsset emptyNode db assetId = .ok
      { root := (node H (leaves Pubkey.default ws) d 0).toString
        leaf := (leaves Pubkey.default ws j).toString
        proof := (siblingsAbove H (leaves Pubkey.default ws) 0 j d).map Pubkey.toString
        nodeIndex := ((2 ^ d + j : ℕ) : ℤ)
        treeId := tree.toString } := by
  obtain ⟨seq, hleaf⟩ : ∃ seq, db.clItems.lookup (tree.bytes, (heapIdx d 0 j : ℤ))
      = some (currentRow H ws 0 j seq) := by
    rcases hstore 0 j (Nat.zero_le d) hj with hrow | ⟨_, huntouched⟩
    · exact hrow
    · obtain ⟨w, hw, hwj⟩ := hwritten
      exact absurd (by simpa using hwj) (huntouched w hw)
  have hhead := leafRows_head? hasset htree hnonce hstore honly hleaf
  have hfinal := finalNodeList_map_hash h0 hs hstore hj
  rw [List.range_succ, List.map_append] at hfinal
  have hroot : requiredPos d j d = 0 := if_neg (lt_irrefl d)
  have hproof : (List.range d).map (fun l =>
        (node H (leaves Pubkey.default ws) l (requiredPos d j l)).bytes)
      = (siblingsAbove H (leaves Pubkey.default ws) 0 j d).map Pubkey.bytes := by
    rw [siblingsAbove, List.map_map]
    apply List.map_congr_left
    intro l hl
    simp only [Function.comp_def, Nat.zero_add]
    rw [requiredPos, if_pos (List.mem_range.mp hl)]
  simp only [getProofForAsset, hhead, buildAssetProof]
  have hidx : (heapIdx d 0 j : ℤ) = ((2 ^ d + j : ℕ) : ℤ) := rfl
  rw [hidx]
  congr 2
  · rw [← List.getLast?_map, hfinal]
    simp [hroot, Pubkey.toString]
  · have hmap : ∀ ns : List SimpleChangeLog, (ns.map fun n => Base58.encode n.hash)
        = (ns.map SimpleChangeLog.hash).map Base58.encode := by
      intro ns
      rw [List.map_map]
      rfl
    rw [hmap, List.map_dropLast, hfinal, List.map_singleton, List.dropLast_concat, hproof,
      List.map_map]
    rfl

/-- **Served proofs verify.**  Let the events of a history of leaf writes be processed in any order, each
at least once.  Then for every asset whose leaf was written, the proof has the current leaf and the current
root, one node per level, and folds from the leaf to the root. -/
theorem served_proof_verifies (h0 : emptyNode 0 = Pubkey.default)
    (hs : ∀ l, emptyNode (l + 1) = H (emptyNode l) (emptyNode l)) (hws : ∀ w ∈ ws, w.1 < 2 ^ d)
    {calls : List ChangeLogCall} (hcalls : ∀ e, e ∈ events H tree d ws ↔ ∃ c ∈ calls, c.event = e)
    (hdb : ∀ idx, db.clItems.lookup (tree.bytes, idx) = none) {assetId : Bytes} {asset : AssetRow}
    {j : ℕ} (hasset : db.asset.lookup assetId = some asset) (htree : asset.treeId = some tree.bytes)
    (hnonce : asset.nonce = some (j : ℤ)) (hwritten : ∃ w ∈ ws, w.1 = j) :
    ∃ proof : List Pubkey,
      getProofForAsset emptyNode (processAll calls db) assetId = .ok
        { root := (node H (leaves Pubkey.default ws) d 0).toString
          leaf := (leaves Pubkey.default ws j).toString
          proof := proof.map Pubkey.toString
          nodeIndex := ((2 ^ d + j : ℕ) : ℤ)
          treeId := tree.toString } ∧
      proof.length = d ∧
      climb H (2 ^ d + j) (leaves Pubkey.default ws j) proof
        = node H (leaves Pubkey.default ws) d 0 := by
  have hj : j < 2 ^ d := by
    obtain ⟨w, hw, rfl⟩ := hwritten
    exact hws w hw
  refine ⟨siblingsAbove H (leaves Pubkey.default ws) 0 j d, ?_, ?_, ?_⟩
  · apply getProofForAsset_of_store h0 hs ((processAll_asset calls db).symm ▸ hasset) htree hnonce hj
      hwritten
    · exact fun l p hl hp => processAll_storesNode hcalls hws hdb hl hp
    · exact fun idx r hr =>
        processAll_only_nodes (fun c hc => (hcalls c.event).mpr ⟨c, hc, rfl⟩) hws hdb hr
  · simp [siblingsAbove]
  · have hclimb := climb_siblings H (leaves Pubkey.default ws) 0 j d
    rw [Nat.zero_add, Nat.div_eq_of_lt hj] at hclimb
    exact hclimb

end Serve

/-- A hash that keeps its sides apart. -/
def sampleHash (a b : Pubkey) : Pubkey := Pubkey.fill (3 * a.bytes.headD 0 + b.bytes.headD 0 + 1)

/-- Two leaves of a tree of depth two, one of them written twice. -/
def sampleWrites : List (ℕ × Pubkey) := [(2, Pubkey.fill 7), (1, Pubkey.fill 8), (2, Pubkey.fill 9)]

/-- The events of the sample history, newest first and then once more. -/
def sampleCalls : List ChangeLogCall :=
  ((events sampleHash (Pubkey.fill 5) 2 sampleWrites).reverse
    ++ events sampleHash (Pubkey.fill 5) 2 sampleWrites).map fun e => ⟨e, 10, "1", "MintV1"⟩

/-- An asset at leaf 2. -/
def sampleAssets : Database :=
  { Database.empty with
    asset := AList.singleton (Pubkey.fill 6).bytes
      { treeId := some (Pubkey.fill 5).bytes, nonce := some 2 } }

theorem reordered_history_proof_verifies :
    ∃ proof : List Pubkey,
      getProofForAsset (HeapTree.empty sampleHash Pubkey.default) (processAll sampleCalls sampleAssets)
          (Pubkey.fill 6).bytes = .ok
        { root := (node sampleHash (leaves Pubkey.default sampleWrites) 2 0).toString
          leaf := (leaves Pubkey.default sampleWrites 2).toString
          proof := proof.map Pubkey.toString
          nodeIndex := 6
          treeId := (Pubkey.fill 5).toString } ∧
      proof.length = 2 ∧
      climb sampleHash 6 (leaves Pubkey.default sampleWrites 2) proof
        = node sampleHash (leaves Pubkey.default sampleWrites) 2 0 := by
  refine served_proof_verifies (d := 2) (j := 2) rfl (fun _ => rfl) (by decide) ?_ (fun _ => rfl)
    (AList.lookup_insert ∅) rfl rfl (by decide)
  intro e
  simp [sampleCalls]

end DasIndexer.Dapi
