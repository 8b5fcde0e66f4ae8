import DasIndexer.Schema.Tables
import Mathlib.Data.List.Sort

/-!
# Serving Merkle proofs

The read side of the change log: from the stored nodes of a tree, `getProofForAsset` finds the leaf of an
asset, asks for the nodes beside its way to the root, fills in those that are not stored as empty
subtrees, and returns them bottom-up with the root last.

The hash of an empty subtree comes from another crate and is the parameter `emptyNode`.
-/

namespace DasIndexer.Dapi

open Sql

/-- A node as the proof query returns it. -/
structure SimpleChangeLog where
  hash : Bytes := []
  level : ℤ := 0
  nodeIdx : ℤ := 0
  seq : ℤ := 0
  tree : Bytes := []
deriving DecidableEq

/-- `digital_asset_types::rpc::AssetProof`. -/
structure AssetProof where
  root : String
  leaf : String
  proof : List String
  nodeIndex : ℤ
  treeId : String
deriving DecidableEq

/-- `sea_orm::DbErr`, as far as the proof query raises it. -/
inductive DbError where
  | recordNotFound (msg : String)
deriving DecidableEq

/-- `get_required_nodes_for_proof`: the sibling of every node on the way up, and the root. -/
def getRequiredNodesForProof (index : ℤ) : List ℤ :=
  if 1 < index then
    (if index % 2 = 0 then index + 1 else index - 1) :: getRequiredNodesForProof (index / 2)
  else [1]
termination_by index.toNat
decreasing_by omega

/-- `make_empty_node`. -/
def makeEmptyNode (emptyNode : ℕ → Pubkey) (lvl : ℕ) (nodeIndex : ℤ) (tree : Bytes) :
    SimpleChangeLog :=
  { nodeIdx := nodeIndex, level := lvl, hash := (emptyNode lvl).bytes, seq := 0, tree }

/-- Put a node at its level. -/
def place (nodes : List SimpleChangeLog) (node : SimpleChangeLog) : List SimpleChangeLog :=
  if node.level < nodes.length then nodes.set node.level.toNat node else nodes

/-- The nodes of a proof bottom-up, the root last: the stored ones at their levels, and empty subtrees
where none is stored. -/
def finalNodeList (emptyNode : ℕ → Pubkey) (treeId : Bytes) (reqIndexes : List ℤ)
    (requiredNodes : List SimpleChangeLog) : List SimpleChangeLog :=
  let placed := requiredNodes.foldl place (List.replicate reqIndexes.length {})
  (placed.zip reqIndexes).zipIdx.map fun e =>
    if e.1.1 = {} then makeEmptyNode emptyNode e.2 e.1.2 treeId else e.1.1

/-- `build_asset_proof`.  The list of required nodes always has the root, so the `pop` finds it. -/
def buildAssetProof (emptyNode : ℕ → Pubkey) (treeId : Bytes) (leafNodeIdx : ℤ) (leafHash : Bytes)
    (reqIndexes : List ℤ) (requiredNodes : List SimpleChangeLog) : AssetProof :=
  let final := finalNodeList emptyNode treeId reqIndexes requiredNodes
  { root := Base58.encode ((final.getLast?.map SimpleChangeLog.hash).getD [])
    leaf := Base58.encode leafHash
    proof := final.dropLast.map fun n => Base58.encode n.hash
    nodeIndex := leafNodeIdx
    treeId := Base58.encode treeId }

/-- The leaf rows of an asset, newest first: the join of `asset` with `cl_items` on the nonce and the
tree. -/
def leafRows (db : Database) (assetId : Bytes) : List ((Bytes × ℤ) × ClItemRow) :=
  match db.asset.lookup assetId with
  | none => []
  | some asset =>
    ((scan db.clItems).filter fun e =>
      holds (and (and (eq asset.nonce e.2.leafIdx) (eq asset.treeId (some e.1.1)))
        (eq (some e.2.level) (some 0)))).insertionSort fun a b => b.2.seq ≤ a.2.seq

/-- The stored nodes of a tree among the required ones, highest number first.  The unique index on tree
and node makes the `DISTINCT ON` of the query a no-op. -/
def requiredNodes (db : Database) (tree : Bytes) (reqIndexes : List ℤ) : List SimpleChangeLog :=
  (((scan db.clItems).filter fun e => decide (e.1.1 = tree ∧ e.1.2 ∈ reqIndexes)).map fun e =>
    ({ hash := e.2.hash, level := e.2.level, nodeIdx := e.1.2, seq := e.2.seq, tree := e.1.1 }
      : SimpleChangeLog)).insertionSort fun a b => b.nodeIdx ≤ a.nodeIdx

/-- `get_proof_for_asset`. -/
def getProofForAsset (emptyNode : ℕ → Pubkey) (db : Database) (assetId : Bytes) :
    Except DbError AssetProof :=
  match (leafRows db assetId).head? with
  | none => .error (.recordNotFound "Asset Proof Not Found")
  | some leaf =>
    let reqIndexes := getRequiredNodesForProof leaf.1.2
    .ok (buildAssetProof emptyNode leaf.1.1 leaf.1.2 leaf.2.hash reqIndexes
      (requiredNodes db leaf.1.1 reqIndexes))

/-! ### The leaf of an asset -/

/-- What it takes for a node to be a leaf row of an asset. -/
theorem mem_leafRows {db : Database} {assetId t : Bytes} {idx : ℤ} {r : ClItemRow} :
    ((t, idx), r) ∈ leafRows db assetId ↔ ∃ a n, db.asset.lookup assetId = some a ∧
      a.treeId = some t ∧ a.nonce = some n ∧ db.clItems.lookup (t, idx) = some r ∧
      r.leafIdx = some n ∧ r.level = 0 := by
  unfold leafRows
  cases ha : db.asset.lookup assetId with
  | none => simp
  | some a =>
    simp only [List.mem_insertionSort, List.mem_filter, mem_scan, holds_and, Bool.and_eq_true,
      holds_eq_iff, Option.some.injEq]
    constructor
    · intro ⟨hr, ⟨⟨n, hnonce, hleaf⟩, ⟨t', htree, ht⟩⟩, ⟨z, hlevel, hz⟩⟩
      exact ⟨a, n, rfl, ht ▸ htree, hnonce, hr, hleaf, hlevel.trans hz.symm⟩
    · intro ⟨b, n, hb, htree, hnonce, hr, hleaf, hlevel⟩
      subst hb
      exact ⟨hr, ⟨⟨n, hnonce, hleaf⟩, ⟨t, htree, rfl⟩⟩, ⟨0, hlevel, rfl⟩⟩

/-! ### The required nodes -/

theorem getRequiredNodesForProof_one : getRequiredNodesForProof 1 = [1] := by
  rw [getRequiredNodesForProof]
  simp

theorem getRequiredNodesForProof_of_lt {index : ℤ} (h : 1 < index) :
    getRequiredNodesForProof index =
      (if index % 2 = 0 then index + 1 else index - 1) :: getRequiredNodesForProof (index / 2) := by
  rw [getRequiredNodesForProof, if_pos h]

/-! ### Placing nodes -/

theorem length_foldl_place (ns acc : List SimpleChangeLog) :
    (ns.foldl place acc).length = acc.length := by
  induction ns generalizing acc with
  | nil => rfl
  | cons n ns ih =>
    rw [List.foldl_cons, ih, place]
    split <;> simp

/-- A level for which no node is at hand keeps what it had. -/
theorem foldl_place_of_forall_ne {ns acc : List SimpleChangeLog} {l : ℕ}
    (hpos : ∀ n ∈ ns, 0 ≤ n.level) (h : ∀ n ∈ ns, n.level ≠ l) :
    (ns.foldl place acc)[l]? = acc[l]? := by
  induction ns generalizing acc with
  | nil => rfl
  | cons n ns ih =>
    rw [List.foldl_cons, ih (fun m hm => hpos m (List.mem_cons_of_mem _ hm))
      fun m hm => h m (List.mem_cons_of_mem _ hm), place]
    split
    · have hne : n.level.toNat ≠ l := by
        intro heq
        have h0 := hpos n List.mem_cons_self
        exact h n List.mem_cons_self (by omega)
      exact List.getElem?_set_ne hne
    · rfl

/-- A level for which there is one node gets it. -/
theorem foldl_place_of_mem {ns acc : List SimpleChangeLog} {l : ℕ} {n : SimpleChangeLog}
    (hpos : ∀ m ∈ ns, 0 ≤ m.level) (hn : n ∈ ns) (hl : n.level = l) (hlen : l < acc.length)
    (huniq : ∀ m ∈ ns, m.level = l → m = n) : (ns.foldl place acc)[l]? = some n := by
  induction ns generalizing acc with
  | nil => exact absurd hn (by simp)
  | cons m ns ih =>
    have hpos' : ∀ m' ∈ ns, 0 ≤ m'.level := fun m' hm' => hpos m' (List.mem_cons_of_mem _ hm')
    rw [List.foldl_cons]
    by_cases hrest : n ∈ ns
    · refine ih hpos' hrest ?_ fun m' hm' => huniq m' (List.mem_cons_of_mem _ hm')
      unfold place
      split
      · rwa [List.length_set]
      · exact hlen
    · have hm : n = m := (List.mem_cons.mp hn).resolve_right hrest
      subst hm
      rw [foldl_place_of_forall_ne hpos' fun m' hm' hlevel =>
        hrest (huniq m' (List.mem_cons_of_mem _ hm') hlevel ▸ hm')]
      have hplace : n.level < acc.length := by omega
      have hnat : n.level.toNat = l := by omega
      rw [place, if_pos hplace, hnat, List.getElem?_set_self hlen]

/-- Where no two nodes are at one level, the order in which they are placed does not matter. -/
theorem foldl_place_congr {ns ms : List SimpleChangeLog} (hmem : ∀ n, n ∈ ns ↔ n ∈ ms)
    (hpos : ∀ n ∈ ns, 0 ≤ n.level) (hlevel : ∀ n ∈ ns, ∀ m ∈ ns, n.level = m.level → n = m)
    (acc : List SimpleChangeLog) : ns.foldl place acc = ms.foldl place acc := by
  have hpos' : ∀ m ∈ ms, 0 ≤ m.level := fun m hm => hpos m ((hmem m).mpr hm)
  apply List.ext_getElem?
  intro l
  by_cases hl : l < acc.length
  · by_cases hex : ∃ n ∈ ns, n.level = l
    · obtain ⟨n, hn, hnl⟩ := hex
      have huniq : ∀ m ∈ ns, m.level = l → m = n := fun m hm hml => hlevel m hm n hn (hml.trans hnl.symm)
      rw [foldl_place_of_mem hpos hn hnl hl huniq, foldl_place_of_mem hpos' ((hmem n).mp hn) hnl hl]
      exact fun m hm => huniq m ((hmem m).mpr hm)
    · have hnone : ∀ n ∈ ns, n.level ≠ l := fun n hn hnl => hex ⟨n, hn, hnl⟩
      rw [foldl_place_of_forall_ne hpos hnone, foldl_place_of_forall_ne hpos']
      exact fun m hm => hnone m ((hmem m).mpr hm)
  · have hlen : acc.length ≤ l := by omega
    rw [List.getElem?_eq_none (by rwa [length_foldl_place]),
      List.getElem?_eq_none (by rwa [length_foldl_place])]

/-- What stands at a level of the final list: the stored node, or the empty subtree of that height. -/
theorem finalNodeList_hash {emptyNode : ℕ → Pubkey} {treeId : Bytes} {req : List ℤ}
    {ns : List SimpleChangeLog} (hpos : ∀ n ∈ ns, 0 ≤ n.level) (hne : ∀ n ∈ ns, n.nodeIdx ≠ 0)
    {l : ℕ} (hl : l < req.length) {hash : Bytes}
    (hstored : (∃ n ∈ ns, n.level = l ∧ n.hash = hash ∧ ∀ m ∈ ns, m.level = l → m = n) ∨
      ((∀ n ∈ ns, n.level ≠ l) ∧ hash = (emptyNode l).bytes)) :
    ((finalNodeList emptyNode treeId req ns)[l]?).map SimpleChangeLog.hash = some hash := by
  have hreq : req[l]? = some req[l] := List.getElem?_eq_getElem hl
  have hget : ∀ n, (ns.foldl place (List.replicate req.length {}))[l]? = some n →
      (finalNodeList emptyNode treeId req ns)[l]?
        = some (if n = {} then makeEmptyNode emptyNode l req[l] treeId else n) := by
    intro n hn
    simp [finalNodeList, List.getElem?_zipIdx, List.getElem?_zip_eq_some, hn, hreq]
  rcases hstored with ⟨n, hn, hlevel, hhash, huniq⟩ | ⟨hnone, hhash⟩
  · have hplaced : (ns.foldl place (List.replicate req.length {}))[l]? = some n :=
      foldl_place_of_mem hpos hn hlevel (by simpa using hl) huniq
    have hnd : n ≠ {} := by
      intro heq
      exact hne n hn (by rw [heq])
    rw [hget n hplaced, if_neg hnd, Option.map_some, hhash]
  · have hplaced : (ns.foldl place (List.replicate req.length {}))[l]? = some {} := by
      rw [foldl_place_of_forall_ne hpos hnone]
      simp [hl]
    rw [hget {} hplaced, if_pos rfl, Option.map_some, hhash]
    rfl

end DasIndexer.Dapi
