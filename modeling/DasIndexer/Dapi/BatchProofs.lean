import DasIndexer.Dapi.ServedProofs
import DasIndexer.Lib.IndexMap

/-!
# Proofs in batches

`getAssetProofs` serves the proofs of a list of assets with two queries: one joins the assets with their
leaves, the other asks for the required nodes of all the leaves at once.  The rows are kept in hash maps, by
tree and leaf and by tree and node, and every proof is built from its own entries.  Neither query has an
`ORDER BY` and the maps are walked in no fixed order, so the batch is modelled for every such order.

The single proof takes the newest leaf row of an asset, the batch the last one it meets.  A tree in which
two leaf nodes show the same leaf number tells the two apart (`twin_leaves_are_served_apart`).  The change
log writes no such tree: the leaf number of a node is its place in the row of leaves
(`processAll_nodesByDepth`).  Where leaf numbers do not repeat, **`batch_proofs_agree`**: the batch has an
entry for an asset exactly when the single proof is found, and the entry is that proof.
-/

namespace DasIndexer.Dapi

open Sql HeapTree Bubblegum

/-! ### The batch -/

/-- A leaf with its asset, as the batch query returns it. -/
structure LeafInfo where
  id : Bytes
  treeId : Bytes
  leafIdx : ℤ
  nodeIdx : ℤ
  hash : Bytes
deriving DecidableEq

/-- The key of a leaf. -/
structure Leaf where
  treeId : Bytes
  leafIdx : ℤ
deriving DecidableEq

def LeafInfo.key (l : LeafInfo) : Leaf := ⟨l.treeId, l.leafIdx⟩

/-- An order that nothing fixes: of the rows of a query without `ORDER BY`, or of a walk over a hash map. -/
structure Shuffle (α : Type) where
  order : List α → List α
  perm : ∀ l, (order l).Perm l

/-- The orders a batch meets. -/
structure BatchOrders where
  leaves : Shuffle LeafInfo
  nodes : Shuffle SimpleChangeLog
  trees : Shuffle (Leaf × List ℤ)

/-- The leaves of the assets asked for: the join of `asset` with `cl_items` on the nonce and the tree.
Unlike the single query it does not look at the level. -/
def leafInfos (db : Database) (assetIds : List Bytes) : List LeafInfo :=
  (((scan db.asset).product (scan db.clItems)).filter fun e =>
    holds (and (and (eq e.1.2.nonce e.2.2.leafIdx) (eq e.1.2.treeId (some e.2.1.1)))
      (some (decide (e.1.1 ∈ assetIds))))).filterMap fun e => do
    let treeId ← e.1.2.treeId
    let leafIdx ← e.2.2.leafIdx
    return { id := e.1.1, treeId, leafIdx, nodeIdx := e.2.1.2, hash := e.2.2.hash }

/-- The map from leaves to what the query returned for them. -/
def assetMap (leaves : List LeafInfo) : IndexMap Leaf LeafInfo :=
  IndexMap.collect (fun l => some (l.key, l)) leaves

/-- The map from leaves to the nodes their proofs require. -/
def treeIndexes (leaves : List LeafInfo) : IndexMap Leaf (List ℤ) :=
  IndexMap.collect (fun l => some (l.key, getRequiredNodesForProof l.nodeIdx)) leaves

/-- The columns of a node that the proof queries select. -/
def simpleChangeLog (e : (Bytes × ℤ) × ClItemRow) : SimpleChangeLog :=
  { hash := e.2.hash, level := e.2.level, nodeIdx := e.1.2, seq := e.2.seq, tree := e.1.1 }

/-- The stored nodes that some leaf requires.  Without any leaf the condition of the query is empty, and
nothing reads what it selects. -/
def batchNodes (db : Database) (indexes : IndexMap Leaf (List ℤ)) : List SimpleChangeLog :=
  ((scan db.clItems).filter fun e => indexes.entries.any fun t =>
    decide (e.1.1 = t.1.treeId ∧ e.1.2 ∈ t.2)).map simpleChangeLog

/-- The map from nodes to their rows. -/
def nodeMap (nodes : List SimpleChangeLog) : IndexMap (Bytes × ℤ) SimpleChangeLog :=
  IndexMap.collect (fun n => some ((n.tree, n.nodeIdx), n)) nodes

/-- The proof of one leaf, under the name of its asset.  The leaf is always found (`leafProof_isSome`), as
the `unwrap` of the code has it. -/
def leafProof (emptyNode : ℕ → Pubkey) (assets : IndexMap Leaf LeafInfo)
    (nodes : IndexMap (Bytes × ℤ) SimpleChangeLog) (e : Leaf × List ℤ) : Option (String × AssetProof) :=
  let required := e.2.filterMap fun n => nodes.get (e.1.treeId, n)
  (assets.get e.1).map fun info => (Base58.encode info.id,
    buildAssetProof emptyNode info.treeId info.nodeIdx info.hash e.2 required)

/-- `get_asset_proofs`. -/
def getAssetProofs (emptyNode : ℕ → Pubkey) (orders : BatchOrders) (db : Database)
    (assetIds : List Bytes) : IndexMap String AssetProof :=
  let leaves := orders.leaves.order (leafInfos db assetIds)
  let indexes := treeIndexes leaves
  let nodes := orders.nodes.order (batchNodes db indexes)
  IndexMap.collect (leafProof emptyNode (assetMap leaves) (nodeMap nodes))
    (orders.trees.order indexes.entries)

theorem Shuffle.mem_order {α : Type} (s : Shuffle α) {l : List α} {a : α} : a ∈ s.order l ↔ a ∈ l :=
  (s.perm l).mem_iff

/-- The two maps over the leaves have the same keys. -/
theorem leafProof_isSome (emptyNode : ℕ → Pubkey) {leaves : List LeafInfo}
    (nodes : IndexMap (Bytes × ℤ) SimpleChangeLog) {e : Leaf × List ℤ}
    (he : e ∈ (treeIndexes leaves).entries) :
    (leafProof emptyNode (assetMap leaves) nodes e).isSome := by
  have hkey : e.1 ∈ (treeIndexes leaves).keys := IndexMap.mem_keys.mpr ⟨e.2, he⟩
  obtain ⟨l, hl, _, hf⟩ := IndexMap.mem_keys_collect.mp hkey
  have hle : l.key = e.1 := (Prod.mk.inj (Option.some.inj hf)).1
  have hasset : e.1 ∈ (assetMap leaves).keys :=
    IndexMap.mem_keys_collect.mpr ⟨l, hl, l, by rw [hle]⟩
  obtain ⟨info, hinfo⟩ := IndexMap.mem_keys.mp hasset
  simp only [leafProof, IndexMap.get_eq_some_iff.mpr hinfo, Option.map_some, Option.isSome_some]

/-! ### What the tables promise -/

/-- The nodes of every tree have the level that the depth of the tree implies, leaf numbers stand on the
leaves and nowhere else, and no two assets are at one place of a tree. -/
structure ProofTables (db : Database) : Prop where
  level : ∀ t, ∃ d, ∀ idx r, db.clItems.lookup (t, idx) = some r →
    ∃ l p, l ≤ d ∧ p < 2 ^ (d - l) ∧ idx = (heapIdx d l p : ℤ) ∧ r.level = l
  leaf : ∀ t idx r, db.clItems.lookup (t, idx) = some r → (r.leafIdx.isSome ↔ r.level = 0)
  asset : ∀ a b ra rb, db.asset.lookup a = some ra → db.asset.lookup b = some rb →
    ∀ t n, ra.treeId = some t → rb.treeId = some t → ra.nonce = some n → rb.nonce = some n → a = b

/-- No two leaf nodes of a tree show the same leaf number. -/
def LeavesApart (db : Database) : Prop :=
  ∀ t i j r s, db.clItems.lookup (t, i) = some r → db.clItems.lookup (t, j) = some s →
    r.level = 0 → s.level = 0 → r.leafIdx = s.leafIdx → i = j

/-! ### What the change log writes -/

/-- A stored node has its level and, if it is a leaf, its place among the leaves. -/
def NodesByDepth (depth : Bytes → ℕ) (db : Database) : Prop :=
  ∀ t idx r, db.clItems.lookup (t, idx) = some r → ∃ l p, l ≤ depth t ∧ p < 2 ^ (depth t - l) ∧
    idx = (heapIdx (depth t) l p : ℤ) ∧ r.level = l ∧ r.leafIdx = if l = 0 then some (p : ℤ) else none

/-- The path of an event leads from a leaf of its tree to the root. -/
def ClimbsToRoot (depth : Bytes → ℕ) (event : ChangeLogEventV1) : Prop :=
  event.path.length = depth event.id.bytes + 1 ∧ ∃ j < 2 ^ depth event.id.bytes, ∀ l p,
    event.path[l]? = some p → p.index = heapIdx (depth event.id.bytes) l (j / 2 ^ l)

section Writer

variable {depth : Bytes → ℕ} {event : ChangeLogEventV1}

/-- One node of a path. -/
theorem NodesByDepth.upsertClItem {db : Database} (h : NodesByDepth depth db) {i j : ℕ} {p : PathNode}
    (hi : i ≤ depth event.id.bytes) (hj : j < 2 ^ depth event.id.bytes)
    (hp : p.index = heapIdx (depth event.id.bytes) i (j / 2 ^ i)) :
    NodesByDepth depth (Database.upsertClItem (event.id.bytes, (p.index : ℤ))
      (clItem event (depth event.id.bytes) i p) db) := by
  intro t idx r hr
  have hrow : (upsert db.clItems (event.id.bytes, (p.index : ℤ))
      (clItem event (depth event.id.bytes) i p)).lookup (t, idx) = some r := hr
  rw [lookup_upsert] at hrow
  by_cases hk : (t, idx) = (event.id.bytes, (p.index : ℤ))
  · obtain ⟨rfl, rfl⟩ := Prod.mk.inj hk
    have hnew : ∃ l q, l ≤ depth event.id.bytes ∧ q < 2 ^ (depth event.id.bytes - l) ∧
        (p.index : ℤ) = (heapIdx (depth event.id.bytes) l q : ℤ) ∧
        (clItem event (depth event.id.bytes) i p).new.level = l ∧
        (clItem event (depth event.id.bytes) i p).new.leafIdx
          = if l = 0 then some (q : ℤ) else none := by
      refine ⟨i, j / 2 ^ i, hi, position_lt hi hj, by rw [hp], rfl, ?_⟩
      by_cases hi0 : i = 0
      · subst hi0
        simp [clItem, nodeIdxToLeafIdx, hp, heapIdx]
      · simp [clItem, hi0]
    rw [if_pos rfl, Option.some.injEq] at hrow
    subst hrow
    -- a newer change replaces the row by the same one as a first change
    cases hold : db.clItems.lookup (event.id.bytes, (p.index : ℤ)) with
    | none => exact hnew
    | some old =>
      rw [Upsert.row_some]
      split
      · exact hnew
      · exact h _ _ _ hold
  · rw [if_neg hk] at hrow
    exact h t idx r hrow

/-- One path. -/
theorem NodesByDepth.pathEffect {j : ℕ} (hj : j < 2 ^ depth event.id.bytes) {i : ℕ} {ps : List PathNode}
    (hlen : i + ps.length ≤ depth event.id.bytes + 1)
    (hps : ∀ m p, ps[m]? = some p →
      p.index = heapIdx (depth event.id.bytes) (i + m) (j / 2 ^ (i + m)))
    {db : Database} (h : NodesByDepth depth db) :
    NodesByDepth depth (Bubblegum.pathEffect event (depth event.id.bytes) i ps db) := by
  induction ps generalizing i db with
  | nil => exact h
  | cons p ps ih =>
    rw [List.length_cons] at hlen
    apply ih (by omega)
    · intro m q hq
      have hm := hps (m + 1) q (by simpa using hq)
      rwa [show i + (m + 1) = i + 1 + m from by omega] at hm
    · exact h.upsertClItem (by omega) hj (hps 0 p rfl)

/-- **A run of the change log keeps the nodes in their places.** -/
theorem processAll_nodesByDepth {calls : List ChangeLogCall}
    (hcalls : ∀ c ∈ calls, ClimbsToRoot depth c.event) {db : Database} (h : NodesByDepth depth db) :
    NodesByDepth depth (processAll calls db) := by
  induction calls generalizing db with
  | nil => exact h
  | cons c cs ih =>
    apply ih fun c' hc' => hcalls c' (List.mem_cons_of_mem _ hc')
    obtain ⟨hlen, j, hj, hpath⟩ := hcalls c List.mem_cons_self
    have hrows := (process_frame c db).1
    rw [show c.event.path.length - 1 = depth c.event.id.bytes from by omega] at hrows
    intro t idx r hr
    rw [hrows] at hr
    refine NodesByDepth.pathEffect hj (by omega) (fun m p hp => ?_) h t idx r hr
    rw [Nat.zero_add]
    exact hpath m p hp

/-- Nodes in their places have leaf numbers that do not repeat. -/
theorem NodesByDepth.leavesApart {db : Database} (h : NodesByDepth depth db) : LeavesApart db := by
  intro t i j r s hr hs hr0 hs0 hrs
  obtain ⟨l, p, _, _, hi, hl, hp⟩ := h t i r hr
  obtain ⟨m, q, _, _, hj, hm, hq⟩ := h t j s hs
  have hl0 : l = 0 := by omega
  have hm0 : m = 0 := by omega
  subst hl0 hm0
  rw [hp, hq, if_pos rfl, if_pos rfl, Option.some.injEq] at hrs
  rw [hi, hj, Int.ofNat_inj.mp hrs]

theorem NodesByDepth.proofTables {db : Database} (h : NodesByDepth depth db)
    (hasset : ∀ a b ra rb, db.asset.lookup a = some ra → db.asset.lookup b = some rb →
      ∀ t n, ra.treeId = some t → rb.treeId = some t → ra.nonce = some n → rb.nonce = some n → a = b) :
    ProofTables db where
  level := by
    intro t
    refine ⟨depth t, fun idx r hr => ?_⟩
    obtain ⟨l, p, hl, hp, hidx, hlevel, _⟩ := h t idx r hr
    exact ⟨l, p, hl, hp, hidx, hlevel⟩
  leaf := by
    intro t idx r hr
    obtain ⟨l, p, _, _, _, hlevel, hleaf⟩ := h t idx r hr
    rw [hleaf, hlevel]
    split <;> simp_all
  asset := hasset

end Writer

/-! ### The leaves of a batch -/

/-- What it takes for a leaf to be in the batch. -/
theorem mem_leafInfos {db : Database} {assetIds : List Bytes} {l : LeafInfo} :
    l ∈ leafInfos db assetIds ↔ l.id ∈ assetIds ∧ ∃ a r, db.asset.lookup l.id = some a ∧
      a.treeId = some l.treeId ∧ a.nonce = some l.leafIdx ∧
      db.clItems.lookup (l.treeId, l.nodeIdx) = some r ∧ r.leafIdx = some l.leafIdx ∧ l.hash = r.hash := by
  unfold leafInfos
  rw [List.mem_filterMap]
  constructor
  · rintro ⟨⟨⟨id, a⟩, ⟨⟨t, idx⟩, r⟩⟩, he, hl⟩
    obtain ⟨hprod, hjoin⟩ := List.mem_filter.mp he
    obtain ⟨ha, hr⟩ := List.pair_mem_product.mp hprod
    rw [mem_scan] at ha hr
    simp only [holds_and, holds_some, Bool.and_eq_true, holds_eq_iff, decide_eq_true_eq] at hjoin
    obtain ⟨⟨⟨n, hnonce, hleaf⟩, ⟨t', htree, ht⟩⟩, hid⟩ := hjoin
    obtain rfl := Option.some.inj ht
    simp only [htree, hleaf, Option.bind_eq_bind, Option.bind_some, Option.pure_def,
      Option.some.injEq] at hl
    subst hl
    exact ⟨hid, a, r, ha, htree, hnonce, hr, hleaf, rfl⟩
  · rintro ⟨hid, a, r, ha, htree, hnonce, hr, hleaf, hhash⟩
    refine ⟨((l.id, a), ((l.treeId, l.nodeIdx), r)), List.mem_filter.mpr ⟨?_, ?_⟩, ?_⟩
    · exact List.pair_mem_product.mpr ⟨(mem_scan _ _ _).mpr ha, (mem_scan _ _ _).mpr hr⟩
    · simp only [holds_and, holds_some, Bool.and_eq_true, holds_eq_iff, decide_eq_true_eq]
      exact ⟨⟨⟨_, hnonce, hleaf⟩, ⟨_, htree, rfl⟩⟩, hid⟩
    · simp only [htree, hleaf, ← hhash, Option.bind_eq_bind, Option.bind_some, Option.pure_def]

section Agreement

variable {db : Database} {assetIds : List Bytes}

/-- An asset has one place. -/
theorem key_eq_of_id_eq {l m : LeafInfo} (hl : l ∈ leafInfos db assetIds)
    (hm : m ∈ leafInfos db assetIds) (hid : l.id = m.id) : l.key = m.key := by
  obtain ⟨_, a, _, ha, htree, hnonce, _⟩ := mem_leafInfos.mp hl
  obtain ⟨_, b, _, hb, htree', hnonce', _⟩ := mem_leafInfos.mp hm
  rw [hid, hb, Option.some.injEq] at ha
  subst ha
  rw [htree, Option.some.injEq] at htree'
  rw [hnonce, Option.some.injEq] at hnonce'
  rw [LeafInfo.key, LeafInfo.key, htree', hnonce']

/-- A place has one asset and one node. -/
theorem leafInfo_eq_of_key_eq (htables : ProofTables db) (hapart : LeavesApart db) {l m : LeafInfo}
    (hl : l ∈ leafInfos db assetIds) (hm : m ∈ leafInfos db assetIds) (hkey : l.key = m.key) : l = m := by
  obtain ⟨_, a, r, ha, htree, hnonce, hr, hleaf, hhash⟩ := mem_leafInfos.mp hl
  obtain ⟨_, b, s, hb, htree', hnonce', hs, hleaf', hhash'⟩ := mem_leafInfos.mp hm
  obtain ⟨ht, hi⟩ := Leaf.mk.inj hkey
  rw [← ht] at htree' hs
  rw [← hi] at hnonce' hleaf'
  have hid : l.id = m.id := htables.asset _ _ _ _ ha hb _ _ htree htree' hnonce hnonce'
  have hr0 : r.level = 0 := (htables.leaf _ _ _ hr).mp (by rw [hleaf]; rfl)
  have hs0 : s.level = 0 := (htables.leaf _ _ _ hs).mp (by rw [hleaf']; rfl)
  have hidx : l.nodeIdx = m.nodeIdx := hapart _ _ _ _ _ hr hs hr0 hs0 (by rw [hleaf, hleaf'])
  rw [← hidx, hr, Option.some.injEq] at hs
  obtain ⟨lid, lt, li, ln, lh⟩ := l
  obtain ⟨mid, mt, mi, mn, mh⟩ := m
  simp only at hid ht hi hidx hhash hhash'
  rw [hid, ht, hi, hidx, hhash, hhash', hs]

theorem mem_leafRows_iff (htables : ProofTables db) {id : Bytes} (hid : id ∈ assetIds) {t : Bytes}
    {idx : ℤ} {r : ClItemRow} : ((t, idx), r) ∈ leafRows db id ↔ db.clItems.lookup (t, idx) = some r ∧
      ∃ n, (⟨id, t, n, idx, r.hash⟩ : LeafInfo) ∈ leafInfos db assetIds := by
  rw [mem_leafRows]
  constructor
  · intro ⟨a, n, ha, htree, hnonce, hr, hn, _⟩
    exact ⟨hr, n, mem_leafInfos.mpr ⟨hid, a, r, ha, htree, hnonce, hr, hn, rfl⟩⟩
  · intro ⟨hr, n, hmem⟩
    obtain ⟨_, a, r', ha, htree, hnonce, hr', hn, _⟩ := mem_leafInfos.mp hmem
    obtain rfl := Option.some.inj (hr.symm.trans hr')
    -- the join of the batch has no filter on the level, but a leaf number says that it is zero
    exact ⟨a, n, ha, htree, hnonce, hr, hn, (htables.leaf _ _ _ hr).mp (by rw [hn]; rfl)⟩

/-- The single proof of a leaf. -/
def singleProof (emptyNode : ℕ → Pubkey) (db : Database) (l : LeafInfo) : AssetProof :=
  buildAssetProof emptyNode l.treeId l.nodeIdx l.hash (getRequiredNodesForProof l.nodeIdx)
    (requiredNodes db l.treeId (getRequiredNodesForProof l.nodeIdx))

/-- **The leaf of the single proof** is the leaf of the batch. -/
theorem getProofForAsset_eq_ok_iff (emptyNode : ℕ → Pubkey) (htables : ProofTables db)
    (hapart : LeavesApart db) {id : Bytes} (hid : id ∈ assetIds) {proof : AssetProof} :
    getProofForAsset emptyNode db id = .ok proof ↔
      ∃ l ∈ leafInfos db assetIds, l.id = id ∧ singleProof emptyNode db l = proof := by
  unfold getProofForAsset
  cases hhead : (leafRows db id).head? with
  | none =>
    refine ⟨fun h => absurd h (by simp), ?_⟩
    intro ⟨l, hl, hlid, _⟩
    obtain ⟨_, _, r, _, _, _, hr, _, hhash⟩ := mem_leafInfos.mp hl
    have hmem : ((l.treeId, l.nodeIdx), r) ∈ leafRows db id :=
      (mem_leafRows_iff htables hid).mpr ⟨hr, l.leafIdx, by rw [← hhash, ← hlid]; exact hl⟩
    rw [List.head?_eq_none_iff.mp hhead] at hmem
    cases hmem
  | some e =>
    obtain ⟨⟨t, idx⟩, r⟩ := e
    obtain ⟨_, n, hmem⟩ := (mem_leafRows_iff htables hid).mp (List.mem_of_head? hhead)
    simp only [Except.ok.injEq]
    constructor
    · intro h
      exact ⟨_, hmem, rfl, h⟩
    · intro ⟨l, hl, hlid, hproof⟩
      have hkey : l.key = (⟨id, t, n, idx, r.hash⟩ : LeafInfo).key := key_eq_of_id_eq hl hmem hlid
      obtain rfl := leafInfo_eq_of_key_eq htables hapart hl hmem hkey
      exact hproof

/-! ### The maps of a batch -/

theorem mem_assetMap {leaves : List LeafInfo} (hkey : ∀ l ∈ leaves, ∀ m ∈ leaves, l.key = m.key → l = m)
    {k : Leaf} {l : LeafInfo} : (assetMap leaves).get k = some l ↔ l ∈ leaves ∧ l.key = k := by
  rw [IndexMap.get_eq_some_iff, assetMap, IndexMap.mem_collect]
  · simp only [Option.some.injEq, Prod.mk.injEq]
    constructor
    · intro ⟨a, ha, hk, hal⟩
      subst hal
      exact ⟨ha, hk⟩
    · intro ⟨hl, hk⟩
      exact ⟨l, hl, hk, rfl⟩
  · intro a ha b hb k v v' hfa hfb
    obtain ⟨hka, rfl⟩ := Prod.mk.inj (Option.some.inj hfa)
    obtain ⟨hkb, rfl⟩ := Prod.mk.inj (Option.some.inj hfb)
    exact hkey _ ha _ hb (hka.trans hkb.symm)

theorem mem_treeIndexes {leaves : List LeafInfo}
    (hkey : ∀ l ∈ leaves, ∀ m ∈ leaves, l.key = m.key → l = m) {k : Leaf} {req : List ℤ} :
    (k, req) ∈ (treeIndexes leaves).entries ↔
      ∃ l ∈ leaves, l.key = k ∧ getRequiredNodesForProof l.nodeIdx = req := by
  rw [treeIndexes, IndexMap.mem_collect]
  · simp only [Option.some.injEq, Prod.mk.injEq]
  · intro a ha b hb k v v' hfa hfb
    obtain ⟨hka, rfl⟩ := Prod.mk.inj (Option.some.inj hfa)
    obtain ⟨hkb, rfl⟩ := Prod.mk.inj (Option.some.inj hfb)
    rw [hkey _ ha _ hb (hka.trans hkb.symm)]

theorem mem_batchNodes {indexes : IndexMap Leaf (List ℤ)} {n : SimpleChangeLog} :
    n ∈ batchNodes db indexes ↔ (∃ k req, (k, req) ∈ indexes.entries ∧ n.tree = k.treeId ∧ n.nodeIdx ∈ req) ∧
      ∃ r, db.clItems.lookup (n.tree, n.nodeIdx) = some r ∧ n = simpleChangeLog ((n.tree, n.nodeIdx), r) := by
  unfold batchNodes
  rw [List.mem_map]
  constructor
  · intro ⟨⟨⟨t, idx⟩, r⟩, he, hn⟩
    subst hn
    obtain ⟨hr, hreq⟩ := List.mem_filter.mp he
    obtain ⟨⟨k, req⟩, hk, hdec⟩ := List.any_eq_true.mp hreq
    exact ⟨⟨k, req, hk, of_decide_eq_true hdec⟩, r, (mem_scan _ _ _).mp hr, rfl⟩
  · intro ⟨⟨k, req, hk, hreq⟩, r, hr, hn⟩
    refine ⟨_, List.mem_filter.mpr ⟨(mem_scan _ _ _).mpr hr, ?_⟩, hn.symm⟩
    exact List.any_eq_true.mpr ⟨(k, req), hk, decide_eq_true hreq⟩

/-- **The map of the nodes** holds every stored node that some leaf requires, as it is stored. -/
theorem nodeMap_get (orders : Shuffle SimpleChangeLog) {indexes : IndexMap Leaf (List ℤ)} {k : Leaf}
    {req : List ℤ} (hk : (k, req) ∈ indexes.entries) {idx : ℤ} (hidx : idx ∈ req) :
    (nodeMap (orders.order (batchNodes db indexes))).get (k.treeId, idx)
      = (db.clItems.lookup (k.treeId, idx)).map fun r => simpleChangeLog ((k.treeId, idx), r) := by
  have hsome : ∀ n, (nodeMap (orders.order (batchNodes db indexes))).get (k.treeId, idx) = some n ↔
      ∃ r, db.clItems.lookup (k.treeId, idx) = some r ∧ simpleChangeLog ((k.treeId, idx), r) = n := by
    intro n
    rw [IndexMap.get_eq_some_iff, nodeMap, IndexMap.mem_collect]
    · simp only [Option.some.injEq, Prod.mk.injEq, orders.mem_order, mem_batchNodes]
      constructor
      · intro ⟨m, ⟨_, r, hr, hm⟩, ⟨ht, hi⟩, hmn⟩
        rw [ht, hi] at hr hm
        exact ⟨r, hr, hmn ▸ hm.symm⟩
      · intro ⟨r, hr, hn⟩
        subst hn
        exact ⟨_, ⟨⟨k, req, hk, rfl, hidx⟩, r, hr, rfl⟩, ⟨rfl, rfl⟩, rfl⟩
    · intro a ha b hb key v v' hfa hfb
      obtain ⟨hka, rfl⟩ := Prod.mk.inj (Option.some.inj hfa)
      obtain ⟨hkb, rfl⟩ := Prod.mk.inj (Option.some.inj hfb)
      obtain ⟨_, r, hr, hra⟩ := mem_batchNodes.mp (orders.mem_order.mp ha)
      obtain ⟨_, s, hs, hsb⟩ := mem_batchNodes.mp (orders.mem_order.mp hb)
      rw [hka] at hr hra
      rw [hkb] at hs hsb
      rw [hra, hsb, Option.some.inj (hr.symm.trans hs)]
  ext n
  rw [hsome, Option.map_eq_some_iff]

/-! ### One proof -/

/-- A required node is at the level of its place in the list. -/
theorem level_of_required {t : Bytes} {d j : ℕ} (hj : j < 2 ^ d)
    (hlevel : ∀ idx r, db.clItems.lookup (t, idx) = some r →
      ∃ l p, l ≤ d ∧ p < 2 ^ (d - l) ∧ idx = (heapIdx d l p : ℤ) ∧ r.level = l)
    {n : SimpleChangeLog}
    (hn : n ∈ requiredNodes db t (getRequiredNodesForProof ((2 ^ d + j : ℕ) : ℤ))) :
    ∃ l : ℕ, n.level = l ∧ n.nodeIdx = (heapIdx d l (requiredPos d j l) : ℤ) := by
  obtain ⟨idx, r, hidx, hr, rfl⟩ := mem_requiredNodes.mp hn
  rw [getRequiredNodesForProof_eq hj] at hidx
  obtain ⟨m, hm, rfl⟩ := List.mem_map.mp hidx
  have hmd : m ≤ d := by
    have := List.mem_range.mp hm
    omega
  obtain ⟨l, p, hl, hp, hlp, hrl⟩ := hlevel _ _ hr
  have hml := (heapIdx_inj hmd hl (requiredPos_lt hj hmd) hp (by exact_mod_cast hlp)).1
  exact ⟨m, by rw [hml]; exact hrl, rfl⟩

/-- **A proof does not depend on the order of its nodes.**  What the batch finds in its map, in the order
of the required nodes, builds the same proof as the rows of the single query. -/
theorem buildAssetProof_required (emptyNode : ℕ → Pubkey) (htables : ProofTables db) {t : Bytes} {idx : ℤ}
    {leaf : ClItemRow} (hleaf : db.clItems.lookup (t, idx) = some leaf) (hzero : leaf.level = 0)
    (hash : Bytes) {required : List SimpleChangeLog}
    (hrequired : ∀ n, n ∈ required ↔ n ∈ requiredNodes db t (getRequiredNodesForProof idx)) :
    buildAssetProof emptyNode t idx hash (getRequiredNodesForProof idx) required
      = buildAssetProof emptyNode t idx hash (getRequiredNodesForProof idx)
        (requiredNodes db t (getRequiredNodesForProof idx)) := by
  obtain ⟨d, hd⟩ := htables.level t
  obtain ⟨l, j, hl, hj, rfl, hlevel⟩ := hd idx leaf hleaf
  have hl0 : l = 0 := by omega
  subst hl0
  have hat : ∀ n ∈ requiredNodes db t (getRequiredNodesForProof (heapIdx d 0 j : ℤ)),
      ∃ l : ℕ, n.level = l ∧ n.nodeIdx = (heapIdx d l (requiredPos d j l) : ℤ) :=
    fun n hn => level_of_required hj hd hn
  have hplace := foldl_place_congr (fun n => (hrequired n).symm)
    (fun n hn => by
      obtain ⟨l, hnl, _⟩ := hat n hn
      omega)
    (fun n hn m hm hnm => by
      obtain ⟨l, hnl, hni⟩ := hat n hn
      obtain ⟨l', hml, hmi⟩ := hat m hm
      have hll : l = l' := by omega
      obtain ⟨i, r, _, hr, rfl⟩ := mem_requiredNodes.mp hn
      obtain ⟨i', r', _, hr', rfl⟩ := mem_requiredNodes.mp hm
      have hii : i = i' := by
        rw [show i = _ from hni, show i' = _ from hmi, hll]
      subst hii
      rw [Option.some.inj (hr.symm.trans hr')])
  simp only [buildAssetProof, finalNodeList, hplace]

/-- **The proof of a leaf in the batch** is its single proof. -/
theorem leafProof_of_mem (emptyNode : ℕ → Pubkey) (orders : BatchOrders) (htables : ProofTables db)
    {leaves : List LeafInfo} (hkey : ∀ l ∈ leaves, ∀ m ∈ leaves, l.key = m.key → l = m)
    (hsub : ∀ l ∈ leaves, l ∈ leafInfos db assetIds) {l : LeafInfo} (hl : l ∈ leaves) :
    leafProof emptyNode (assetMap leaves)
        (nodeMap (orders.nodes.order (batchNodes db (treeIndexes leaves))))
        (l.key, getRequiredNodesForProof l.nodeIdx)
      = some (Base58.encode l.id, singleProof emptyNode db l) := by
  have hentry : (l.key, getRequiredNodesForProof l.nodeIdx) ∈ (treeIndexes leaves).entries :=
    (mem_treeIndexes hkey).mpr ⟨l, hl, rfl, rfl⟩
  obtain ⟨_, a, r, ha, htree, hnonce, hr, hleaf, _⟩ := mem_leafInfos.mp (hsub l hl)
  have hzero : r.level = 0 := (htables.leaf _ _ _ hr).mp (by rw [hleaf]; rfl)
  simp only [leafProof, (mem_assetMap hkey).mpr ⟨hl, rfl⟩, Option.map_some]
  rw [singleProof, buildAssetProof_required emptyNode htables hr hzero]
  intro n
  rw [List.mem_filterMap, mem_requiredNodes]
  constructor
  · intro ⟨idx, hidx, hget⟩
    rw [nodeMap_get orders.nodes hentry hidx] at hget
    obtain ⟨s, hs, hn⟩ := Option.map_eq_some_iff.mp hget
    exact ⟨idx, s, hidx, hs, hn.symm⟩
  · intro ⟨idx, s, hidx, hs, hn⟩
    refine ⟨idx, hidx, ?_⟩
    rw [nodeMap_get orders.nodes hentry hidx]
    exact Option.map_eq_some_iff.mpr ⟨s, hs, hn.symm⟩

/-- **The entries of a batch.** -/
theorem mem_getAssetProofs (emptyNode : ℕ → Pubkey) (orders : BatchOrders) (htables : ProofTables db)
    (hapart : LeavesApart db) {name : String} {proof : AssetProof} :
    (name, proof) ∈ (getAssetProofs emptyNode orders db assetIds).entries ↔
      ∃ l ∈ leafInfos db assetIds, Base58.encode l.id = name ∧ singleProof emptyNode db l = proof := by
  have hsub : ∀ l ∈ orders.leaves.order (leafInfos db assetIds), l ∈ leafInfos db assetIds :=
    fun l hl => orders.leaves.mem_order.mp hl
  have hkey : ∀ l ∈ orders.leaves.order (leafInfos db assetIds),
      ∀ m ∈ orders.leaves.order (leafInfos db assetIds), l.key = m.key → l = m :=
    fun l hl m hm => leafInfo_eq_of_key_eq htables hapart (hsub l hl) (hsub m hm)
  -- an entry of the walk over the leaves makes the single proof of its leaf
  have hwalk : ∀ e ∈ orders.trees.order
      (treeIndexes (orders.leaves.order (leafInfos db assetIds))).entries, ∃ l ∈ leafInfos db assetIds,
      leafProof emptyNode (assetMap (orders.leaves.order (leafInfos db assetIds)))
          (nodeMap (orders.nodes.order (batchNodes db
            (treeIndexes (orders.leaves.order (leafInfos db assetIds)))))) e
        = some (Base58.encode l.id, singleProof emptyNode db l) := by
    intro e he
    obtain ⟨l, hl, hlk, hreq⟩ := (mem_treeIndexes hkey).mp (orders.trees.mem_order.mp he)
    refine ⟨l, hsub l hl, ?_⟩
    rw [← leafProof_of_mem emptyNode orders htables hkey hsub hl, hlk, hreq]
  unfold getAssetProofs
  rw [IndexMap.mem_collect]
  · constructor
    · intro ⟨e, he, hproof⟩
      obtain ⟨l, hl, hle⟩ := hwalk e he
      rw [hle] at hproof
      obtain ⟨hname, hp⟩ := Prod.mk.inj (Option.some.inj hproof)
      exact ⟨l, hl, hname, hp⟩
    · intro ⟨l, hl, hname, hp⟩
      have hl' := orders.leaves.mem_order.mpr hl
      refine ⟨_, orders.trees.mem_order.mpr ((mem_treeIndexes hkey).mpr ⟨l, hl', rfl, rfl⟩), ?_⟩
      rw [leafProof_of_mem emptyNode orders htables hkey hsub hl', hname, hp]
  · intro e he e' he' name v v' hv hv'
    obtain ⟨l, hl, hle⟩ := hwalk e he
    obtain ⟨m, hm, hme⟩ := hwalk e' he'
    rw [hle] at hv
    rw [hme] at hv'
    obtain ⟨hln, rfl⟩ := Prod.mk.inj (Option.some.inj hv)
    obtain ⟨hmn, rfl⟩ := Prod.mk.inj (Option.some.inj hv')
    -- one asset, one place, one leaf
    have hid : l.id = m.id := Base58.encode_injective (hln.trans hmn.symm)
    rw [leafInfo_eq_of_key_eq htables hapart hl hm (key_eq_of_id_eq hl hm hid)]

/-- What the batch has for an asset is its single proof, if there is one. -/
theorem get_getAssetProofs (emptyNode : ℕ → Pubkey) (orders : BatchOrders) (htables : ProofTables db)
    (hapart : LeavesApart db) {id : Bytes} (hid : id ∈ assetIds) :
    (getAssetProofs emptyNode orders db assetIds).get (Base58.encode id)
      = (getProofForAsset emptyNode db id).toOption := by
  ext proof
  have hsingle : (getProofForAsset emptyNode db id).toOption = some proof ↔
      getProofForAsset emptyNode db id = .ok proof := by
    cases getProofForAsset emptyNode db id <;> simp [Except.toOption]
  rw [hsingle, IndexMap.get_eq_some_iff, mem_getAssetProofs emptyNode orders htables hapart,
    getProofForAsset_eq_ok_iff emptyNode htables hapart hid]
  constructor
  · intro ⟨l, hl, hname, hproof⟩
    exact ⟨l, hl, Base58.encode_injective hname, hproof⟩
  · intro ⟨l, hl, hlid, hproof⟩
    exact ⟨l, hl, by rw [hlid], hproof⟩

end Agreement

/-- After any run of the change log single and batch proofs agree. -/
theorem processAll_batch_proofs_agree (emptyNode : ℕ → Pubkey) (orders : BatchOrders)
    {depth : Bytes → ℕ} {calls : List ChangeLogCall}
    (hcalls : ∀ c ∈ calls, ClimbsToRoot depth c.event) {db : Database} (hdb : NodesByDepth depth db)
    (hasset : ∀ a b ra rb, db.asset.lookup a = some ra → db.asset.lookup b = some rb →
      ∀ t n, ra.treeId = some t → rb.treeId = some t → ra.nonce = some n → rb.nonce = some n → a = b)
    {assetIds : List Bytes} {id : Bytes} (hid : id ∈ assetIds) :
    (getAssetProofs emptyNode orders (processAll calls db) assetIds).get (Base58.encode id)
      = (getProofForAsset emptyNode (processAll calls db) id).toOption := by
  have hnodes := processAll_nodesByDepth hcalls hdb
  exact get_getAssetProofs emptyNode orders
    (hnodes.proofTables (by rw [processAll_asset]; exact hasset)) hnodes.leavesApart hid

/-- **Single and batch proofs agree.**  Let the nodes of the trees have the levels that the depths imply,
leaf numbers stand on the leaves only and not repeat within a tree, and no two assets be at one place of a
tree.  Then for every list of assets, in whatever orders the rows and the maps are met, the batch has an
entry for an asset of the list exactly when its single proof is found, and the two proofs are equal. -/
theorem batch_proofs_agree (emptyNode : ℕ → Pubkey) (orders : BatchOrders) {db : Database}
    (htables : ProofTables db) (hapart : LeavesApart db) (assetIds : List Bytes) {id : Bytes}
    (hid : id ∈ assetIds) :
    ((∃ p, (getAssetProofs emptyNode orders db assetIds).get (Base58.encode id) = some p) ↔
      ∃ q, getProofForAsset emptyNode db id = .ok q) ∧
    ∀ p q, (getAssetProofs emptyNode orders db assetIds).get (Base58.encode id) = some p →
      getProofForAsset emptyNode db id = .ok q → p = q := by
  have hget := get_getAssetProofs emptyNode orders htables hapart hid
  rw [hget]
  cases hsingle : getProofForAsset emptyNode db id with
  | error e => simp [Except.toOption]
  | ok proof =>
    simp only [Except.toOption]
    refine ⟨⟨fun _ => ⟨proof, rfl⟩, fun _ => ⟨proof, rfl⟩⟩, ?_⟩
    intro p q hp hq
    rw [← Option.some.inj hp]
    exact Except.ok.inj hq

/-! ### Two leaves -/

/-- The rows in the order of the tables, and the maps in the order of insertion. -/
def tableOrders : BatchOrders :=
  ⟨⟨id, fun _ => .refl _⟩, ⟨id, fun _ => .refl _⟩, ⟨id, fun _ => .refl _⟩⟩

/-- A tree of depth one whose leaf nodes show the leaf numbers `0` and `n`, and an asset at leaf `0`. -/
def leafPair (n : ℤ) : Database :=
  { Database.empty with
    clItems := (AList.singleton ([5], 3) ⟨some n, 4, 0, [3]⟩ : Table (Bytes × ℤ) ClItemRow).insert
      ([5], 2) ⟨some 0, 5, 0, [2]⟩
    asset := AList.singleton [6] { treeId := some [5], nonce := some 0 } }

theorem lookup_leafPair {n : ℤ} {t : Bytes} {idx : ℤ} {r : ClItemRow}
    (h : (leafPair n).clItems.lookup (t, idx) = some r) :
    (t = [5] ∧ idx = 2 ∧ r = ⟨some 0, 5, 0, [2]⟩) ∨ (t = [5] ∧ idx = 3 ∧ r = ⟨some n, 4, 0, [3]⟩) := by
  rw [← mem_scan] at h
  have hscan : scan (leafPair n).clItems
      = [(([5], 2), ⟨some 0, 5, 0, [2]⟩), (([5], 3), ⟨some n, 4, 0, [3]⟩)] := rfl
  rw [hscan] at h
  simpa [and_assoc] using h

theorem proofTables_leafPair (n : ℤ) : ProofTables (leafPair n) where
  level := by
    intro t
    refine ⟨1, fun idx r hr => ?_⟩
    obtain ⟨_, rfl, rfl⟩ | ⟨_, rfl, rfl⟩ := lookup_leafPair hr
    · exact ⟨0, 0, by decide, by decide, rfl, rfl⟩
    · exact ⟨0, 1, by decide, by decide, rfl, rfl⟩
  leaf := by
    intro t idx r hr
    obtain ⟨_, _, rfl⟩ | ⟨_, _, rfl⟩ := lookup_leafPair hr <;> simp
  asset := by
    intro a b ra rb ha hb _ _ _ _ _ _
    rw [leafPair, lookup_singleton] at ha hb
    split at ha
    · split at hb
      · simp_all
      · cases hb
    · cases ha

/-- With different leaf numbers both ways serve the node of leaf `0`. -/
theorem numbered_leaves_are_served_alike :
    ProofTables (leafPair 1) ∧ LeavesApart (leafPair 1) ∧
    (getProofForAsset (fun _ => Pubkey.default) (leafPair 1) [6]).toOption.map AssetProof.nodeIndex
      = some 2 ∧
    (((∃ p, (getAssetProofs (fun _ => Pubkey.default) tableOrders (leafPair 1) [[7], [6]]).get
        (Base58.encode [6]) = some p) ↔
      ∃ q, getProofForAsset (fun _ => Pubkey.default) (leafPair 1) [6] = .ok q) ∧
    ∀ p q, (getAssetProofs (fun _ => Pubkey.default) tableOrders (leafPair 1) [[7], [6]]).get
        (Base58.encode [6]) = some p →
      getProofForAsset (fun _ => Pubkey.default) (leafPair 1) [6] = .ok q → p = q) := by
  have hapart : LeavesApart (leafPair 1) := by
    intro t i j r s hr hs _ _ hrs
    obtain ⟨_, rfl, rfl⟩ | ⟨_, rfl, rfl⟩ := lookup_leafPair hr <;>
      obtain ⟨_, rfl, rfl⟩ | ⟨_, rfl, rfl⟩ := lookup_leafPair hs <;> simp_all
  refine ⟨proofTables_leafPair 1, hapart, rfl, ?_⟩
  exact batch_proofs_agree _ tableOrders (proofTables_leafPair 1) hapart [[7], [6]] (by decide)

/-- With one leaf number for two nodes the single proof is that of the newer node, and the batch may serve
the other. -/
theorem twin_leaves_are_served_apart :
    ProofTables (leafPair 0) ∧
    ∃ p q, (getAssetProofs (fun _ => Pubkey.default) tableOrders (leafPair 0) [[6]]).get
        (Base58.encode [6]) = some p ∧
      getProofForAsset (fun _ => Pubkey.default) (leafPair 0) [6] = .ok q ∧
      p.nodeIndex = 3 ∧ q.nodeIndex = 2 ∧ p ≠ q := by
  have hbatch : ∃ p, (Base58.encode [6], p) ∈ (getAssetProofs (fun _ => Pubkey.default) tableOrders
      (leafPair 0) [[6]]).entries ∧ p.nodeIndex = 3 := ⟨_, List.mem_singleton.mpr rfl, rfl⟩
  have hsingle : ∃ q, getProofForAsset (fun _ => Pubkey.default) (leafPair 0) [6] = .ok q ∧
      q.nodeIndex = 2 := ⟨_, rfl, rfl⟩
  obtain ⟨p, hp, hp3⟩ := hbatch
  obtain ⟨q, hq, hq2⟩ := hsingle
  refine ⟨proofTables_leafPair 0, p, q, IndexMap.get_eq_some_iff.mpr hp, hq, hp3, hq2, ?_⟩
  intro hpq
  rw [hpq, hq2] at hp3
  cases hp3

end DasIndexer.Dapi
