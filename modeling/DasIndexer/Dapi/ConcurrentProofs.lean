import DasIndexer.Bubblegum.Concurrent
import DasIndexer.Dapi.ServedProofs

/-!
# Proofs served from tables that many handlers have written

The handlers run side by side, are dropped and are repeated, and `get_asset_proof` reads what they leave.  A tree
does not wait for the others: its nodes are as they are to be once its own instructions have been applied, whatever
else is under way (**`tree_converges`**).  So the proof of a written leaf verifies against the root of the chain:
**`concurrent_proof_verifies`**.
-/

namespace DasIndexer.Dapi

open Sql LastWriter HeapTree Bubblegum

/-! ### The changes of a tree -/

/-- The change that the handler of an instruction records. -/
def recordedEvent (E : Env) (i : Ingest) : Option ChangeLogEventV1 :=
  match plan E i.ix i.bundle with
  | .record change => some change.event
  | _ => none

/-- The handler records a change of the tree. -/
def changesTree (E : Env) (tree : Pubkey) (i : Ingest) : Bool :=
  (recordedEvent E i).any fun e => decide (e.id = tree)

theorem changesTree_iff {E : Env} {tree : Pubkey} {i : Ingest} :
    changesTree E tree i = true ↔ ∃ e, recordedEvent E i = some e ∧ e.id = tree := by
  cases h : recordedEvent E i <;> simp [changesTree, h]

theorem recordedEvent_of_plan {E : Env} {i : Ingest} {change : Change}
    (h : plan E i.ix i.bundle = .record change) : recordedEvent E i = some change.event := by
  rw [recordedEvent, h]

/-- The call of `insert_change_log` that an instruction leads to. -/
def changeLogCall (E : Env) (i : Ingest) : Option ChangeLogCall :=
  (recordedEvent E i).map fun e => ⟨e, i.bundle.slot, i.bundle.txnId, ixStr i.ix.instruction⟩

/-- What writes a node of a tree records a change of it. -/
theorem changesTree_of_node {E : Env} {tree : Pubkey} {i : Ingest} {idx : ℤ} {x : ℤ × ClItemRow}
    (h : (⟨.clItem (tree.bytes, idx), x⟩ : Write Cell.Value) ∈ ingestCells E i) : changesTree E tree i = true := by
  obtain ⟨change, tx, ws, hof, -, -, hplan, -⟩ := mem_ingestCells h
  obtain ⟨cl, hcl, hid, -⟩ := origin_of_mem h
  obtain rfl := Option.some.inj (hof.event.symm.trans hcl)
  exact changesTree_iff.mpr ⟨_, recordedEvent_of_plan hplan, (Pubkey.bytes_inj hid).symm⟩

/-- **A tree does not wait for the others.**  Once the instructions that change it have been applied, its nodes are
those of handling these instructions alone, one after the other. -/
theorem tree_converges {E : Env} {is : List Ingest} (h : Delivery E is) {s : Running} (hreach : Reachable E is s)
    {tree : Pubkey} (happlied : ∀ i ∈ is, changesTree E tree i = true → i ∈ s.applied) (idx : ℤ) :
    s.db.clItems.lookup (tree.bytes, idx)
      = (tablesAfter E (is.filter (changesTree E tree))).clItems.lookup (tree.bytes, idx) := by
  obtain ⟨ver, hver⟩ := h.exists_version
  obtain ⟨W, hinv⟩ := hreach.inv h hver
  have halone : Represents E ver _ (tablesAfter E (is.filter (changesTree E tree))) := ingestAll_represents
    (fun i hi => h.succeeds i (List.mem_of_mem_filter hi)) (fun i hi => h.seq_pos i (List.mem_of_mem_filter hi))
    (fun i hi => hver i (List.mem_of_mem_filter hi))
  rw [run_eq_foldl] at halone
  rw [hinv.represents.clItems, halone.clItems, foldl_put_apply, foldl_put_apply]
  congr 1
  have hmem : ∀ x, x ∈ writesTo (Cell.clItem (tree.bytes, idx)) W ↔
      x ∈ writesTo (Cell.clItem (tree.bytes, idx))
        ((is.filter (changesTree E tree)).flatMap (ingestCells E)) := by
    intro x
    rw [mem_writesTo, mem_writesTo, List.mem_flatMap]
    constructor
    · intro hx
      obtain ⟨i, hi, hx⟩ := hinv.writes _ hx
      exact ⟨i, List.mem_filter.mpr ⟨hi, changesTree_of_node hx⟩, hx⟩
    · rintro ⟨i, hi, hx⟩
      obtain ⟨hi, htree⟩ := List.mem_filter.mp hi
      exact hinv.applied i (happlied i hi htree) _ hx
  refine foldl_newer_congr _ (fun x hx y hy hxy => ?_) hmem
  -- two writes of one sequence number are those of one instruction
  obtain ⟨i, hi, hx⟩ := hinv.writes _ ((mem_writesTo _ _ _).mp hx)
  obtain ⟨j, hj, hy⟩ := hinv.writes _ ((mem_writesTo _ _ _).mp hy)
  obtain ⟨cl, hcl, hid, hseq⟩ := origin_of_mem hx
  obtain ⟨cl', hcl', hid', hseq'⟩ := origin_of_mem hy
  obtain rfl := h.one_change i hi j hj cl cl' hcl hcl' (Pubkey.bytes_inj (hid.symm.trans hid')) (by omega)
  exact ingestCells_unique hx hy

/-! ### One instruction after the other -/

/-- The nodes that a path writes depend on the nodes only. -/
theorem pathEffect_clItems {event : ChangeLogEventV1} {depth i : ℕ} {ps : List PathNode} {db db' : Database}
    (h : db.clItems = db'.clItems) :
    (pathEffect event depth i ps db).clItems = (pathEffect event depth i ps db').clItems := by
  induction ps generalizing i db db' with
  | nil => exact h
  | cons p ps ih =>
    refine ih ?_
    show Sql.upsert db.clItems _ _ = Sql.upsert db'.clItems _ _
    rw [h]

theorem apply_clItems {E : Env} (w : TableWrite) (db : Database) : (w.apply E db).clItems = db.clItems := by
  cases w <;> rfl

theorem foldl_apply_clItems {E : Env} (ws : List TableWrite) (db : Database) :
    (ws.foldl (fun db w => w.apply E db) db).clItems = db.clItems := by
  induction ws generalizing db with
  | nil => rfl
  | cons w ws ih => rw [List.foldl_cons, ih, apply_clItems]

/-- To the nodes a handler is its call of `insert_change_log`. -/
theorem ingestEffect_clItems {E : Env} {i : Ingest} (h : Succeeds E i) {c : ChangeLogCall}
    (hc : changeLogCall E i = some c) {db db' : Database} (hdb : db.clItems = db'.clItems) :
    (ingestEffect E i db).clItems = (c.process db').clItems := by
  have hgood := good_of_succeeds h
  cases hplan : plan E i.ix i.bundle with
  | ignore => exact absurd hc (by simp [changeLogCall, recordedEvent, hplan])
  | refuse => exact absurd hc (by simp [changeLogCall, recordedEvent, hplan])
  | record change =>
    rw [hplan] at hgood
    obtain ⟨⟨tx, hdecode⟩, ws, hbody⟩ := hgood
    rw [changeLogCall, recordedEvent_of_plan hplan] at hc
    obtain rfl := Option.some.inj hc
    have heffect : ingestEffect E i db = ws.foldl (fun db w => w.apply E db)
        (logEffect change.event i.bundle.slot tx (ixStr i.ix.instruction) db) := by
      rw [ingestEffect, hplan]
      simp only [hdecode, hbody]
    rw [heffect, foldl_apply_clItems, (process_frame _ db').1]
    exact pathEffect_clItems hdb

theorem foldl_ingestEffect_clItems {E : Env} {tree : Pubkey} {is : List Ingest} (h : ∀ i ∈ is, Succeeds E i)
    (htree : ∀ i ∈ is, changesTree E tree i = true) {db db' : Database} (hdb : db.clItems = db'.clItems) :
    (is.foldl (fun db i => ingestEffect E i db) db).clItems
      = (processAll (is.filterMap (changeLogCall E)) db').clItems := by
  induction is generalizing db db' with
  | nil => exact hdb
  | cons i is ih =>
    obtain ⟨e, he, -⟩ := changesTree_iff.mp (htree i List.mem_cons_self)
    have hc : changeLogCall E i = some ⟨e, i.bundle.slot, i.bundle.txnId, ixStr i.ix.instruction⟩ := by
      rw [changeLogCall, he]
      rfl
    rw [List.foldl_cons, List.filterMap_cons_some hc]
    exact ih (fun j hj => h j (List.mem_cons_of_mem i hj)) (fun j hj => htree j (List.mem_cons_of_mem i hj))
      (ingestEffect_clItems (h i List.mem_cons_self) hc hdb)

/-! ### The proof that is served -/

/-- **Proofs verify while other trees are under way.**  Let the changes that a delivery makes to a tree be a history
of leaf writes, and let their instructions have been applied by handlers that run side by side, are dropped and are
repeated.  Then for every stored asset whose leaf was written, the proof has the current leaf and the current root,
one node per level, and folds from the leaf to the root. -/
theorem concurrent_proof_verifies {H : Pubkey → Pubkey → Pubkey} {emptyNode : ℕ → Pubkey} {tree : Pubkey} {d : ℕ}
    {ws : List (ℕ × Pubkey)} (h0 : emptyNode 0 = Pubkey.default)
    (hs : ∀ l, emptyNode (l + 1) = H (emptyNode l) (emptyNode l)) (hws : ∀ w ∈ ws, w.1 < 2 ^ d)
    {E : Env} {is : List Ingest} (hdelivery : Delivery E is)
    (hevents : ∀ e, e ∈ events H tree d ws ↔ ∃ i ∈ is, recordedEvent E i = some e ∧ e.id = tree)
    {s : Running} (hreach : Reachable E is s)
    (happlied : ∀ i ∈ is, changesTree E tree i = true → i ∈ s.applied) {assetId : Bytes} {asset : AssetRow} {j : ℕ}
    (hasset : s.db.asset.lookup assetId = some asset) (htree : asset.treeId = some tree.bytes)
    (hnonce : asset.nonce = some (j : ℤ)) (hwritten : ∃ w ∈ ws, w.1 = j) :
    ∃ proof : List Pubkey,
      getProofForAsset emptyNode s.db assetId = .ok
        { root := (node H (leaves Pubkey.default ws) d 0).toString
          leaf := (leaves Pubkey.default ws j).toString
          proof := proof.map Pubkey.toString
          nodeIndex := ((2 ^ d + j : ℕ) : ℤ)
          treeId := tree.toString } ∧
      proof.length = d ∧
      climb H (2 ^ d + j) (leaves Pubkey.default ws j) proof = node H (leaves Pubkey.default ws) d 0 := by
  have hj : j < 2 ^ d := by
    obtain ⟨w, hw, rfl⟩ := hwritten
    exact hws w hw
  have hsucceeds : ∀ i ∈ is.filter (changesTree E tree), Succeeds E i :=
    fun i hi => hdelivery.succeeds i (List.mem_of_mem_filter hi)
  have hcalls : ∀ e, e ∈ events H tree d ws ↔
      ∃ c ∈ (is.filter (changesTree E tree)).filterMap (changeLogCall E), c.event = e := by
    intro e
    rw [hevents]
    constructor
    · rintro ⟨i, hi, he, hid⟩
      have hc : changeLogCall E i = some ⟨e, i.bundle.slot, i.bundle.txnId, ixStr i.ix.instruction⟩ := by
        rw [changeLogCall, he]
        rfl
      exact ⟨_, List.mem_filterMap.mpr
        ⟨i, List.mem_filter.mpr ⟨hi, changesTree_iff.mpr ⟨e, he, hid⟩⟩, hc⟩, rfl⟩
    · rintro ⟨c, hc, rfl⟩
      obtain ⟨i, hi, hc⟩ := List.mem_filterMap.mp hc
      obtain ⟨hi, hchanges⟩ := List.mem_filter.mp hi
      obtain ⟨e, he, hid⟩ := changesTree_iff.mp hchanges
      rw [changeLogCall, he] at hc
      obtain rfl := Option.some.inj hc
      exact ⟨i, hi, he, hid⟩
  have hnodes : ∀ idx, s.db.clItems.lookup (tree.bytes, idx)
      = (processAll ((is.filter (changesTree E tree)).filterMap (changeLogCall E)) Database.empty).clItems.lookup
        (tree.bytes, idx) := by
    intro idx
    rw [tree_converges hdelivery hreach happlied, tablesAfter_eq_foldl hsucceeds,
      foldl_ingestEffect_clItems hsucceeds (fun i hi => (List.mem_filter.mp hi).2) rfl]
  have hstore : ∀ l p, l ≤ d → p < 2 ^ (d - l) → StoresNode H tree d ws s.db l p := by
    intro l p hl hp
    have hnode : StoresNode H tree d ws (processAll _ Database.empty) l p :=
      processAll_storesNode hcalls hws (fun _ => rfl) hl hp
    rwa [StoresNode, ← hnodes] at hnode
  have honly : ∀ idx r, s.db.clItems.lookup (tree.bytes, idx) = some r →
      ∃ l p, l ≤ d ∧ p < 2 ^ (d - l) ∧ idx = (heapIdx d l p : ℤ) := by
    intro idx r hr
    rw [hnodes] at hr
    exact processAll_only_nodes (fun c hc => (hcalls c.event).mpr ⟨c, hc, rfl⟩) hws (fun _ => rfl) hr
  refine ⟨siblingsAbove H (leaves Pubkey.default ws) 0 j d,
    getProofForAsset_of_store h0 hs hasset htree hnonce hj hwritten hstore honly, ?_, ?_⟩
  · simp [siblingsAbove]
  · have hclimb := climb_siblings H (leaves Pubkey.default ws) 0 j d
    rwa [Nat.zero_add, Nat.div_eq_of_lt hj] at hclimb

/-! ### A proof while another tree is under way -/

/-- One write, of the right leaf of a tree of depth one. -/
def rightLeaf : List (ℕ × Pubkey) := [(1, Pubkey.fill 7)]

/-- The transfer that makes it. -/
def rightLeafTransfer : Ingest where
  ix :=
    { instruction := .transfer
      treeUpdate := some (eventOf sampleHash (Pubkey.fill 5) 1 rightLeaf 0 1)
      leafUpdate := some ⟨.v1, .v1 (Pubkey.fill 4) (Pubkey.fill 10) (Pubkey.fill 10) 1
        (Pubkey.fill 5) (Pubkey.fill 6), Pubkey.fill 7⟩ }
  bundle := sampleBundle

theorem rightLeafTransfer_succeeds : Succeeds Env.sample rightLeafTransfer := by
  have hdec : Base58.decode sampleBundle.txnId = some (List.replicate 64 0) := by decide +kernel
  have hgood : (plan Env.sample rightLeafTransfer.ix sampleBundle).Good sampleBundle.txnId := ⟨⟨_, hdec⟩, _, rfl⟩
  exact (handle_runs (i := rightLeafTransfer) hgood (World.init Database.empty)).1

/-- It is handled while a transfer in another tree has been begun. -/
theorem proof_of_right_leaf : ∃ s, Reachable Env.sample [rightLeafTransfer, sampleTransfer 1 1 10] s ∧
    s.tasks ≠ [] ∧ ∃ proof : List Pubkey,
      getProofForAsset (HeapTree.empty sampleHash Pubkey.default) s.db (Pubkey.fill 4).bytes = .ok
        { root := (node sampleHash (leaves Pubkey.default rightLeaf) 1 0).toString
          leaf := (leaves Pubkey.default rightLeaf 1).toString
          proof := proof.map Pubkey.toString
          nodeIndex := 3
          treeId := (Pubkey.fill 5).toString } ∧
      proof.length = 1 ∧
      climb sampleHash 3 (leaves Pubkey.default rightLeaf 1) proof
        = node sampleHash (leaves Pubkey.default rightLeaf) 1 0 := by
  have hdelivery : Delivery Env.sample [rightLeafTransfer, sampleTransfer 1 1 10] := by
    refine delivery_of_two rightLeafTransfer_succeeds (sampleTransfer_succeeds 1 1 10) ?_ ?_
      ⟨rfl, rfl⟩ (.inl rfl)
    · simp [rightLeafTransfer, sampleTransfer, eventOf]
    · intro cl cl' hcl hcl' heq
      cases hcl
      cases hcl'
      exact absurd heq.1 (by decide)
  have hdec : Base58.decode rightLeafTransfer.bundle.txnId = some (List.replicate 64 0) := by decide +kernel
  have hbegun : Reachable Env.sample [rightLeafTransfer, sampleTransfer 1 1 10] _ :=
    .single (.start {} _ (List.mem_cons_of_mem _ List.mem_cons_self))
  obtain ⟨s, hrun, htasks, happlied, hdb⟩ := Running.handles (E := Env.sample) _ List.mem_cons_self
  obtain ⟨asset, hasset, htree, hnonce⟩ : ∃ asset,
      (runActions Env.sample false Database.empty (actionsOf Env.sample rightLeafTransfer)).asset.lookup
        (Pubkey.fill 4).bytes = some asset ∧ asset.treeId = some (Pubkey.fill 5).bytes ∧
      asset.nonce = some ((1 : ℕ) : ℤ) := by
    rw [actionsOf_eq rfl, afterPath, hdec]
    exact ⟨_, rfl, rfl, rfl⟩
  refine ⟨s, hbegun.trans hrun, ?_, concurrent_proof_verifies rfl (fun _ => rfl) (by decide) hdelivery ?_
    (hbegun.trans hrun) ?_ (hdb ▸ hasset) htree hnonce (by decide)⟩
  · rw [htasks]
    exact List.cons_ne_nil _ _
  · intro e
    have hevent : recordedEvent Env.sample rightLeafTransfer
        = some (eventOf sampleHash (Pubkey.fill 5) 1 rightLeaf 0 1) := rfl
    constructor
    · intro he
      obtain rfl := List.mem_singleton.mp he
      exact ⟨_, List.mem_cons_self, hevent, rfl⟩
    · rintro ⟨i, hi, he, hid⟩
      rcases List.mem_cons.mp hi with rfl | hi
      · obtain rfl := Option.some.inj (hevent.symm.trans he)
        exact List.mem_cons_self
      · obtain rfl := List.mem_singleton.mp hi
        obtain rfl := Option.some.inj he
        exact absurd hid (by decide)
  · intro i hi htransfer
    rcases List.mem_cons.mp hi with rfl | hi
    · exact happlied ▸ List.mem_cons_self
    · obtain rfl := List.mem_singleton.mp hi
      exact absurd htransfer (by decide)

end DasIndexer.Dapi
