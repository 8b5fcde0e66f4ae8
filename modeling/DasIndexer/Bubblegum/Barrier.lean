import DasIndexer.Bubblegum.Atomicity
import DasIndexer.Bubblegum.Cells

/-!
# Decompression is a barrier

A decompressed asset belongs to its account: its rows carry the sequence number zero, and a Bubblegum
instruction that arrives late must not touch them.  Ten kinds of statement reach these rows, each under
its own guard, and every guard but one refuses a row whose number is zero (`TableWrite.apply_unchanged`).
The one that refuses nothing is that of a burn, which sets `burnt` and no other column.

**`decompressed_unchanged`** is the consequence for a whole handler, for every instruction and whichever
of its statements fail.
-/

namespace DasIndexer.Bubblegum

open Sql
open Represents (creatorRows_stamped)

/-- The rows of an asset that has been decompressed: the sequence number of each is zero. -/
structure Decompressed (id : Bytes) (db : Database) : Prop where
  asset : ∃ r, db.asset.lookup id = some r ∧ r.seq = some 0
  data : ∃ r, db.assetData.lookup id = some r ∧ r.baseInfoSeq = some 0
  collection : ∃ r, db.assetGrouping.lookup (.collection id) = some r ∧ r.groupInfoSeq = some 0
  creators : ∀ pos r, db.assetCreators.lookup (id, pos) = some r → r.seq = some 0

/-- The rows of an asset are the same in both databases; its `burnt` may have been set where that is
allowed. -/
structure Unchanged (mayBurn : Bool) (id : Bytes) (db db' : Database) : Prop where
  asset : db'.asset.lookup id = db.asset.lookup id ∨
    (mayBurn = true ∧
      db'.asset.lookup id = (db.asset.lookup id).map fun r => { r with burnt := true })
  data : db'.assetData.lookup id = db.assetData.lookup id
  collection : db'.assetGrouping.lookup (.collection id) = db.assetGrouping.lookup (.collection id)
  creators : ∀ pos r, db.assetCreators.lookup (id, pos) = some r →
    db'.assetCreators.lookup (id, pos) = some r
  authority : ∀ r, db.assetAuthority.lookup id = some r → db'.assetAuthority.lookup id = some r

def InstructionName.isBurn : InstructionName → Bool
  | .burn | .burnV2 => true
  | _ => false

theorem Unchanged.refl (mayBurn : Bool) (id : Bytes) (db : Database) : Unchanged mayBurn id db db :=
  ⟨Or.inl rfl, rfl, rfl, fun _ _ h => h, fun _ h => h⟩

/-! ### The guards at zero -/

theorem notDecompressed_zero {r : AssetRow} (h : r.seq = some 0) : holds (notDecompressed r) = false := by
  simp [notDecompressed, h]

theorem notOlderNorZero_zero (n : ℤ) : holds (notOlderNorZero n (some 0)) = false := by
  simp [notOlderNorZero]

section

variable {mayBurn : Bool} {id : Bytes} {db db' : Database}

/-- A row that may have been burnt in between still has its sequence number. -/
theorem Unchanged.stored (h : Unchanged mayBurn id db db') (hdec : Decompressed id db) :
    ∃ r, db'.asset.lookup id = some r ∧ r.seq = some 0 := by
  obtain ⟨r, hr, hseq⟩ := hdec.asset
  rcases h.asset with heq | ⟨_, heq⟩
  · exact ⟨r, heq.trans hr, hseq⟩
  · exact ⟨{ r with burnt := true }, by rw [heq, hr, Option.map_some], hseq⟩

/-- An upsert of an asset row that refuses zero. -/
theorem Unchanged.upsertAsset (h : Unchanged mayBurn id db db') (hdec : Decompressed id db) (id' : Bytes)
    {u : Upsert AssetRow} (hguard : ∀ r, r.seq = some 0 → holds (u.guard r) = false) :
    Unchanged mayBurn id db (Database.upsertAsset id' u db') := by
  have hkeep : (Database.upsertAsset id' u db').asset.lookup id = db'.asset.lookup id := by
    by_cases hid : id = id'
    · subst hid
      obtain ⟨r, hr, hseq⟩ := h.stored hdec
      exact lookup_upsert_of_blocked hr (hguard r hseq) id
    · exact lookup_upsert_ne _ _ hid
  exact ⟨by rw [hkeep]; exact h.asset, h.data, h.collection, h.creators, h.authority⟩

/-- The upsert that refuses nothing. -/
theorem Unchanged.upsertBurnt (h : Unchanged mayBurn id db db') (hdec : Decompressed id db)
    (hburn : mayBurn = true) (id' : Bytes) :
    Unchanged mayBurn id db (Database.upsertAsset id' assetBurnt db') := by
  refine ⟨?_, h.data, h.collection, h.creators, h.authority⟩
  by_cases hid : id = id'
  · subst hid
    obtain ⟨r, hr, _⟩ := hdec.asset
    have hstored : ∃ r', db'.asset.lookup id = some r' ∧
        { r' with burnt := true } = { r with burnt := true } := by
      rcases h.asset with heq | ⟨_, heq⟩
      · exact ⟨r, heq.trans hr, rfl⟩
      · exact ⟨{ r with burnt := true }, by rw [heq, hr, Option.map_some], rfl⟩
    obtain ⟨r', hr', hburnt⟩ := hstored
    right
    refine ⟨hburn, ?_⟩
    have hself : (Database.upsertAsset id assetBurnt db').asset.lookup id
        = some { r' with burnt := true } := by
      show (upsert db'.asset id assetBurnt).lookup id = _
      rw [lookup_upsert_self, hr']
      rfl
    rw [hself, hburnt, hr, Option.map_some]
  · have hkeep : (Database.upsertAsset id' assetBurnt db').asset.lookup id = db'.asset.lookup id :=
      lookup_upsert_ne _ _ hid
    rw [hkeep]
    exact h.asset

theorem Unchanged.upsertAssetData (h : Unchanged mayBurn id db db') (hdec : Decompressed id db)
    (id' : Bytes) (row : AssetDataRow) (n : ℤ) :
    Unchanged mayBurn id db (Database.upsertAssetData id' (assetDataInfo row n) db') := by
  have hkeep : (Database.upsertAssetData id' (assetDataInfo row n) db').assetData.lookup id
      = db'.assetData.lookup id := by
    by_cases hid : id = id'
    · subst hid
      obtain ⟨r, hr, hseq⟩ := hdec.data
      refine lookup_upsert_of_blocked (h.data.trans hr) ?_ id
      show holds (notOlderNorZero n r.baseInfoSeq) = false
      rw [hseq, notOlderNorZero_zero]
    · exact lookup_upsert_ne _ _ hid
  exact ⟨h.asset, hkeep.trans h.data, h.collection, h.creators, h.authority⟩

theorem Unchanged.upsertCollection (h : Unchanged mayBurn id db db') (hdec : Decompressed id db)
    (id' : Bytes) (c : Option Collection) (slot n : ℤ) :
    Unchanged mayBurn id db (Database.upsertGrouping (.collection id') (collectionInfo c slot n) db') := by
  have hkeep : (Database.upsertGrouping (.collection id') (collectionInfo c slot n)
      db').assetGrouping.lookup (.collection id) = db'.assetGrouping.lookup (.collection id) := by
    by_cases hid : id = id'
    · subst hid
      obtain ⟨r, hr, hseq⟩ := hdec.collection
      refine lookup_upsert_of_blocked (h.collection.trans hr) ?_ _
      show holds (notOlderNorZero n r.groupInfoSeq) = false
      rw [hseq, notOlderNorZero_zero]
    · exact lookup_upsert_ne _ _ fun heq => hid (GroupKey.collection.inj heq)
  exact ⟨h.asset, h.data, hkeep.trans h.collection, h.creators, h.authority⟩

theorem Unchanged.upsertAuthority (h : Unchanged mayBurn id db db') (id' authority : Bytes) (slot n : ℤ) :
    Unchanged mayBurn id db (Database.upsertAuthority id' (assetAuthority authority slot n) db') := by
  refine ⟨h.asset, h.data, h.collection, h.creators, fun r hr => ?_⟩
  have hstored := h.authority r hr
  by_cases hid : id = id'
  · subst hid
    exact (lookup_upsert_of_blocked hstored rfl id).trans hstored
  · exact (lookup_upsert_ne _ _ hid).trans hstored

theorem Unchanged.upsertCreator (h : Unchanged mayBurn id db db') (hdec : Decompressed id db)
    (k : Bytes × ℤ) {u : Upsert AssetCreatorRow} {n : ℤ}
    (hguard : ∀ r, u.guard r = notOlderNorZero n r.seq) :
    Unchanged mayBurn id db { db' with assetCreators := upsert db'.assetCreators k u } := by
  refine ⟨h.asset, h.data, h.collection, fun pos r hr => ?_, h.authority⟩
  have hstored := h.creators pos r hr
  by_cases hk : (id, pos) = k
  · subst hk
    refine (lookup_upsert_of_blocked hstored ?_ _).trans hstored
    rw [hguard, hdec.creators pos r hr, notOlderNorZero_zero]
  · exact (lookup_upsert_ne _ _ hk).trans hstored

theorem Unchanged.upsertCreators (h : Unchanged mayBurn id db db') (hdec : Decompressed id db)
    {rows : List ((Bytes × ℤ) × Upsert AssetCreatorRow)} {n : ℤ}
    (hguard : ∀ e ∈ rows, ∀ r, e.2.guard r = notOlderNorZero n r.seq) :
    Unchanged mayBurn id db (Database.upsertCreators rows db') := by
  induction rows generalizing db' with
  | nil => exact h
  | cons e rows ih =>
    exact ih (h.upsertCreator hdec e.1 (hguard e List.mem_cons_self)) fun e' he' =>
      hguard e' (List.mem_cons_of_mem _ he')

/-- **No statement of a handler touches a decompressed asset**, burning it apart. -/
theorem TableWrite.apply_unchanged (E : Env) (w : TableWrite) (hburn : w.kind = .burnt → mayBurn = true)
    (hdec : Decompressed id db) (h : Unchanged mayBurn id db db') :
    Unchanged mayBurn id db (w.apply E db') := by
  cases w with
  | data id' row n => exact h.upsertAssetData hdec id' row n
  | baseInfo id' b slot n =>
    refine h.upsertAsset hdec id' fun r hr => ?_
    show holds (and (notDecompressed r) (notOlder n r.baseInfoSeq)) = false
    rw [holds_and, notDecompressed_zero hr, Bool.false_and]
  | compression id' => exact h.upsertAsset hdec id' fun r hr => notDecompressed_zero hr
  | leafInfo id' l n =>
    refine h.upsertAsset hdec id' fun r hr => ?_
    show holds (and (notDecompressed r) (notOlder n r.leafSeq)) = false
    rw [holds_and, notDecompressed_zero hr, Bool.false_and]
  | ownerAndDelegate id' owner delegate n =>
    refine h.upsertAsset hdec id' fun r hr => ?_
    show holds (and (notDecompressed r) (notOlder n r.ownerDelegateSeq)) = false
    rw [holds_and, notDecompressed_zero hr, Bool.false_and]
  | seq id' n =>
    refine h.upsertAsset hdec id' fun r hr => ?_
    show holds (notOlderNorZero n r.seq) = false
    rw [hr, notOlderNorZero_zero]
  | burnt id' => exact h.upsertBurnt hdec (hburn rfl) id'
  | creators id' cs slot n =>
    refine h.upsertCreators hdec (n := n) fun e he r => ?_
    exact (creatorRows_stamped e he).2.2 r
  | authority id' a slot n => exact h.upsertAuthority id' a slot n
  | collection id' c slot n => exact h.upsertCollection hdec id' c slot n

end

/-! ### Handlers -/

/-- A plan whose statements leave the burnt column alone. -/
def Plan.NeverBurns : Plan → Prop
  | record change => ∀ ws, change.body = .ok ws → ∀ w ∈ ws, w.kind ≠ .burnt
  | _ => True

theorem mintPlan_neverBurns (ix : BubblegumInstruction) (bundle : InstructionBundle) :
    (mintPlan ix bundle).NeverBurns := by
  unfold mintPlan
  split
  · rintro ws ⟨⟩
    simp [TableWrite.kind]
  · trivial

theorem updateMetadataPlan_neverBurns (ix : BubblegumInstruction) (bundle : InstructionBundle) :
    (updateMetadataPlan ix bundle).NeverBurns := by
  unfold updateMetadataPlan
  split
  · rintro ws ⟨⟩
    simp [TableWrite.kind]
  · trivial

theorem creatorVerificationPlan_neverBurns (ix : BubblegumInstruction) (bundle : InstructionBundle) :
    (creatorVerificationPlan ix bundle).NeverBurns := by
  unfold creatorVerificationPlan
  split
  · rintro ws ⟨⟩
    simp [TableWrite.kind]
  · trivial

theorem collectionVerificationPlan_neverBurns (E : Env) (ix : BubblegumInstruction)
    (bundle : InstructionBundle) : (collectionVerificationPlan E ix bundle).NeverBurns := by
  unfold collectionVerificationPlan
  split
  · rintro ws ⟨⟩
    simp [TableWrite.kind]
  · trivial

theorem updateLeafAndOwnerPlan_neverBurns (ix : BubblegumInstruction) :
    (updateLeafAndOwnerPlan ix).NeverBurns := by
  unfold updateLeafAndOwnerPlan
  split
  · rintro ws ⟨⟩
    simp [TableWrite.kind]
  · trivial

theorem redeemPlan_neverBurns (E : Env) (ix : BubblegumInstruction) : (redeemPlan E ix).NeverBurns := by
  unfold redeemPlan
  split
  · rintro ws ⟨⟩
    simp [TableWrite.kind]
  · trivial

theorem cancelRedeemPlan_neverBurns (ix : BubblegumInstruction) : (cancelRedeemPlan ix).NeverBurns := by
  unfold cancelRedeemPlan
  split
  · split
    · rintro ws ⟨⟩
      simp [TableWrite.kind]
    · rintro ws ⟨⟩
  · trivial

/-- Only a burn writes the burnt column. -/
theorem plan_neverBurns (E : Env) (ix : BubblegumInstruction) (bundle : InstructionBundle)
    (h : ix.instruction.isBurn = false) : (plan E ix bundle).NeverBurns := by
  obtain ⟨name, tree, leaf, p⟩ := ix
  cases name
  case mintV1 | mintToCollectionV1 | mintV2 => exact mintPlan_neverBurns _ bundle
  case updateMetadata | updateMetadataV2 => exact updateMetadataPlan_neverBurns _ bundle
  case burn | burnV2 => exact absurd h (by simp [InstructionName.isBurn])
  case redeem => exact redeemPlan_neverBurns E _
  case cancelRedeem => exact cancelRedeemPlan_neverBurns _
  case verifyCreator | unverifyCreator | verifyCreatorV2 | unverifyCreatorV2 =>
    exact creatorVerificationPlan_neverBurns _ bundle
  case verifyCollection | unverifyCollection | setAndVerifyCollection | setCollectionV2 =>
    exact collectionVerificationPlan_neverBurns E _ bundle
  case transfer | transferV2 | delegate | delegateV2 | delegateAndFreezeV2 | freezeV2
      | setNonTransferableV2 | thawV2 | thawAndRevokeV2 =>
    exact updateLeafAndOwnerPlan_neverBurns _
  all_goals trivial

section

variable {mayBurn : Bool} {id : Bytes} {db : Database}

/-- The change log is not about the asset tables. -/
theorem insertChangeLog_keeps (event : ChangeLogEventV1) (slot : ℕ) (txnId name : String) :
    Session.Keeps (Unchanged mayBurn id db) (insertChangeLog event slot txnId name) := by
  have hpath : ∀ i ps, Session.Keeps (Unchanged mayBurn id db)
      (insertPath event (event.path.length - 1) i ps) := by
    intro i ps
    induction ps generalizing i with
    | nil => exact Session.Keeps.pure ()
    | cons p ps ih =>
      refine Session.Keeps.bind (Session.Keeps.execute _ fun db' h => ?_) fun _ => ih (i + 1)
      exact ⟨h.asset, h.data, h.collection, h.creators, h.authority⟩
  refine Session.Keeps.bind (hpath 0 event.path) fun _ => ?_
  cases Base58.decode txnId with
  | none => exact Session.Keeps.throw _
  | some tx =>
    refine Session.Keeps.bind (Session.Keeps.tolerate (Session.Keeps.execute _ fun db' h => ?_))
      fun _ => Session.Keeps.bind (Session.Keeps.execute _ fun db' h => h) fun known =>
        Session.Keeps.execute _ fun db' h => ?_
    · exact ⟨h.asset, h.data, h.collection, h.creators, h.authority⟩
    · exact ⟨h.asset, h.data, h.collection, h.creators, h.authority⟩

theorem TableWrite.step_keeps (E : Env) (hdec : Decompressed id db) {w : TableWrite}
    (hburn : w.kind = .burnt → mayBurn = true) :
    Session.Keeps (Unchanged mayBurn id db) (w.step E) := by
  unfold TableWrite.step
  exact Session.Keeps.execute _ fun db' h => w.apply_unchanged E hburn hdec h

theorem TableWrite.stepAll_keeps (E : Env) (hdec : Decompressed id db) {ws : List TableWrite}
    (hburn : ∀ w ∈ ws, w.kind = .burnt → mayBurn = true) :
    Session.Keeps (Unchanged mayBurn id db) (TableWrite.stepAll E ws) := by
  induction ws with
  | nil => exact Session.Keeps.pure ()
  | cons w ws ih =>
    exact Session.Keeps.bind (TableWrite.step_keeps E hdec (hburn w List.mem_cons_self)) fun _ =>
      ih fun w' hw' => hburn w' (List.mem_cons_of_mem _ hw')

theorem runBody_keeps (E : Env) (hdec : Decompressed id db) {change : Change}
    (hburn : ∀ ws, change.body = .ok ws → ∀ w ∈ ws, w.kind = .burnt → mayBurn = true) :
    Session.Keeps (Unchanged mayBurn id db) (Plan.runBody E change) := by
  unfold Plan.runBody
  cases hbody : change.body with
  | error e => exact Session.Keeps.throw e
  | ok ws =>
    refine Session.Keeps.bind
      (Session.Keeps.transaction _ (TableWrite.stepAll_keeps E hdec (hburn ws hbody))) fun _ => ?_
    cases change.download with
    | none => exact Session.Keeps.pure ()
    | some info => exact Session.Keeps.execute _ fun db' h => h

end

/-- **Decompression is a barrier**: whatever the instruction and whichever of its statements fail, its
handler leaves the rows of a decompressed asset as they are, and only a burn may set `burnt`. -/
theorem decompressed_unchanged (E : Env) (ix : BubblegumInstruction) (bundle : InstructionBundle)
    (F : Faults) (db : Database) (id : Bytes) (h : Decompressed id db) :
    Unchanged ix.instruction.isBurn id db
      ((handleBubblegumInstruction E ix bundle).run F (World.init db)).2.db := by
  refine Session.Keeps.run_init ?_ F (Unchanged.refl _ id db)
  rw [handleBubblegumInstruction_eq]
  cases hplan : plan E ix bundle with
  | ignore => exact Session.Keeps.pure ()
  | refuse => exact Session.Keeps.throw _
  | record change =>
    refine Session.Keeps.bind (insertChangeLog_keeps _ _ _ _) fun _ =>
      runBody_keeps E h fun ws hbody w hw hkind => ?_
    cases hname : ix.instruction.isBurn with
    | true => rfl
    | false =>
      have hnever := plan_neverBurns E ix bundle hname
      rw [hplan] at hnever
      exact absurd hkind (hnever ws hbody w hw)

/-- The tables of a decompressed asset with one creator. -/
def sampleDecompressed (id : Bytes) : Database where
  asset := AList.singleton id { seq := some 0, slotUpdatedMetadataAccount := some 7 }
  assetData := AList.singleton id
    { chainDataMutability := .mutable, chainData := .null, metadataUrl := Sql.Varchar.empty,
      metadataMutability := .mutable,
      metadata := .null, slotUpdated := 7, reindex := some false, rawName := none, rawSymbol := none,
      baseInfoSeq := some 0 }
  assetGrouping := AList.singleton (.collection id)
    { groupValue := none, verified := false, slotUpdated := some 7, groupInfoSeq := some 0 }
  assetCreators := AList.singleton (id, 0)
    { creator := id, share := 100, verified := true, seq := some 0, slotUpdated := some 7 }

/-- Change 8 of a tree, a transfer of asset 3. -/
def lateTransfer : BubblegumInstruction where
  instruction := .transfer
  treeUpdate := some { id := Pubkey.fill 1, path := [⟨Pubkey.fill 9, 1⟩], seq := 8, index := 0 }
  leafUpdate := some ⟨.v1, .v1 (Pubkey.fill 3) (Pubkey.fill 9) (Pubkey.fill 9) 0 (Pubkey.fill 5)
    (Pubkey.fill 6), Pubkey.fill 9⟩

/-- The transfer arrives after asset 3 has been decompressed. -/
theorem late_transfer_unchanged :
    Decompressed (Pubkey.fill 3).bytes (sampleDecompressed (Pubkey.fill 3).bytes) ∧
    Unchanged false (Pubkey.fill 3).bytes (sampleDecompressed (Pubkey.fill 3).bytes)
      ((handleBubblegumInstruction Env.sample lateTransfer sampleBundle).run noFaults
        (World.init (sampleDecompressed (Pubkey.fill 3).bytes))).2.db := by
  have hdec : Decompressed (Pubkey.fill 3).bytes (sampleDecompressed (Pubkey.fill 3).bytes) := by
    refine ⟨⟨_, (lookup_singleton _ _ _).trans (if_pos rfl), rfl⟩,
      ⟨_, (lookup_singleton _ _ _).trans (if_pos rfl), rfl⟩,
      ⟨_, (lookup_singleton _ _ _).trans (if_pos rfl), rfl⟩, fun pos r hr => ?_⟩
    simp only [sampleDecompressed, lookup_singleton] at hr
    split at hr
    · obtain rfl := Option.some.inj hr
      rfl
    · exact absurd hr (by simp)
  exact ⟨hdec, decompressed_unchanged Env.sample lateTransfer sampleBundle noFaults _ _ hdec⟩

end DasIndexer.Bubblegum
