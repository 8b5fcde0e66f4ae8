import DasIndexer.Bubblegum.Handlers

/-!
# What a Bubblegum instruction writes

The nine handlers differ in what they check and in which table writes they make, and in nothing else.
This file reads that off once: `plan` gives for an instruction the change-log event it records and the
table writes that follow, and **`handleBubblegumInstruction_eq`** says that the handler is the plan
carried out.  The results about runs and about failures are proved of plans, from what
**`plan_ofInstruction`** says of them: whose rows they write, with which stamps, and each kind of write
at most once.
-/

namespace DasIndexer.Bubblegum

open Sql ProgramTransformerError

/-- One statement of a handler's transaction. -/
inductive TableWrite where
  | data (id : Bytes) (row : AssetDataRow) (seq : ℤ)
  | baseInfo (id : Bytes) (b : BaseInfo) (slotUpdated seq : ℤ)
  | compression (id : Bytes)
  | leafInfo (id : Bytes) (l : LeafInfo) (seq : ℤ)
  | ownerAndDelegate (id owner : Bytes) (delegate : Option Bytes) (seq : ℤ)
  | seq (id : Bytes) (seq : ℤ)
  | burnt (id : Bytes)
  | creators (id : Bytes) (creators : List Creator) (slotUpdated seq : ℤ)
  | authority (id authority : Bytes) (slotUpdated seq : ℤ)
  | collection (id : Bytes) (collection : Option Collection) (slotUpdated seq : ℤ)

namespace TableWrite

/-- The effect of the statement. -/
def apply (E : Env) : TableWrite → Database → Database
  | .data id row n => Database.upsertAssetData id (assetDataInfo row n)
  | .baseInfo id b slot n => Database.upsertAsset id (assetBaseInfo id b slot n)
  | .compression id => Database.upsertAsset id (assetCompression true false 1 none)
  | .leafInfo id l n => Database.upsertAsset id (assetLeafInfo E l n)
  | .ownerAndDelegate id owner delegate n =>
    Database.upsertAsset id (assetOwnerAndDelegate owner delegate n)
  | .seq id n => Database.upsertAsset id (assetSeq n)
  | .burnt id => Database.upsertAsset id assetBurnt
  | .creators id cs slot n => Database.upsertCreators (creatorRows id cs slot n)
  | .authority id a slot n => Database.upsertAuthority id (assetAuthority a slot n)
  | .collection id c slot n => Database.upsertGrouping (.collection id) (collectionInfo c slot n)

/-- The error of the statement. -/
def wrap : TableWrite → DbErr → ProgramTransformerError
  | .baseInfo .. => assetIndexError
  | .authority .. => assetIndexError
  | _ => storageWriteError

/-- The statement as a handler step. -/
def step (E : Env) (w : TableWrite) : Handler Unit := Session.write w.wrap (w.apply E)

/-- The statements of a transaction, in order. -/
def stepAll (E : Env) : List TableWrite → Handler Unit
  | [] => pure ()
  | w :: ws => do
    w.step E
    stepAll E ws

end TableWrite

/-- What an instruction does once its events and its payload are there. -/
structure Change where
  /-- The change-log event, recorded first and on the connection itself. -/
  event : ChangeLogEventV1
  /-- The asset whose rows are written. -/
  assetId : Bytes
  /-- The error raised after the change log, or the statements of the transaction. -/
  body : Except ProgramTransformerError (List TableWrite)
  /-- The download asked for at the end. -/
  download : Option DownloadMetadataInfo := none

/-- How an instruction is handled. -/
inductive Plan where
  /-- Nothing to index. -/
  | ignore
  /-- Something is missing; no statement is sent. -/
  | refuse
  | record (change : Change)

namespace Plan

/-- Carry out what follows the change log. -/
def runBody (E : Env) (change : Change) : Handler Unit :=
  match change.body with
  | .error e => Session.throw e
  | .ok writes => do
    Session.transaction storageWriteError (TableWrite.stepAll E writes)
    notifyDownload change.download

/-- Carry out a plan. -/
def run (E : Env) (bundle : InstructionBundle) (name : String) : Plan → Handler Unit
  | ignore => pure ()
  | refuse => notParsed
  | record change => do
    insertChangeLog change.event bundle.slot bundle.txnId name
    runBody E change

end Plan

/-! ### The plans of the handlers -/

section

variable (E : Env) (ix : BubblegumInstruction) (bundle : InstructionBundle)

/-- The `asset_data` row of a metadata. -/
def dataRow (mutability : ChainMutability) (chainData : ChainDataV1) (uri : MetadataUrl) (slot : ℤ)
    (rawName rawSymbol : Bytes) (seq : ℤ) : AssetDataRow :=
  { chainDataMutability := mutability, chainData := chainData.sanitize.toJson, metadataUrl := uri,
    metadataMutability := .mutable, metadata := .str "processing", slotUpdated := slot,
    reindex := some true, rawName := some rawName, rawSymbol := some rawSymbol,
    baseInfoSeq := some seq }

def mintPlan : Plan :=
  match ix.leafUpdate, ix.treeUpdate, ix.payload with
  | some le, some cl, some (.mint metadata authority treeId) =>
    let leaf := NormalizedLeafFields.from le.schema
    let id := leaf.id.bytes
    let uri := metadata.uri.stripNul
    let chainData : ChainDataV1 :=
      { name := metadata.name, symbol := metadata.symbol, editionNonce := metadata.editionNonce,
        primarySaleHappened := metadata.primarySaleHappened, tokenStandard := some .nonFungible,
        uses := metadata.uses.map tokenMetadataUses }
    .record
      { event := cl
        assetId := id
        body := .ok
          [ .data id (dataRow (chainMutability metadata.isMutable) chainData uri bundle.slot
              (utf8 metadata.name) (utf8 metadata.symbol) cl.seq) cl.seq,
            .baseInfo id (baseInfo le.version metadata.sellerFeeBasisPoints) bundle.slot cl.seq,
            .compression id,
            .leafInfo id (leaf.info (asI64 leaf.nonce) treeId.bytes le.leafHash.bytes) cl.seq,
            .ownerAndDelegate id leaf.owner.bytes (delegateOf leaf.owner leaf.delegate) cl.seq,
            .seq id cl.seq,
            .creators id metadata.creators bundle.slot cl.seq,
            .authority id authority.bytes cl.seq bundle.slot,
            .collection id metadata.collection bundle.slot cl.seq ]
        download := downloadOf id uri.1 }
  | _, _, _ => .refuse

def updateLeafAndOwnerPlan : Plan :=
  match ix.leafUpdate, ix.treeUpdate with
  | some le, some cl =>
    let leaf := NormalizedLeafFields.from le.schema
    let id := leaf.id.bytes
    .record
      { event := cl
        assetId := id
        body := .ok
          [ .leafInfo id (leaf.info cl.index cl.id.bytes le.leafHash.bytes) cl.seq,
            .ownerAndDelegate id leaf.owner.bytes (delegateOf leaf.owner leaf.delegate) cl.seq,
            .seq id cl.seq ] }
  | _, _ => .refuse

def burnPlan : Plan :=
  match ix.treeUpdate with
  | some cl =>
    let id := (leafAssetId E cl.id cl.index).bytes
    .record { event := cl, assetId := id, body := .ok [.burnt id, .seq id cl.seq] }
  | none => .refuse

def redeemPlan : Plan :=
  match ix.treeUpdate with
  | some cl =>
    let id := (leafAssetId E cl.id cl.index).bytes
    .record
      { event := cl
        assetId := id
        body := .ok [.leafInfo id (emptyLeaf cl.index cl.id.bytes) cl.seq, .seq id cl.seq] }
  | none => .refuse

def cancelRedeemPlan : Plan :=
  match ix.leafUpdate, ix.treeUpdate with
  | some le, some cl =>
    match le.schema with
    | .v1 id owner delegate _ dataHash creatorHash =>
      .record
        { event := cl
          assetId := id.bytes
          body := .ok
            [ .leafInfo id.bytes
                { nonce := cl.index, treeId := cl.id.bytes, leaf := le.leafHash.bytes, dataHash,
                  creatorHash, collectionHash := none, assetDataHash := none, flags := none } cl.seq,
              .ownerAndDelegate id.bytes owner.bytes (delegateOf owner delegate) cl.seq,
              .seq id.bytes cl.seq ] }
    | .v2 id .. =>
      .record
        { event := cl
          assetId := id.bytes
          body := .error (parsingError "LeafSchema V2 not possible for ix") }
  | _, _ => .refuse

def creatorVerificationPlan : Plan :=
  match ix.leafUpdate, ix.treeUpdate, ix.payload with
  | some le, some cl, some (.creatorVerification metadata creator verify) =>
    let leaf := NormalizedLeafFields.from le.schema
    let id := leaf.id.bytes
    .record
      { event := cl
        assetId := id
        body := .ok
          [ .leafInfo id (leaf.info cl.index cl.id.bytes le.leafHash.bytes) cl.seq,
            .ownerAndDelegate id leaf.owner.bytes (delegateOf leaf.owner leaf.delegate) cl.seq,
            .seq id cl.seq,
            .creators id (updatedCreators metadata.creators creator verify) bundle.slot cl.seq ] }
  | _, _, _ => .refuse

def collectionVerificationPlan : Plan :=
  match ix.leafUpdate, ix.treeUpdate, ix.payload with
  | some le, some cl, some (.collectionVerification collection verify) =>
    let leaf := NormalizedLeafFields.from le.schema
    let id := leaf.id.bytes
    .record
      { event := cl
        assetId := id
        body := .ok
          [ .leafInfo id (leaf.info cl.index cl.id.bytes le.leafHash.bytes) cl.seq,
            .seq id cl.seq,
            .collection id (verifiedCollection E collection verify) bundle.slot cl.seq ] }
  | _, _, _ => .refuse

def updateMetadataPlan : Plan :=
  match ix.leafUpdate, ix.treeUpdate, ix.payload with
  | some le, some cl, some (.updateMetadata current update treeId) =>
    let leaf := NormalizedLeafFields.from le.schema
    let id := leaf.id.bytes
    let uri := (update.uri.getD current.uri).stripNul
    let newName := update.name.getD current.name
    let newSymbol := update.symbol.getD current.symbol
    let chainData : ChainDataV1 :=
      { name := newName, symbol := newSymbol, editionNonce := current.editionNonce,
        primarySaleHappened := update.primarySaleHappened.getD current.primarySaleHappened,
        tokenStandard := some .nonFungible, uses := current.uses.map tokenMetadataUses }
    .record
      { event := cl
        assetId := id
        body := .ok
          [ .data id (dataRow (chainMutability (update.isMutable.getD current.isMutable)) chainData uri
              bundle.slot (utf8 newName) (utf8 newSymbol) cl.seq) cl.seq,
            .baseInfo id
              (baseInfo le.version (update.sellerFeeBasisPoints.getD current.sellerFeeBasisPoints))
              bundle.slot cl.seq,
            .leafInfo id (leaf.info (asI64 leaf.nonce) treeId.bytes le.leafHash.bytes) cl.seq,
            .seq id cl.seq,
            .creators id (update.creators.getD current.creators) bundle.slot cl.seq ]
        download := downloadOf id uri.1 }
  | _, _, _ => .refuse

/-- The plan of an instruction. -/
def plan : Plan :=
  match ix.instruction with
  | .transfer | .transferV2 | .delegate | .delegateV2 | .delegateAndFreezeV2 | .freezeV2
  | .setNonTransferableV2 | .thawV2 | .thawAndRevokeV2 => updateLeafAndOwnerPlan ix
  | .burn | .burnV2 => burnPlan E ix
  | .mintV1 | .mintToCollectionV1 | .mintV2 => mintPlan ix bundle
  | .redeem => redeemPlan E ix
  | .cancelRedeem => cancelRedeemPlan ix
  | .verifyCreator | .unverifyCreator | .verifyCreatorV2 | .unverifyCreatorV2 =>
    creatorVerificationPlan ix bundle
  | .verifyCollection | .unverifyCollection | .setAndVerifyCollection | .setCollectionV2 =>
    collectionVerificationPlan E ix bundle
  | .updateMetadata | .updateMetadataV2 => updateMetadataPlan ix bundle
  | .decompressV1 | .setDecompressibleState | .updateAssetDataV2 | .unknown | .compress
  | .createTree | .collectV2 | .createTreeV2 => .ignore

/-! ### The handlers carry out their plans -/

-- what all handlers share
attribute [local simp] Plan.run Plan.runBody TableWrite.stepAll saveChangelogEvent notifyDownload

theorem mint_eq (name : String) :
    (mint E ix bundle name >>= notifyDownload) = (mintPlan ix bundle).run E bundle name := by
  obtain ⟨_, _ | cl, _ | le, _ | p⟩ := ix
  case some.some.some =>
    cases p with
    | mint metadata authority treeId =>
      simp only [mint, mintPlan, saveChangelogEvent, Plan.run, Plan.runBody, TableWrite.stepAll,
        bind_assoc, pure_bind, bind_pure_unit]
      rfl
    | _ => rfl
  all_goals rfl

theorem updateMetadata_eq (name : String) :
    (updateMetadata E ix bundle name >>= notifyDownload)
      = (updateMetadataPlan ix bundle).run E bundle name := by
  obtain ⟨_, _ | cl, _ | le, _ | p⟩ := ix
  case some.some.some =>
    cases p with
    | updateMetadata current update treeId =>
      simp only [updateMetadata, updateMetadataPlan, saveChangelogEvent, Plan.run, Plan.runBody,
        TableWrite.stepAll, bind_assoc, pure_bind, bind_pure_unit]
      rfl
    | _ => rfl
  all_goals rfl

theorem updateLeafAndOwner_eq (name : String) :
    updateLeafAndOwner E ix bundle name = (updateLeafAndOwnerPlan ix).run E bundle name := by
  obtain ⟨_, _ | cl, _ | le, _⟩ := ix
  case some.some =>
    simp only [updateLeafAndOwner, updateLeafAndOwnerPlan, saveChangelogEvent, Plan.run, Plan.runBody,
      TableWrite.stepAll, notifyDownload, bind_assoc, pure_bind, bind_pure_unit]
    rfl
  all_goals rfl

theorem burn_eq (name : String) : burn E ix bundle name = (burnPlan E ix).run E bundle name := by
  obtain ⟨_, _ | cl, _, _⟩ := ix
  case some =>
    simp only [burn, burnPlan, saveChangelogEvent, Plan.run, Plan.runBody, TableWrite.stepAll,
      notifyDownload, bind_assoc, pure_bind, bind_pure_unit]
    rfl
  all_goals rfl

theorem redeem_eq (name : String) :
    redeem E ix bundle name = (redeemPlan E ix).run E bundle name := by
  obtain ⟨_, _ | cl, _, _⟩ := ix
  case some =>
    simp only [redeem, redeemPlan, saveChangelogEvent, Plan.run, Plan.runBody, TableWrite.stepAll,
      notifyDownload, bind_assoc, pure_bind, bind_pure_unit]
    rfl
  all_goals rfl

theorem cancelRedeem_eq (name : String) :
    cancelRedeem E ix bundle name = (cancelRedeemPlan ix).run E bundle name := by
  obtain ⟨_, _ | cl, _ | ⟨version, schema, leafHash⟩, _⟩ := ix
  case some.some =>
    cases schema with
    | v1 =>
      simp only [cancelRedeem, cancelRedeemPlan, saveChangelogEvent, Plan.run, Plan.runBody,
        TableWrite.stepAll, notifyDownload, bind_assoc, pure_bind, bind_pure_unit]
      rfl
    | v2 =>
      simp only [cancelRedeem, cancelRedeemPlan, saveChangelogEvent, Plan.run, Plan.runBody,
        bind_assoc, pure_bind]
  all_goals rfl

theorem creatorVerification_eq (name : String) :
    creatorVerification E ix bundle name
      = (creatorVerificationPlan ix bundle).run E bundle name := by
  obtain ⟨_, _ | cl, _ | le, _ | p⟩ := ix
  case some.some.some =>
    cases p with
    | creatorVerification metadata creator verify =>
      simp only [creatorVerification, creatorVerificationPlan, saveChangelogEvent, Plan.run,
        Plan.runBody, TableWrite.stepAll, notifyDownload, bind_assoc, pure_bind, bind_pure_unit]
      rfl
    | _ => rfl
  all_goals rfl

theorem collectionVerification_eq (name : String) :
    collectionVerification E ix bundle name
      = (collectionVerificationPlan E ix bundle).run E bundle name := by
  obtain ⟨_, _ | cl, _ | le, _ | p⟩ := ix
  case some.some.some =>
    cases p with
    | collectionVerification collection verify =>
      simp only [collectionVerification, collectionVerificationPlan, saveChangelogEvent, Plan.run,
        Plan.runBody, TableWrite.stepAll, notifyDownload, bind_assoc, pure_bind, bind_pure_unit]
      rfl
    | _ => rfl
  all_goals rfl

/-- **Every handler carries out its plan.** -/
theorem handleBubblegumInstruction_eq :
    handleBubblegumInstruction E ix bundle
      = (plan E ix bundle).run E bundle (ixStr ix.instruction) := by
  unfold handleBubblegumInstruction plan
  cases ix.instruction
  case mintV1 | mintToCollectionV1 | mintV2 => exact mint_eq E ix bundle _
  case updateMetadata | updateMetadataV2 => exact updateMetadata_eq E ix bundle _
  case burn | burnV2 => exact burn_eq E ix bundle _
  case redeem => exact redeem_eq E ix bundle _
  case cancelRedeem => exact cancelRedeem_eq E ix bundle _
  case verifyCreator | unverifyCreator | verifyCreatorV2 | unverifyCreatorV2 =>
    exact creatorVerification_eq E ix bundle _
  case verifyCollection | unverifyCollection | setAndVerifyCollection | setCollectionV2 =>
    exact collectionVerification_eq E ix bundle _
  case transfer | transferV2 | delegate | delegateV2 | delegateAndFreezeV2 | freezeV2
      | setNonTransferableV2 | thawV2 | thawAndRevokeV2 =>
    exact updateLeafAndOwner_eq E ix bundle _
  all_goals rfl

end

/-! ### What a plan can write -/

namespace TableWrite

/-- The column group that a statement writes. -/
inductive Kind where
  | data | baseInfo | compression | leafInfo | ownerAndDelegate | seq | burnt | creators | authority
  | collection
deriving DecidableEq

def kind : TableWrite → Kind
  | .data .. => .data
  | .baseInfo .. => .baseInfo
  | .compression .. => .compression
  | .leafInfo .. => .leafInfo
  | .ownerAndDelegate .. => .ownerAndDelegate
  | .seq .. => .seq
  | .burnt .. => .burnt
  | .creators .. => .creators
  | .authority .. => .authority
  | .collection .. => .collection

/-- The statement writes rows of asset `id` and stamps them `n`; a fresh `asset_data` row waits for its
metadata. -/
def Fits (id : Bytes) (n : ℤ) : TableWrite → Prop
  | .data id' row n' =>
    id' = id ∧ n' = n ∧ row.baseInfoSeq = some n ∧ row.metadata = .str "processing"
  | .baseInfo id' _ _ n' => id' = id ∧ n' = n
  | .compression id' => id' = id
  | .leafInfo id' _ n' => id' = id ∧ n' = n
  | .ownerAndDelegate id' _ _ n' => id' = id ∧ n' = n
  | .seq id' n' => id' = id ∧ n' = n
  | .burnt id' => id' = id
  | .creators id' _ _ n' => id' = id ∧ n' = n
  | .authority id' _ _ _ => id' = id
  | .collection id' _ _ n' => id' = id ∧ n' = n

end TableWrite

def LeafSchema.version : LeafSchema → Version
  | .v1 .. => .v1
  | .v2 .. => .v2

/-- The schema version of the leaf that an instruction writes.  Redeeming and cancelling write a
version 1 leaf, burning writes none. -/
def leafVersion (ix : BubblegumInstruction) : Option Version :=
  match ix.instruction with
  | .redeem | .cancelRedeem => some .v1
  | .burn | .burnV2 => none
  | _ => ix.leafUpdate.map fun le => le.schema.version

/-- The version of a leaf write. -/
def LeafInfo.version (l : LeafInfo) : Version := if l.flags.isSome then .v2 else .v1

def InstructionName.isMint : InstructionName → Bool
  | .mintV1 | .mintToCollectionV1 | .mintV2 => true
  | _ => false

/-- The asset whose rows an instruction writes: the one derived from the leaf's position for a burn or
a redeem, otherwise the one that the leaf event names. -/
def assetOf (E : Env) (ix : BubblegumInstruction) : Option Bytes :=
  match ix.instruction with
  | .burn | .burnV2 | .redeem => ix.treeUpdate.map fun cl => (leafAssetId E cl.id cl.index).bytes
  | _ => ix.leafUpdate.map fun le => (NormalizedLeafFields.from le.schema).id.bytes

/-- What is known of a change that an instruction's plan records. -/
structure Change.OfInstruction (E : Env) (ix : BubblegumInstruction) (change : Change) : Prop where
  event : ix.treeUpdate = some change.event
  asset : assetOf E ix = some change.assetId
  fits : ∀ ws, change.body = .ok ws → ∀ w ∈ ws, w.Fits change.assetId change.event.seq
  kinds : ∀ ws, change.body = .ok ws → (ws.map TableWrite.kind).Nodup
  version : ∀ ws, change.body = .ok ws → ∀ id l n, TableWrite.leafInfo id l n ∈ ws →
    leafVersion ix = some l.version
  authority : ∀ ws, change.body = .ok ws → ∀ id a slot n, TableWrite.authority id a slot n ∈ ws →
    ix.instruction.isMint = true

section

variable {E : Env} {ix : BubblegumInstruction} {bundle : InstructionBundle} {change : Change}

attribute [local simp] TableWrite.Fits TableWrite.kind dataRow

theorem NormalizedLeafFields.info_version (schema : LeafSchema) (nonce : ℤ) (tree leaf : Bytes) :
    ((NormalizedLeafFields.from schema).info nonce tree leaf).version = schema.version := by
  cases schema <;> rfl

/-- An instruction that writes its leaf event writes a leaf of its version. -/
theorem leafVersion_info {le : LeafSchemaEvent}
    (hv : leafVersion ix = ix.leafUpdate.map fun le => le.schema.version)
    (hle : ix.leafUpdate = some le) (nonce : ℤ) (tree leaf : Bytes) :
    leafVersion ix = some ((NormalizedLeafFields.from le.schema).info nonce tree leaf).version := by
  rw [hv, hle, NormalizedLeafFields.info_version]
  rfl

theorem mintPlan_ofInstruction (h : mintPlan ix bundle = .record change)
    (ha : assetOf E ix = ix.leafUpdate.map fun le => (NormalizedLeafFields.from le.schema).id.bytes)
    (hv : leafVersion ix = ix.leafUpdate.map fun le => le.schema.version)
    (hm : ix.instruction.isMint = true) :
    change.OfInstruction E ix := by
  obtain ⟨name, _ | cl, _ | le, _ | p⟩ := ix
  case some.some.some =>
    cases p with
    | mint metadata authority treeId =>
      obtain rfl := Plan.record.inj h
      refine ⟨rfl, ha, ?_, ?_, ?_, fun _ _ _ _ _ _ _ => hm⟩ <;> rintro ws ⟨⟩
      · simp
      · simp
      · intro id l n hl
        simp only [List.mem_cons, List.not_mem_nil, TableWrite.leafInfo.injEq, reduceCtorEq, or_false,
          false_or] at hl
        obtain ⟨-, rfl, -⟩ := hl
        exact leafVersion_info hv rfl _ _ _
    | _ => cases h
  all_goals cases h

theorem updateMetadataPlan_ofInstruction (h : updateMetadataPlan ix bundle = .record change)
    (ha : assetOf E ix = ix.leafUpdate.map fun le => (NormalizedLeafFields.from le.schema).id.bytes)
    (hv : leafVersion ix = ix.leafUpdate.map fun le => le.schema.version) :
    change.OfInstruction E ix := by
  obtain ⟨name, _ | cl, _ | le, _ | p⟩ := ix
  case some.some.some =>
    cases p with
    | updateMetadata current update treeId =>
      obtain rfl := Plan.record.inj h
      refine ⟨rfl, ha, ?_, ?_, ?_, ?_⟩ <;> rintro ws ⟨⟩
      · simp
      · simp
      · intro id l n hl
        simp only [List.mem_cons, List.not_mem_nil, TableWrite.leafInfo.injEq, reduceCtorEq, or_false,
          false_or] at hl
        obtain ⟨-, rfl, -⟩ := hl
        exact leafVersion_info hv rfl _ _ _
      · simp
    | _ => cases h
  all_goals cases h

theorem creatorVerificationPlan_ofInstruction (h : creatorVerificationPlan ix bundle = .record change)
    (ha : assetOf E ix = ix.leafUpdate.map fun le => (NormalizedLeafFields.from le.schema).id.bytes)
    (hv : leafVersion ix = ix.leafUpdate.map fun le => le.schema.version) :
    change.OfInstruction E ix := by
  obtain ⟨name, _ | cl, _ | le, _ | p⟩ := ix
  case some.some.some =>
    cases p with
    | creatorVerification metadata creator verify =>
      obtain rfl := Plan.record.inj h
      refine ⟨rfl, ha, ?_, ?_, ?_, ?_⟩ <;> rintro ws ⟨⟩
      · simp
      · simp
      · intro id l n hl
        simp only [List.mem_cons, List.not_mem_nil, TableWrite.leafInfo.injEq, reduceCtorEq, or_false]
          at hl
        obtain ⟨-, rfl, -⟩ := hl
        exact leafVersion_info hv rfl _ _ _
      · simp
    | _ => cases h
  all_goals cases h

theorem collectionVerificationPlan_ofInstruction (h : collectionVerificationPlan E ix bundle = .record change)
    (ha : assetOf E ix = ix.leafUpdate.map fun le => (NormalizedLeafFields.from le.schema).id.bytes)
    (hv : leafVersion ix = ix.leafUpdate.map fun le => le.schema.version) :
    change.OfInstruction E ix := by
  obtain ⟨name, _ | cl, _ | le, _ | p⟩ := ix
  case some.some.some =>
    cases p with
    | collectionVerification collection verify =>
      obtain rfl := Plan.record.inj h
      refine ⟨rfl, ha, ?_, ?_, ?_, ?_⟩ <;> rintro ws ⟨⟩
      · simp
      · simp
      · intro id l n hl
        simp only [List.mem_cons, List.not_mem_nil, TableWrite.leafInfo.injEq, reduceCtorEq, or_false]
          at hl
        obtain ⟨-, rfl, -⟩ := hl
        exact leafVersion_info hv rfl _ _ _
      · simp
    | _ => cases h
  all_goals cases h

theorem updateLeafAndOwnerPlan_ofInstruction (h : updateLeafAndOwnerPlan ix = .record change)
    (ha : assetOf E ix = ix.leafUpdate.map fun le => (NormalizedLeafFields.from le.schema).id.bytes)
    (hv : leafVersion ix = ix.leafUpdate.map fun le => le.schema.version) :
    change.OfInstruction E ix := by
  obtain ⟨name, _ | cl, _ | le, p⟩ := ix
  case some.some =>
    obtain rfl := Plan.record.inj h
    refine ⟨rfl, ha, ?_, ?_, ?_, ?_⟩ <;> rintro ws ⟨⟩
    · simp
    · simp
    · intro id l n hl
      simp only [List.mem_cons, List.not_mem_nil, TableWrite.leafInfo.injEq, reduceCtorEq, or_false]
        at hl
      obtain ⟨-, rfl, -⟩ := hl
      exact leafVersion_info hv rfl _ _ _
    · simp
  all_goals cases h

theorem burnPlan_ofInstruction (h : burnPlan E ix = .record change)
    (ha : assetOf E ix = ix.treeUpdate.map fun cl => (leafAssetId E cl.id cl.index).bytes) :
    change.OfInstruction E ix := by
  obtain ⟨name, _ | cl, le, p⟩ := ix
  case some =>
    obtain rfl := Plan.record.inj h
    refine ⟨rfl, ha, ?_, ?_, ?_, ?_⟩ <;> rintro ws ⟨⟩
    · simp
    · simp
    · simp
    · simp
  all_goals cases h

theorem redeemPlan_ofInstruction (h : redeemPlan E ix = .record change)
    (ha : assetOf E ix = ix.treeUpdate.map fun cl => (leafAssetId E cl.id cl.index).bytes)
    (hv : leafVersion ix = some .v1) : change.OfInstruction E ix := by
  obtain ⟨name, _ | cl, le, p⟩ := ix
  case some =>
    obtain rfl := Plan.record.inj h
    refine ⟨rfl, ha, ?_, ?_, ?_, ?_⟩ <;> rintro ws ⟨⟩
    · simp
    · simp
    · intro id l n hl
      simp only [List.mem_cons, List.not_mem_nil, TableWrite.leafInfo.injEq, reduceCtorEq, or_false]
        at hl
      obtain ⟨-, rfl, -⟩ := hl
      exact hv
    · simp
  all_goals cases h

theorem cancelRedeemPlan_ofInstruction (h : cancelRedeemPlan ix = .record change)
    (ha : assetOf E ix = ix.leafUpdate.map fun le => (NormalizedLeafFields.from le.schema).id.bytes)
    (hv : leafVersion ix = some .v1) : change.OfInstruction E ix := by
  obtain ⟨name, _ | cl, _ | ⟨version, schema, leafHash⟩, p⟩ := ix
  case some.some =>
    cases schema with
    | v1 =>
      obtain rfl := Plan.record.inj h
      refine ⟨rfl, ha, ?_, ?_, ?_, ?_⟩ <;> rintro ws ⟨⟩
      · simp
      · simp
      · intro id l n hl
        simp only [List.mem_cons, List.not_mem_nil, TableWrite.leafInfo.injEq, reduceCtorEq, or_false]
          at hl
        obtain ⟨-, rfl, -⟩ := hl
        exact hv
      · simp
    | v2 =>
      obtain rfl := Plan.record.inj h
      refine ⟨rfl, ha, ?_, ?_, ?_, ?_⟩ <;> rintro ws ⟨⟩
  all_goals cases h

/-- **What a plan can write.** -/
theorem plan_ofInstruction (h : plan E ix bundle = .record change) : change.OfInstruction E ix := by
  obtain ⟨name, tree, leaf, p⟩ := ix
  cases name
  case mintV1 | mintToCollectionV1 | mintV2 => exact mintPlan_ofInstruction h rfl rfl rfl
  case updateMetadata | updateMetadataV2 => exact updateMetadataPlan_ofInstruction h rfl rfl
  case burn | burnV2 => exact burnPlan_ofInstruction h rfl
  case redeem => exact redeemPlan_ofInstruction h rfl rfl
  case cancelRedeem => exact cancelRedeemPlan_ofInstruction h rfl rfl
  case verifyCreator | unverifyCreator | verifyCreatorV2 | unverifyCreatorV2 =>
    exact creatorVerificationPlan_ofInstruction h rfl rfl
  case verifyCollection | unverifyCollection | setAndVerifyCollection | setCollectionV2 =>
    exact collectionVerificationPlan_ofInstruction h rfl rfl
  case transfer | transferV2 | delegate | delegateV2 | delegateAndFreezeV2 | freezeV2
      | setNonTransferableV2 | thawV2 | thawAndRevokeV2 =>
    exact updateLeafAndOwnerPlan_ofInstruction h rfl rfl
  all_goals cases h

end

end DasIndexer.Bubblegum
