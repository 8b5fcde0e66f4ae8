import DasIndexer.Accounts.Tokens
import Mathlib.Data.List.Sort

/-!
# Token Metadata accounts

`saveV1Asset` stores a metadata account under its mint.  Before its own transaction it copies what is
already known of the mint and of a token account with a balance to the asset row, and it guesses the class
and the owner type of a mint it does not know from the token standard and a supply of one.

Addresses derived from the mint are the parameter `masterEditionPda`.
-/

namespace DasIndexer.Accounts.TokenMetadata

open Sql ProgramTransformerError
open Bubblegum (Creator Collection)

/-- `mpl_token_metadata::accounts::Metadata`, without the fields that the handler does not read. -/
structure Metadata where
  updateAuthority : Pubkey
  mint : Pubkey
  name : String
  symbol : String
  uri : MetadataUrl
  sellerFeeBasisPoints : ℕ
  creators : Option (List Creator)
  primarySaleHappened : Bool
  isMutable : Bool
  editionNonce : Option UInt8
  tokenStandard : Option TokenStandard
  collection : Option Collection
  uses : Option Uses
deriving DecidableEq

/-- `IsNonFungibe for TokenStandard`. -/
def isNonFungibleStandard : TokenStandard → Bool
  | .nonFungible => true
  | .nonFungibleEdition => true
  | .programmableNonFungible => true
  | .programmableNonFungibleEdition => true
  | _ => false

/-! ### What is already known of the mint -/

/-- The asset columns of a stored mint. -/
def storedMintColumns (mint : Bytes) (t : TokenRow) : AssetMintAccountColumns :=
  { mint, supply := t.supply, slotUpdatedMintAccount := t.slotUpdated, extensions := t.extensions }

/-- `index_and_fetch_mint_data`. -/
def indexAndFetchMintData (mint : Bytes) : Handler (Option TokenRow) := do
  match ← findModelWithRetry storageWriteError (fun db => db.tokens.lookup mint) retryIntervals with
  | some token => do
    upsertAssetsMintAccountColumns assetIndexError (storedMintColumns mint token)
    return some token
  | none => return none

/-- The token account of a mint with a balance, the newest first. -/
def holderOf (mint : Bytes) (db : Database) : Option TokenAccountRow :=
  ((((scan db.tokenAccounts).map Prod.snd).filter fun r => decide (r.mint = mint ∧ 0 < r.amount)).insertionSort
    fun a b => b.slotUpdated ≤ a.slotUpdated).head?

/-- The asset columns of a stored token account. -/
def storedAccountColumns (mint : Bytes) (r : TokenAccountRow) : AssetTokenAccountColumns :=
  { mint, owner := some r.owner, delegate := r.delegate, frozen := r.frozen,
    slotUpdatedTokenAccount := r.slotUpdated }

/-- `index_token_account_data`. -/
def indexTokenAccountData (mint : Bytes) : Handler Unit := do
  match ← findModelWithRetry databaseError (holderOf mint) retryIntervals with
  | some account => upsertAssetsTokenAccountColumns assetIndexError (storedAccountColumns mint account)
  | none => pure ()

/-! ### The class and the owner type -/

/-- `So11111111111111111111111111111111111111112`. -/
def wsolPubkey : Pubkey :=
  ⟨[6, 155, 136, 87, 254, 171, 129, 132, 251, 104, 127, 99, 70, 24, 192, 53, 218, 196, 57, 220, 26, 235,
    59, 85, 152, 160, 240, 0, 0, 0, 0, 1], by decide⟩

example : wsolPubkey.toString = "So11111111111111111111111111111111111111112" := by decide +kernel

/-- The class that the token standard says. -/
def standardClass : Option TokenStandard → SpecificationAssetClass
  | some .nonFungible => .nft
  | some .fungibleAsset => .fungibleAsset
  | some .fungible => .fungibleToken
  | some .nonFungibleEdition => .nft
  | some .programmableNonFungible => .programmableNft
  | some .programmableNonFungibleEdition => .programmableNft
  | none => .unknown

/-- The class before the supply is looked at; wrapped SOL has no token standard. -/
def initialClass (m : Metadata) : SpecificationAssetClass :=
  if m.mint = wsolPubkey then .fungibleToken else standardClass m.tokenStandard

def initialOwnerType (m : Metadata) : OwnerType :=
  if m.mint = wsolPubkey then .token
  else
    match standardClass m.tokenStandard with
    | .fungibleAsset => .token
    | .fungibleToken => .token
    | .unknown => .unknown
    | _ => .single

/-- Unknown owner types are mapped by the supply. -/
def ownerTypeOf (m : Metadata) (supply : ℤ) : OwnerType :=
  match initialOwnerType m with
  | .unknown => if supply = 1 then .single else if 1 < supply then .token else .unknown
  | t => t

/-- So are unknown classes. -/
def classOf (m : Metadata) (supply : ℤ) : SpecificationAssetClass :=
  match initialClass m with
  | .unknown => if 1 < supply then .fungibleToken else .unknown
  | c => c

/-! ### Saving -/

/-- The `asset_data` row of a metadata account. -/
def dataRow (m : Metadata) (slot : ℕ) : AssetDataRow :=
  { chainDataMutability := if m.isMutable then .mutable else .immutable
    chainData := (ChainDataV1.sanitize
      { name := m.name, symbol := m.symbol, editionNonce := m.editionNonce,
        primarySaleHappened := m.primarySaleHappened, tokenStandard := m.tokenStandard,
        uses := m.uses }).toJson
    metadataUrl := m.uri.trim.stripNul
    metadata := .str "processing"
    metadataMutability := .mutable
    slotUpdated := slot
    reindex := some true
    rawName := some (utf8 m.name)
    rawSymbol := some (utf8 m.symbol)
    baseInfoSeq := some 0 }

/-- The asset columns of a metadata account. -/
def columns (m : Metadata) (slot : ℕ) (supply : ℤ) : AssetMetadataAccountColumns :=
  { mint := m.mint.bytes
    ownerType := ownerTypeOf m supply
    specificationAssetClass := some (classOf m supply)
    royaltyAmount := m.sellerFeeBasisPoints
    assetData := some m.mint.bytes
    slotUpdatedMetadataAccount := slot }

/-- The creators by position. -/
def creatorRows (m : Metadata) (slot : ℕ) : List ((Bytes × ℤ) × Upsert AssetCreatorRow) :=
  (m.creators.getD []).zipIdx.map fun e =>
    ((m.mint.bytes, (e.2 : ℤ)), accountCreator e.1.address.bytes e.1.share.toNat e.1.verified slot)

def upsertAttachment (id : Bytes) (u : Upsert AttachmentRow) (db : Database) : Database :=
  { db with attachments := upsert db.attachments id u }

/-- The attachment that is proposed before the edition account is known. -/
def masterEditionAttachment (slot : ℕ) : Upsert AttachmentRow :=
  .doNothing { slotUpdated := slot, attachmentType := .masterEditionV2 }

/-- `upsert_asset_v1_account_attachments`: whatever is stored, the asset is set. -/
def assetAttachment (mint : Bytes) (slot : ℕ) : Upsert AttachmentRow where
  new := { assetId := some mint, slotUpdated := slot, attachmentType := .masterEditionV2 }
  guard _ := some true
  set r := { r with assetId := some mint }

/-- The one transaction of `save_v1_asset`. -/
def saveTransaction (masterEditionPda : Pubkey → Pubkey) (m : Metadata) (slot : ℕ) (supply : ℤ) :
    Handler Unit := do
  Session.write assetIndexError (Database.upsertAssetData m.mint.bytes (accountAssetData (dataRow m slot)))
  upsertAssetsMetadataAccountColumns storageWriteError (columns m slot supply)
  Session.write assetIndexError
    (upsertAttachment (masterEditionPda m.mint).bytes (masterEditionAttachment slot))
  Session.write assetIndexError
    (Database.upsertAuthority m.mint.bytes (authorityColumns m.updateAuthority.bytes slot))
  Session.write assetIndexError
    (Database.upsertGrouping (.collection m.mint.bytes)
      (accountGrouping (m.collection.map fun c => c.key.toString)
        ((m.collection.map Collection.verified).getD false) slot))
  insertCreators (creatorRows m slot)

/-- An asset that may be held by one owner takes it from a token account that is already stored. -/
def indexOwner (m : Metadata) (supply : ℤ) : Handler Unit :=
  if ownerTypeOf m supply = .single ∨ ownerTypeOf m supply = .unknown then
    indexTokenAccountData m.mint.bytes
  else pure ()

/-- A non-fungible token has its edition account attached. -/
def attachEdition (masterEditionPda : Pubkey → Pubkey) (m : Metadata) (slot : ℕ) : Handler Unit :=
  if (m.tokenStandard.map isNonFungibleStandard).getD false then
    Session.write storageWriteError
      (upsertAttachment (masterEditionPda m.mint).bytes (assetAttachment m.mint.bytes slot))
  else pure ()

/-- What is left to download of a metadata account. -/
def downloadInfo (m : Metadata) : Option DownloadMetadataInfo :=
  if m.uri.trim.stripNul.1 = "" then none
  else some (DownloadMetadataInfo.new m.mint.bytes m.uri.trim.stripNul.1)

/-- `save_v1_asset`.  A mint that is not known is taken to have a supply of one. -/
def saveV1Asset (masterEditionPda : Pubkey → Pubkey) (m : Metadata) (slot : ℕ) :
    Handler (Option DownloadMetadataInfo) := do
  let token ← indexAndFetchMintData m.mint.bytes
  indexOwner m ((token.map TokenRow.supply).getD 1)
  Session.transaction storageWriteError
    (saveTransaction masterEditionPda m slot ((token.map TokenRow.supply).getD 1))
  attachEdition masterEditionPda m slot
  return downloadInfo m

/-- The metadata branch of `handle_token_metadata_account`. -/
def handleMetadata (masterEditionPda : Pubkey → Pubkey) (m : Metadata) (slot : ℕ) : Handler Unit := do
  match ← saveV1Asset masterEditionPda m slot with
  | none => pure ()
  | some _ => Session.fallible downloadMetadataNotify

/-! ### Its effect -/

/-- The tables after the mint's data has been copied. -/
def indexMintEffect (mint : Bytes) (db : Database) : Database :=
  match db.tokens.lookup mint with
  | some token => Database.upsertAsset mint (mintAccountColumns (storedMintColumns mint token)) db
  | none => db

/-- The tables after a token account's data has been copied. -/
def indexTokenAccountEffect (mint : Bytes) (db : Database) : Database :=
  match holderOf mint db with
  | some account =>
    Database.upsertAsset mint (tokenAccountColumns (storedAccountColumns mint account)) db
  | none => db

/-- The supply that the handler goes by. -/
def knownSupply (mint : Bytes) (db : Database) : ℤ :=
  ((db.tokens.lookup mint).map TokenRow.supply).getD 1

/-- The tables after the transaction. -/
def saveTransactionEffect (masterEditionPda : Pubkey → Pubkey) (m : Metadata) (slot : ℕ) (supply : ℤ)
    (db : Database) : Database :=
  let db := Database.upsertAssetData m.mint.bytes (accountAssetData (dataRow m slot)) db
  let db := Database.upsertAsset m.mint.bytes (metadataAccountColumns (columns m slot supply)) db
  let db := upsertAttachment (masterEditionPda m.mint).bytes (masterEditionAttachment slot) db
  let db := Database.upsertAuthority m.mint.bytes (authorityColumns m.updateAuthority.bytes slot) db
  let db := Database.upsertGrouping (.collection m.mint.bytes)
    (accountGrouping (m.collection.map fun c => c.key.toString)
      ((m.collection.map Collection.verified).getD false) slot) db
  Database.upsertCreators (creatorRows m slot) db

/-- The tables after the owner has been looked for. -/
def indexOwnerEffect (m : Metadata) (supply : ℤ) (db : Database) : Database :=
  if ownerTypeOf m supply = .single ∨ ownerTypeOf m supply = .unknown then
    indexTokenAccountEffect m.mint.bytes db
  else db

/-- The tables after the edition account has been attached. -/
def attachEditionEffect (masterEditionPda : Pubkey → Pubkey) (m : Metadata) (slot : ℕ) (db : Database) :
    Database :=
  if (m.tokenStandard.map isNonFungibleStandard).getD false then
    upsertAttachment (masterEditionPda m.mint).bytes (assetAttachment m.mint.bytes slot) db
  else db

/-- The tables after a metadata account. -/
def metadataEffect (masterEditionPda : Pubkey → Pubkey) (m : Metadata) (slot : ℕ) (db : Database) :
    Database :=
  attachEditionEffect masterEditionPda m slot
    (saveTransactionEffect masterEditionPda m slot (knownSupply m.mint.bytes db)
      (indexOwnerEffect m (knownSupply m.mint.bytes db) (indexMintEffect m.mint.bytes db)))

theorem indexAndFetchMintData_runs (mint : Bytes) :
    Session.Runs (indexAndFetchMintData mint)
      fun db => (db.tokens.lookup mint, indexMintEffect mint db) := by
  have hrest : ∀ token : Option TokenRow, Session.Runs
      (match token with
        | some token => (do
          upsertAssetsMintAccountColumns assetIndexError (storedMintColumns mint token)
          return some token : Handler (Option TokenRow))
        | none => return none)
      (match token with
        | some token => fun db =>
          (some token, Database.upsertAsset mint (mintAccountColumns (storedMintColumns mint token)) db)
        | none => fun db => (none, db)) := by
    intro token
    cases token with
    | some t => exact Session.Runs.bind (Session.Runs.write _ _) fun _ => Session.Runs.pure _
    | none => exact Session.Runs.pure none
  refine (Session.Runs.bind (findModelWithRetry_runs _ _ retryIntervals (by decide)) hrest).congr ?_
  intro db
  unfold indexMintEffect
  cases db.tokens.lookup mint <;> rfl

theorem indexTokenAccountData_runs (mint : Bytes) :
    Session.Runs (indexTokenAccountData mint) fun db => ((), indexTokenAccountEffect mint db) := by
  have hrest : ∀ account : Option TokenAccountRow, Session.Runs
      (match account with
        | some account =>
          upsertAssetsTokenAccountColumns assetIndexError (storedAccountColumns mint account)
        | none => (pure () : Handler Unit))
      (match account with
        | some account => fun db =>
          ((), Database.upsertAsset mint (tokenAccountColumns (storedAccountColumns mint account)) db)
        | none => fun db => ((), db)) := by
    intro account
    cases account with
    | some a => exact Session.Runs.write _ _
    | none => exact Session.Runs.pure ()
  refine (Session.Runs.bind (findModelWithRetry_runs _ _ retryIntervals (by decide)) hrest).congr ?_
  intro db
  unfold indexTokenAccountEffect
  cases holderOf mint db <;> rfl

theorem saveTransaction_runs (masterEditionPda : Pubkey → Pubkey) (m : Metadata) (slot : ℕ)
    (supply : ℤ) :
    Session.Runs (saveTransaction masterEditionPda m slot supply)
      fun db => ((), saveTransactionEffect masterEditionPda m slot supply db) :=
  Session.Runs.bind (Session.Runs.write _ _) fun _ =>
    Session.Runs.bind (Session.Runs.write _ _) fun _ =>
      Session.Runs.bind (Session.Runs.write _ _) fun _ =>
        Session.Runs.bind (Session.Runs.write _ _) fun _ =>
          Session.Runs.bind (Session.Runs.write _ _) fun _ => insertCreators_runs _

theorem indexOwner_runs (m : Metadata) (supply : ℤ) :
    Session.Runs (indexOwner m supply) fun db => ((), indexOwnerEffect m supply db) := by
  unfold indexOwner indexOwnerEffect
  split
  · exact indexTokenAccountData_runs _
  · exact Session.Runs.pure ()

theorem attachEdition_runs (masterEditionPda : Pubkey → Pubkey) (m : Metadata) (slot : ℕ) :
    Session.Runs (attachEdition masterEditionPda m slot)
      fun db => ((), attachEditionEffect masterEditionPda m slot db) := by
  unfold attachEdition attachEditionEffect
  split
  · exact Session.Runs.write _ _
  · exact Session.Runs.pure ()

theorem saveV1Asset_runs (masterEditionPda : Pubkey → Pubkey) (m : Metadata) (slot : ℕ) :
    Session.Runs (saveV1Asset masterEditionPda m slot)
      fun db => (downloadInfo m, metadataEffect masterEditionPda m slot db) := by
  have hafter := Session.Runs.bind (attachEdition_runs masterEditionPda m slot) fun _ =>
    Session.Runs.pure (downloadInfo m)
  have hsave := fun supply => Session.Runs.bind
    (Session.Runs.transaction storageWriteError (saveTransaction_runs masterEditionPda m slot supply))
    fun _ => hafter
  have hrest := fun token : Option TokenRow => Session.Runs.bind
    (indexOwner_runs m ((token.map TokenRow.supply).getD 1))
    fun _ => hsave ((token.map TokenRow.supply).getD 1)
  refine (Session.Runs.bind (indexAndFetchMintData_runs m.mint.bytes) hrest).congr fun db => ?_
  rfl

theorem handleMetadata_runs (masterEditionPda : Pubkey → Pubkey) (m : Metadata) (slot : ℕ) :
    Session.Runs (handleMetadata masterEditionPda m slot)
      fun db => ((), metadataEffect masterEditionPda m slot db) := by
  have hnotify : ∀ info : Option DownloadMetadataInfo, Session.Runs
      (match info with
        | none => (pure () : Handler Unit)
        | some _ => Session.fallible downloadMetadataNotify)
      fun db => ((), db) := by
    intro info
    cases info with
    | none => exact Session.Runs.pure ()
    | some i => exact Session.Runs.fallible _
  refine (Session.Runs.bind (saveV1Asset_runs masterEditionPda m slot) hnotify).congr fun db => ?_
  rfl

/-! ### The rows outside the asset table -/

theorem indexMintEffect_eq (mint : Bytes) (db : Database) :
    ∃ t, indexMintEffect mint db = { db with asset := t } := by
  unfold indexMintEffect
  split <;> exact ⟨_, rfl⟩

theorem indexOwnerEffect_eq (m : Metadata) (supply : ℤ) (db : Database) :
    ∃ t, indexOwnerEffect m supply db = { db with asset := t } := by
  unfold indexOwnerEffect indexTokenAccountEffect
  split
  · split <;> exact ⟨_, rfl⟩
  · exact ⟨_, rfl⟩

theorem attachEditionEffect_eq (masterEditionPda : Pubkey → Pubkey) (m : Metadata) (slot : ℕ)
    (db : Database) : ∃ t, attachEditionEffect masterEditionPda m slot db = { db with attachments := t } := by
  unfold attachEditionEffect
  split <;> exact ⟨_, rfl⟩

/-- Asset rows and attachments apart, a metadata account writes what its transaction writes. -/
theorem metadataEffect_eq (masterEditionPda : Pubkey → Pubkey) (m : Metadata) (slot : ℕ) (db : Database) :
    ∃ assets attachments, metadataEffect masterEditionPda m slot db
      = { saveTransactionEffect masterEditionPda m slot (knownSupply m.mint.bytes db)
            { db with asset := assets } with attachments := attachments } := by
  obtain ⟨t₁, hmint⟩ := indexMintEffect_eq m.mint.bytes db
  obtain ⟨t₂, howner⟩ := indexOwnerEffect_eq m (knownSupply m.mint.bytes db) { db with asset := t₁ }
  rw [metadataEffect, hmint, howner]
  obtain ⟨t₃, hattach⟩ := attachEditionEffect_eq masterEditionPda m slot
    (saveTransactionEffect masterEditionPda m slot (knownSupply m.mint.bytes db) { db with asset := t₂ })
  exact ⟨t₂, t₃, hattach⟩

/-- A metadata account writes its authority row and no other. -/
theorem metadataEffect_assetAuthority (masterEditionPda : Pubkey → Pubkey) (m : Metadata) (slot : ℕ)
    (db : Database) :
    (metadataEffect masterEditionPda m slot db).assetAuthority
      = upsert db.assetAuthority m.mint.bytes (authorityColumns m.updateAuthority.bytes slot) := by
  obtain ⟨_, _, h⟩ := metadataEffect_eq masterEditionPda m slot db
  rw [h]
  rfl

/-- The metadata rows that a metadata account leaves. -/
theorem metadataEffect_assetData (masterEditionPda : Pubkey → Pubkey) (m : Metadata) (slot : ℕ)
    (db : Database) :
    (metadataEffect masterEditionPda m slot db).assetData
      = upsert db.assetData m.mint.bytes (accountAssetData (dataRow m slot)) := by
  obtain ⟨_, _, h⟩ := metadataEffect_eq masterEditionPda m slot db
  rw [h]
  rfl

/-- The creator rows that a metadata account leaves. -/
theorem metadataEffect_assetCreators (masterEditionPda : Pubkey → Pubkey) (m : Metadata) (slot : ℕ)
    (db : Database) :
    (metadataEffect masterEditionPda m slot db).assetCreators
      = upsertAll db.assetCreators (creatorRows m slot) := by
  obtain ⟨_, _, h⟩ := metadataEffect_eq masterEditionPda m slot db
  rw [h]
  rfl

/-- The attachments that a metadata account leaves. -/
theorem metadataEffect_attachments (masterEditionPda : Pubkey → Pubkey) (m : Metadata) (slot : ℕ)
    (db : Database) :
    (metadataEffect masterEditionPda m slot db).attachments
      = if (m.tokenStandard.map isNonFungibleStandard).getD false then
          upsert (upsert db.attachments (masterEditionPda m.mint).bytes (masterEditionAttachment slot))
            (masterEditionPda m.mint).bytes (assetAttachment m.mint.bytes slot)
        else upsert db.attachments (masterEditionPda m.mint).bytes (masterEditionAttachment slot) := by
  obtain ⟨t₁, hmint⟩ := indexMintEffect_eq m.mint.bytes db
  obtain ⟨t₂, howner⟩ := indexOwnerEffect_eq m (knownSupply m.mint.bytes db) { db with asset := t₁ }
  rw [metadataEffect, hmint, howner, attachEditionEffect]
  split <;> rfl

end DasIndexer.Accounts.TokenMetadata
