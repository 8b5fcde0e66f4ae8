import DasIndexer.Accounts.AssetUpserts
import DasIndexer.Accounts.PluginsJson

/-!
# Core accounts

A Core asset, collection or group is one account and is stored as a whole by `saveV1Asset`; an emptied account
burns its asset.  The update authority of an asset may be its collection, and then the authority that is
stored is the collection's own, as it is known at that moment.  When the authority of a collection changes,
it is passed on to the members that are stored (`updateGroupAssetAuthorities`), on the outer connection and
not in the transaction that stores the collection.

Serialisation of the plugins belongs to another crate: a plugin carries its own JSON.
-/

namespace DasIndexer.Accounts.MplCore

open Sql ProgramTransformerError PluginsJson

/-! ### Parsed accounts -/

inductive UpdateAuthority where
  | none
  | address (address : Pubkey)
  | collection (address : Pubkey)
deriving DecidableEq

/-- `PluginType`; the handler looks only for the first four. -/
inductive PluginType where
  | royalties | freezeDelegate | transferDelegate | groups
  | other (name : String)
deriving DecidableEq

/-- The name under which a plugin is serialised. -/
def PluginType.name : PluginType → String
  | .royalties => "Royalties"
  | .freezeDelegate => "FreezeDelegate"
  | .transferDelegate => "TransferDelegate"
  | .groups => "Groups"
  | .other name => name

inductive PluginAuthority where
  | none | owner | updateAuthority
  | address (address : Pubkey)
deriving DecidableEq

/-- `Creator` of the royalties plugin. -/
structure Creator where
  address : Pubkey
  percentage : UInt8
deriving DecidableEq

/-- `Plugin`, as far as the handler looks into it. -/
inductive Plugin where
  | royalties (basisPoints : ℕ) (creators : List Creator)
  | freezeDelegate (frozen : Bool)
  | groups (groups : List Pubkey)
  | other
deriving DecidableEq

/-- `IndexablePluginSchemaV1`, with its serialised form. -/
structure PluginSchema where
  authority : PluginAuthority
  data : Plugin
  json : Json

/-- An external plugin adapter, with its serialised form. -/
structure ExternalPlugin where
  isAgentIdentity : Bool
  json : Json

/-- `mpl_core::IndexableAsset`, without the fields that the handler does not read.  The plugins are a map,
listed in its order. -/
structure IndexableAsset where
  owner : Option Pubkey
  updateAuthority : UpdateAuthority
  name : String
  uri : String
  numMinted : Option ℕ := none
  currentSize : Option ℕ := none
  plugins : List (PluginType × PluginSchema) := []
  unknownPlugins : List Json := []
  externalPlugins : List ExternalPlugin := []
  unknownExternalPlugins : List Json := []

/-- `MplCoreAccountData`. -/
inductive MplCoreAccountData where
  | asset (asset : IndexableAsset)
  | collection (asset : IndexableAsset)
  | group (asset : IndexableAsset) (parentGroups : List Pubkey)
  | hashedAsset
  | emptyAccount

/-- The kinds of account that are stored. -/
inductive Kind where
  | asset | collection
  | group (parentGroups : List Pubkey)
deriving DecidableEq

/-- What the handler takes from other crates: the program's address, the derivation of addresses, and the
case conversion of JSON keys. -/
structure Env where
  mplCoreId : Pubkey
  findProgramAddress : List Bytes → Pubkey → Pubkey
  toSnakeCase : String → String

/-- An environment for concrete runs. -/
def Env.sample : Env where
  mplCoreId := Pubkey.fill 250
  findProgramAddress _ _ := Pubkey.fill 249
  toSnakeCase := id

/-! ### The columns -/

/-- `asset.plugins.get`. -/
def IndexableAsset.plugin? (a : IndexableAsset) (t : PluginType) : Option PluginSchema :=
  (a.plugins.find? fun e => decide (e.1 = t)).map Prod.snd

/-- The royalties, or no royalties and no creators. -/
def IndexableAsset.royalties (a : IndexableAsset) : ℕ × List Creator :=
  match (a.plugin? .royalties).map PluginSchema.data with
  | some (.royalties basisPoints creators) => (basisPoints, creators)
  | _ => (0, [])

def IndexableAsset.frozen (a : IndexableAsset) : Bool :=
  match (a.plugin? .freezeDelegate).map PluginSchema.data with
  | some (.freezeDelegate frozen) => frozen
  | _ => false

/-- The transfer delegate, as the authority of its plugin says. -/
def IndexableAsset.transferDelegate (a : IndexableAsset) (owner : Option Bytes) (updateAuthority : Bytes) :
    Option Bytes :=
  match (a.plugin? .transferDelegate).map PluginSchema.authority with
  | some .owner => owner
  | some .updateAuthority => some updateAuthority
  | some (.address address) => some address.bytes
  | some .none => none
  | none => none

/-- `build_group_values`. -/
def groupValues (kind : Kind) (a : IndexableAsset) : List String :=
  match kind with
  | .group parentGroups => parentGroups.map Pubkey.toString
  | _ =>
    match (a.plugin? .groups).map PluginSchema.data with
    | some (.groups groups) => groups.map Pubkey.toString
    | _ => []

def pluginsJson (E : Env) (a : IndexableAsset) : Json :=
  convertKeysToSnakeCase E.toSnakeCase (transformPluginsAuthority (removePluginsNesting "data"
    (.obj (a.plugins.map fun e => (e.1.name, e.2.json)))))

/-- Unknown plugins are stored only when there are some. -/
def unknownJson (E : Env) (plugins : List Json) : Option Json :=
  if plugins.isEmpty then none
  else some (convertKeysToSnakeCase E.toSnakeCase (transformPluginsAuthority (.arr plugins)))

def externalPluginsJson (E : Env) (a : IndexableAsset) : Json :=
  convertKeysToSnakeCase E.toSnakeCase (transformPluginsAuthority (removePluginsNesting "adapter_config"
    (.arr (a.externalPlugins.map ExternalPlugin.json))))

def Kind.assetClass : Kind → SpecificationAssetClass
  | .asset => .mplCoreAsset
  | .collection => .mplCoreCollection
  | .group _ => .mplCoreGroup

/-- The URI as it is assigned to the column of `asset_data`: Core sets no bound to it. -/
def IndexableAsset.url (a : IndexableAsset) : Except String MetadataUrl :=
  MetadataUrl.assign (stripNul (trim a.uri))

/-- The `asset_data` row; there is no symbol. -/
def dataRow (a : IndexableAsset) (url : MetadataUrl) (slot : ℕ) : AssetDataRow :=
  { chainDataMutability := if a.updateAuthority = .none then .immutable else .mutable
    chainData := (ChainDataV1.sanitize
      { name := a.name, symbol := "", editionNonce := none, primarySaleHappened := false,
        tokenStandard := none, uses := none }).toJson
    metadataUrl := url
    metadata := .str "processing"
    metadataMutability := .mutable
    slotUpdated := slot
    reindex := some true
    rawName := some (utf8 a.name)
    rawSymbol := none
    baseInfoSeq := some 0 }

/-- The address that signs for an asset. -/
def assetSigner (E : Env) (kind : Kind) (id : Pubkey) : Option Bytes :=
  match kind with
  | .asset => some (E.findProgramAddress ["mpl-core-execute".toUTF8.data.toList, id.bytes] E.mplCoreId).bytes
  | _ => none

def isAgent (kind : Kind) (a : IndexableAsset) : Bool :=
  match kind with
  | .asset => a.externalPlugins.any ExternalPlugin.isAgentIdentity
  | _ => false

/-- `val as i32` of an unsigned 32-bit value. -/
def asI32 (n : ℕ) : ℤ := Int.bmod n (2 ^ 32)

def metadataColumns (E : Env) (id : Pubkey) (kind : Kind) (a : IndexableAsset) (slot : ℕ) :
    AssetMetadataAccountColumns :=
  { mint := id.bytes
    ownerType := .single
    specificationAssetClass := some kind.assetClass
    royaltyAmount := a.royalties.1
    assetData := some id.bytes
    slotUpdatedMetadataAccount := slot
    mplCorePlugins := some (pluginsJson E a)
    mplCoreUnknownPlugins := unknownJson E a.unknownPlugins
    mplCoreCollectionNumMinted := a.numMinted.map asI32
    mplCoreCollectionCurrentSize := a.currentSize.map asI32
    mplCorePluginsJsonVersion := some 1
    mplCoreExternalPlugins := some (externalPluginsJson E a)
    mplCoreUnknownExternalPlugins := unknownJson E a.unknownExternalPlugins
    isAgent := isAgent kind a
    assetSigner := assetSigner E kind id }

def mintColumns (id : Pubkey) (slot : ℕ) : AssetMintAccountColumns :=
  { mint := id.bytes, supply := 1, slotUpdatedMintAccount := slot, extensions := none }

/-- A collection and a group belong to their update authority. -/
def ownerOf (kind : Kind) (a : IndexableAsset) (updateAuthority : Bytes) : Option Bytes :=
  match kind with
  | .asset => a.owner.map Pubkey.bytes
  | _ => some updateAuthority

def tokenColumns (id : Pubkey) (kind : Kind) (a : IndexableAsset) (updateAuthority : Bytes) (slot : ℕ) :
    AssetTokenAccountColumns :=
  { mint := id.bytes
    owner := ownerOf kind a updateAuthority
    frozen := a.frozen
    delegate := a.transferDelegate (ownerOf kind a updateAuthority) updateAuthority
    slotUpdatedTokenAccount := slot }

def creatorRows (id : Pubkey) (a : IndexableAsset) (slot : ℕ) :
    List ((Bytes × ℤ) × Upsert AssetCreatorRow) :=
  a.royalties.2.zipIdx.map fun e =>
    ((id.bytes, (e.2 : ℤ)), accountCreator e.1.address.bytes e.1.percentage.toNat true slot)

/-- The collection row: the collection that is the update authority, or none. -/
def collectionRow (a : IndexableAsset) (slot : ℕ) : Upsert AssetGroupingRow :=
  match a.updateAuthority with
  | .collection address => accountGrouping (some address.toString) true slot
  | _ => accountGrouping none false slot

/-- The group rows; an asset without groups has one row with no value. -/
def groupRows (id : Pubkey) (kind : Kind) (a : IndexableAsset) (slot : ℕ) :
    List (GroupKey × Upsert AssetGroupingRow) :=
  let values := groupValues kind a
  if values.isEmpty then [(.group id.bytes none, accountGrouping none true slot)]
  else values.map fun v => (.group id.bytes (some v), accountGrouping (some v) true slot)

/-! ### Saving -/

/-- The query for the authority of a collection. -/
def storedAuthority (id : Bytes) (db : Database) : Option Bytes :=
  (db.assetAuthority.lookup id).map AssetAuthorityRow.authority

/-- The authority that is stored: an address as it is, a collection's as far as it is known. -/
def resolveAuthority : UpdateAuthority → Handler Bytes
  | .address address => pure address.bytes
  | .collection address => do
    let found ← findModelWithRetry storageWriteError (storedAuthority address.bytes) retryIntervals
    return found.getD []
  | .none => pure Pubkey.default.bytes

/-- The stored members of a collection: not compressed, and grouped under it. -/
def isMember (db : Database) (groupValue : String) (assetId : Bytes) : Bool :=
  match db.assetGrouping.lookup (.collection assetId), db.asset.lookup assetId with
  | some g, some a => decide (g.groupValue = some groupValue) && !a.compressed
  | _, _ => false

/-- The one statement of `update_group_asset_authorities`. -/
def passOnAuthority (groupValue authority : Bytes) (slot : ℕ) (db : Database) : Database :=
  { db with assetAuthority := update db.assetAuthority fun assetId r =>
      if r.authority ≠ authority ∧ r.slotUpdated < (slot : ℤ)
          ∧ isMember db (Base58.encode groupValue) assetId then
        { r with authority, slotUpdated := slot }
      else r }

/-- `update_group_asset_authorities`, called where the authority of a collection has changed. -/
def updateGroupAssetAuthorities (kind : Kind) (changed : Bool) (id : Pubkey) (authority : Bytes)
    (slot : ℕ) : Handler Unit :=
  if changed ∧ kind = .collection then
    Session.executeOutside assetIndexError (passOnAuthority id.bytes authority slot)
  else pure ()

/-- The authority upsert, which reports whether it changed the row. -/
def storeAuthority (id : Pubkey) (authority : Bytes) (slot : ℕ) : Handler Bool :=
  Session.execute assetIndexError fun db =>
    ((authorityColumns authority slot).affects (db.assetAuthority.lookup id.bytes),
      Database.upsertAuthority id.bytes (authorityColumns authority slot) db)

def upsertGroupings (rows : List (GroupKey × Upsert AssetGroupingRow)) (db : Database) : Database :=
  { db with assetGrouping := upsertAll db.assetGrouping rows }

/-- The one transaction of `save_v1_asset`. -/
def saveTransaction (E : Env) (id : Pubkey) (kind : Kind) (a : IndexableAsset) (authority : Bytes)
    (slot : ℕ) : Handler Unit := do
  let changed ← storeAuthority id authority slot
  updateGroupAssetAuthorities kind changed id authority slot
  Session.writeChecked assetIndexError a.url fun url =>
    Database.upsertAssetData id.bytes (accountAssetData (dataRow a url slot))
  upsertAssetsMetadataAccountColumns storageWriteError (metadataColumns E id kind a slot)
  upsertAssetsMintAccountColumns storageWriteError (mintColumns id slot)
  upsertAssetsTokenAccountColumns storageWriteError (tokenColumns id kind a authority slot)
  Session.write assetIndexError
    (Database.upsertGrouping (.collection id.bytes) (collectionRow a slot))
  insertCreators (creatorRows id a slot)
  Session.write assetIndexError (upsertGroupings (groupRows id kind a slot))

/-- What is left to download of an account. -/
def downloadInfo (id : Pubkey) (a : IndexableAsset) : Option DownloadMetadataInfo :=
  if stripNul (trim a.uri) = "" then none
  else some (DownloadMetadataInfo.new id.bytes (stripNul (trim a.uri)))

/-- `save_v1_asset`, for an account of a kind that is stored. -/
def saveV1Asset (E : Env) (id : Pubkey) (kind : Kind) (a : IndexableAsset) (slot : ℕ) :
    Handler (Option DownloadMetadataInfo) := do
  let authority ← resolveAuthority a.updateAuthority
  Session.transaction storageWriteError (saveTransaction E id kind a authority slot)
  return downloadInfo id a

/-- Saving and asking for the download. -/
def saveAndNotify (E : Env) (id : Pubkey) (kind : Kind) (a : IndexableAsset) (slot : ℕ) :
    Handler Unit := do
  match ← saveV1Asset E id kind a slot with
  | none => pure ()
  | some _ => Session.fallible downloadMetadataNotify

/-- `handle_mpl_core_account`. -/
def handleMplCoreAccount (E : Env) (id : Pubkey) (slot : ℕ) : MplCoreAccountData → Handler Unit
  | .emptyAccount => burnV1Asset id slot
  | .asset a => saveAndNotify E id .asset a slot
  | .collection a => saveAndNotify E id .collection a slot
  | .group a parentGroups => saveAndNotify E id (.group parentGroups) a slot
  | .hashedAsset => Session.throw notImplemented

/-- The account data of a kind that is stored. -/
def Kind.accountData (kind : Kind) (a : IndexableAsset) : MplCoreAccountData :=
  match kind with
  | .asset => .asset a
  | .collection => .collection a
  | .group parentGroups => .group a parentGroups

theorem handleMplCoreAccount_accountData (E : Env) (id : Pubkey) (slot : ℕ) (kind : Kind)
    (a : IndexableAsset) :
    handleMplCoreAccount E id slot (kind.accountData a) = saveAndNotify E id kind a slot := by
  cases kind <;> rfl

/-! ### Its effect -/

/-- The authority that an update resolves to. -/
def resolvedAuthority (u : UpdateAuthority) (db : Database) : Bytes :=
  match u with
  | .address address => address.bytes
  | .collection address => (storedAuthority address.bytes db).getD []
  | .none => Pubkey.default.bytes

/-- The tables after the authority row is stored and, where it changed, passed on. -/
def authorityEffect (id : Pubkey) (kind : Kind) (authority : Bytes) (slot : ℕ) (db : Database) :
    Database :=
  let stored := Database.upsertAuthority id.bytes (authorityColumns authority slot) db
  if (authorityColumns authority slot).affects (db.assetAuthority.lookup id.bytes) = true
      ∧ kind = .collection then
    passOnAuthority id.bytes authority slot stored
  else stored

/-- The three writes to the asset row. -/
def assetEffect (E : Env) (id : Pubkey) (kind : Kind) (a : IndexableAsset) (authority : Bytes) (slot : ℕ)
    (db : Database) : Database :=
  let db := Database.upsertAsset id.bytes (metadataAccountColumns (metadataColumns E id kind a slot)) db
  let db := Database.upsertAsset id.bytes (mintAccountColumns (mintColumns id slot)) db
  Database.upsertAsset id.bytes (tokenAccountColumns (tokenColumns id kind a authority slot)) db

/-- The URI fits the column: it has at most 200 characters, or only spaces past them. -/
def IndexableAsset.Fits (a : IndexableAsset) : Prop := Varchar.Fits 200 (stripNul (trim a.uri))

instance (a : IndexableAsset) : Decidable a.Fits := inferInstanceAs (Decidable (Varchar.Fits _ _))

/-- An asset whose URI has a character too many. -/
def IndexableAsset.sampleLong : IndexableAsset :=
  { owner := none, updateAuthority := .none, name := "", uri := String.ofList (List.replicate 201 'a') }

theorem IndexableAsset.sampleLong_not_fits : ¬ sampleLong.Fits := by
  have huri : stripNul (trim sampleLong.uri) = String.ofList (List.replicate 201 'a') :=
    stripNul_trim_replicate (by decide) (by decide) 201
  unfold Fits
  rw [huri]
  exact Varchar.not_fits_replicate (by decide) (by decide)

/-- The URL that is stored where it fits. -/
def IndexableAsset.storedUrl (a : IndexableAsset) : MetadataUrl := Varchar.cut 200 (stripNul (trim a.uri))

theorem IndexableAsset.url_of_fits {a : IndexableAsset} (h : a.Fits) : a.url = .ok a.storedUrl := by
  unfold url storedUrl MetadataUrl.assign
  exact Varchar.assign_of_fits h

theorem IndexableAsset.url_of_not_fits {a : IndexableAsset} (h : ¬ a.Fits) : ∃ e, a.url = .error e := by
  unfold url MetadataUrl.assign
  exact Varchar.assign_of_not_fits h

/-- The tables after the transaction. -/
def saveTransactionEffect (E : Env) (id : Pubkey) (kind : Kind) (a : IndexableAsset) (authority : Bytes)
    (slot : ℕ) (db : Database) : Database :=
  let db := authorityEffect id kind authority slot db
  let db := Database.upsertAssetData id.bytes (accountAssetData (dataRow a a.storedUrl slot)) db
  let db := assetEffect E id kind a authority slot db
  let db := Database.upsertGrouping (.collection id.bytes) (collectionRow a slot) db
  let db := Database.upsertCreators (creatorRows id a slot) db
  upsertGroupings (groupRows id kind a slot) db

/-- What the transaction leaves when it is dropped: a new authority has been passed on outside it. -/
def droppedEffect (id : Pubkey) (kind : Kind) (authority : Bytes) (slot : ℕ) (changed : Bool)
    (db : Database) : Database :=
  if changed = true ∧ kind = .collection then passOnAuthority id.bytes authority slot db else db

/-- The tables after an account.  Where its URI does not fit, the transaction is dropped. -/
def saveEffect (E : Env) (id : Pubkey) (kind : Kind) (a : IndexableAsset) (slot : ℕ) (db : Database) :
    Database :=
  let authority := resolvedAuthority a.updateAuthority db
  if a.Fits then saveTransactionEffect E id kind a authority slot db
  else droppedEffect id kind authority slot
    ((authorityColumns authority slot).affects (db.assetAuthority.lookup id.bytes)) db

theorem saveEffect_of_fits (E : Env) (id : Pubkey) (kind : Kind) {a : IndexableAsset} (slot : ℕ)
    (h : a.Fits) (db : Database) : saveEffect E id kind a slot db
      = saveTransactionEffect E id kind a (resolvedAuthority a.updateAuthority db) slot db := by
  rw [saveEffect, if_pos h]

/-- A dropped save touches authority rows only. -/
theorem saveEffect_of_not_fits (E : Env) (id : Pubkey) (kind : Kind) {a : IndexableAsset} (slot : ℕ)
    (h : ¬ a.Fits) (db : Database) :
    ∃ t, saveEffect E id kind a slot db = { db with assetAuthority := t } := by
  simp only [saveEffect, if_neg h, droppedEffect]
  split
  · exact ⟨_, rfl⟩
  · exact ⟨_, rfl⟩

theorem resolveAuthority_runs (u : UpdateAuthority) :
    Session.Runs (resolveAuthority u) fun db => (resolvedAuthority u db, db) := by
  cases u with
  | none => exact Session.Runs.pure _
  | address k => exact Session.Runs.pure _
  | collection k =>
    exact Session.Runs.bind (findModelWithRetry_runs _ _ retryIntervals (by decide))
      fun found => Session.Runs.pure (found.getD [])

theorem updateGroupAssetAuthorities_runs (kind : Kind) (changed : Bool) (id : Pubkey)
    (authority : Bytes) (slot : ℕ) :
    Session.Runs (updateGroupAssetAuthorities kind changed id authority slot)
      fun db => ((), if changed = true ∧ kind = .collection then
        passOnAuthority id.bytes authority slot db else db) := by
  unfold updateGroupAssetAuthorities
  split
  · exact Session.Runs.executeOutside _ _
  · exact Session.Runs.pure ()

theorem saveTransaction_runs (E : Env) (id : Pubkey) (kind : Kind) {a : IndexableAsset}
    (authority : Bytes) (slot : ℕ) (h : a.Fits) :
    Session.Runs (saveTransaction E id kind a authority slot)
      fun db => ((), saveTransactionEffect E id kind a authority slot db) := by
  have hgroups := Session.Runs.bind (insertCreators_runs (creatorRows id a slot)) fun _ =>
    Session.Runs.write assetIndexError (upsertGroupings (groupRows id kind a slot))
  have hgrouping := Session.Runs.bind (Session.Runs.write assetIndexError
    (Database.upsertGrouping (.collection id.bytes) (collectionRow a slot))) fun _ => hgroups
  have htoken := Session.Runs.bind (Session.Runs.write storageWriteError
    (Database.upsertAsset id.bytes (tokenAccountColumns (tokenColumns id kind a authority slot))))
    fun _ => hgrouping
  have hmint := Session.Runs.bind (Session.Runs.write storageWriteError
    (Database.upsertAsset id.bytes (mintAccountColumns (mintColumns id slot)))) fun _ => htoken
  have hmetadata := Session.Runs.bind (Session.Runs.write storageWriteError
    (Database.upsertAsset id.bytes (metadataAccountColumns (metadataColumns E id kind a slot))))
    fun _ => hmint
  have hdata := Session.Runs.bind (Session.Runs.writeChecked assetIndexError (IndexableAsset.url_of_fits h) fun url =>
    Database.upsertAssetData id.bytes (accountAssetData (dataRow a url slot))) fun _ => hmetadata
  have hpass := fun changed => Session.Runs.bind
    (updateGroupAssetAuthorities_runs kind changed id authority slot) fun _ => hdata
  have hstore := Session.Runs.execute assetIndexError fun db : Database =>
    ((authorityColumns authority slot).affects (db.assetAuthority.lookup id.bytes),
      Database.upsertAuthority id.bytes (authorityColumns authority slot) db)
  refine (Session.Runs.bind hstore hpass).congr fun db => ?_
  rfl

/-- A URI that does not fit ends the transaction after the authority has been passed on. -/
theorem saveTransaction_refused (E : Env) (id : Pubkey) (kind : Kind) {a : IndexableAsset}
    (authority : Bytes) (slot : ℕ) (h : ¬ a.Fits) (w : World Database) :
    ∃ e w', (saveTransaction E id kind a authority slot).run noFaults w = (.error e, w') ∧
      w'.outer = w.outer.map (droppedEffect id kind authority slot
        ((authorityColumns authority slot).affects (w.db.assetAuthority.lookup id.bytes))) := by
  obtain ⟨e, hurl⟩ := IndexableAsset.url_of_not_fits h
  have hrefuse : ∀ w' : World Database, (Session.writeChecked assetIndexError a.url fun url =>
      Database.upsertAssetData id.bytes (accountAssetData (dataRow a url slot))).run noFaults w'
      = (.error (assetIndexError e), w'.next) := by
    intro w'
    rw [hurl]
    rfl
  rw [saveTransaction, Session.run_bind_ok rfl]
  unfold updateGroupAssetAuthorities
  by_cases hpass : (authorityColumns authority slot).affects (w.db.assetAuthority.lookup id.bytes) = true
      ∧ kind = .collection
  · rw [if_pos hpass, Session.run_bind_ok rfl, Session.run_bind_error (hrefuse _)]
    have houtside : droppedEffect id kind authority slot ((authorityColumns authority slot).affects
        (w.db.assetAuthority.lookup id.bytes)) = passOnAuthority id.bytes authority slot :=
      funext fun _ => if_pos hpass
    rw [houtside]
    exact ⟨_, _, rfl, rfl⟩
  · rw [if_neg hpass, Session.run_bind_ok rfl, Session.run_bind_error (hrefuse _)]
    have houtside : droppedEffect id kind authority slot ((authorityColumns authority slot).affects
        (w.db.assetAuthority.lookup id.bytes)) = fun db => db := funext fun _ => if_neg hpass
    rw [houtside, List.map_id']
    exact ⟨_, _, rfl, rfl⟩

theorem saveV1Asset_runs (E : Env) (id : Pubkey) (kind : Kind) {a : IndexableAsset} (slot : ℕ)
    (h : a.Fits) : Session.Runs (saveV1Asset E id kind a slot)
      fun db => (downloadInfo id a, saveEffect E id kind a slot db) := by
  have hsave := fun authority => Session.Runs.bind (Session.Runs.transaction storageWriteError
    (saveTransaction_runs E id kind authority slot h)) fun _ => Session.Runs.pure (downloadInfo id a)
  refine (Session.Runs.bind (resolveAuthority_runs a.updateAuthority) hsave).congr fun db => ?_
  rw [saveEffect_of_fits E id kind slot h]

/-- Where the URI does not fit, saving fails. -/
theorem saveV1Asset_refused (E : Env) (id : Pubkey) (kind : Kind) {a : IndexableAsset} (slot : ℕ)
    (h : ¬ a.Fits) (w : World Database) :
    ∃ e w', (saveV1Asset E id kind a slot).run noFaults w = (.error e, w') ∧
      w'.db = saveEffect E id kind a slot w.db := by
  obtain ⟨hvalue, hdb⟩ := resolveAuthority_runs a.updateAuthority w
  rcases hres : (resolveAuthority a.updateAuthority).run noFaults w with ⟨r, w₁⟩
  rw [hres] at hvalue hdb
  obtain rfl : r = .ok (resolvedAuthority a.updateAuthority w.db) := hvalue
  have hdb : w₁.db = w.db := hdb
  obtain ⟨e, w₂, hbody, houter⟩ := saveTransaction_refused E id kind
    (resolvedAuthority a.updateAuthority w.db) slot h ⟨w₁.db, w₁.db :: w₁.outer, w₁.tick + 1⟩
  have htransaction : (Session.transaction storageWriteError (saveTransaction E id kind a
      (resolvedAuthority a.updateAuthority w.db) slot)).run noFaults w₁
      = (.error e, Session.rollback w₂ w₁.db) := by
    simp only [Session.transaction, noFaults_apply, hbody]
  rw [saveV1Asset, Session.run_bind_ok hres, Session.run_bind_error htransaction]
  refine ⟨_, _, rfl, ?_⟩
  rw [Session.rollback, houter, List.map_cons, saveEffect, if_neg h, ← hdb]

theorem saveAndNotify_runs (E : Env) (id : Pubkey) (kind : Kind) {a : IndexableAsset} (slot : ℕ)
    (h : a.Fits) :
    Session.Runs (saveAndNotify E id kind a slot) fun db => ((), saveEffect E id kind a slot db) := by
  have hnotify : ∀ info : Option DownloadMetadataInfo, Session.Runs
      (match info with
        | none => (pure () : Handler Unit)
        | some _ => Session.fallible downloadMetadataNotify)
      fun db => ((), db) := by
    intro info
    cases info with
    | none => exact Session.Runs.pure ()
    | some i => exact Session.Runs.fallible _
  refine (Session.Runs.bind (saveV1Asset_runs E id kind slot h) hnotify).congr fun db => ?_
  rfl

/-- What an account leaves, stored or not. -/
theorem saveAndNotify_leaves (E : Env) (id : Pubkey) (kind : Kind) (a : IndexableAsset) (slot : ℕ) :
    Session.Leaves (saveAndNotify E id kind a slot) (saveEffect E id kind a slot) := by
  intro w
  by_cases h : a.Fits
  · exact (saveAndNotify_runs E id kind slot h w).2
  · obtain ⟨e, w', hrun, hdb⟩ := saveV1Asset_refused E id kind slot h w
    rw [saveAndNotify, Session.run_bind_error hrun]
    exact hdb

/-! ### Its effect on single tables -/

/-- The authority rows that a save leaves. -/
theorem saveEffect_assetAuthority (E : Env) (id : Pubkey) (kind : Kind) {a : IndexableAsset} (slot : ℕ)
    (h : a.Fits) (db : Database) :
    (saveEffect E id kind a slot db).assetAuthority
      = (authorityEffect id kind (resolvedAuthority a.updateAuthority db) slot db).assetAuthority := by
  rw [saveEffect_of_fits E id kind slot h]
  rfl

/-- The authority rows that a dropped save leaves: those of members may have changed. -/
theorem saveEffect_assetAuthority_of_not_fits (E : Env) (id : Pubkey) (kind : Kind) {a : IndexableAsset}
    (slot : ℕ) (h : ¬ a.Fits) (db : Database) (k : Bytes) :
    (saveEffect E id kind a slot db).assetAuthority.lookup k
      = (db.assetAuthority.lookup k).map fun r =>
        if ((authorityColumns (resolvedAuthority a.updateAuthority db) slot).affects
              (db.assetAuthority.lookup id.bytes) = true ∧ kind = .collection)
            ∧ r.authority ≠ resolvedAuthority a.updateAuthority db ∧ r.slotUpdated < (slot : ℤ)
            ∧ isMember db (Base58.encode id.bytes) k then
          { r with authority := resolvedAuthority a.updateAuthority db, slotUpdated := slot }
        else r := by
  simp only [saveEffect, if_neg h, droppedEffect]
  split
  · rename_i hpass
    simp only [passOnAuthority, lookup_update, hpass, true_and]
  · rename_i hpass
    simp only [hpass, false_and, if_false, Option.map_id']

/-- Passing an authority on leaves the row of the collection itself alone: it has that authority already. -/
theorem authorityEffect_own (id : Pubkey) (kind : Kind) (authority : Bytes) (slot : ℕ) (db : Database) :
    (authorityEffect id kind authority slot db).assetAuthority.lookup id.bytes
      = some ((authorityColumns authority slot).row (db.assetAuthority.lookup id.bytes)) := by
  have hstored : (Database.upsertAuthority id.bytes (authorityColumns authority slot) db).assetAuthority.lookup
      id.bytes = some ((authorityColumns authority slot).row (db.assetAuthority.lookup id.bytes)) :=
    lookup_upsert_self _ _ _
  unfold authorityEffect
  dsimp only
  split
  · rename_i hchanged
    have hsame : ((authorityColumns authority slot).row (db.assetAuthority.lookup id.bytes)).authority
        = authority := by
      cases hr : db.assetAuthority.lookup id.bytes with
      | none => rfl
      | some r =>
        rw [hr] at hchanged
        have hguard : holds ((authorityColumns authority slot).guard r) = true := hchanged.1
        rw [Upsert.row_some, if_pos hguard]
        rfl
    simp only [passOnAuthority, lookup_update, hstored, Option.map_some]
    rw [if_neg fun h => h.1 hsame]
  · exact hstored

/-- The other rows change where the authority of a collection is passed on to a member. -/
theorem authorityEffect_other (id : Pubkey) (kind : Kind) (authority : Bytes) (slot : ℕ) (db : Database)
    {k : Bytes} (hk : k ≠ id.bytes) :
    (authorityEffect id kind authority slot db).assetAuthority.lookup k
      = (db.assetAuthority.lookup k).map fun r =>
        if ((authorityColumns authority slot).affects (db.assetAuthority.lookup id.bytes) = true
            ∧ kind = .collection) ∧ r.authority ≠ authority ∧ r.slotUpdated < (slot : ℤ)
            ∧ isMember db (Base58.encode id.bytes) k then
          { r with authority, slotUpdated := slot }
        else r := by
  have hstored : (Database.upsertAuthority id.bytes (authorityColumns authority slot) db).assetAuthority.lookup
      k = db.assetAuthority.lookup k := lookup_upsert_ne _ _ hk
  unfold authorityEffect
  dsimp only
  split
  · rename_i hpass
    simp only [passOnAuthority, lookup_update, hstored, hpass, true_and]
    rfl
  · rename_i hpass
    simp only [hstored, hpass, false_and, if_false, Option.map_id']

/-- Passing an authority on touches authority rows only. -/
theorem authorityEffect_eq (id : Pubkey) (kind : Kind) (authority : Bytes) (slot : ℕ) (db : Database) :
    ∃ t, authorityEffect id kind authority slot db = { db with assetAuthority := t } := by
  unfold authorityEffect
  dsimp only
  split <;> exact ⟨_, rfl⟩

section Tables

variable (E : Env) (id : Pubkey) (kind : Kind) (a : IndexableAsset) (slot : ℕ) (db : Database)

/-- The creator rows that a save leaves. -/
theorem saveEffect_assetCreators : (saveEffect E id kind a slot db).assetCreators
    = if a.Fits then upsertAll db.assetCreators (creatorRows id a slot) else db.assetCreators := by
  by_cases hfits : a.Fits
  · obtain ⟨t, h⟩ := authorityEffect_eq id kind (resolvedAuthority a.updateAuthority db) slot db
    rw [saveEffect_of_fits E id kind slot hfits, if_pos hfits, saveTransactionEffect, h]
    rfl
  · obtain ⟨t, h⟩ := saveEffect_of_not_fits E id kind slot hfits db
    rw [h, if_neg hfits]

/-- The metadata rows that a save leaves. -/
theorem saveEffect_assetData : (saveEffect E id kind a slot db).assetData
    = if a.Fits then upsert db.assetData id.bytes (accountAssetData (dataRow a a.storedUrl slot))
      else db.assetData := by
  by_cases hfits : a.Fits
  · obtain ⟨t, h⟩ := authorityEffect_eq id kind (resolvedAuthority a.updateAuthority db) slot db
    rw [saveEffect_of_fits E id kind slot hfits, if_pos hfits, saveTransactionEffect, h]
    rfl
  · obtain ⟨t, h⟩ := saveEffect_of_not_fits E id kind slot hfits db
    rw [h, if_neg hfits]

/-- The grouping rows that a save leaves. -/
theorem saveEffect_assetGrouping : (saveEffect E id kind a slot db).assetGrouping
    = if a.Fits then upsertAll (upsert db.assetGrouping (.collection id.bytes) (collectionRow a slot))
        (groupRows id kind a slot)
      else db.assetGrouping := by
  by_cases hfits : a.Fits
  · obtain ⟨t, h⟩ := authorityEffect_eq id kind (resolvedAuthority a.updateAuthority db) slot db
    rw [saveEffect_of_fits E id kind slot hfits, if_pos hfits, saveTransactionEffect, h]
    rfl
  · obtain ⟨t, h⟩ := saveEffect_of_not_fits E id kind slot hfits db
    rw [h, if_neg hfits]

end Tables

/-- The asset row that a save leaves under its own key. -/
def savedAsset (E : Env) (id : Pubkey) (kind : Kind) (a : IndexableAsset) (authority : Bytes) (slot : ℕ)
    (o : Option AssetRow) : AssetRow :=
  (tokenAccountColumns (tokenColumns id kind a authority slot)).row
    (some ((mintAccountColumns (mintColumns id slot)).row
      (some ((metadataAccountColumns (metadataColumns E id kind a slot)).row o))))

/-- No save compresses an asset. -/
theorem savedAsset_compressed (E : Env) (id : Pubkey) (kind : Kind) (a : IndexableAsset) (authority : Bytes)
    (slot : ℕ) (o : Option AssetRow) (h : ∀ r, o = some r → r.compressed = false) :
    (savedAsset E id kind a authority slot o).compressed = false := by
  have hkeep : ∀ {u : Upsert AssetRow} {r : AssetRow}, (u.set r).compressed = r.compressed →
      (u.row (some r)).compressed = r.compressed := by
    intro u r hset
    rw [Upsert.row_some]
    split
    · exact hset
    · rfl
  rw [savedAsset, hkeep (by rfl), hkeep (by rfl)]
  cases o with
  | none => rfl
  | some r => rw [hkeep (by rfl), h r rfl]

theorem saveEffect_asset (E : Env) (id : Pubkey) (kind : Kind) (a : IndexableAsset) (slot : ℕ)
    (db : Database) (k : Bytes) :
    (saveEffect E id kind a slot db).asset.lookup k = if a.Fits ∧ k = id.bytes then
      some (savedAsset E id kind a (resolvedAuthority a.updateAuthority db) slot (db.asset.lookup k))
      else db.asset.lookup k := by
  by_cases hfits : a.Fits
  · obtain ⟨t, h⟩ := authorityEffect_eq id kind (resolvedAuthority a.updateAuthority db) slot db
    have hasset : (saveEffect E id kind a slot db).asset
        = (assetEffect E id kind a (resolvedAuthority a.updateAuthority db) slot
            { db with assetAuthority := t }).asset := by
      rw [saveEffect_of_fits E id kind slot hfits, saveTransactionEffect, h]
      rfl
    rw [hasset]
    simp only [assetEffect, Database.upsertAsset]
    by_cases hk : k = id.bytes
    · subst hk
      rw [if_pos ⟨hfits, rfl⟩, lookup_upsert_self, lookup_upsert_self, lookup_upsert_self]
      rfl
    · rw [if_neg fun h => hk h.2, lookup_upsert_ne _ _ hk, lookup_upsert_ne _ _ hk, lookup_upsert_ne _ _ hk]
  · obtain ⟨t, h⟩ := saveEffect_of_not_fits E id kind slot hfits db
    rw [h, if_neg fun h => hfits h.1]

/-- The collection rows that a save leaves. -/
theorem saveEffect_collection (E : Env) (id : Pubkey) (kind : Kind) (a : IndexableAsset) (slot : ℕ)
    (db : Database) (k : Bytes) :
    (saveEffect E id kind a slot db).assetGrouping.lookup (.collection k)
      = if a.Fits ∧ k = id.bytes then
        some ((collectionRow a slot).row (db.assetGrouping.lookup (.collection k)))
      else db.assetGrouping.lookup (.collection k) := by
  rw [saveEffect_assetGrouping]
  by_cases hfits : a.Fits
  · have hnot : (.collection k : GroupKey) ∉ (groupRows id kind a slot).map Prod.fst := by
      unfold groupRows
      dsimp only
      split <;> simp
    rw [if_pos hfits, lookup_upsertAll_of_not_mem _ _ _ hnot, lookup_upsert]
    by_cases hk : k = id.bytes
    · subst hk
      rw [if_pos rfl, if_pos ⟨hfits, rfl⟩]
    · rw [if_neg fun h => hk (GroupKey.collection.inj h), if_neg fun h => hk h.2]
  · rw [if_neg hfits, if_neg fun h => hfits h.1]

end DasIndexer.Accounts.MplCore
