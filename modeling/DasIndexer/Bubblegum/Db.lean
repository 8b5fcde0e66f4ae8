import DasIndexer.Blockbuster.Bubblegum
import DasIndexer.Schema.Tables
import DasIndexer.Sql.Session

/-!
# The writes of the Bubblegum handlers

Every statement that a Bubblegum handler sends, in the order and with the guards of the source.  Each
upsert is a value of type `Sql.Upsert` (proposed row, guard, assignment) and a handler step that runs it
on its table; the guards are kept in SQL's three-valued reading, with the comparison to the incoming
row written as `excluded`.  The statements are those that the query builder of the lock file (sea-query
0.27.2) makes: there the action of an `OnConflict` is one field, which each call sets anew.

`insertChangeLog` is the one function that is not a single statement: the nodes of the path bottom-up,
the audit row whose failure is only logged, and the backfill row.
-/

namespace DasIndexer

open Sql

/-- `ProgramTransformerError`. -/
inductive ProgramTransformerError where
  | changeLogEventMalformed
  | storageWriteError (msg : String)
  | notImplemented
  | deserializationError (msg : String)
  | serializatonError (msg : String)
  | parsingError (msg : String)
  | databaseError (msg : String)
  | assetIndexError (msg : String)
  | downloadMetadataNotify (msg : String)
deriving DecidableEq

/-- A handler: statements against the tables, with the transformer's errors. -/
abbrev Handler (α : Type) := Session ProgramTransformerError Database α

/-- `DownloadMetadataInfo`. -/
structure DownloadMetadataInfo where
  assetDataId : Bytes
  uri : String
deriving DecidableEq

def DownloadMetadataInfo.new (assetDataId : Bytes) (uri : String) : DownloadMetadataInfo :=
  ⟨assetDataId, stripNul (trim uri)⟩

/-! ### Statements on one table -/

namespace Database

def upsertAsset (id : Bytes) (u : Upsert AssetRow) (db : Database) : Database :=
  { db with asset := upsert db.asset id u }

def upsertAssetData (id : Bytes) (u : Upsert AssetDataRow) (db : Database) : Database :=
  { db with assetData := upsert db.assetData id u }

def upsertCreators (rows : List ((Bytes × ℤ) × Upsert AssetCreatorRow)) (db : Database) : Database :=
  { db with assetCreators := upsertAll db.assetCreators rows }

def upsertGrouping (k : GroupKey) (u : Upsert AssetGroupingRow) (db : Database) : Database :=
  { db with assetGrouping := upsert db.assetGrouping k u }

def upsertAuthority (id : Bytes) (u : Upsert AssetAuthorityRow) (db : Database) : Database :=
  { db with assetAuthority := upsert db.assetAuthority id u }

def upsertClItem (k : Bytes × ℤ) (u : Upsert ClItemRow) (db : Database) : Database :=
  { db with clItems := upsert db.clItems k u }

def upsertClAudit (k : Bytes × ℤ × ℤ) (u : Upsert ClAuditRow) (db : Database) : Database :=
  { db with clAuditsV2 := upsert db.clAuditsV2 k u }

def insertBackfillItem (row : BackfillItemRow) (db : Database) : Database :=
  { db with backfillItems := db.backfillItems ++ [row] }

end Database

namespace Bubblegum

open ProgramTransformerError

/-! ### The change log -/

/-- `node_idx_to_leaf_idx`. -/
def nodeIdxToLeafIdx (index : ℤ) (treeHeight : ℕ) : ℤ := index - 2 ^ treeHeight

/-- The row of the path node at level `i`, written where the stored one is of an earlier change. -/
def clItem (event : ChangeLogEventV1) (depth i : ℕ) (p : PathNode) : Upsert ClItemRow :=
  let leafIdx := if i = 0 then some (nodeIdxToLeafIdx p.index depth) else none
  { new := { leafIdx, seq := event.seq, level := i, hash := p.node.bytes }
    guard := fun r => gt (some (event.seq : ℤ)) (some r.seq)
    set := fun _ => { leafIdx, seq := event.seq, level := i, hash := p.node.bytes } }

/-- The loop over the path, from level `i` up. -/
def insertPath (event : ChangeLogEventV1) (depth : ℕ) : ℕ → List PathNode → Handler Unit
  | _, [] => pure ()
  | i, p :: ps => do
    Session.write storageWriteError
      (Database.upsertClItem (event.id.bytes, (p.index : ℤ)) (clItem event depth i p))
    insertPath event depth (i + 1) ps

/-- The audit row of a change. -/
def clAudit (event : ChangeLogEventV1) (tx : Bytes) (ix : Instruction) : Database → Database :=
  Database.upsertClAudit (event.id.bytes, (event.index : ℤ), (event.seq : ℤ))
    (.doNothing { tx, instruction := ix })

/-- The backfill row of a change. -/
def backfillItem (event : ChangeLogEventV1) (slot : ℕ) (forceChk : Bool) : BackfillItemRow :=
  { tree := event.id.bytes, seq := event.seq, slot := slot, forceChk := forceChk,
    backfilled := false, failed := false }

/-- `insert_change_log`.  The length of an empty path wraps below zero, and with it both sides of the
test for a complete path, so the backfill row is written after every path. -/
def insertChangeLog (event : ChangeLogEventV1) (slot : ℕ) (txnId : String) (instruction : String) :
    Handler Unit := do
  let depth := event.path.length - 1
  insertPath event depth 0 event.path
  match Base58.decode txnId with
  | none => Session.throw changeLogEventMalformed
  | some txIdBytes =>
    let ix := Instruction.fromStr instruction
    Session.tolerate (Session.write storageWriteError (clAudit event txIdBytes ix))
    let known ← Session.select storageWriteError fun db =>
      db.backfillItems.any fun r => r.tree == event.id.bytes
    let forceChk := !known && decide (1 < event.seq)
    Session.write storageWriteError
      (Database.insertBackfillItem (backfillItem event slot forceChk))

/-- `save_changelog_event`. -/
def saveChangelogEvent (event : ChangeLogEventV1) (slot : ℕ) (txnId : String)
    (instruction : String) : Handler ℤ := do
  insertChangeLog event slot txnId instruction
  return (event.seq : ℤ)

/-! ### The asset row -/

/-- `asset.seq != 0 OR asset.seq IS NULL`: the asset has not been decompressed. -/
def notDecompressed (r : AssetRow) : Truth := or (ne r.seq (some 0)) (isNull r.seq)

/-- `excluded.c >= asset.c OR asset.c IS NULL`. -/
def notOlder (excluded : ℤ) (stored : Option ℤ) : Truth :=
  or (ge (some excluded) stored) (isNull stored)

/-- `(c != 0 AND excluded.c >= c) OR c IS NULL`. -/
def notOlderNorZero (excluded : ℤ) (stored : Option ℤ) : Truth :=
  or (and (ne stored (some 0)) (ge (some excluded) stored)) (isNull stored)

/-- `mpl_bubblegum::Flags`, the bits that the indexer reads. -/
structure Flags where
  assetLvlFrozen : Bool
  permanentLvlFrozen : Bool
  nonTransferable : Bool
deriving DecidableEq

/-- What the handlers take from the program crates: addresses, their derivation, and the layout of
the flag byte. -/
structure Env where
  bubblegumId : Pubkey
  findProgramAddress : List Bytes → Pubkey → Pubkey
  flagsFromBytes : UInt8 → Flags

/-- An environment for concrete runs, with the flag byte laid out from its lowest bit. -/
def Env.sample : Env where
  bubblegumId := Pubkey.fill 255
  findProgramAddress _ _ := Pubkey.fill 254
  flagsFromBytes b := ⟨b.toNat.testBit 0, b.toNat.testBit 1, b.toNat.testBit 2⟩

/-- The columns that a leaf write proposes; the last four are present for schema version 2. -/
structure LeafInfo where
  nonce : ℤ
  treeId : Bytes
  leaf : Bytes
  dataHash : Pubkey
  creatorHash : Pubkey
  collectionHash : Option Pubkey
  assetDataHash : Option Pubkey
  flags : Option UInt8
deriving DecidableEq

/-- The assignments of a leaf write.  Without flags the version 2 columns are not among the updated
columns and `frozen` is set back. -/
def setLeafInfo (E : Env) (l : LeafInfo) (seq : ℤ) (r : AssetRow) : AssetRow :=
  let r := { r with
    nonce := some l.nonce, treeId := some l.treeId, leaf := some l.leaf,
    dataHash := some l.dataHash.toString, creatorHash := some l.creatorHash.toString,
    leafSeq := some seq }
  match l.flags with
  | some flags =>
    let bits := E.flagsFromBytes flags
    { r with
      collectionHash := l.collectionHash.map Pubkey.toString
      assetDataHash := l.assetDataHash.map Pubkey.toString
      bubblegumFlags := some (flags.toNat : ℤ)
      nonTransferable := some bits.nonTransferable
      frozen := bits.assetLvlFrozen || bits.permanentLvlFrozen }
  | none => { r with frozen := false }

def assetLeafInfo (E : Env) (l : LeafInfo) (seq : ℤ) : Upsert AssetRow where
  new := setLeafInfo E l seq {}
  guard r := and (notDecompressed r) (notOlder seq r.leafSeq)
  set := setLeafInfo E l seq

def upsertAssetWithLeafInfo (E : Env) (id : Bytes) (l : LeafInfo) (seq : ℤ) : Handler Unit :=
  Session.write storageWriteError (Database.upsertAsset id (assetLeafInfo E l seq))

def assetOwnerAndDelegate (owner : Bytes) (delegate : Option Bytes) (seq : ℤ) : Upsert AssetRow where
  new := { owner := some owner, delegate, ownerDelegateSeq := some seq }
  guard r := and (notDecompressed r) (notOlder seq r.ownerDelegateSeq)
  set r := { r with owner := some owner, delegate, ownerDelegateSeq := some seq }

def upsertAssetWithOwnerAndDelegateInfo (id owner : Bytes) (delegate : Option Bytes) (seq : ℤ) :
    Handler Unit :=
  Session.write storageWriteError
    (Database.upsertAsset id (assetOwnerAndDelegate owner delegate seq))

def assetCompression (compressed compressible : Bool) (supply : ℕ) (supplyMint : Option Bytes) :
    Upsert AssetRow where
  new := { compressed, compressible, supply, supplyMint }
  guard := notDecompressed
  set r := { r with compressed, compressible, supply, supplyMint }

def upsertAssetWithCompressionInfo (id : Bytes) (compressed compressible : Bool) (supply : ℕ)
    (supplyMint : Option Bytes) : Handler Unit :=
  Session.write storageWriteError
    (Database.upsertAsset id (assetCompression compressed compressible supply supplyMint))

def assetSeq (seq : ℤ) : Upsert AssetRow where
  new := { seq := some seq }
  guard r := notOlderNorZero seq r.seq
  set r := { r with seq := some seq }

def upsertAssetWithSeq (id : Bytes) (seq : ℤ) : Handler Unit :=
  Session.write storageWriteError (Database.upsertAsset id (assetSeq seq))

/-- The base columns of an asset. -/
structure BaseInfo where
  ownerType : OwnerType
  specificationVersion : SpecificationVersions
  specificationAssetClass : SpecificationAssetClass
  royaltyTargetType : RoyaltyTargetType
  royaltyTarget : Option Bytes
  royaltyAmount : ℤ
deriving DecidableEq

/-- The base columns go into a new row only: `update_columns(..)` lists them, and the `.value(..)` after it
replaces that list, so that a stored row gets another `slot_updated` and nothing else. -/
def assetBaseInfo (id : Bytes) (b : BaseInfo) (slotUpdated seq : ℤ) : Upsert AssetRow where
  new :=
    { ownerType := b.ownerType
      specificationVersion := some b.specificationVersion
      specificationAssetClass := some b.specificationAssetClass
      royaltyTargetType := b.royaltyTargetType
      royaltyTarget := b.royaltyTarget
      royaltyAmount := b.royaltyAmount
      assetData := some id
      slotUpdatedCnftTransaction := some slotUpdated
      baseInfoSeq := some seq }
  guard r := and (notDecompressed r) (notOlder seq r.baseInfoSeq)
  set r := { r with slotUpdated := greatest r.slotUpdated (some slotUpdated) }

def upsertAssetBaseInfo (id : Bytes) (b : BaseInfo) (slotUpdated seq : ℤ) : Handler Unit :=
  Session.write assetIndexError (Database.upsertAsset id (assetBaseInfo id b slotUpdated seq))

/-- The burnt column, written without any guard. -/
def assetBurnt : Upsert AssetRow where
  new := { burnt := true }
  guard _ := some true
  set r := { r with burnt := true }

/-! ### The other tables -/

def collectionInfo (collection : Option Collection) (slotUpdated seq : ℤ) :
    Upsert AssetGroupingRow :=
  let row : AssetGroupingRow :=
    { groupValue := collection.map fun c => c.key.toString
      verified := (collection.map Collection.verified).getD false
      slotUpdated := some slotUpdated
      groupInfoSeq := some seq }
  { new := row, guard := fun r => notOlderNorZero seq r.groupInfoSeq, set := fun _ => row }

def upsertCollectionInfo (assetId : Bytes) (collection : Option Collection) (slotUpdated seq : ℤ) :
    Handler Unit :=
  Session.write storageWriteError
    (Database.upsertGrouping (.collection assetId) (collectionInfo collection slotUpdated seq))

/-- The proposed `asset_data` row.  An existing row keeps its `metadata`, which the download task
fills in. -/
def assetDataInfo (row : AssetDataRow) (seq : ℤ) : Upsert AssetDataRow where
  new := row
  guard r := notOlderNorZero seq r.baseInfoSeq
  set r := { row with metadata := r.metadata }

def upsertAssetData (id : Bytes) (chainDataMutability : ChainMutability) (chainData : Json)
    (metadataUrl : MetadataUrl) (metadataMutability : Mutability) (metadata : Json) (slotUpdated : ℤ)
    (reindex : Option Bool) (rawName rawSymbol : Bytes) (seq : ℤ) : Handler Unit :=
  let row : AssetDataRow :=
    { chainDataMutability, chainData, metadataUrl, metadataMutability, metadata, slotUpdated,
      reindex, rawName := some rawName, rawSymbol := some rawSymbol, baseInfoSeq := some seq }
  Session.write storageWriteError (Database.upsertAssetData id (assetDataInfo row seq))

/-- The creator at a position. -/
def creatorInfo (creator : Bytes) (share : ℤ) (verified : Bool) (slotUpdated seq : ℤ) :
    Upsert AssetCreatorRow :=
  let row : AssetCreatorRow :=
    { creator, share, verified, seq := some seq, slotUpdated := some slotUpdated }
  { new := row, guard := fun r => notOlderNorZero seq r.seq, set := fun _ => row }

/-- The rows of a creator list; an empty list leaves an empty creator that carries the sequence
number. -/
def creatorRows (id : Bytes) (creators : List Creator) (slotUpdated seq : ℤ) :
    List ((Bytes × ℤ) × Upsert AssetCreatorRow) :=
  if creators.isEmpty then
    [((id, 0), creatorInfo [] 100 false slotUpdated seq)]
  else
    creators.zipIdx.map fun e =>
      ((id, (e.2 : ℤ)),
        creatorInfo e.1.address.bytes e.1.share.toNat e.1.verified slotUpdated seq)

def upsertAssetCreators (id : Bytes) (creators : List Creator) (slotUpdated seq : ℤ) :
    Handler Unit :=
  Session.write storageWriteError
    (Database.upsertCreators (creatorRows id creators slotUpdated seq))

/-- The authority is written once and never changed. -/
def assetAuthority (authority : Bytes) (slotUpdated seq : ℤ) : Upsert AssetAuthorityRow :=
  .doNothing { authority, seq, slotUpdated }

def upsertAssetAuthority (assetId authority : Bytes) (slotUpdated seq : ℤ) : Handler Unit :=
  Session.write assetIndexError
    (Database.upsertAuthority assetId (assetAuthority authority slotUpdated seq))

end Bubblegum

end DasIndexer
