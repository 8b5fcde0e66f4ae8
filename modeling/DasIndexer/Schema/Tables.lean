import DasIndexer.Schema.Values
import DasIndexer.Sql.Table

/-!
# The tables

One row type for each table that the indexer writes, with the column defaults of the schema as field
defaults: the row an `INSERT` proposes when it names only some columns is the record that names only
those fields.  The key columns of a table stand in its key and not in its row; serial identifiers and
creation times are left out.

`Database` is all tables together, each write being a function `Database → Database` on one of them.
-/

namespace DasIndexer

open Sql (Table)

/-- A row of `asset`, without its key `id`. -/
structure AssetRow where
  altId : Option Bytes := none
  specificationVersion : Option SpecificationVersions := none
  specificationAssetClass : Option SpecificationAssetClass := none
  owner : Option Bytes := none
  ownerType : OwnerType := .single
  delegate : Option Bytes := none
  frozen : Bool := false
  supply : ℤ := 1
  supplyMint : Option Bytes := none
  compressed : Bool := false
  compressible : Bool := false
  seq : Option ℤ := none
  treeId : Option Bytes := none
  leaf : Option Bytes := none
  nonce : Option ℤ := none
  royaltyTargetType : RoyaltyTargetType := .creators
  royaltyTarget : Option Bytes := none
  royaltyAmount : ℤ := 0
  assetData : Option Bytes := none
  burnt : Bool := false
  slotUpdated : Option ℤ := none
  slotUpdatedMetadataAccount : Option ℤ := none
  slotUpdatedMintAccount : Option ℤ := none
  slotUpdatedTokenAccount : Option ℤ := none
  slotUpdatedCnftTransaction : Option ℤ := none
  dataHash : Option String := none
  creatorHash : Option String := none
  ownerDelegateSeq : Option ℤ := none
  leafSeq : Option ℤ := none
  baseInfoSeq : Option ℤ := none
  mintExtensions : Option Json := none
  mplCorePlugins : Option Json := none
  mplCoreUnknownPlugins : Option Json := none
  mplCoreCollectionNumMinted : Option ℤ := none
  mplCoreCollectionCurrentSize : Option ℤ := none
  mplCorePluginsJsonVersion : Option ℤ := none
  mplCoreExternalPlugins : Option Json := none
  mplCoreUnknownExternalPlugins : Option Json := none
  collectionHash : Option String := none
  assetDataHash : Option String := none
  bubblegumFlags : Option ℤ := none
  nonTransferable : Option Bool := none
  isAgent : Bool := false
  agentToken : Option Bytes := none
  assetSigner : Option Bytes := none
  slotUpdatedAgentRegistry : Option ℤ := none

/-- The row with the columns that `upsert_asset_base_info` writes, `slot_updated` among them, left out of
account. -/
def AssetRow.withoutBaseInfo (r : AssetRow) : AssetRow :=
  { r with
    slotUpdated := none
    ownerType := .single
    specificationVersion := none
    specificationAssetClass := none
    royaltyTargetType := .creators
    royaltyTarget := none
    royaltyAmount := 0
    assetData := none
    slotUpdatedCnftTransaction := none
    baseInfoSeq := none }

/-- A row of `asset_data`, without its key `id`. -/
structure AssetDataRow where
  chainDataMutability : ChainMutability
  chainData : Json
  metadataUrl : MetadataUrl
  metadataMutability : Mutability
  metadata : Json
  slotUpdated : ℤ
  reindex : Option Bool
  rawName : Option Bytes
  rawSymbol : Option Bytes
  baseInfoSeq : Option ℤ

/-- A row of `asset_creators`, whose key is the asset and the position in its list. -/
structure AssetCreatorRow where
  creator : Bytes
  share : ℤ
  verified : Bool
  seq : Option ℤ
  slotUpdated : Option ℤ
deriving DecidableEq

/-- The unique indexes of `asset_grouping`: one `collection` row for each asset, and one row for each
other group value, the absent value included. -/
inductive GroupKey where
  | collection (assetId : Bytes)
  | group (assetId : Bytes) (groupValue : Option String)
deriving DecidableEq

/-- A row of `asset_grouping`; the value of a `group` row repeats the one in its key. -/
structure AssetGroupingRow where
  groupValue : Option String
  verified : Bool
  slotUpdated : Option ℤ
  groupInfoSeq : Option ℤ
deriving DecidableEq

/-- A row of `asset_authority`, without its key `asset_id`. -/
structure AssetAuthorityRow where
  authority : Bytes
  seq : ℤ
  slotUpdated : ℤ
deriving DecidableEq

/-- A row of `asset_v1_account_attachments`, without its key `id`. -/
structure AttachmentRow where
  assetId : Option Bytes := none
  attachmentType : V1AccountAttachments
  initialized : Bool := false
  data : Option Json := none
  slotUpdated : ℤ

/-- A row of `cl_items`, whose key is the tree and the node. -/
structure ClItemRow where
  leafIdx : Option ℤ
  seq : ℤ
  level : ℤ
  hash : Bytes
deriving DecidableEq

/-- A row of `cl_audits_v2`, whose key is the tree, the leaf and the sequence number. -/
structure ClAuditRow where
  tx : Bytes
  instruction : Instruction
deriving DecidableEq

/-- A row of `backfill_items`, a table without a unique index. -/
structure BackfillItemRow where
  tree : Bytes
  seq : ℤ
  slot : ℤ
  forceChk : Bool
  backfilled : Bool
  failed : Bool
  locked : Bool := false
deriving DecidableEq

/-- A row of `tokens`, without its key `mint`. -/
structure TokenRow where
  supply : ℤ
  decimals : ℤ
  tokenProgram : Bytes
  mintAuthority : Option Bytes
  freezeAuthority : Option Bytes
  closeAuthority : Option Bytes
  extensionData : Option Bytes
  slotUpdated : ℤ
  extensions : Option Json := none

/-- A row of `token_accounts`, without its key `pubkey`. -/
structure TokenAccountRow where
  mint : Bytes
  amount : ℤ
  owner : Bytes
  frozen : Bool
  closeAuthority : Option Bytes
  delegate : Option Bytes
  delegatedAmount : ℤ
  slotUpdated : ℤ
  tokenProgram : Bytes
  extensions : Option Json := none

/-- All tables. -/
@[ext] structure Database where
  asset : Table Bytes AssetRow := ∅
  assetData : Table Bytes AssetDataRow := ∅
  assetCreators : Table (Bytes × ℤ) AssetCreatorRow := ∅
  assetGrouping : Table GroupKey AssetGroupingRow := ∅
  assetAuthority : Table Bytes AssetAuthorityRow := ∅
  attachments : Table Bytes AttachmentRow := ∅
  clItems : Table (Bytes × ℤ) ClItemRow := ∅
  clAuditsV2 : Table (Bytes × ℤ × ℤ) ClAuditRow := ∅
  backfillItems : List BackfillItemRow := []
  tokens : Table Bytes TokenRow := ∅
  tokenAccounts : Table Bytes TokenAccountRow := ∅

/-- The database as a migration leaves it. -/
def Database.empty : Database := {}

/-- `GREATEST(COALESCE(a, 0), COALESCE(b, 0))`. -/
def greatest (a b : Option ℤ) : Option ℤ := some (max (a.getD 0) (b.getD 0))

end DasIndexer
