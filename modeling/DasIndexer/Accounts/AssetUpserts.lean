import DasIndexer.Bubblegum.Db

/-!
# The writes that account handlers share

The asset row of an account-based token has three writers, each with its own slot column: the token account
(owner, delegate, frozen), the mint (supply) and the metadata account (everything else).  The row gets the
columns of the writer that inserts it.  On a row that exists all three only move `slot_updated` up, where
their slot is not older than the one in their own column: the query builder drops the columns that they list
for an update when the value of `slot_updated` is added to them.

`findModelWithRetry` is the read that some handlers repeat a few times before they give up.
-/

namespace DasIndexer.Accounts

open Sql ProgramTransformerError
open Bubblegum (notOlder)

/-- `AccountInfo`, without the account data. -/
structure AccountInfo where
  slot : ℕ
  pubkey : Pubkey
  owner : Pubkey
deriving DecidableEq

/-! ### The columns of the three writers -/

structure AssetTokenAccountColumns where
  mint : Bytes
  owner : Option Bytes
  frozen : Bool
  delegate : Option Bytes
  slotUpdatedTokenAccount : ℤ

/-- `upsert_assets_token_account_columns`; every caller passes a slot. -/
def tokenAccountColumns (c : AssetTokenAccountColumns) : Upsert AssetRow where
  new :=
    { owner := c.owner, frozen := c.frozen, delegate := c.delegate,
      slotUpdatedTokenAccount := some c.slotUpdatedTokenAccount }
  guard r := notOlder c.slotUpdatedTokenAccount r.slotUpdatedTokenAccount
  set r := { r with slotUpdated := greatest r.slotUpdated (some c.slotUpdatedTokenAccount) }

structure AssetMintAccountColumns where
  mint : Bytes
  supply : ℤ
  slotUpdatedMintAccount : ℤ
  extensions : Option Json

/-- `upsert_assets_mint_account_columns`; the only one of the three whose insert sets `slot_updated`. -/
def mintAccountColumns (c : AssetMintAccountColumns) : Upsert AssetRow where
  new :=
    { supply := c.supply, supplyMint := some c.mint,
      slotUpdatedMintAccount := some c.slotUpdatedMintAccount,
      slotUpdated := some c.slotUpdatedMintAccount,
      mintExtensions := c.extensions, assetData := some c.mint,
      specificationAssetClass := some .fungibleToken, ownerType := .token }
  guard r := notOlder c.slotUpdatedMintAccount r.slotUpdatedMintAccount
  set r := { r with slotUpdated := greatest r.slotUpdated (some c.slotUpdatedMintAccount) }

structure AssetMetadataAccountColumns where
  mint : Bytes
  ownerType : OwnerType
  specificationAssetClass : Option SpecificationAssetClass
  royaltyAmount : ℤ
  assetData : Option Bytes
  slotUpdatedMetadataAccount : ℕ
  mplCorePlugins : Option Json := none
  mplCoreUnknownPlugins : Option Json := none
  mplCoreCollectionNumMinted : Option ℤ := none
  mplCoreCollectionCurrentSize : Option ℤ := none
  mplCorePluginsJsonVersion : Option ℤ := none
  mplCoreExternalPlugins : Option Json := none
  mplCoreUnknownExternalPlugins : Option Json := none
  isAgent : Bool := false
  assetSigner : Option Bytes := none

/-- `upsert_assets_metadata_account_columns`. -/
def metadataAccountColumns (c : AssetMetadataAccountColumns) : Upsert AssetRow where
  new :=
    { ownerType := c.ownerType
      specificationVersion := some .v1
      specificationAssetClass := c.specificationAssetClass
      treeId := none
      nonce := some 0
      seq := some 0
      leaf := none
      dataHash := none
      creatorHash := none
      compressed := false
      compressible := false
      royaltyTargetType := .creators
      royaltyTarget := none
      royaltyAmount := c.royaltyAmount
      assetData := c.assetData
      slotUpdatedMetadataAccount := some (c.slotUpdatedMetadataAccount : ℤ)
      burnt := false
      mplCorePlugins := c.mplCorePlugins
      mplCoreUnknownPlugins := c.mplCoreUnknownPlugins
      mplCoreCollectionNumMinted := c.mplCoreCollectionNumMinted
      mplCoreCollectionCurrentSize := c.mplCoreCollectionCurrentSize
      mplCorePluginsJsonVersion := c.mplCorePluginsJsonVersion
      mplCoreExternalPlugins := c.mplCoreExternalPlugins
      mplCoreUnknownExternalPlugins := c.mplCoreUnknownExternalPlugins
      isAgent := c.isAgent
      assetSigner := c.assetSigner }
  guard r := notOlder (c.slotUpdatedMetadataAccount : ℤ) r.slotUpdatedMetadataAccount
  set r := { r with
    slotUpdated := greatest r.slotUpdated (some (c.slotUpdatedMetadataAccount : ℤ)) }

def upsertAssetsTokenAccountColumns (wrap : DbErr → ProgramTransformerError)
    (c : AssetTokenAccountColumns) : Handler Unit :=
  Session.write wrap (Database.upsertAsset c.mint (tokenAccountColumns c))

def upsertAssetsMintAccountColumns (wrap : DbErr → ProgramTransformerError)
    (c : AssetMintAccountColumns) : Handler Unit :=
  Session.write wrap (Database.upsertAsset c.mint (mintAccountColumns c))

def upsertAssetsMetadataAccountColumns (wrap : DbErr → ProgramTransformerError)
    (c : AssetMetadataAccountColumns) : Handler Unit :=
  Session.write wrap (Database.upsertAsset c.mint (metadataAccountColumns c))

/-! ### Burning -/

/-- `burn_v1_asset`, which the Core and the Token Metadata handlers have alike: it compares and moves
`slot_updated` only. -/
def burntColumns (slot : ℕ) : Upsert AssetRow where
  new := { slotUpdated := some (slot : ℤ), burnt := true }
  guard r := gt (some (slot : ℤ)) r.slotUpdated
  set r := { r with slotUpdated := some (slot : ℤ), burnt := true }

def burnV1Asset (id : Pubkey) (slot : ℕ) : Handler Unit :=
  Session.write storageWriteError (Database.upsertAsset id.bytes (burntColumns slot))

/-! ### The authority row -/

/-- The authority upsert of `save_v1_asset`, alike for Core and Token Metadata: the row is left alone when
the authority stays the same, and then keeps its slot too. -/
def authorityColumns (authority : Bytes) (slot : ℕ) : Upsert AssetAuthorityRow where
  new := { authority, seq := 0, slotUpdated := slot }
  guard r := and (gt (some (slot : ℤ)) (some r.slotUpdated)) (isDistinct r.authority authority)
  set _ := { authority, seq := 0, slotUpdated := slot }

/-! ### Other tables -/

/-- The `asset_data` upsert of `save_v1_asset`; an existing row keeps its downloaded `metadata`. -/
def accountAssetData (row : AssetDataRow) : Upsert AssetDataRow where
  new := row
  guard r := gt (some row.slotUpdated) (some r.slotUpdated)
  set r := { row with metadata := r.metadata }

/-- A `collection` or `group` row, rewritten as a whole by a write that is not older. -/
def accountGrouping (groupValue : Option String) (verified : Bool) (slot : ℕ) : Upsert AssetGroupingRow :=
  let row : AssetGroupingRow :=
    { groupValue, verified, slotUpdated := some (slot : ℤ), groupInfoSeq := some 0 }
  { new := row, guard := fun r => notOlder (slot : ℤ) r.slotUpdated, set := fun _ => row }

/-- A creator row, rewritten as a whole by a write that is not older. -/
def accountCreator (creator : Bytes) (share : ℤ) (verified : Bool) (slot : ℕ) : Upsert AssetCreatorRow :=
  let row : AssetCreatorRow :=
    { creator, share, verified, seq := some 0, slotUpdated := some (slot : ℤ) }
  { new := row, guard := fun r => notOlder (slot : ℤ) r.slotUpdated, set := fun _ => row }

/-- `INSERT INTO asset_creators`, left out when there are no creators. -/
def insertCreators (rows : List ((Bytes × ℤ) × Upsert AssetCreatorRow)) : Handler Unit :=
  if rows.isEmpty then pure ()
  else Session.write assetIndexError (Database.upsertCreators rows)

theorem insertCreators_runs (rows : List ((Bytes × ℤ) × Upsert AssetCreatorRow)) :
    Session.Runs (insertCreators rows) fun db => ((), Database.upsertCreators rows db) := by
  cases rows with
  | nil => exact Session.Runs.pure ()
  | cons r rs => exact Session.Runs.write _ _

/-! ### Reading with retries -/

/-- `RETRY_INTERVALS`, in milliseconds. -/
def retryIntervals : List ℕ := [0, 5, 10]

/-- `find_model_with_retry`: one query for each interval until one finds something. -/
def findModelWithRetry {α : Type} (wrap : DbErr → ProgramTransformerError) (q : Database → Option α) :
    List ℕ → Handler (Option α)
  | [] => pure none
  | _ :: intervals => do
    match ← Session.select wrap q with
    | some m => pure (some m)
    | none => findModelWithRetry wrap q intervals

/-- Where nothing fails and nobody else writes, the retries find what the first query finds. -/
theorem findModelWithRetry_runs {α : Type} (wrap : DbErr → ProgramTransformerError)
    (q : Database → Option α) (intervals : List ℕ) (h : intervals ≠ []) :
    Session.Runs (findModelWithRetry wrap q intervals) fun db => (q db, db) := by
  have hall : ∀ l : List ℕ, Session.Runs (findModelWithRetry wrap q l)
      fun db => (if l = [] then none else q db, db) := by
    intro l
    induction l with
    | nil => exact Session.Runs.pure none
    | cons i l ih =>
      have hnext : ∀ a : Option α, Session.Runs
          (match a with
            | some m => (pure (some m) : Handler (Option α))
            | none => findModelWithRetry wrap q l)
          (match a with
            | some m => fun db => (some m, db)
            | none => fun db => (if l = [] then none else q db, db)) := by
        intro a
        cases a with
        | some m => exact Session.Runs.pure (some m)
        | none => exact ih
      refine (Session.Runs.bind (Session.Runs.select wrap q) hnext).congr fun db => ?_
      cases hq : q db <;> simp [hq]
  have hrun := hall intervals
  simpa only [if_neg h] using hrun

end DasIndexer.Accounts
