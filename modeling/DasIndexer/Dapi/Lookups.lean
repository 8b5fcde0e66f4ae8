import DasIndexer.Dapi.ChangeLogs
import DasIndexer.Dapi.Pagination
import DasIndexer.Lib.Queries

/-!
# Lookups, statement by statement

`get_by_id` and `get_proof_for_asset` ask the index by several statements, between which it may change, and each of
which may fail.  On an index that does not change they find what `getById` and `getProofForAsset` find
(**`getByIdStatements_run`**, **`getProofStatements_run`**).
-/

namespace DasIndexer.Dao

open Sql Queries Query

/-- The `SELECT` of an asset with its metadata. -/
def assetWithData (db : Database) (id : Bytes) : Option (AssetModel × AssetDataModel) :=
  (db.asset.lookup id).bind fun asset => asset.assetData.bind fun dataId =>
    (db.assetData.lookup dataId).map fun data => ((id, asset), (dataId, data))

/-- `get_inscription_by_mint(..).await.ok()`, where it is asked for. -/
def inscriptionStatement (id : Bytes) (options : Options) : Query Database DbErr (Option AttachmentModel) :=
  if options.showInscription then attempt (query (fun db => getInscriptionByMint db id) >>= ofExcept) else pure none

/-- `find_tokens`, where it is asked for. -/
def tokenStatement (id : Bytes) (options : Options) : Query Database DbErr (Option TokenModel) :=
  if options.showFungible then query fun db => (findTokens db [id]).head? else pure none

/-- `asset_data.one(conn)`. -/
def assetStatement (id : Bytes) : Query Database DbErr (AssetModel × AssetDataModel) :=
  query (fun db => assetWithData db id) >>= fun found =>
    ofExcept (found.elim (.error (.recordNotFound "Asset Not Found")) .ok)

/-- `get_by_id`, statement by statement. -/
def getByIdStatements (id : Bytes) (options : Options) : Query Database DbErr FullAsset := do
  let inscription ← inscriptionStatement id options
  let tokenInfo ← tokenStatement id options
  let (asset, data) ← assetStatement id
  if asset.2.supply = 0 then throw (.custom "Asset has no supply")
  else do
    let authorities ← query fun db => ((scan db.assetAuthority).filter fun a => decide (a.1 = id)).insertionSort
      fun a b => a.1 ≤ b.1
    let creators ← query fun db => ((scan db.assetCreators).filter fun c => decide (c.1.1 = id)).insertionSort
      fun a b => a.1.2 ≤ b.1.2
    let groups ← query fun db => (((scan db.assetGrouping).filter fun g => decide (assetId g.1 = id)
      && (holds (groupingShown g) && holds (groupingVerified g))).insertionSort
        fun a b => assetId a.1 ≤ assetId b.1).map (withMetadata db options)
    pure { asset, data, authorities, creators := filterOutStaleCreators creators, inscription,
           groups := filterOutStaleAssetGroupings groups, tokenInfo }

section Unchanged

variable (db : Database) (id : Bytes) (options : Options)

theorem inscriptionStatement_run : (inscriptionStatement id options).run db
    = .ok (if options.showInscription then (getInscriptionByMint db id).toOption else none) := by
  rw [inscriptionStatement]
  split
  · rw [run_attempt, run_bind, run_query]
    rfl
  · rfl

theorem tokenStatement_run : (tokenStatement id options).run db
    = .ok (if options.showFungible then (findTokens db [id]).head? else none) := by
  rw [tokenStatement]
  split
  · rfl
  · rfl

/-- On an index that does not change. -/
theorem getByIdStatements_run : (getByIdStatements id options).run db = getById db id options := by
  have hasset : (assetStatement id).run db
      = (assetWithData db id).elim (.error (.recordNotFound "Asset Not Found")) .ok := rfl
  rw [getByIdStatements, run_bind, inscriptionStatement_run, Except.bind, run_bind, tokenStatement_run, Except.bind,
    run_bind, hasset, getById]
  cases hfound : assetWithData db id with
  | none =>
    rw [assetWithData] at hfound
    simp only [hfound]
    rfl
  | some found =>
    obtain ⟨asset, data⟩ := found
    rw [assetWithData] at hfound
    simp only [hfound, Option.elim, Except.bind]
    split
    · rfl
    · rfl

end Unchanged

end DasIndexer.Dao

namespace DasIndexer.Dapi

open Sql Queries Query

/-- An error of the proof query is one of the database. -/
def toDbErr : DbError → Dao.DbErr
  | .recordNotFound msg => .recordNotFound msg

/-- `sel.one(db)`, of which the first row must be there. -/
def leafStatement (assetId : Bytes) : Query Database Dao.DbErr ((Bytes × ℤ) × ClItemRow) :=
  query (fun db => (leafRows db assetId).head?) >>= fun found =>
    ofExcept (found.elim (.error (.recordNotFound "Asset Proof Not Found")) .ok)

/-- `get_proof_for_asset`, statement by statement. -/
def getProofStatements (emptyNode : ℕ → Pubkey) (assetId : Bytes) : Query Database Dao.DbErr AssetProof := do
  let leaf ← leafStatement assetId
  let reqIndexes := getRequiredNodesForProof leaf.1.2
  let nodes ← query fun db => requiredNodes db leaf.1.1 reqIndexes
  pure (buildAssetProof emptyNode leaf.1.1 leaf.1.2 leaf.2.hash reqIndexes nodes)

/-- On an index that does not change. -/
theorem getProofStatements_run (emptyNode : ℕ → Pubkey) (db : Database) (assetId : Bytes) :
    (getProofStatements emptyNode assetId).run db = (getProofForAsset emptyNode db assetId).mapError toDbErr := by
  have hleaf : (leafStatement assetId).run db
      = (leafRows db assetId).head?.elim (.error (.recordNotFound "Asset Proof Not Found")) .ok := rfl
  rw [getProofStatements, run_bind, hleaf, getProofForAsset]
  cases (leafRows db assetId).head? with
  | none => rfl
  | some leaf => rfl

end DasIndexer.Dapi
