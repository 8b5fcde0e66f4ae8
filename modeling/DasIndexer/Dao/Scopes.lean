import DasIndexer.Lib.IndexMap
import DasIndexer.Schema.Tables
import Mathlib.Data.List.Sort

/-!
# Reading assets

The queries of the read side.  A list query selects asset rows, perhaps over a join, and
`getRelatedForAssets` assembles for each of them what stands about it in six other tables: one query for a
table, whose rows are pushed to the records they belong to.  `getById` assembles one asset with queries of
its own.

Rows that a newer list has outgrown are never deleted; both paths drop them when they read:
`filterOutStaleCreators` and `filterOutStaleAssetGroupings` keep what has the newest slot.

Where a query does not order its rows, they come in the order of the table.
-/

namespace DasIndexer.Dao

open Sql

/-! ### Models -/

/-- A row of `asset` with its key, and so on for the other tables. -/
abbrev AssetModel := Bytes × AssetRow

abbrev AssetDataModel := Bytes × AssetDataRow

abbrev AuthorityModel := Bytes × AssetAuthorityRow

abbrev CreatorModel := (Bytes × ℤ) × AssetCreatorRow

abbrev GroupingModel := GroupKey × AssetGroupingRow

abbrev AttachmentModel := Bytes × AttachmentRow

abbrev TokenModel := Bytes × TokenRow

/-- `asset_grouping.asset_id`. -/
def assetId : GroupKey → Bytes
  | .collection id => id
  | .group id _ => id

/-- `asset_grouping.group_key`. -/
def groupKey : GroupKey → String
  | .collection _ => "collection"
  | .group _ _ => "group"

/-- `FullAsset`. -/
structure FullAsset where
  asset : AssetModel
  data : AssetDataModel
  tokenInfo : Option TokenModel := none
  authorities : List AuthorityModel := []
  creators : List CreatorModel := []
  inscription : Option AttachmentModel := none
  groups : List (GroupingModel × Option AssetDataModel) := []

/-- `sea_orm::DbErr`, as far as these queries raise it. -/
inductive DbErr where
  | recordNotFound (msg : String)
  | custom (msg : String)
deriving DecidableEq

/-- `rpc::options::Options`. -/
structure Options where
  showUnverifiedCollections : Bool := false
  showCollectionMetadata : Bool := false
  showZeroBalance : Bool := false
  showInscription : Bool := false
  showFungible : Bool := false
  showNativeBalance : Bool := false
deriving DecidableEq

/-! ### Pages and order -/

structure Cursor where
  id : Option Bytes := none
deriving DecidableEq

inductive Pagination where
  | keyset (before after : Option Bytes)
  | page (page : ℕ)
  | cursor (cursor : Cursor)
deriving DecidableEq

inductive Order where
  | asc | desc
deriving DecidableEq

/-- `paginate`, on the rows that the statement selects in their order. -/
def paginate {α : Type} (pagination : Pagination) (limit : ℕ) (sortDirection : Order)
    (column : α → Bytes) (rows : List α) : List α :=
  let rows := match pagination with
    | .keyset before after =>
      rows.filter fun r => before.all (fun b => decide (column r < b))
        && after.all (fun a => decide (a < column r))
    | .page page => if 0 < page then rows.drop ((page - 1) * limit) else rows
    | .cursor { id := none } => rows
    | .cursor { id := some id } =>
      rows.filter fun r => match sortDirection with
        | .asc => decide (id < column r)
        | .desc => decide (column r < id)
  rows.take limit

/-- A column to sort by, given by the ascending order that it puts on the rows. -/
abbrev SortColumn := AssetModel → AssetModel → Bool

/-- The order of a column in a direction, equal values by `id`. -/
def inOrder (column : SortColumn) (sortDirection : Order) (a b : AssetModel) : Bool :=
  match sortDirection with
  | .asc => column a b && (!column b a || decide (a.1 ≤ b.1))
  | .desc => column b a && (!column a b || decide (b.1 ≤ a.1))

/-- `ORDER BY column, id`, where there is a column. -/
def orderBy (sortBy : Option SortColumn) (sortDirection : Order) (rows : List AssetModel) :
    List AssetModel :=
  match sortBy with
  | none => rows
  | some column => rows.insertionSort fun a b => inOrder column sortDirection a b = true

/-! ### Stale rows -/

/-- The maximum of nullable columns, as Rust orders them: `None` is below every value. -/
def maxColumn (l : List (Option ℤ)) : Option (Option ℤ) := List.max? (α := WithBot ℤ) l

/-- Keep the rows whose column has a value, where there is one to have. -/
def retainColumn {α : Type} (column : α → Option ℤ) (value : Option (Option ℤ)) (rows : List α) :
    List α :=
  match value with
  | none => rows
  | some value => rows.filter fun r => decide (column r = value)

/-- `filter_out_stale_creators`. -/
def filterOutStaleCreators (creators : List CreatorModel) : List CreatorModel :=
  if creators.head?.any (fun c => c.2.creator.isEmpty) then []
  else
    let creators := retainColumn (fun c => c.2.slotUpdated)
      (maxColumn (creators.map fun c => c.2.slotUpdated)) creators
    let seq := if creators.any (fun c => decide (c.2.seq = some 0)) then some (some 0)
      else maxColumn (creators.map fun c => c.2.seq)
    retainColumn (fun c => c.2.seq) seq creators

/-- `filter_out_stale_asset_groupings`. -/
def filterOutStaleAssetGroupings (groups : List (GroupingModel × Option AssetDataModel)) :
    List (GroupingModel × Option AssetDataModel) :=
  match maxColumn ((groups.filter fun g => decide (groupKey g.1.1 = "group")).map
      fun g => g.1.2.slotUpdated) with
  | none => groups
  | some maxSlotUpdated => groups.filter fun g => decide (groupKey g.1.1 ≠ "group")
      || (decide (g.1.2.slotUpdated = maxSlotUpdated) && g.1.2.groupValue.isSome)

/-! ### Queries on single tables -/

/-- The condition on groupings without which a row is not shown: a collection has a value. -/
def groupingShown (g : GroupingModel) : Truth :=
  or (and (eq (some (groupKey g.1)) (some "collection")) (some g.2.groupValue.isSome))
    (some (decide (groupKey g.1 ≠ "collection")))

/-- Verified, or from a time when only verified groups were stored. -/
def groupingVerified (g : GroupingModel) : Truth :=
  or (eq (some g.2.verified) (some true)) (isNull (some g.2.verified))

/-- `find_tokens`. -/
def findTokens (db : Database) (ids : List Bytes) : List TokenModel :=
  (scan db.tokens).filter fun t => decide (t.1 ∈ ids)

/-- `data->>'key' = 'text'`.  The text of an array or of an object starts with a bracket, and is no base-58
text. -/
def fieldIs (key text : String) : Json → Bool
  | .obj fields => match (fields.find? fun f => decide (f.1 = key)).map Prod.snd with
    | some (.str s) => decide (s = text)
    | some (.bool b) => decide (toString b = text)
    | some (.num n) => decide (toString n = text)
    | _ => false
  | _ => false

/-- `get_inscription_by_mint`. -/
def getInscriptionByMint (db : Database) (mint : Bytes) : Except DbErr AttachmentModel :=
  match (scan db.attachments).find? fun a => a.2.data.any (fieldIs "root" (Base58.encode mint)) with
  | some a => .ok a
  | none => .error (.recordNotFound "Inscription Not Found")

/-- A grouping with the metadata of its asset, where that is asked for. -/
def withMetadata (db : Database) (options : Options) (g : GroupingModel) :
    GroupingModel × Option AssetDataModel :=
  (g, if options.showCollectionMetadata then
    (db.assetData.lookup (assetId g.1)).map fun d => (assetId g.1, d) else none)

/-! ### Assembling a list of assets -/

/-- The record of an asset before anything is pushed to it, where its metadata is among the loaded. -/
def bareAsset (assetData : List AssetDataModel) (asset : AssetModel) : Option (Bytes × FullAsset) :=
  (asset.2.assetData.bind fun adId => assetData.find? fun d => decide (d.1 = adId)).map
    fun data => (asset.1, { asset, data })

def pushCreator (fa : FullAsset) (c : CreatorModel) : FullAsset := { fa with creators := fa.creators ++ [c] }

def pushAuthority (fa : FullAsset) (a : AuthorityModel) : FullAsset :=
  { fa with authorities := fa.authorities ++ [a] }

def pushGroup (fa : FullAsset) (g : GroupingModel × Option AssetDataModel) : FullAsset :=
  { fa with groups := fa.groups ++ [g] }

def setTokenInfo (fa : FullAsset) (t : TokenModel) : FullAsset := { fa with tokenInfo := some t }

def setInscription (fa : FullAsset) (a : AttachmentModel) : FullAsset := { fa with inscription := some a }

/-- `ORDER BY asset_id, position`. -/
def byAssetAndPosition (a b : CreatorModel) : Prop := a.1.1 < b.1.1 ∨ (a.1.1 = b.1.1 ∧ a.1.2 ≤ b.1.2)

instance : DecidableRel byAssetAndPosition := fun a b =>
  inferInstanceAs (Decidable (a.1.1 < b.1.1 ∨ (a.1.1 = b.1.1 ∧ a.1.2 ≤ b.1.2)))

/-- The creators of the records, without the stale ones. -/
def addCreators (db : Database) (ids : List Bytes) (assetsMap : IndexMap Bytes FullAsset) :
    IndexMap Bytes FullAsset :=
  let creators := ((scan db.assetCreators).filter fun c => decide (c.1.1 ∈ ids)).insertionSort
    byAssetAndPosition
  (assetsMap.pushAll (fun c => c.1.1) pushCreator creators).mapValues fun _ fa =>
    { fa with creators := filterOutStaleCreators fa.creators }

/-- Only the records that still have the creator, where one is required. -/
def requireCreator (requiredCreator : Option Bytes) (assetsMap : IndexMap Bytes FullAsset) :
    IndexMap Bytes FullAsset :=
  match requiredCreator with
  | some required => assetsMap.retain fun _ fa => fa.creators.any fun c => decide (c.2.creator = required)
  | none => assetsMap

def addAuthorities (db : Database) (ids : List Bytes) (assetsMap : IndexMap Bytes FullAsset) :
    IndexMap Bytes FullAsset :=
  assetsMap.pushAll (fun a => a.1) pushAuthority
    (((scan db.assetAuthority).filter fun a => decide (a.1 ∈ ids)).insertionSort fun a b => a.1 ≤ b.1)

def addTokenInfo (db : Database) (options : Options) (ids : List Bytes)
    (assetsMap : IndexMap Bytes FullAsset) : IndexMap Bytes FullAsset :=
  if options.showFungible then assetsMap.pushAll (fun t => t.1) setTokenInfo (findTokens db ids)
  else assetsMap

/-- The inscriptions.  An attachment is looked for under its own key, not under that of its asset. -/
def addInscriptions (db : Database) (options : Options) (assetIds : List Bytes)
    (assetsMap : IndexMap Bytes FullAsset) : IndexMap Bytes FullAsset :=
  if options.showInscription then
    assetsMap.pushAll (fun a => a.1) setInscription
      ((scan db.attachments).filter fun a => a.2.assetId.any fun id => decide (id ∈ assetIds))
  else assetsMap

/-- The groupings of the records, without the stale ones. -/
def addGroups (db : Database) (options : Options) (ids : List Bytes)
    (assetsMap : IndexMap Bytes FullAsset) : IndexMap Bytes FullAsset :=
  let groupings := ((scan db.assetGrouping).filter fun g => decide (assetId g.1 ∈ ids)
    && (holds (groupingShown g) && (options.showUnverifiedCollections || holds (groupingVerified g)))
    ).insertionSort fun a b => assetId a.1 ≤ assetId b.1
  (assetsMap.pushAll (fun g => assetId g.1.1) pushGroup (groupings.map (withMetadata db options))).mapValues
    fun _ fa => { fa with groups := filterOutStaleAssetGroupings fa.groups }

/-- `get_related_for_assets`. -/
def getRelatedForAssets (db : Database) (assets : List AssetModel) (options : Options)
    (requiredCreator : Option Bytes) : List FullAsset :=
  let assetIds := assets.map Prod.fst
  let assetData := (scan db.assetData).filter fun d => decide (d.1 ∈ assetIds)
  let assetsMap := IndexMap.collect (bareAsset assetData) assets
  let assetsMap := addCreators db assetsMap.keys assetsMap
  let assetsMap := requireCreator requiredCreator assetsMap
  let ids := assetsMap.keys
  let assetsMap := addAuthorities db ids assetsMap
  let assetsMap := addTokenInfo db options ids assetsMap
  let assetsMap := addInscriptions db options assetIds assetsMap
  let assetsMap := addGroups db options ids assetsMap
  assetsMap.values

/-- `get_assets_by_condition`, without joins. -/
def getAssetsByCondition (db : Database) (condition : AssetModel → Truth) (sortBy : Option SortColumn)
    (sortDirection : Order) (pagination : Pagination) (limit : ℕ) (options : Options) : List FullAsset :=
  let selected := (scan db.asset).filter fun a => holds (condition a)
  let assets := paginate pagination limit sortDirection Prod.fst (orderBy sortBy sortDirection selected)
  getRelatedForAssets db assets options none

/-- `LEFT JOIN`: a row without partners stays, with nothing beside it. -/
def leftJoin {α β : Type} (rows : List α) (related : α → List β) : List (α × Option β) :=
  rows.flatMap fun a => match related a with
    | [] => [(a, none)]
    | bs => bs.map fun b => (a, some b)

/-- The asset rows of a joined query; an asset comes once for each related row that passes. -/
def selectRelated {β : Type} (db : Database) (related : AssetModel → List β)
    (condition : AssetModel → Option β → Truth) : List AssetModel :=
  ((leftJoin (scan db.asset) related).filter fun e => holds (condition e.1 e.2)).map Prod.fst

/-- `get_by_related_condition`. -/
def getByRelatedCondition {β : Type} (db : Database) (related : AssetModel → List β)
    (condition : AssetModel → Option β → Truth) (sortBy : Option SortColumn) (sortDirection : Order)
    (pagination : Pagination) (limit : ℕ) (options : Options) (requiredCreator : Option Bytes) :
    List FullAsset :=
  let assets := paginate pagination limit sortDirection Prod.fst
    (orderBy sortBy sortDirection (selectRelated db related condition))
  getRelatedForAssets db assets options requiredCreator

/-! ### Lookups -/

/-- `asset.supply > 0`. -/
def hasSupply (a : AssetModel) : Truth := gt (some a.2.supply) (some 0)

/-- `get_by_creator`. -/
def getByCreator (db : Database) (creator : Bytes) (onlyVerified : Bool) (sortBy : Option SortColumn)
    (sortDirection : Order) (pagination : Pagination) (limit : ℕ) (options : Options) : List FullAsset :=
  getByRelatedCondition db (fun a => (scan db.assetCreators).filter fun c => decide (c.1.1 = a.1))
    (fun a c => and (and (eq (c.map fun c => c.2.creator) (some creator)) (hasSupply a))
      (if onlyVerified then eq (c.map fun c => c.2.verified) (some true) else some true))
    sortBy sortDirection pagination limit options (some creator)

/-- `get_by_authority`. -/
def getByAuthority (db : Database) (authority : Bytes) (sortBy : Option SortColumn)
    (sortDirection : Order) (pagination : Pagination) (limit : ℕ) (options : Options) : List FullAsset :=
  getByRelatedCondition db (fun a => (scan db.assetAuthority).filter fun r => decide (r.1 = a.1))
    (fun a r => and (eq (r.map fun r => r.2.authority) (some authority)) (hasSupply a))
    sortBy sortDirection pagination limit options none

/-- The groupings of an asset, as the join takes them. -/
def groupingsOf (db : Database) (a : AssetModel) : List GroupingModel :=
  (scan db.assetGrouping).filter fun g => decide (assetId g.1 = a.1)

/-- The condition of `get_by_grouping`. -/
def groupingCondition (key value : String) (options : Options) (a : AssetModel)
    (g : Option GroupingModel) : Truth :=
  let condition := and (eq (g.map fun g => groupKey g.1) (some key))
    (eq (g.bind fun g => g.2.groupValue) (some value))
  let condition := if options.showUnverifiedCollections then condition
    else and condition (or (eq (g.map fun g => g.2.verified) (some true))
      (isNull (g.map fun g => g.2.verified)))
  and condition (hasSupply a)

/-- `get_by_grouping`.  An asset that was found by a stale row is dropped at the end. -/
def getByGrouping (db : Database) (key value : String) (sortBy : Option SortColumn)
    (sortDirection : Order) (pagination : Pagination) (limit : ℕ) (options : Options) : List FullAsset :=
  let assets := getByRelatedCondition db (groupingsOf db) (groupingCondition key value options)
    sortBy sortDirection pagination limit options none
  assets.filter fun asset => asset.groups.any fun g =>
    decide (groupKey g.1.1 = key) && decide (g.1.2.groupValue = some value)

/-- `SELECT MAX(slot_updated)` over the groupings of an asset under a key; nulls do not count. -/
def maxSlotUpdated (db : Database) (id : Bytes) (key : String) : Option ℤ :=
  ((scan db.assetGrouping).filterMap fun g =>
    if assetId g.1 = id ∧ groupKey g.1 = key then g.2.slotUpdated else none).max?

/-- The rows that `get_grouping` counts. -/
def countedGroupings (db : Database) (key value : String) : List GroupingModel :=
  (scan db.assetGrouping).filter fun g =>
    holds (and (and (and (eq (some (groupKey g.1)) (some key)) (eq g.2.groupValue (some value)))
      (groupingVerified g)) (eq g.2.slotUpdated (maxSlotUpdated db (assetId g.1) key)))

/-- `get_grouping`: the size of a group. -/
def getGrouping (db : Database) (key value : String) : ℕ := (countedGroupings db key value).length

/-- `get_assets_by_owner`. -/
def getAssetsByOwner (db : Database) (owner : Bytes) (sortBy : Option SortColumn) (sortDirection : Order)
    (pagination : Pagination) (limit : ℕ) (options : Options) : List FullAsset :=
  getAssetsByCondition db (fun a => and (eq a.2.owner (some owner)) (hasSupply a))
    sortBy sortDirection pagination limit options

/-- `get_assets`. -/
def getAssets (db : Database) (assetIds : List Bytes) (pagination : Pagination) (limit : ℕ)
    (options : Options) : List FullAsset :=
  getAssetsByCondition db (fun a => and (some (decide (a.1 ∈ assetIds))) (hasSupply a))
    none .asc pagination limit options

/-- `get_by_id`. -/
def getById (db : Database) (id : Bytes) (options : Options) : Except DbErr FullAsset :=
  let inscription := if options.showInscription then (getInscriptionByMint db id).toOption else none
  let tokenInfo := if options.showFungible then (findTokens db [id]).head? else none
  let found := (db.asset.lookup id).bind fun asset => asset.assetData.bind fun dataId =>
    (db.assetData.lookup dataId).map fun data => (((id, asset), (dataId, data)) : AssetModel × AssetDataModel)
  match found with
  | none => .error (.recordNotFound "Asset Not Found")
  | some (asset, data) =>
    if asset.2.supply = 0 then .error (.custom "Asset has no supply")
    else
      let authorities := ((scan db.assetAuthority).filter fun a => decide (a.1 = id)).insertionSort
        fun a b => a.1 ≤ b.1
      let creators := ((scan db.assetCreators).filter fun c => decide (c.1.1 = id)).insertionSort
        fun a b => a.1.2 ≤ b.1.2
      let groups := (((scan db.assetGrouping).filter fun g => decide (assetId g.1 = id)
        && (holds (groupingShown g) && holds (groupingVerified g))).insertionSort
          fun a b => assetId a.1 ≤ assetId b.1).map (withMetadata db options)
      .ok { asset, data, authorities, creators := filterOutStaleCreators creators, inscription,
            groups := filterOutStaleAssetGroupings groups, tokenInfo }

end DasIndexer.Dao
