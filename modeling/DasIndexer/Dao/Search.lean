import DasIndexer.Dao.NameSearch

/-!
# Searching for assets

`searchAssets` turns a query of some two dozen optional criteria into one condition and a list of joins.  The
condition is the conjunction or the disjunction of what was given, together with two filters that stand in where
no supply or no owner type was given, and the whole may be negated.  The statement selects an asset once for each
joined row of which the condition is true.

A statement may be refused: a table cannot be joined twice under one name, and the name that is searched for goes
into the text of the statement as it is.  Where that text is not one comparison the model does not say what the
statement means.
-/

namespace DasIndexer.Dao

open Sql

/-! ### The query -/

inductive Interface where
  | v1Nft | v1Print | nft | legacyNft | fungibleAsset | fungibleToken | identity | executable | programmableNft
  | mplCoreAsset | mplCoreCollection | mplCoreGroup | mplBubblegumV2 | custom
deriving DecidableEq

inductive TokenTypeClass where
  | fungible | nonFungible | compressed | nft | all
deriving DecidableEq

inductive ConditionType where
  | any | all
deriving DecidableEq

structure SearchAssetsQuery where
  negate : Option Bool := none
  conditionType : Option ConditionType := none
  interface : Option Interface := none
  specificationVersion : Option SpecificationVersions := none
  specificationAssetClass : Option SpecificationAssetClass := none
  ownerAddress : Option Bytes := none
  ownerType : Option OwnerType := none
  creatorAddress : Option Bytes := none
  creatorVerified : Option Bool := none
  authorityAddress : Option Bytes := none
  grouping : Option (String × String) := none
  delegate : Option Bytes := none
  frozen : Option Bool := none
  supply : Option ℕ := none
  supplyMint : Option Bytes := none
  compressed : Option Bool := none
  compressible : Option Bool := none
  royaltyTargetType : Option RoyaltyTargetType := none
  royaltyTarget : Option Bytes := none
  royaltyAmount : Option ℕ := none
  burnt : Option Bool := none
  jsonUri : Option String := none
  name : Option Bytes := none
  tokenType : Option TokenTypeClass := none
  isAgent : Option Bool := none
  agentToken : Option Bytes := none
  assetSigner : Option Bytes := none

/-- `SearchAssetsQuery::validate`. -/
def validate (q : SearchAssetsQuery) : Except DbErr Unit :=
  if q.tokenType.isSome then
    if q.ownerType.isSome then .error (.custom "`ownerType` is not supported when using `tokenType` field")
    else if q.ownerAddress.isNone then
      .error (.custom "Must provide `ownerAddress` when using `tokenType` field")
    else if q.interface.isSome then
      .error (.custom "`interface` is not supported when using `tokenType` field")
    else .ok ()
  else .ok ()

/-! ### Joined rows -/

/-- A row of the joined tables; a table that is not joined, or has no partner, is null. -/
structure Joined where
  asset : AssetModel
  tokenAccount : Option (Bytes × TokenAccountRow) := none
  creator : Option CreatorModel := none
  authority : Option AuthorityModel := none
  grouping : Option GroupingModel := none
  data : Option AssetDataModel := none

/-- The tables that a search may join to `asset`. -/
inductive Join where
  | tokenAccounts | assetCreators | assetAuthority | assetGrouping | assetData
deriving DecidableEq

/-- `LEFT JOIN`, on the key of the asset or of its metadata. -/
def joinOn (db : Database) (rows : List Joined) : Join → List Joined
  | .tokenAccounts =>
    (leftJoin rows fun r => (scan db.tokenAccounts).filter fun t => decide (t.2.mint = r.asset.1)).map
      fun e => { e.1 with tokenAccount := e.2 }
  | .assetCreators =>
    (leftJoin rows fun r => (scan db.assetCreators).filter fun c => decide (c.1.1 = r.asset.1)).map
      fun e => { e.1 with creator := e.2 }
  | .assetAuthority =>
    (leftJoin rows fun r => (scan db.assetAuthority).filter fun a => decide (a.1 = r.asset.1)).map
      fun e => { e.1 with authority := e.2 }
  | .assetGrouping =>
    (leftJoin rows fun r => (scan db.assetGrouping).filter fun g => decide (assetId g.1 = r.asset.1)).map
      fun e => { e.1 with grouping := e.2 }
  | .assetData =>
    (leftJoin rows fun r => (scan db.assetData).filter fun d => decide (r.asset.2.assetData = some d.1)).map
      fun e => { e.1 with data := e.2 }

/-! ### Conditions -/

/-- A condition on a row, or a piece of SQL. -/
inductive SimpleExpr where
  | test (value : Joined → Truth)
  | custom (sql : String)

/-- `sea_query::Condition`. -/
structure Condition where
  conditionType : ConditionType
  negated : Bool
  exprs : List SimpleExpr

/-- `add_option`. -/
def given {α : Type} (value : Option α) (expr : α → Joined → Truth) : List SimpleExpr :=
  value.toList.map fun x => .test (expr x)

/-- The class of an asset is one of some. -/
def classAmong (classes : List SpecificationAssetClass) (a : AssetRow) : Truth :=
  anyOf (classes.map fun c => eq a.specificationAssetClass (some c))

/-- `IS NOT NULL`. -/
def isNotNull {α : Type} (a : Option α) : Truth := some a.isSome

/-- The condition for a token type. -/
def tokenTypeExpr : TokenTypeClass → AssetRow → Truth
  | .compressed, a => isNotNull a.treeId
  | .nft, a | .nonFungible, a =>
    and (isNull a.treeId) (classAmong [.nft, .mplCoreAsset, .programmableNft, .mplCoreCollection,
      .mplCoreGroup, .nonTransferableNft, .identityNft, .print, .printableNft, .transferRestrictedNft] a)
  | .fungible, a => classAmong [.fungibleAsset, .fungibleToken] a
  | .all, a => isNotNull a.specificationAssetClass

/-- Token accounts count for the owner. -/
def countsTokenAccounts (tokenType : Option TokenTypeClass) : Bool :=
  match tokenType with
  | some .fungible | some .all => true
  | _ => false

/-- The condition for an owner. -/
def ownerExpr (tokenType : Option TokenTypeClass) (o : Bytes) (r : Joined) : Truth :=
  if countsTokenAccounts tokenType then
    or (eq r.asset.2.owner (some o)) (eq (r.tokenAccount.map fun t => t.2.owner) (some o))
  else eq r.asset.2.owner (some o)

/-- The filter where no supply is given. -/
def defaultSupply (a : AssetRow) : Truth := or (ne (some a.supply) (some 0)) (eq (some a.burnt) (some true))

/-- The filter where no owner type is given. -/
def defaultOwnerType (tokenType : Option TokenTypeClass) (a : AssetRow) : Truth :=
  match tokenType with
  | some .fungible => and (eq (some a.ownerType) (some .token)) (classAmong [.fungibleToken, .fungibleAsset] a)
  | some .all => isNotNull a.specificationAssetClass
  | _ => and (eq (some a.ownerType) (some .single)) (ge (some 1) (some a.supply))

/-- The conditions on columns of `asset` up to the supply. -/
def assetExprs (q : SearchAssetsQuery) : List SimpleExpr :=
  given q.specificationVersion (fun x r => eq r.asset.2.specificationVersion (some x))
    ++ given q.tokenType (fun x r => tokenTypeExpr x r.asset.2)
    ++ given q.specificationAssetClass (fun x r => eq r.asset.2.specificationAssetClass (some x))
    ++ given q.ownerAddress (ownerExpr q.tokenType)
    ++ given q.delegate (fun x r => eq r.asset.2.delegate (some x))
    ++ given q.frozen (fun x r => eq (some r.asset.2.frozen) (some x))
    ++ given q.supplyMint (fun x r => eq r.asset.2.supplyMint (some x))
    ++ given q.compressed (fun x r => eq (some r.asset.2.compressed) (some x))
    ++ given q.compressible (fun x r => eq (some r.asset.2.compressible) (some x))
    ++ given q.royaltyTargetType (fun x r => eq (some r.asset.2.royaltyTargetType) (some x))
    ++ given q.royaltyTarget (fun x r => eq r.asset.2.royaltyTarget (some x))
    ++ given q.royaltyAmount (fun x r => eq (some r.asset.2.royaltyAmount) (some (x : ℤ)))
    ++ given q.burnt (fun x r => eq (some r.asset.2.burnt) (some x))
    ++ given q.isAgent (fun x r => eq (some r.asset.2.isAgent) (some x))
    ++ given q.agentToken (fun x r => eq r.asset.2.agentToken (some x))
    ++ given q.assetSigner (fun x r => eq r.asset.2.assetSigner (some x))

/-- The condition on the supply, given or not. -/
def supplyExpr (q : SearchAssetsQuery) : SimpleExpr :=
  match q.supply with
  | some s => .test fun r => eq (some r.asset.2.supply) (some (s : ℤ))
  | none => .test fun r => defaultSupply r.asset.2

/-- The condition on the owner type, given or not. -/
def ownerTypeExpr (q : SearchAssetsQuery) : SimpleExpr :=
  match q.ownerType with
  | some o => .test fun r => eq (some r.asset.2.ownerType) (some o)
  | none => .test fun r => defaultOwnerType q.tokenType r.asset.2

/-- The conditions on joined tables, the name apart. -/
def relatedExprs (q : SearchAssetsQuery) : List SimpleExpr :=
  given q.creatorAddress (fun x r => eq (r.creator.map fun c => c.2.creator) (some x))
    ++ given q.creatorVerified (fun x r => eq (r.creator.map fun c => c.2.verified) (some x))
    ++ given q.authorityAddress (fun x r => eq (r.authority.map fun a => a.2.authority) (some x))
    ++ given q.grouping (fun x r => and (eq (r.grouping.map fun g => groupKey g.1) (some x.1))
      (eq (r.grouping.bind fun g => g.2.groupValue) (some x.2)))
    ++ given q.jsonUri (fun x r => eq (r.data.map fun d => d.2.metadataUrl.1) (some x))

/-- The joins, in the order in which they are pushed. -/
def joins (q : SearchAssetsQuery) : List Join :=
  (if q.ownerAddress.isSome && countsTokenAccounts q.tokenType then [.tokenAccounts] else [])
    ++ (if q.creatorAddress.isSome || q.creatorVerified.isSome then [.assetCreators] else [])
    ++ (if q.authorityAddress.isSome then [.assetAuthority] else [])
    ++ (if q.grouping.isSome then [.assetGrouping] else [])
    ++ (if q.jsonUri.isSome then [.assetData] else [])
    ++ (if q.name.isSome then [.assetData] else [])

/-- The condition on the name. -/
def nameExprs (q : SearchAssetsQuery) : Except DbErr (List SimpleExpr) :=
  match q.name with
  | none => .ok []
  | some n => (nameExpr n).map fun sql => [.custom sql]

/-- `SearchAssetsQuery::conditions`. -/
def conditions (q : SearchAssetsQuery) : Except DbErr (Condition × List Join) := do
  validate q
  let name ← nameExprs q
  .ok (⟨q.conditionType.getD .all, q.negate.getD false,
    assetExprs q ++ [supplyExpr q] ++ [ownerTypeExpr q] ++ relatedExprs q ++ name⟩, joins q)

/-! ### Running the statement -/

/-- Why a search returns no list. -/
inductive SearchErr where
  | db (err : DbErr)
  /-- The database refuses to join a table twice. -/
  | duplicateTable
  /-- The text for the name is not one comparison. -/
  | notOneComparison
deriving DecidableEq

section Running

variable (jsonText : Json → String)

/-- `chain_data->>'name'`; `jsonText` is the text of a JSON value. -/
def chainName : Json → Option String
  | .obj fields => match (fields.find? fun f => decide (f.1 = "name")).map Prod.snd with
    | none | some .null => none
    | some (.str s) => some s
    | some value => some (jsonText value)
  | _ => none

/-- The value of an expression on a row. -/
def evalExpr : SimpleExpr → Option (Joined → Truth)
  | .test value => some value
  | .custom sql => (likePattern sql).map fun pattern r =>
      nameLike pattern (r.data.bind fun d => chainName jsonText d.2.chainData)

/-- The value of a condition on a row. -/
def evalCondition (condition : Condition) (tests : List (Joined → Truth)) (r : Joined) : Truth :=
  let value := match condition.conditionType with
    | .all => allOf (tests.map fun t => t r)
    | .any => anyOf (tests.map fun t => t r)
  if condition.negated then neg value else value

/-- The joined rows. -/
def joinedRows (db : Database) (joins : List Join) : List Joined :=
  joins.foldl (joinOn db) ((scan db.asset).map fun a => { asset := a })

/-- The asset rows that the statement of a search selects. -/
def selectAssets (db : Database) (q : SearchAssetsQuery) : Except SearchErr (List AssetModel) :=
  match conditions q with
  | .error err => .error (.db err)
  | .ok (condition, joins) =>
    if joins.Nodup then
      match condition.exprs.mapM (evalExpr jsonText) with
      | none => .error .notOneComparison
      | some tests => .ok (((joinedRows db joins).filter fun r =>
          holds (evalCondition condition tests r)).map Joined.asset)
    else .error .duplicateTable

/-- `search_assets`, before the response is built. -/
def searchAssets (db : Database) (q : SearchAssetsQuery) (sortBy : Option SortColumn) (sortDirection : Order)
    (pagination : Pagination) (limit : ℕ) (options : Options) : Except SearchErr (List FullAsset) :=
  (selectAssets jsonText db q).map fun rows =>
    let assets := getRelatedForAssets db
      (paginate pagination limit sortDirection Prod.fst (orderBy sortBy sortDirection rows)) options none
    match q.grouping with
    | some (key, value) => assets.filter fun asset => asset.groups.any fun g =>
        decide (groupKey g.1.1 = key) && decide (g.1.2.groupValue = some value)
    | none => assets

end Running

/-! ### Queries that run -/

theorem conditions_eq {q : SearchAssetsQuery} {name : List SimpleExpr} (hvalid : validate q = .ok ())
    (hname : nameExprs q = .ok name) :
    conditions q = .ok (⟨q.conditionType.getD .all, q.negate.getD false,
      assetExprs q ++ [supplyExpr q] ++ [ownerTypeExpr q] ++ relatedExprs q ++ name⟩, joins q) := by
  rw [conditions, hvalid, hname]
  rfl

theorem selectAssets_eq {jsonText : Json → String} {db : Database} {q : SearchAssetsQuery} {condition : Condition}
    {joins : List Join} {tests : List (Joined → Truth)} (hconditions : conditions q = .ok (condition, joins))
    (hnodup : joins.Nodup) (htests : condition.exprs.mapM (evalExpr jsonText) = some tests) :
    selectAssets jsonText db q = .ok (((joinedRows db joins).filter fun r =>
      holds (evalCondition condition tests r)).map Joined.asset) := by
  rw [selectAssets, hconditions]
  simp only [if_pos hnodup, htests]

end DasIndexer.Dao
