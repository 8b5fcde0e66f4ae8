import DasIndexer.Accounts.TokenMetadata
import DasIndexer.Dao.CreatorLists
import DasIndexer.Dao.JoinedRows

/-!
# What a search finds is current

Rows that a newer list has outgrown stay in the tables, and a search joins them like the others.  A search by
grouping looks at the groups of each asset again before it returns it; a search by creator does not, as
`getByCreator` does.  An asset that has lost a creator is returned for it still
(`former_creator_is_found`).

**`search_is_current_iff`**: what is found by grouping has the grouping; and what is found by a creator has the creator
exactly when every asset that a stored row of the creator points to still has it.
-/

namespace DasIndexer.Dao

open Sql

/-- A search whose only criterion is a grouping. -/
def byGrouping (key value : String) : SearchAssetsQuery :=
  { conditionType := some .all, grouping := some (key, value) }

/-- A search whose only criterion is a creator. -/
def byCreator (creator : Bytes) : SearchAssetsQuery :=
  { conditionType := some .all, creatorAddress := some creator }

variable (jsonText : Json → String) (db : Database)

/-- A search answers, and each asset of each answer has the grouping. -/
def GroupingsAreCurrent (key value : String) : Prop :=
  ∀ sortBy sortDirection pagination limit (options : Options), options.showUnverifiedCollections = true →
    ∃ assets, searchAssets jsonText db (byGrouping key value) sortBy sortDirection pagination limit options
        = .ok assets
      ∧ ∀ asset ∈ assets, ∃ g ∈ asset.groups, groupKey g.1.1 = key ∧ g.1.2.groupValue = some value

/-- A search answers, and each asset of each answer has the creator. -/
def CreatorsAreCurrent (creator : Bytes) : Prop :=
  ∀ sortBy sortDirection pagination limit options,
    ∃ assets, searchAssets jsonText db (byCreator creator) sortBy sortDirection pagination limit options = .ok assets
      ∧ ∀ asset ∈ assets, ∃ c ∈ asset.creators, c.2.creator = creator

/-- An asset that passes the default filters and has a stored row of the creator, current or not. -/
def PointedTo (creator : Bytes) (id : Bytes) (asset : AssetRow) : Prop :=
  db.asset.lookup id = some asset ∧ (asset.supply ≠ 0 ∨ asset.burnt = true) ∧ asset.ownerType = .single
    ∧ asset.supply ≤ 1 ∧ ∃ position row, db.assetCreators.lookup (id, position) = some row ∧ row.creator = creator

/-- Each asset that a row of the creator points to, and whose metadata is among that of such assets, has a row
of the creator that is not left over. -/
def NoneLeftOver (creator : Bytes) : Prop :=
  ∀ id asset, PointedTo db creator id asset →
    (∃ dataId data, asset.assetData = some dataId ∧ (db.assetData.lookup dataId).isSome = true
      ∧ PointedTo db creator dataId data) →
    ∃ c ∈ creatorsOf db id, NewestCreator (creatorsOf db id) c ∧ c.2.creator = creator

/-! ### The two statements -/

/-- The rows that a search by grouping selects. -/
theorem exists_selectAssets_byGrouping (key value : String) :
    ∃ rows, selectAssets jsonText db (byGrouping key value) = .ok rows := by
  have hasset : assetExprs (byGrouping key value) = [] := by
    simp only [assetExprs, given, byGrouping, Option.toList, List.map_nil, List.append_nil]
  have htests : (assetExprs (byGrouping key value) ++ [supplyExpr (byGrouping key value)]
      ++ [ownerTypeExpr (byGrouping key value)] ++ relatedExprs (byGrouping key value) ++ []).mapM (evalExpr jsonText)
      = some [fun r => defaultSupply r.asset.2, fun r => defaultOwnerType none r.asset.2,
        fun r => and (eq (r.grouping.map fun g => groupKey g.1) (some key))
          (eq (r.grouping.bind fun g => g.2.groupValue) (some value))] := by
    rw [hasset]
    rfl
  have hnodup : (joins (byGrouping key value)).Nodup := (by decide : [Join.assetGrouping].Nodup)
  exact ⟨_, selectAssets_eq (conditions_eq rfl rfl) hnodup htests⟩

variable {jsonText db}

/-- The search looks at the groups again. -/
theorem groupings_current (key value : String) : GroupingsAreCurrent jsonText db key value := by
  intro sortBy sortDirection pagination limit options _
  obtain ⟨rows, hrows⟩ := exists_selectAssets_byGrouping jsonText db key value
  refine ⟨_, by rw [searchAssets, hrows]; rfl, fun asset hasset => ?_⟩
  have hany := (List.mem_filter.mp hasset).2
  simpa only [List.any_eq_true, Bool.and_eq_true, decide_eq_true_eq] using hany

variable (jsonText db)

/-- The statement of a search by creator. -/
theorem selectAssets_byCreator_eq (creator : Bytes) :
    selectAssets jsonText db (byCreator creator) = .ok (((joinedRows db [.assetCreators]).filter fun r =>
      holds (allOf [defaultSupply r.asset.2, defaultOwnerType none r.asset.2,
        eq (r.creator.map fun c => c.2.creator) (some creator)])).map Joined.asset) := by
  have hasset : assetExprs (byCreator creator) = [] := by
    simp only [assetExprs, given, byCreator, Option.toList, List.map_nil, List.append_nil]
  have htests : (assetExprs (byCreator creator) ++ [supplyExpr (byCreator creator)]
      ++ [ownerTypeExpr (byCreator creator)] ++ relatedExprs (byCreator creator) ++ []).mapM (evalExpr jsonText)
      = some [fun r => defaultSupply r.asset.2, fun r => defaultOwnerType none r.asset.2,
        fun r => eq (r.creator.map fun c => c.2.creator) (some creator)] := by
    rw [hasset]
    rfl
  have hnodup : (joins (byCreator creator)).Nodup := (by decide : [Join.assetCreators].Nodup)
  exact selectAssets_eq (conditions_eq rfl rfl) hnodup htests

/-- The rows that a search by creator selects. -/
theorem selectAssets_byCreator (creator : Bytes) : ∃ rows,
    selectAssets jsonText db (byCreator creator) = .ok rows
      ∧ ∀ a : AssetModel, a ∈ rows ↔ PointedTo db creator a.1 a.2 := by
  refine ⟨_, selectAssets_byCreator_eq jsonText db creator, fun a => ?_⟩
  have hholds : ∀ r : Joined, holds (allOf [defaultSupply r.asset.2, defaultOwnerType none r.asset.2,
      eq (r.creator.map fun c => c.2.creator) (some creator)]) = true ↔
        (r.asset.2.supply ≠ 0 ∨ r.asset.2.burnt = true) ∧ (r.asset.2.ownerType = .single ∧ r.asset.2.supply ≤ 1)
          ∧ ∃ c, r.creator = some c ∧ c.2.creator = creator := by
    intro r
    rw [holds_allOf]
    simp only [List.mem_cons, List.not_mem_nil, or_false, forall_eq_or_imp, forall_eq, defaultSupply,
      defaultOwnerType, holds_or, holds_and, holds_ne_some, holds_ge_some, Bool.or_eq_true, Bool.and_eq_true,
      holds_eq_some, decide_eq_true_eq, Option.some.injEq, Option.map_eq_some_iff]
  simp only [List.mem_map, List.mem_filter, mem_joinedRows, hholds]
  constructor
  · rintro ⟨r, ⟨⟨hstored, hcolumn⟩, hsupply, ⟨hsingle, hone⟩, c, hc, hcreator⟩, rfl⟩
    have hpartner : IsPartner (related db r.asset .assetCreators) r.creator := hcolumn .assetCreators
    rw [hc] at hpartner
    obtain ⟨hscan, hid⟩ := List.mem_filter.mp hpartner
    refine ⟨hstored, hsupply, hsingle, hone, c.1.2, c.2, ?_, hcreator⟩
    rw [← of_decide_eq_true hid]
    exact (mem_scan _ _ _).mp hscan
  · intro ⟨ha, hsupply, hsingle, hone, position, row, hrow, hcreator⟩
    refine ⟨{ asset := a, creator := some ((a.1, position), row) }, ⟨⟨ha, fun j => ?_⟩, hsupply, ⟨hsingle, hone⟩,
      _, rfl, hcreator⟩, rfl⟩
    cases j with
    | assetCreators => exact List.mem_filter.mpr ⟨(mem_scan _ _ _).mpr hrow, decide_eq_true rfl⟩
    | _ => rfl

variable {jsonText db}

/-- What is found by a creator has it exactly when no stored row of the creator is left over. -/
theorem creatorsAreCurrent_iff (creator : Bytes) :
    CreatorsAreCurrent jsonText db creator ↔ NoneLeftOver db creator := by
  obtain ⟨rows, hrows, hmem⟩ := selectAssets_byCreator jsonText db creator
  have hsearch : ∀ sortBy sortDirection pagination limit options,
      searchAssets jsonText db (byCreator creator) sortBy sortDirection pagination limit options
        = .ok (getRelatedForAssets db (paginate pagination limit sortDirection Prod.fst
          (orderBy sortBy sortDirection rows)) options none) := by
    intros
    rw [searchAssets, hrows]
    rfl
  constructor
  · intro hall id asset hfound ⟨dataId, data, hdata, hsome, hfound'⟩
    -- a page that holds all rows
    obtain ⟨assets, hassets, hcurrent⟩ := hall none .asc (.page 0) rows.length {}
    rw [hsearch] at hassets
    obtain rfl := Except.ok.inj hassets
    have hpage : paginate (.page 0) rows.length .asc Prod.fst (orderBy none .asc rows) = rows := List.take_length
    rw [hpage] at hcurrent
    have hstored : ∀ a ∈ rows, db.asset.lookup a.1 = some a.2 := fun a ha => ((hmem a).mp ha).1
    have hin : (id, asset) ∈ rows := (hmem (id, asset)).mpr hfound
    have hids : dataId ∈ rows.map Prod.fst := List.mem_map.mpr ⟨(dataId, data), (hmem _).mpr hfound', rfl⟩
    obtain ⟨d, hd⟩ := (@exists_loadedData_iff db _ (id, asset)).mpr ⟨dataId, hids, hdata, hsome⟩
    obtain ⟨c, hc, hcreator⟩ :=
      hcurrent _ ((mem_getRelatedForAssets db {} hstored).mpr ⟨(id, asset), hin, d, hd, rfl, nofun⟩)
    obtain ⟨hc, hnewest⟩ := mem_filterOutStaleCreators.mp hc
    exact ⟨c, hc, hnewest, hcreator⟩
  · intro hcond sortBy sortDirection pagination limit options
    refine ⟨_, hsearch _ _ _ _ _, fun fa hfa => ?_⟩
    have hsub : ∀ a ∈ paginate pagination limit sortDirection Prod.fst (orderBy sortBy sortDirection rows),
        PointedTo db creator a.1 a.2 :=
      fun a ha => (hmem a).mp (mem_orderBy.mp (mem_of_mem_paginate ha))
    obtain ⟨asset, hasset, data, hdata, rfl, _⟩ :=
      (mem_getRelatedForAssets db options fun a ha => (hsub a ha).1).mp hfa
    obtain ⟨dataId, hids, hid, hsome⟩ := (exists_loadedData_iff db).mp ⟨data, hdata⟩
    obtain ⟨a, ha, rfl⟩ := List.mem_map.mp hids
    obtain ⟨c, hc, hnewest, hcreator⟩ := hcond asset.1 asset.2 (hsub asset hasset) ⟨a.1, a.2, hid, hsome, hsub a ha⟩
    exact ⟨c, mem_filterOutStaleCreators.mpr ⟨hc, hnewest⟩, hcreator⟩

/-- **When a search is current.**  What is found by a grouping has it, and what is found by a creator has it,
exactly when no stored row of a creator is left over. -/
theorem search_is_current_iff (jsonText : Json → String) (db : Database) :
    ((∀ key value, GroupingsAreCurrent jsonText db key value) ∧ ∀ creator, CreatorsAreCurrent jsonText db creator) ↔
      ∀ creator, NoneLeftOver db creator := by
  simp only [creatorsAreCurrent_iff, groupings_current, implies_true, true_and]

/-! ### A creator that is gone -/

open Accounts.TokenMetadata

/-- The metadata account of a mint, with some creators. -/
def metadataOf (creators : List Bubblegum.Creator) : Metadata where
  updateAuthority := .fill 1
  mint := .fill 7
  name := ""
  symbol := ""
  uri := Sql.Varchar.empty
  sellerFeeBasisPoints := 0
  creators := some creators
  primarySaleHappened := false
  isMutable := true
  editionNonce := none
  tokenStandard := some .nonFungible
  collection := none
  uses := none

/-- The account is seen with two creators, and later with the first of them only. -/
def creatorRemoved : Database :=
  Session.afterAll (fun u : Metadata × ℕ => handleMetadata (fun _ => .fill 8) u.1 u.2)
    [(metadataOf [⟨.fill 2, true, 50⟩, ⟨.fill 3, true, 50⟩], 1), (metadataOf [⟨.fill 2, true, 100⟩], 2)]
    Database.empty

theorem creatorRemoved_eq : creatorRemoved = metadataEffect (fun _ => .fill 8) (metadataOf [⟨.fill 2, true, 100⟩]) 2
    (metadataEffect (fun _ => .fill 8) (metadataOf [⟨.fill 2, true, 50⟩, ⟨.fill 3, true, 50⟩]) 1 Database.empty) := by
  have hruns : ∀ u : Metadata × ℕ, Session.Runs (handleMetadata (fun _ => .fill 8) u.1 u.2)
      fun db => ((), metadataEffect (fun _ => .fill 8) u.1 u.2 db) :=
    fun u => handleMetadata_runs (fun _ => .fill 8) u.1 u.2
  unfold creatorRemoved
  rw [Session.afterAll_eq hruns]
  rfl

/-- The second creator's row is stored still. -/
theorem pointedTo_creatorRemoved :
    ∃ asset, PointedTo creatorRemoved (Pubkey.fill 3).bytes (Pubkey.fill 7).bytes asset
      ∧ asset.assetData = some (Pubkey.fill 7).bytes
      ∧ (creatorRemoved.assetData.lookup (Pubkey.fill 7).bytes).isSome = true := by
  rw [creatorRemoved_eq]
  refine ⟨_, ⟨rfl, ?_, ?_, ?_, 1, _, rfl, ?_⟩, ?_, ?_⟩ <;> decide +kernel

/-- A search for the creator that was removed finds the asset, without the creator. -/
theorem former_creator_is_found :
    ¬ CreatorsAreCurrent (fun _ => "") creatorRemoved (Pubkey.fill 3).bytes := by
  rw [creatorsAreCurrent_iff]
  intro hnone
  obtain ⟨asset, hpointed, hdata, hstored⟩ := pointedTo_creatorRemoved
  obtain ⟨c, hc, hnewest, hcreator⟩ := hnone _ asset hpointed ⟨_, asset, hdata, hstored, hpointed⟩
  have hshown : ∀ c ∈ filterOutStaleCreators (creatorsOf creatorRemoved (Pubkey.fill 7).bytes),
      c.2.creator ≠ (Pubkey.fill 3).bytes := by
    rw [creatorRemoved_eq]
    decide +kernel
  exact hshown c (mem_filterOutStaleCreators.mpr ⟨hc, hnewest⟩) hcreator

end DasIndexer.Dao
