import DasIndexer.Dao.JoinedRows
import DasIndexer.Lib.Fallible

/-!
# What a search means

A search asks for the assets that pass the default filters and meet all, or some, of the criteria that are given;
a negated search for those that pass the filters and do not.  The statement is one condition on joined rows, into
which the filters go like the criteria: where one criterion is enough, a filter that holds is enough as well, and
a negated search negates the filters.  A comparison with a null column is unknown, and so is its negation.

`Faithful` is the condition under which that makes no difference.  The statement takes a row by the values of its
filters and criteria (`mem_selectAssets`), and since criteria on different tables are independent,
**`hasBooleanSemantics_of_faithful`**: what a faithful query selects is what it asks for.
-/

namespace DasIndexer.Dao

open Sql Fallible

/-! ### What is asked for -/

/-- The criterion for a field, where it is given. -/
def asked {α : Type} (value : Option α) (criterion : α → Criterion) : List Criterion := value.toList.map criterion

/-- The owner, of the asset or of a token account where these count. -/
def ownerCriterion (tokenType : Option TokenTypeClass) (o : Bytes) : Criterion :=
  if countsTokenAccounts tokenType then
    .onEither (fun a => eq a.owner (some o)) .tokenAccounts fun t => eq (some t.2.owner) (some o)
  else .onAsset fun a => eq a.owner (some o)

/-- The pattern that a name is compared with. -/
def namePattern (n : Bytes) : Option (List Char) :=
  match nameExpr n with
  | .ok sql => likePattern sql
  | .error _ => none

/-- The criteria on columns of the asset, the supply and the owner type apart. -/
def assetCriteria (q : SearchAssetsQuery) : List Criterion :=
  asked q.specificationVersion (fun x => .onAsset fun a => eq a.specificationVersion (some x))
    ++ asked q.tokenType (fun x => .onAsset (tokenTypeExpr x))
    ++ asked q.specificationAssetClass (fun x => .onAsset fun a => eq a.specificationAssetClass (some x))
    ++ asked q.ownerAddress (ownerCriterion q.tokenType)
    ++ asked q.delegate (fun x => .onAsset fun a => eq a.delegate (some x))
    ++ asked q.frozen (fun x => .onColumn fun a => decide (a.frozen = x))
    ++ asked q.supplyMint (fun x => .onAsset fun a => eq a.supplyMint (some x))
    ++ asked q.compressed (fun x => .onColumn fun a => decide (a.compressed = x))
    ++ asked q.compressible (fun x => .onColumn fun a => decide (a.compressible = x))
    ++ asked q.royaltyTargetType (fun x => .onColumn fun a => decide (a.royaltyTargetType = x))
    ++ asked q.royaltyTarget (fun x => .onAsset fun a => eq a.royaltyTarget (some x))
    ++ asked q.royaltyAmount (fun x => .onColumn fun a => decide (a.royaltyAmount = (x : ℤ)))
    ++ asked q.burnt (fun x => .onColumn fun a => decide (a.burnt = x))
    ++ asked q.isAgent (fun x => .onColumn fun a => decide (a.isAgent = x))
    ++ asked q.agentToken (fun x => .onAsset fun a => eq a.agentToken (some x))
    ++ asked q.assetSigner (fun x => .onAsset fun a => eq a.assetSigner (some x))

def supplyCriteria (q : SearchAssetsQuery) : List Criterion :=
  asked q.supply fun x => .onColumn fun a => decide (a.supply = (x : ℤ))

def ownerTypeCriteria (q : SearchAssetsQuery) : List Criterion :=
  asked q.ownerType fun x => .onColumn fun a => decide (a.ownerType = x)

/-- The filter that stands in for a supply. -/
def supplyDefault (q : SearchAssetsQuery) : List Criterion :=
  if q.supply.isNone then [.onAsset defaultSupply] else []

/-- The filter that stands in for an owner type. -/
def ownerTypeDefault (q : SearchAssetsQuery) : List Criterion :=
  if q.ownerType.isNone then [.onAsset (defaultOwnerType q.tokenType)] else []

def isCreator (x : Bytes) (c : CreatorModel) : Truth := eq (some c.2.creator) (some x)

def isVerified (v : Bool) (c : CreatorModel) : Truth := eq (some c.2.verified) (some v)

/-- A creator with an address, or one that is verified or not: two criteria, or one on one row. -/
def creatorCriteria (conditionType : ConditionType) (q : SearchAssetsQuery) : List Criterion :=
  match conditionType, q.creatorAddress, q.creatorVerified with
  | .all, some x, some v => [.onRow .assetCreators fun c => and (isCreator x c) (isVerified v c)]
  | _, address, verified =>
    asked address (fun x => .onRow .assetCreators (isCreator x))
      ++ asked verified (fun v => .onRow .assetCreators (isVerified v))

def authorityCriterion (x : Bytes) : Criterion := .onRow .assetAuthority fun r => eq (some r.2.authority) (some x)

def groupingCriterion (x : String × String) : Criterion :=
  .onRow .assetGrouping fun g => and (eq (some (groupKey g.1)) (some x.1)) (eq g.2.groupValue (some x.2))

def uriCriterion (x : String) : Criterion := .onRow .assetData fun d => eq (some d.2.metadataUrl.1) (some x)

section Criteria

variable (jsonText : Json → String)

def nameCriterion (n : Bytes) : Criterion :=
  .onRow .assetData fun d => (namePattern n).bind fun pattern => nameLike pattern (chainName jsonText d.2.chainData)

/-- The criteria on related rows, the creators apart. -/
def relatedCriteria (q : SearchAssetsQuery) : List Criterion :=
  asked q.authorityAddress authorityCriterion ++ asked q.grouping groupingCriterion
    ++ asked q.jsonUri uriCriterion ++ asked q.name (nameCriterion jsonText)

/-- All criteria that are given. -/
def criteria (conditionType : ConditionType) (q : SearchAssetsQuery) : List Criterion :=
  assetCriteria q ++ supplyCriteria q ++ ownerTypeCriteria q ++ creatorCriteria conditionType q
    ++ relatedCriteria jsonText q

/-- The default filters. -/
def defaults (q : SearchAssetsQuery) : List Criterion := supplyDefault q ++ ownerTypeDefault q

/-- The combination of the criteria holds of an asset. -/
def Combined (db : Database) (q : SearchAssetsQuery) (a : AssetModel) : Prop :=
  match q.conditionType.getD .all with
  | .all => ∀ c ∈ criteria jsonText .all q, c.Meets db a
  | .any => ∃ c ∈ criteria jsonText .any q, c.Meets db a

/-- The asset is asked for. -/
def AskedFor (db : Database) (q : SearchAssetsQuery) (a : AssetModel) : Prop :=
  db.asset.lookup a.1 = some a.2 ∧ (∀ c ∈ defaults q, c.Meets db a)
    ∧ if q.negate.getD false then ¬ Combined jsonText db q a else Combined jsonText db q a

/-- In every state the statement runs, and selects the assets that are asked for. -/
def HasBooleanSemantics (q : SearchAssetsQuery) : Prop :=
  ∀ db, ∃ rows, selectAssets jsonText db q = .ok rows ∧ ∀ a, a ∈ rows ↔ AskedFor jsonText db q a

end Criteria

/-! ### The condition -/

/-- The statement runs: `asset_data` is joined at most once, and the name makes one comparison. -/
structure StatementRuns (q : SearchAssetsQuery) : Prop where
  joinedOnce : q.jsonUri = none ∨ q.name = none
  oneComparison : ∀ n, q.name = some n → (namePattern n).isSome = true

/-- A supply and an owner type are given, so that no filter stands in for them. -/
def WithoutDefaults (q : SearchAssetsQuery) : Prop := q.supply.isSome = true ∧ q.ownerType.isSome = true

/-- No criterion is on a related row, or on a column that may be null. -/
def OnlyNonNull (q : SearchAssetsQuery) : Prop :=
  q.specificationVersion = none ∧ q.tokenType = none ∧ q.specificationAssetClass = none ∧ q.ownerAddress = none
    ∧ q.delegate = none ∧ q.supplyMint = none ∧ q.royaltyTarget = none ∧ q.agentToken = none
    ∧ q.assetSigner = none ∧ q.creatorAddress = none ∧ q.creatorVerified = none ∧ q.authorityAddress = none
    ∧ q.grouping = none ∧ q.jsonUri = none ∧ q.name = none

/-- A query that can be false of nothing.  With these token types the filter for the owner type implies the
criterion for the token type, so that a negated disjunction is asked for nothing either. -/
def NeverFalse (q : SearchAssetsQuery) : Prop :=
  countsTokenAccounts q.tokenType = true ∧
    ((q.supply = none ∧ q.burnt = some false)
      ∨ (q.tokenType = some .all ∧ q.specificationAssetClass.isSome = true)
      ∨ ∃ n pattern, q.name = some n ∧ namePattern n = some pattern ∧ ∀ x, Like.like pattern x = true)

/-- The statement selects what is asked for. -/
def Faithful (q : SearchAssetsQuery) : Prop :=
  StatementRuns q ∧ match q.negate.getD false, q.conditionType.getD .all with
    | false, .all => True
    | false, .any => WithoutDefaults q
    | true, .all => WithoutDefaults q ∧ OnlyNonNull q
    | true, .any => (WithoutDefaults q ∧ OnlyNonNull q) ∨ NeverFalse q

/-! ### The tests of the statement -/

section Tests

variable (jsonText : Json → String) (q : SearchAssetsQuery)

theorem forall_mem_asked {α : Type} {value : Option α} {criterion : α → Criterion} {P : Criterion → Prop} :
    (∀ c ∈ asked value criterion, P c) ↔ ∀ x, value = some x → P (criterion x) := by
  cases value <;> simp [asked]

theorem mapM_given {α : Type} {value : Option α} {expr : α → Joined → Truth} {criterion : α → Criterion}
    (h : ∀ x, expr x = (criterion x).value) :
    (given value expr).mapM (evalExpr jsonText) = some ((asked value criterion).map Criterion.value) := by
  cases value with
  | none => rfl
  | some x =>
    show some [expr x] = _
    rw [h]
    rfl

theorem mapM_assetExprs :
    (assetExprs q).mapM (evalExpr jsonText) = some ((assetCriteria q).map Criterion.value) := by
  have howner : ∀ o, ownerExpr q.tokenType o = (ownerCriterion q.tokenType o).value := by
    intro o
    funext r
    unfold ownerExpr ownerCriterion
    split
    · show or _ (eq (r.tokenAccount.map _) _) = or _ (r.tokenAccount.bind _)
      cases r.tokenAccount <;> rfl
    · rfl
  unfold assetExprs assetCriteria
  simp only [List.map_append]
  repeat' apply mapM_append_some
  all_goals first | exact mapM_given jsonText howner | exact mapM_given jsonText fun _ => rfl

theorem mapM_relatedExprs : (relatedExprs q).mapM (evalExpr jsonText)
    = some ((creatorCriteria .any q ++ asked q.authorityAddress authorityCriterion
      ++ asked q.grouping groupingCriterion ++ asked q.jsonUri uriCriterion).map Criterion.value) := by
  have hcreators : creatorCriteria .any q = asked q.creatorAddress (fun x => .onRow .assetCreators (isCreator x))
      ++ asked q.creatorVerified (fun v => .onRow .assetCreators (isVerified v)) := rfl
  rw [hcreators]
  unfold relatedExprs
  simp only [List.map_append]
  repeat' apply mapM_append_some
  · refine mapM_given jsonText fun x => funext fun r => ?_
    show eq (r.creator.map _) _ = r.creator.bind _
    cases r.creator <;> rfl
  · refine mapM_given jsonText fun x => funext fun r => ?_
    show eq (r.creator.map _) _ = r.creator.bind _
    cases r.creator <;> rfl
  · refine mapM_given jsonText fun x => funext fun r => ?_
    show eq (r.authority.map _) _ = r.authority.bind _
    cases r.authority <;> rfl
  · refine mapM_given jsonText fun x => funext fun r => ?_
    show and (eq (r.grouping.map _) _) (eq (r.grouping.bind _) _) = r.grouping.bind _
    cases r.grouping <;> rfl
  · refine mapM_given jsonText fun x => funext fun r => ?_
    show eq (r.data.map _) _ = r.data.bind _
    cases r.data <;> rfl

theorem mapM_nameExprs {q : SearchAssetsQuery} (hruns : StatementRuns q) : ∃ name, nameExprs q = .ok name
    ∧ name.mapM (evalExpr jsonText) = some ((asked q.name (nameCriterion jsonText)).map Criterion.value) := by
  unfold nameExprs
  cases hname : q.name with
  | none => exact ⟨[], rfl, rfl⟩
  | some n =>
    obtain ⟨pattern, hpattern⟩ := Option.isSome_iff_exists.mp (hruns.oneComparison n hname)
    have hpattern' := hpattern
    unfold namePattern at hpattern'
    split at hpattern'
    · rename_i sql hsql
      refine ⟨[.custom sql], by simp only [hsql]; rfl, ?_⟩
      have hvalue : evalExpr jsonText (.custom sql) = some fun r =>
          nameLike pattern (r.data.bind fun d => chainName jsonText d.2.chainData) := by
        rw [evalExpr, hpattern']
        rfl
      rw [List.mapM_cons, hvalue]
      show some [_] = some [_]
      congr 2
      funext r
      show _ = r.data.bind _
      cases r.data with
      | none => rfl
      | some d =>
        rw [Option.bind_some, Option.bind_some, hpattern]
        rfl
    · cases hpattern'

/-- The joined tables are distinct when `asset_data` is joined once. -/
theorem nodup_joins {q : SearchAssetsQuery} : (joins q).Nodup ↔ q.jsonUri = none ∨ q.name = none := by
  rw [← Option.isSome_eq_false_iff.trans Option.isNone_iff_eq_none,
    ← Option.isSome_eq_false_iff.trans Option.isNone_iff_eq_none]
  unfold joins
  generalize (q.ownerAddress.isSome && countsTokenAccounts q.tokenType) = b₁
  generalize (q.creatorAddress.isSome || q.creatorVerified.isSome) = b₂
  generalize q.authorityAddress.isSome = b₃
  generalize q.grouping.isSome = b₄
  generalize q.jsonUri.isSome = b₅
  generalize q.name.isSome = b₆
  revert b₁ b₂ b₃ b₄ b₅ b₆
  decide

/-- A filter stands where no criterion does. -/
theorem mapM_supplyExpr : [supplyExpr q].mapM (evalExpr jsonText)
    = some ((supplyDefault q ++ supplyCriteria q).map Criterion.value) := by
  unfold supplyExpr supplyDefault supplyCriteria
  cases q.supply <;> rfl

theorem mapM_ownerTypeExpr : [ownerTypeExpr q].mapM (evalExpr jsonText)
    = some ((ownerTypeDefault q ++ ownerTypeCriteria q).map Criterion.value) := by
  unfold ownerTypeExpr ownerTypeDefault ownerTypeCriteria
  cases q.ownerType <;> rfl

/-- The filters and the criteria, which the statement treats alike; the two on creators apart. -/
def tested : List Criterion := defaults q ++ criteria jsonText .any q

variable {q}

/-- The tests of the statement are the filters and the criteria. -/
theorem exists_tests (hruns : StatementRuns q) : ∃ name tests, nameExprs q = .ok name
    ∧ (assetExprs q ++ [supplyExpr q] ++ [ownerTypeExpr q] ++ relatedExprs q ++ name).mapM (evalExpr jsonText)
      = some tests ∧ ∀ t, t ∈ tests ↔ ∃ c ∈ tested jsonText q, c.value = t := by
  obtain ⟨name, hname, hnameTests⟩ := mapM_nameExprs jsonText hruns
  refine ⟨name, _, hname, mapM_append_some (mapM_append_some (mapM_append_some (mapM_append_some
    (mapM_assetExprs jsonText q) (mapM_supplyExpr jsonText q)) (mapM_ownerTypeExpr jsonText q))
    (mapM_relatedExprs jsonText q)) hnameTests, fun t => ?_⟩
  simp only [← List.map_append, List.mem_map]
  refine exists_congr fun c => and_congr_left fun _ => ?_
  simp only [tested, defaults, criteria, relatedCriteria, List.mem_append, or_assoc]
  rw [or_left_comm, or_left_comm (a := c ∈ supplyCriteria q), or_left_comm (a := c ∈ assetCriteria q)]

variable (q)

/-- A joined row is taken. -/
def Taken (r : Joined) : Prop :=
  match q.negate.getD false, q.conditionType.getD .all with
  | false, .all => ∀ c ∈ tested jsonText q, holds (c.value r) = true
  | false, .any => ∃ c ∈ tested jsonText q, holds (c.value r) = true
  | true, .all => ∃ c ∈ tested jsonText q, c.value r = some false
  | true, .any => ∀ c ∈ tested jsonText q, c.value r = some false

variable {jsonText q}

/-- The statement selects the assets of the rows that are taken. -/
theorem mem_selectAssets (hvalid : validate q = .ok ()) (hruns : StatementRuns q) (db : Database) :
    ∃ rows, selectAssets jsonText db q = .ok rows
      ∧ ∀ a, a ∈ rows ↔ ∃ r ∈ joinedRows db (joins q), r.asset = a ∧ Taken jsonText q r := by
  obtain ⟨name, tests, hname, htests, hmem⟩ := exists_tests jsonText hruns
  refine ⟨_, selectAssets_eq (conditions_eq hvalid hname) (nodup_joins.mpr hruns.joinedOnce) htests, fun a => ?_⟩
  simp only [List.mem_map, List.mem_filter]
  refine exists_congr fun r => ?_
  rw [and_assoc, and_comm (a := r.asset = a)]
  refine and_congr_right fun _ => and_congr_left fun _ => ?_
  unfold evalCondition Taken
  cases q.negate.getD false <;> cases q.conditionType.getD .all <;>
    simp only [Bool.false_eq_true, if_true, if_false, holds_allOf, holds_anyOf, holds_neg, allOf_eq_false,
      anyOf_eq_false, List.mem_map, hmem, exists_exists_and_eq_and, forall_exists_index, and_imp,
      forall_apply_eq_imp_iff₂]

end Tests

/-! ### The tables that are read -/

section Tables

variable {jsonText : Json → String} {q : SearchAssetsQuery}

theorem filterMap_join_onAsset {α : Type} (value : Option α) (test : α → AssetRow → Truth) :
    (asked value fun x => .onAsset (test x)).filterMap Criterion.join = [] := by
  cases value <;> rfl

theorem filterMap_join_onColumn {α : Type} (value : Option α) (test : α → AssetRow → Bool) :
    (asked value fun x => .onColumn (test x)).filterMap Criterion.join = [] := by
  cases value <;> rfl

theorem filterMap_join_asked {α : Type} {value : Option α} {criterion : α → Criterion} {j : Join}
    (h : ∀ x, (criterion x).join = some j) :
    (asked value criterion).filterMap Criterion.join = if value.isSome then [j] else [] := by
  cases value with
  | none => rfl
  | some x =>
    show [criterion x].filterMap Criterion.join = [j]
    rw [List.filterMap_cons, h]
    rfl

/-- Under `All`, each table that is joined is read by one criterion. -/
theorem filterMap_join_criteria : (criteria jsonText .all q).filterMap Criterion.join = joins q := by
  have howner : (asked q.ownerAddress (ownerCriterion q.tokenType)).filterMap Criterion.join
      = if q.ownerAddress.isSome && countsTokenAccounts q.tokenType then [.tokenAccounts] else [] := by
    unfold ownerCriterion
    cases q.ownerAddress <;> cases countsTokenAccounts q.tokenType <;> rfl
  have hcreator : (creatorCriteria .all q).filterMap Criterion.join
      = if q.creatorAddress.isSome || q.creatorVerified.isSome then [.assetCreators] else [] := by
    unfold creatorCriteria
    cases q.creatorAddress <;> cases q.creatorVerified <;> rfl
  simp only [criteria, assetCriteria, supplyCriteria, ownerTypeCriteria, relatedCriteria, List.filterMap_append,
    filterMap_join_onAsset, filterMap_join_onColumn, howner, hcreator, List.nil_append, List.append_nil]
  rw [filterMap_join_asked fun x => show (authorityCriterion x).join = _ from rfl,
    filterMap_join_asked fun x => show (groupingCriterion x).join = _ from rfl,
    filterMap_join_asked fun x => show (uriCriterion x).join = _ from rfl,
    filterMap_join_asked fun x => show (nameCriterion jsonText x).join = _ from rfl, joins]
  simp only [List.append_assoc]

/-- The filters read the asset only. -/
theorem filterMap_join_defaults : (defaults q).filterMap Criterion.join = [] := by
  unfold defaults supplyDefault ownerTypeDefault
  cases q.supply <;> cases q.ownerType <;> rfl

theorem join_creatorCriteria {conditionType : ConditionType} :
    ∀ c ∈ creatorCriteria conditionType q, c.join = some .assetCreators := by
  unfold creatorCriteria
  split
  · intro c hc
    rw [List.mem_singleton.mp hc]
    rfl
  · rw [List.forall_mem_append, forall_mem_asked, forall_mem_asked]
    exact ⟨fun _ _ => rfl, fun _ _ => rfl⟩

/-- Where there is a criterion on creators apart, there is one together. -/
theorem exists_creatorCriteria_all {c : Criterion} (hc : c ∈ creatorCriteria .any q) :
    ∃ c', c' ∈ creatorCriteria .all q := by
  unfold creatorCriteria at hc ⊢
  cases haddress : q.creatorAddress with
  | some x => cases q.creatorVerified <;> exact ⟨_, List.mem_cons_self⟩
  | none =>
    cases hverified : q.creatorVerified with
    | some v => exact ⟨_, List.mem_cons_self⟩
    | none =>
      rw [haddress, hverified] at hc
      exact absurd hc List.not_mem_nil

/-- A criterion reads a table that is joined. -/
theorem mem_joins_of_criteria {c : Criterion} {j : Join} (hc : c ∈ criteria jsonText .any q)
    (hj : c.join = some j) : j ∈ joins q := by
  have hall : ∃ c' ∈ criteria jsonText .all q, c'.join = some j := by
    simp only [criteria, List.mem_append] at hc ⊢
    by_cases hcreator : c ∈ creatorCriteria .any q
    · obtain ⟨c', hc'⟩ := exists_creatorCriteria_all hcreator
      refine ⟨c', Or.inl (Or.inr hc'), ?_⟩
      rw [join_creatorCriteria c' hc', ← join_creatorCriteria c hcreator, hj]
    · simp only [hcreator, or_false] at hc
      exact ⟨c, hc.imp_left Or.inl, hj⟩
  obtain ⟨c', hc', hj'⟩ := hall
  have hmem : j ∈ (criteria jsonText .all q).filterMap Criterion.join := List.mem_filterMap.mpr ⟨c', hc', hj'⟩
  rwa [filterMap_join_criteria] at hmem

theorem mem_joins_of_tested {c : Criterion} {j : Join} (hc : c ∈ tested jsonText q) (hj : c.join = some j) :
    j ∈ joins q := by
  rcases List.mem_append.mp hc with hdefault | hcriterion
  · have hnone : j ∈ (defaults q).filterMap Criterion.join := List.mem_filterMap.mpr ⟨c, hdefault, hj⟩
    rw [filterMap_join_defaults] at hnone
    exact absurd hnone List.not_mem_nil
  · exact mem_joins_of_criteria hcriterion hj

end Tables

/-! ### Queries that are faithful -/

section Sufficiency

variable {jsonText : Json → String} {q : SearchAssetsQuery} {db : Database} {a : AssetModel}

/-- Under `All`, the criteria on creators are satisfied by one row, apart or together. -/
theorem forall_holds_criteria (r : Joined) : (∀ c ∈ criteria jsonText .any q, holds (c.value r) = true) ↔
    ∀ c ∈ criteria jsonText .all q, holds (c.value r) = true := by
  have hcreators : (∀ c ∈ creatorCriteria .any q, holds (c.value r) = true) ↔
      ∀ c ∈ creatorCriteria .all q, holds (c.value r) = true := by
    unfold creatorCriteria
    cases q.creatorAddress with
    | none => exact Iff.rfl
    | some x =>
      cases q.creatorVerified with
      | none => exact Iff.rfl
      | some v =>
        simp only [asked, Option.toList_some, List.map_cons, List.map_nil, List.cons_append, List.nil_append,
          List.forall_mem_cons, List.not_mem_nil, false_imp_iff, implies_true, and_true, Criterion.value]
        cases r.column .assetCreators with
        | none => simp
        | some c => simp only [Option.bind_some, holds_and, Bool.and_eq_true]
  simp only [criteria, List.forall_mem_append, hcreators]

/-- All filters and criteria are satisfied by one row when each is met. -/
theorem exists_all_iff (hruns : StatementRuns q) :
    (∃ r ∈ joinedRows db (joins q), r.asset = a ∧ ∀ c ∈ tested jsonText q, holds (c.value r) = true) ↔
      db.asset.lookup a.1 = some a.2 ∧ (∀ c ∈ defaults q, c.Meets db a)
        ∧ ∀ c ∈ criteria jsonText .all q, c.Meets db a := by
  have hjoins : (defaults q ++ criteria jsonText .all q).filterMap Criterion.join = joins q := by
    rw [List.filterMap_append, filterMap_join_defaults, filterMap_join_criteria, List.nil_append]
  have hjoin : ∀ c ∈ defaults q ++ criteria jsonText .all q, ∀ j, c.join = some j → j ∈ joins q := by
    intro c hc j hj
    rw [← hjoins]
    exact List.mem_filterMap.mpr ⟨c, hc, hj⟩
  have hnodup : ((defaults q ++ criteria jsonText .all q).filterMap Criterion.join).Nodup := by
    rw [hjoins]
    exact nodup_joins.mpr hruns.joinedOnce
  rw [← List.forall_mem_append, ← Criterion.exists_joined_iff hjoin hnodup a]
  simp only [tested, List.forall_mem_append, forall_holds_criteria]

/-- One criterion is satisfied by a row when it is met. -/
theorem exists_any_iff :
    (∃ r ∈ joinedRows db (joins q), r.asset = a ∧ ∃ c ∈ criteria jsonText .any q, holds (c.value r) = true) ↔
      db.asset.lookup a.1 = some a.2 ∧ ∃ c ∈ criteria jsonText .any q, c.Meets db a := by
  have hone : ∀ c ∈ criteria jsonText .any q,
      ((∃ r ∈ joinedRows db (joins q), r.asset = a ∧ holds (c.value r) = true) ↔
        db.asset.lookup a.1 = some a.2 ∧ c.Meets db a) := by
    intro c hc
    have hjoin : ∀ c' ∈ [c], ∀ j, c'.join = some j → j ∈ joins q := by
      intro c' hc' j hj
      rw [List.mem_singleton.mp hc'] at hj
      exact mem_joins_of_criteria hc hj
    have hnodup : ([c].filterMap Criterion.join).Nodup := by
      rw [List.filterMap_cons]
      cases c.join <;> simp
    have hexists := @Criterion.exists_joined_iff db _ _ hjoin hnodup a
    simpa only [List.mem_singleton, forall_eq] using hexists
  constructor
  · rintro ⟨r, hr, ha, c, hc, hholds⟩
    obtain ⟨hstored, hmeets⟩ := (hone c hc).mp ⟨r, hr, ha, hholds⟩
    exact ⟨hstored, c, hc, hmeets⟩
  · intro ⟨hstored, c, hc, hmeets⟩
    obtain ⟨r, hr, ha, hholds⟩ := (hone c hc).mpr ⟨hstored, hmeets⟩
    exact ⟨r, hr, ha, c, hc, hholds⟩

/-- Every stored asset is in some joined row. -/
theorem exists_joined_asset (js : List Join) :
    (∃ r ∈ joinedRows db js, r.asset = a) ↔ db.asset.lookup a.1 = some a.2 := by
  have hexists := @Criterion.exists_joined_iff db js [] (by simp) (by simp) a
  simpa using hexists

/-- Where a supply and an owner type are given, there are no filters. -/
theorem defaults_eq_nil (hwithout : WithoutDefaults q) : defaults q = [] := by
  obtain ⟨hsupply, howner⟩ := hwithout
  obtain ⟨s, hs⟩ := Option.isSome_iff_exists.mp hsupply
  obtain ⟨o, ho⟩ := Option.isSome_iff_exists.mp howner
  simp [defaults, supplyDefault, ownerTypeDefault, hs, ho]

variable (jsonText) in
/-- The criteria are on columns that are never null exactly when nothing else is given. -/
theorem onlyNonNull_iff (conditionType : ConditionType) :
    OnlyNonNull q ↔ ∀ c ∈ criteria jsonText conditionType q, c.isColumn = true := by
  have hnone : ∀ {α : Type} (value : Option α), (∀ x, value = some x → False) ↔ value = none := by
    intro α value
    cases value <;> simp
  have howner : ∀ o, (ownerCriterion q.tokenType o).isColumn = false := by
    intro o
    unfold ownerCriterion
    split <;> rfl
  have hcreators : (∀ c ∈ creatorCriteria conditionType q, c.isColumn = true) ↔
      q.creatorAddress = none ∧ q.creatorVerified = none := by
    unfold creatorCriteria
    split
    · rename_i haddress hverified
      simp [Criterion.isColumn, haddress]
    · simp only [List.forall_mem_append, forall_mem_asked, Criterion.isColumn, Bool.false_eq_true, hnone]
  simp only [criteria, assetCriteria, supplyCriteria, ownerTypeCriteria, relatedCriteria, List.forall_mem_append,
    hcreators]
  simp only [forall_mem_asked, howner, authorityCriterion, groupingCriterion, uriCriterion, nameCriterion]
  simp only [Criterion.isColumn, Bool.false_eq_true, hnone, implies_true, and_true, and_assoc, OnlyNonNull]

/-- A criterion on a column that is never null is false where it is not met. -/
theorem value_eq_false_of_isColumn {c : Criterion} (hc : c.isColumn = true) {r : Joined} :
    c.value r = some false ↔ ¬ c.Meets db r.asset := by
  cases c with
  | onColumn test => simp [Criterion.value, Criterion.Meets]
  | onAsset test => cases hc
  | onRow j test => cases hc
  | onEither test j rowTest => cases hc

theorem mem_defaults_supply (hsupply : q.supply = none) : .onAsset defaultSupply ∈ defaults q := by
  simp [defaults, supplyDefault, hsupply]

theorem mem_defaults_ownerType (howner : q.ownerType = none) :
    .onAsset (defaultOwnerType q.tokenType) ∈ defaults q := by
  simp [defaults, ownerTypeDefault, howner]

/-- A criterion that is given is asked for. -/
theorem mem_asked {α : Type} {value : Option α} {x : α} (h : value = some x) (criterion : α → Criterion) :
    criterion x ∈ asked value criterion := by
  rw [h]
  exact List.mem_singleton_self _

theorem mem_criteria_of_asset {conditionType : ConditionType} {c : Criterion} (hc : c ∈ assetCriteria q) :
    c ∈ criteria jsonText conditionType q := by
  simp only [criteria, List.mem_append]
  exact Or.inl (Or.inl (Or.inl (Or.inl hc)))

/-- A token type excludes an owner type. -/
theorem ownerType_eq_none (hvalid : validate q = .ok ()) (htoken : q.tokenType.isSome = true) :
    q.ownerType = none := by
  rw [validate, if_pos htoken] at hvalid
  split at hvalid
  · cases hvalid
  · rename_i howner
    exact Option.not_isSome_iff_eq_none.mp howner

/-- With a token type for which token accounts count, the filter for the owner type implies the criterion. -/
theorem tokenTypeExpr_of_default {tokenType : TokenTypeClass} (hcounts : countsTokenAccounts (some tokenType) = true)
    {row : AssetRow} (h : holds (defaultOwnerType (some tokenType) row) = true) :
    holds (tokenTypeExpr tokenType row) = true := by
  cases tokenType with
  | fungible =>
    rw [defaultOwnerType, holds_and, Bool.and_eq_true, classAmong, holds_anyOf] at h
    rw [tokenTypeExpr, classAmong, holds_anyOf]
    obtain ⟨_, t, ht, hholds⟩ := h
    refine ⟨t, ?_, hholds⟩
    simp only [List.map_cons, List.map_nil, List.mem_cons, List.not_mem_nil, or_false] at ht ⊢
    exact ht.symm
  | all => exact h
  | _ => cases hcounts

/-- Then a negated disjunction is asked for nothing. -/
theorem combined_of_defaults (hvalid : validate q = .ok ()) (hcounts : countsTokenAccounts q.tokenType = true)
    (hdefaults : ∀ c ∈ defaults q, c.Meets db a) : ∃ c ∈ criteria jsonText .any q, c.Meets db a := by
  cases htoken : q.tokenType with
  | none => rw [htoken] at hcounts; cases hcounts
  | some tokenType =>
    have howner := ownerType_eq_none hvalid (by rw [htoken]; rfl)
    have hdefault := hdefaults _ (mem_defaults_ownerType howner)
    rw [htoken] at hdefault hcounts
    refine ⟨.onAsset (tokenTypeExpr tokenType), mem_criteria_of_asset ?_, ?_⟩
    · simp [assetCriteria, asked, htoken]
    · exact tokenTypeExpr_of_default hcounts hdefault

/-- A query that can be false of nothing takes no row when it is negated. -/
theorem not_all_false (hnever : NeverFalse q) (r : Joined) :
    ¬ ∀ c ∈ tested jsonText q, c.value r = some false := by
  intro hall
  have hasset : ∀ c ∈ assetCriteria q, c.value r = some false :=
    fun c hc => hall c (List.mem_append_right _ (mem_criteria_of_asset hc))
  obtain ⟨_, ⟨hsupply, hburnt⟩ | ⟨htoken, hclass⟩ | ⟨n, pattern, hname, hpattern, hlike⟩⟩ := hnever
  · -- the filter is false of what is not burnt only
    have hdefault := hall _ (List.mem_append_left _ (mem_defaults_supply hsupply))
    have hcolumn := hasset (.onColumn fun a => decide (a.burnt = false)) (by simp [assetCriteria, asked, hburnt])
    obtain ⟨_, hnotBurnt⟩ := or_eq_false.mp hdefault
    have hburnt' : r.asset.2.burnt ≠ true := of_decide_eq_false (Option.some.inj hnotBurnt)
    have hburnt'' : r.asset.2.burnt ≠ false := of_decide_eq_false (Option.some.inj hcolumn)
    exact hburnt'' (Bool.eq_false_of_not_eq_true hburnt')
  · -- the class is null, and a comparison with it unknown
    obtain ⟨x, hx⟩ := Option.isSome_iff_exists.mp hclass
    have hnull := hasset (.onAsset (tokenTypeExpr .all)) (by simp [assetCriteria, asked, htoken])
    have heq := hasset (.onAsset fun a => eq a.specificationAssetClass (some x)) (by simp [assetCriteria, asked, hx])
    have hnone : r.asset.2.specificationAssetClass = none := Option.isSome_eq_false_iff.mp (Option.some.inj hnull)
      |> Option.isNone_iff_eq_none.mp
    rw [Criterion.value, hnone] at heq
    cases heq
  · -- there is no name that the pattern does not match
    have hmem : nameCriterion jsonText n ∈ tested jsonText q := by
      refine List.mem_append_right _ (List.mem_append_right _ (List.mem_append_right _ ?_))
      exact mem_asked hname _
    have hvalue := hall _ hmem
    rw [nameCriterion, Criterion.value, hpattern] at hvalue
    obtain ⟨d, _, hvalue⟩ := Option.bind_eq_some_iff.mp hvalue
    rw [Option.bind_some] at hvalue
    obtain ⟨s, _, hfalse⟩ := Option.map_eq_some_iff.mp hvalue
    rw [hlike] at hfalse
    cases hfalse

/-- Without criteria that may be unknown, a negated conjunction takes what does not meet them all. -/
theorem exists_not_all_iff (honly : OnlyNonNull q) :
    (∃ r ∈ joinedRows db (joins q), r.asset = a ∧ ∃ c ∈ criteria jsonText .any q, c.value r = some false) ↔
      db.asset.lookup a.1 = some a.2 ∧ ¬ ∀ c ∈ criteria jsonText .all q, c.Meets db a := by
  have hsame : criteria jsonText .any q = criteria jsonText .all q := by
    obtain ⟨_, _, _, _, _, _, _, _, _, haddress, _⟩ := honly
    simp only [criteria, creatorCriteria, haddress]
  rw [hsame, ← exists_joined_asset (joins q)]
  have hcolumn := (onlyNonNull_iff jsonText .all).mp honly
  constructor
  · rintro ⟨r, hr, rfl, c, hc, hfalse⟩
    exact ⟨⟨r, hr, rfl⟩, fun hall => (value_eq_false_of_isColumn (hcolumn c hc)).mp hfalse (hall c hc)⟩
  · rintro ⟨⟨r, hr, rfl⟩, hnot⟩
    obtain ⟨c, hc⟩ := not_forall.mp hnot
    obtain ⟨hc, hmeets⟩ := Classical.not_imp.mp hc
    exact ⟨r, hr, rfl, c, hc, (value_eq_false_of_isColumn (hcolumn c hc)).mpr hmeets⟩

/-- And a negated disjunction what meets none. -/
theorem exists_none_iff (honly : OnlyNonNull q) :
    (∃ r ∈ joinedRows db (joins q), r.asset = a ∧ ∀ c ∈ criteria jsonText .any q, c.value r = some false) ↔
      db.asset.lookup a.1 = some a.2 ∧ ¬ ∃ c ∈ criteria jsonText .any q, c.Meets db a := by
  rw [← exists_joined_asset (joins q)]
  have hcolumn := (onlyNonNull_iff jsonText .any).mp honly
  constructor
  · rintro ⟨r, hr, rfl, hall⟩
    refine ⟨⟨r, hr, rfl⟩, ?_⟩
    rintro ⟨c, hc, hmeets⟩
    exact (value_eq_false_of_isColumn (hcolumn c hc)).mp (hall c hc) hmeets
  · rintro ⟨⟨r, hr, rfl⟩, hnot⟩
    exact ⟨r, hr, rfl, fun c hc => (value_eq_false_of_isColumn (hcolumn c hc)).mpr fun hmeets => hnot ⟨c, hc, hmeets⟩⟩

/-- A faithful query has the meaning that it should have. -/
theorem hasBooleanSemantics_of_faithful (hvalid : validate q = .ok ()) (hfaithful : Faithful q) :
    HasBooleanSemantics jsonText q := by
  intro db
  obtain ⟨hruns, hcase⟩ := hfaithful
  obtain ⟨rows, hrows, hmem⟩ := @mem_selectAssets jsonText q hvalid hruns db
  refine ⟨rows, hrows, fun a => (hmem a).trans ?_⟩
  unfold Taken AskedFor Combined
  cases hnegate : q.negate.getD false <;> cases htype : q.conditionType.getD .all <;>
    simp only [hnegate, htype] at hcase ⊢
  · -- some criterion
    simp only [tested, defaults_eq_nil hcase, List.nil_append, exists_any_iff]
    simp
  · -- all criteria
    simpa using exists_all_iff hruns
  · -- no criterion
    rcases hcase with ⟨hwithout, honly⟩ | hnever
    · simp only [tested, defaults_eq_nil hwithout, List.nil_append, exists_none_iff honly]
      simp
    · constructor
      · rintro ⟨r, _, _, hall⟩
        exact absurd hall (not_all_false hnever r)
      · rintro ⟨_, hdefaults, hnot⟩
        exact absurd (combined_of_defaults hvalid hnever.1 hdefaults) (by simpa using hnot)
  · -- not all criteria
    simp only [tested, defaults_eq_nil hcase.1, List.nil_append, exists_not_all_iff hcase.2]
    simp

end Sufficiency

end DasIndexer.Dao
