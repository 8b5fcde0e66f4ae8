import DasIndexer.Dao.SearchSemantics

/-!
# Which searches mean what they say

A query that is not faithful goes wrong in some state of the tables, and one asset without any related rows is
mostly enough to show it: such an asset has one joined row, and a criterion is met where its value on that row is
true (`meets_alone`).  The asset is chosen so that a criterion holds and a filter does not, or so that all the
columns that may be null are and the others agree with the query or differ from it (`agreeing`, `differing`).
Where the token type makes a query ask for nothing, an asset with a row in each table is needed, of which
everything is false (`falseTables`).

**`boolean_semantics_iff`**: the statement runs and selects what is asked for, in every state, exactly when the
query is faithful.  A search for the assets of an owner, where one criterion is enough, is not: it finds the assets
of others, since they pass a filter (`filter_is_enough`).
-/

namespace DasIndexer.Dao

open Sql

variable {jsonText : Json → String} {q : SearchAssetsQuery}

/-! ### Statements that do not run -/

/-- A text that is not one comparison has no value. -/
theorem mapM_custom_eq_none {exprs : List SimpleExpr} {sql : String} (h : likePattern sql = none) :
    (exprs ++ [SimpleExpr.custom sql]).mapM (evalExpr jsonText) = none := by
  have hvalue : [SimpleExpr.custom sql].mapM (evalExpr jsonText) = none := by
    rw [List.mapM_cons, evalExpr, h]
    rfl
  rw [List.mapM_append, hvalue]
  cases exprs.mapM (evalExpr jsonText) <;> rfl

theorem namePattern_isSome {exprs name : List SimpleExpr} {tests : List (Joined → Truth)}
    (hname : nameExprs q = .ok name) (htests : (exprs ++ name).mapM (evalExpr jsonText) = some tests) {n : Bytes}
    (hn : q.name = some n) : (namePattern n).isSome = true := by
  unfold nameExprs at hname
  rw [hn] at hname
  dsimp only at hname
  unfold namePattern
  cases hexpr : nameExpr n with
  | error err =>
    rw [hexpr] at hname
    cases hname
  | ok sql =>
    rw [hexpr] at hname
    have hcustom : name = [.custom sql] := (Except.ok.inj hname).symm
    show (likePattern sql).isSome = true
    cases hpattern : likePattern sql with
    | some pattern => rfl
    | none =>
      rw [hcustom, mapM_custom_eq_none hpattern] at htests
      cases htests

theorem statementRuns_of_selectAssets (hvalid : validate q = .ok ()) {db : Database} {rows : List AssetModel}
    (hrows : selectAssets jsonText db q = .ok rows) : StatementRuns q := by
  unfold selectAssets at hrows
  cases hname : nameExprs q with
  | error err =>
    have herror : conditions q = .error err := by
      rw [conditions, hvalid, hname]
      rfl
    rw [herror] at hrows
    cases hrows
  | ok name =>
    rw [conditions_eq hvalid hname] at hrows
    dsimp only at hrows
    split at hrows
    · rename_i hnodup
      split at hrows
      · cases hrows
      · rename_i tests htests
        exact ⟨nodup_joins.mp hnodup, fun n hn => namePattern_isSome hname htests hn⟩
    · cases hrows

/-! ### An asset alone -/

/-- The tables with one asset, and nothing that belongs to it. -/
def alone (row : AssetRow) : Database := { asset := (∅ : Table Bytes AssetRow).insert [] row }

/-- Its only joined row. -/
def aloneJoined (row : AssetRow) : Joined := { asset := ([], row) }

theorem lookup_alone (row : AssetRow) : (alone row).asset.lookup [] = some row := AList.lookup_insert _

theorem related_alone (row : AssetRow) (a : AssetModel) (j : Join) : related (alone row) a j = [] := by
  cases j <;> rfl

/-- A criterion is met where its value on the only row is true. -/
theorem meets_alone (row : AssetRow) (c : Criterion) :
    c.Meets (alone row) ([], row) ↔ holds (c.value (aloneJoined row)) = true := by
  cases c with
  | onColumn test => simp [Criterion.Meets, Criterion.value, aloneJoined]
  | onAsset test => exact Iff.rfl
  | onRow j test =>
    simp only [Criterion.Meets, related_alone, List.not_mem_nil, false_and, exists_false, Criterion.value]
    cases j <;> simp [aloneJoined, Joined.column]
  | onEither test j rowTest =>
    simp only [Criterion.Meets, related_alone, List.not_mem_nil, false_and, exists_false, Criterion.value, or_false,
      holds_or, Bool.or_eq_true]
    cases j <;> simp [aloneJoined, Joined.column]

/-- What is joined to an asset alone is null. -/
theorem mem_joinedRows_alone {row : AssetRow} {js : List Join} {r : Joined} (hasset : r.asset = ([], row)) :
    r ∈ joinedRows (alone row) js ↔ r = aloneJoined row := by
  have hnull : ∀ j, (if j ∈ js then IsPartner (related (alone row) r.asset j) (r.column j) else r.column j = none) ↔
      r.column j = none := by
    intro j
    rw [related_alone]
    split
    · cases r.column j <;> simp [IsPartner]
    · exact Iff.rfl
  rw [mem_joinedRows, hasset]
  simp only [← hasset, hnull]
  constructor
  · intro ⟨_, hall⟩
    refine Joined.ext_column hasset fun j => ?_
    rw [hall j]
    cases j <;> rfl
  · rintro rfl
    refine ⟨lookup_alone row, fun j => ?_⟩
    cases j <;> rfl

/-- On an asset alone, the statement and the query come down to the values of the filters and criteria. -/
theorem taken_alone_iff (hvalid : validate q = .ok ()) (hsemantics : HasBooleanSemantics jsonText q)
    (row : AssetRow) : Taken jsonText q (aloneJoined row) ↔
      (∀ c ∈ defaults q, holds (c.value (aloneJoined row)) = true)
        ∧ if q.negate.getD false then ¬ Combined jsonText (alone row) q ([], row)
          else Combined jsonText (alone row) q ([], row) := by
  obtain ⟨rows, hrows, hmem⟩ := hsemantics (alone row)
  have hruns := statementRuns_of_selectAssets hvalid hrows
  obtain ⟨rows', hrows', hmem'⟩ := @mem_selectAssets jsonText q hvalid hruns (alone row)
  obtain rfl := Except.ok.inj (hrows.symm.trans hrows')
  have hasked := (hmem' ([], row)).symm.trans (hmem ([], row))
  have htaken : (∃ r ∈ joinedRows (alone row) (joins q), r.asset = ([], row) ∧ Taken jsonText q r) ↔
      Taken jsonText q (aloneJoined row) := by
    constructor
    · rintro ⟨r, hr, hasset, ht⟩
      rwa [(mem_joinedRows_alone hasset).mp hr] at ht
    · intro ht
      exact ⟨aloneJoined row, (mem_joinedRows_alone rfl).mpr rfl, rfl, ht⟩
  rw [← htaken, hasked, AskedFor]
  simp only [meets_alone, lookup_alone, true_and]

/-! ### Assets that agree or differ -/

/-- The columns of an asset that may be null are. -/
structure Unset (row : AssetRow) : Prop where
  specificationVersion : row.specificationVersion = none
  specificationAssetClass : row.specificationAssetClass = none
  owner : row.owner = none
  delegate : row.delegate = none
  supplyMint : row.supplyMint = none
  treeId : row.treeId = none
  royaltyTarget : row.royaltyTarget = none
  agentToken : row.agentToken = none
  assetSigner : row.assetSigner = none

/-- Every column that is never null is as the query has it. -/
def agreeing (q : SearchAssetsQuery) : AssetRow where
  supply := ((q.supply.getD 1 : ℕ) : ℤ)
  ownerType := q.ownerType.getD .single
  frozen := q.frozen.getD false
  compressed := q.compressed.getD false
  compressible := q.compressible.getD false
  royaltyTargetType := q.royaltyTargetType.getD .creators
  royaltyAmount := ((q.royaltyAmount.getD 0 : ℕ) : ℤ)
  burnt := q.burnt.getD false
  isAgent := q.isAgent.getD false

/-- No column is as the query has it; where it does not say, the filters hold. -/
def differing (q : SearchAssetsQuery) : AssetRow where
  supply := if q.supply = some 1 then 0 else 1
  ownerType := if q.ownerType = some .single then .token else .single
  frozen := !q.frozen.getD false
  compressed := !q.compressed.getD false
  compressible := !q.compressible.getD false
  royaltyTargetType := if q.royaltyTargetType = some .creators then .fanout else .creators
  royaltyAmount := ((q.royaltyAmount.getD 0 : ℕ) : ℤ) + 1
  burnt := !q.burnt.getD false
  isAgent := !q.isAgent.getD false

theorem unset_agreeing (q : SearchAssetsQuery) : Unset (agreeing q) := ⟨rfl, rfl, rfl, rfl, rfl, rfl, rfl, rfl, rfl⟩

theorem unset_differing (q : SearchAssetsQuery) : Unset (differing q) := ⟨rfl, rfl, rfl, rfl, rfl, rfl, rfl, rfl, rfl⟩

/-- What is said of each criterion on a column that is never null. -/
theorem forall_isColumn {conditionType : ConditionType} {row : AssetRow} {b : Bool}
    (hsupply : ∀ x, q.supply = some x → decide (row.supply = (x : ℤ)) = b)
    (howner : ∀ x, q.ownerType = some x → decide (row.ownerType = x) = b)
    (hfrozen : ∀ x, q.frozen = some x → decide (row.frozen = x) = b)
    (hcompressed : ∀ x, q.compressed = some x → decide (row.compressed = x) = b)
    (hcompressible : ∀ x, q.compressible = some x → decide (row.compressible = x) = b)
    (htarget : ∀ x, q.royaltyTargetType = some x → decide (row.royaltyTargetType = x) = b)
    (hamount : ∀ x, q.royaltyAmount = some x → decide (row.royaltyAmount = (x : ℤ)) = b)
    (hburnt : ∀ x, q.burnt = some x → decide (row.burnt = x) = b)
    (hagent : ∀ x, q.isAgent = some x → decide (row.isAgent = x) = b) :
    ∀ c ∈ criteria jsonText conditionType q, c.isColumn = true → c.value (aloneJoined row) = some b := by
  have hother : ∀ c : Criterion, c.isColumn = false → c.isColumn = true → c.value (aloneJoined row) = some b := by
    intro c hc hc'
    rw [hc] at hc'
    cases hc'
  have hownerAddress : ∀ o, (ownerCriterion q.tokenType o).isColumn = false := by
    intro o
    unfold ownerCriterion
    split <;> rfl
  have hcreators : ∀ c ∈ creatorCriteria conditionType q, c.isColumn = false := by
    intro c hc
    have hjoin := join_creatorCriteria c hc
    cases c with
    | onColumn test => cases hjoin
    | _ => rfl
  simp only [criteria, assetCriteria, supplyCriteria, ownerTypeCriteria, relatedCriteria, List.forall_mem_append,
    forall_mem_asked, and_assoc]
  refine ⟨?_, ?_, ?_, fun o _ => hother _ (hownerAddress o), ?_, fun x hx _ => congrArg some (hfrozen x hx), ?_,
    fun x hx _ => congrArg some (hcompressed x hx), fun x hx _ => congrArg some (hcompressible x hx),
    fun x hx _ => congrArg some (htarget x hx), ?_, fun x hx _ => congrArg some (hamount x hx),
    fun x hx _ => congrArg some (hburnt x hx), fun x hx _ => congrArg some (hagent x hx), ?_, ?_,
    fun x hx _ => congrArg some (hsupply x hx), fun x hx _ => congrArg some (howner x hx),
    fun c hc => hother c (hcreators c hc), ?_, ?_, ?_, ?_⟩
  all_goals exact fun x _ => hother _ rfl

theorem value_agreeing {conditionType : ConditionType} :
    ∀ c ∈ criteria jsonText conditionType q, c.isColumn = true → c.value (aloneJoined (agreeing q)) = some true := by
  apply forall_isColumn
  all_goals
    intro x hx
    simp only [agreeing, hx, Option.getD_some, decide_true]

theorem value_differing {conditionType : ConditionType} :
    ∀ c ∈ criteria jsonText conditionType q, c.isColumn = true → c.value (aloneJoined (differing q)) = some false := by
  apply forall_isColumn
  · intro x hx
    simp only [differing, hx, Option.some.injEq]
    split <;> simp <;> omega
  · intro x hx
    cases x <;> simp [differing, hx]
  · intro x hx
    cases x <;> simp [differing, hx]
  · intro x hx
    cases x <;> simp [differing, hx]
  · intro x hx
    cases x <;> simp [differing, hx]
  · intro x hx
    cases x <;> simp [differing, hx]
  · intro x hx
    simp [differing, hx]
  · intro x hx
    cases x <;> simp [differing, hx]
  · intro x hx
    cases x <;> simp [differing, hx]

/-- Where the columns are null, every other criterion is unknown, but for a token type. -/
theorem value_unset {conditionType : ConditionType} {row : AssetRow} (hrow : Unset row)
    (hcounts : countsTokenAccounts q.tokenType = false) :
    ∀ c ∈ criteria jsonText conditionType q, c.isColumn = false →
      c.value (aloneJoined row) = none ∨ (q.tokenType.isSome = true ∧ c.value (aloneJoined row) = some false) := by
  have hcolumn : ∀ {test : AssetRow → Bool}, (Criterion.onColumn test).isColumn = false →
      (Criterion.onColumn test).value (aloneJoined row) = none
        ∨ (q.tokenType.isSome = true ∧ (Criterion.onColumn test).value (aloneJoined row) = some false) := by
    intro test h
    cases h
  have hnull : ∀ {α : Type} [DecidableEq α] {column : AssetRow → Option α}, column row = none → ∀ x : α,
      (Criterion.onAsset fun a => eq (column a) (some x)).value (aloneJoined row) = none := by
    intro α _ column h x
    show eq (column row) (some x) = none
    rw [h]
    rfl
  have htokenType : ∀ t, q.tokenType = some t → tokenTypeExpr t row = none
      ∨ (q.tokenType.isSome = true ∧ tokenTypeExpr t row = some false) := by
    intro t ht
    rw [ht] at hcounts ⊢
    cases t with
    | fungible => cases hcounts
    | all => cases hcounts
    | compressed => simp [tokenTypeExpr, isNotNull, hrow.treeId]
    | _ => exact Or.inl (by rw [tokenTypeExpr, classAmong, hrow.treeId, hrow.specificationAssetClass]; rfl)
  have howner : ∀ o, ownerCriterion q.tokenType o = .onAsset fun a => eq a.owner (some o) := by
    intro o
    rw [ownerCriterion, hcounts]
    rfl
  have hcreators : ∀ c ∈ creatorCriteria conditionType q, c.value (aloneJoined row) = none := by
    unfold creatorCriteria
    split
    · intro c hc
      rw [List.mem_singleton.mp hc]
      rfl
    · rw [List.forall_mem_append, forall_mem_asked, forall_mem_asked]
      exact ⟨fun _ _ => rfl, fun _ _ => rfl⟩
  simp only [criteria, assetCriteria, supplyCriteria, ownerTypeCriteria, relatedCriteria, List.forall_mem_append,
    forall_mem_asked, and_assoc, howner]
  exact ⟨fun x _ _ => Or.inl (hnull hrow.specificationVersion x), fun t ht _ => htokenType t ht,
    fun x _ _ => Or.inl (hnull hrow.specificationAssetClass x), fun x _ _ => Or.inl (hnull hrow.owner x),
    fun x _ _ => Or.inl (hnull hrow.delegate x), fun _ _ => hcolumn,
    fun x _ _ => Or.inl (hnull hrow.supplyMint x), fun _ _ => hcolumn, fun _ _ => hcolumn, fun _ _ => hcolumn,
    fun x _ _ => Or.inl (hnull hrow.royaltyTarget x), fun _ _ => hcolumn, fun _ _ => hcolumn, fun _ _ => hcolumn,
    fun x _ _ => Or.inl (hnull hrow.agentToken x), fun x _ _ => Or.inl (hnull hrow.assetSigner x),
    fun _ _ => hcolumn, fun _ _ => hcolumn, fun c hc _ => Or.inl (hcreators c hc), fun _ _ _ => Or.inl rfl,
    fun _ _ _ => Or.inl rfl, fun _ _ _ => Or.inl rfl, fun _ _ _ => Or.inl rfl⟩

theorem value_unset_eq_none {conditionType : ConditionType} {row : AssetRow} (hrow : Unset row)
    (htoken : q.tokenType = none) :
    ∀ c ∈ criteria jsonText conditionType q, c.isColumn = false → c.value (aloneJoined row) = none := by
  intro c hc hcolumn
  rcases value_unset hrow (by rw [htoken]; rfl) c hc hcolumn with hnone | ⟨hsome, _⟩
  · exact hnone
  · rw [htoken] at hsome
    cases hsome

/-! ### Queries that go wrong on an asset alone -/

/-- Where one criterion is enough, a row that is taken must pass the filters. -/
theorem holds_default_of_any (hvalid : validate q = .ok ()) (hsemantics : HasBooleanSemantics jsonText q)
    (hnegate : q.negate.getD false = false) (htype : q.conditionType.getD .all = .any)
    {row : AssetRow} {c d : Criterion} (hc : c ∈ tested jsonText q) (hholds : holds (c.value (aloneJoined row)) = true)
    (hd : d ∈ defaults q) : holds (d.value (aloneJoined row)) = true := by
  have htaken : Taken jsonText q (aloneJoined row) := by
    unfold Taken
    rw [hnegate, htype]
    exact ⟨c, hc, hholds⟩
  exact ((taken_alone_iff hvalid hsemantics row).mp htaken).1 d hd

/-- A disjunction has no filters beside its criteria. -/
theorem withoutDefaults_of_any (hvalid : validate q = .ok ()) (hsemantics : HasBooleanSemantics jsonText q)
    (hnegate : q.negate.getD false = false) (htype : q.conditionType.getD .all = .any) : WithoutDefaults q := by
  cases howner : q.ownerType with
  | none =>
    -- an asset of the supply that is asked for, which the filter for the owner type excludes
    let row : AssetRow := { supply := ((q.supply.getD 1 : ℕ) : ℤ), ownerType := .token }
    have hfails : holds (defaultOwnerType q.tokenType row) = false := by
      unfold defaultOwnerType classAmong
      split <;> simp [row, isNotNull, anyOf, eq]
    have htested : ∃ c ∈ tested jsonText q, holds (c.value (aloneJoined row)) = true := by
      cases hsupply : q.supply with
      | none =>
        refine ⟨.onAsset defaultSupply, List.mem_append_left _ (mem_defaults_supply hsupply), ?_⟩
        simp [Criterion.value, aloneJoined, defaultSupply, row, hsupply]
      | some s =>
        refine ⟨.onColumn fun a => decide (a.supply = (s : ℤ)), ?_, ?_⟩
        · simp [tested, criteria, supplyCriteria, asked, hsupply]
        · simp [Criterion.value, aloneJoined, row, hsupply]
    obtain ⟨c, hc, hholds⟩ := htested
    have hpasses := holds_default_of_any hvalid hsemantics hnegate htype hc hholds (mem_defaults_ownerType howner)
    exact absurd (hfails.symm.trans hpasses) (by simp)
  | some o =>
    refine ⟨?_, by rw [howner]; rfl⟩
    cases hsupply : q.supply with
    | some s => rfl
    | none =>
      -- an asset of the owner type that is asked for, and of no supply
      let row : AssetRow := { supply := 0, ownerType := o }
      have hc : Criterion.onColumn (fun a => decide (a.ownerType = o)) ∈ tested jsonText q := by
        simp [tested, criteria, ownerTypeCriteria, asked, howner]
      have hholds : holds ((Criterion.onColumn fun a => decide (a.ownerType = o)).value (aloneJoined row)) = true := by
        simp [Criterion.value, aloneJoined, row]
      have hpasses := holds_default_of_any hvalid hsemantics hnegate htype hc hholds (mem_defaults_supply hsupply)
      simp [Criterion.value, aloneJoined, row, defaultSupply, eq] at hpasses

/-- A negated conjunction has no filters among what it negates. -/
theorem withoutDefaults_of_not_all (hvalid : validate q = .ok ()) (hsemantics : HasBooleanSemantics jsonText q)
    (hnegate : q.negate.getD false = true) (htype : q.conditionType.getD .all = .all) : WithoutDefaults q := by
  have hwrong : ∀ row, ∀ d ∈ defaults q, d.value (aloneJoined row) ≠ some false := by
    intro row d hd hfalse
    have htaken : Taken jsonText q (aloneJoined row) := by
      unfold Taken
      rw [hnegate, htype]
      exact ⟨d, List.mem_append_left _ hd, hfalse⟩
    have hholds := ((taken_alone_iff hvalid hsemantics row).mp htaken).1 d hd
    rw [hfalse] at hholds
    cases hholds
  constructor
  · cases hsupply : q.supply with
    | some s => rfl
    | none =>
      exact absurd rfl (hwrong { supply := 0 } _ (mem_defaults_supply hsupply))
  · cases howner : q.ownerType with
    | some o => rfl
    | none =>
      have hfalse : ∃ row, defaultOwnerType q.tokenType row = some false := by
        unfold defaultOwnerType
        split
        · exact ⟨{ ownerType := .single }, rfl⟩
        · exact ⟨{}, rfl⟩
        · exact ⟨{ ownerType := .token }, rfl⟩
      obtain ⟨row, hrow⟩ := hfalse
      exact absurd hrow (hwrong row _ (mem_defaults_ownerType howner))

/-- With an owner type there is no token type. -/
theorem tokenType_eq_none (hvalid : validate q = .ok ()) (hwithout : WithoutDefaults q) : q.tokenType = none := by
  by_contra htoken
  have howner := ownerType_eq_none hvalid (Option.ne_none_iff_isSome.mp htoken)
  rw [WithoutDefaults, howner] at hwithout
  cases hwithout.2

/-- A negated conjunction has no criterion that may be unknown. -/
theorem onlyNonNull_of_not_all (hvalid : validate q = .ok ()) (hsemantics : HasBooleanSemantics jsonText q)
    (hnegate : q.negate.getD false = true) (htype : q.conditionType.getD .all = .all) : OnlyNonNull q := by
  have hwithout := withoutDefaults_of_not_all hvalid hsemantics hnegate htype
  have htoken := tokenType_eq_none hvalid hwithout
  rw [onlyNonNull_iff jsonText .all]
  intro c hc
  by_contra hcolumn
  have hnone := value_unset_eq_none (unset_agreeing q) htoken c hc (Bool.eq_false_of_not_eq_true hcolumn)
  -- the asset does not meet the criterion, so it is asked for
  have hnotMeets : ¬ Combined jsonText (alone (agreeing q)) q ([], agreeing q) := by
    unfold Combined
    rw [htype]
    intro hall
    have hmeets := (meets_alone _ c).mp (hall c hc)
    rw [hnone] at hmeets
    cases hmeets
  have htaken := (taken_alone_iff hvalid hsemantics (agreeing q)).mpr
    ⟨by rw [defaults_eq_nil hwithout]; simp, by rw [if_pos hnegate]; exact hnotMeets⟩
  -- but nothing is false of it
  unfold Taken at htaken
  rw [hnegate, htype] at htaken
  obtain ⟨c', hc', hfalse⟩ := htaken
  rw [tested, defaults_eq_nil hwithout, List.nil_append] at hc'
  cases hcolumn' : c'.isColumn with
  | true =>
    rw [value_agreeing c' hc' hcolumn'] at hfalse
    cases hfalse
  | false =>
    rw [value_unset_eq_none (unset_agreeing q) htoken c' hc' hcolumn'] at hfalse
    cases hfalse

/-- Where no criterion is on token accounts, a negated disjunction is asked for an asset that differs. -/
theorem all_false_of_differing (hvalid : validate q = .ok ()) (hsemantics : HasBooleanSemantics jsonText q)
    (hnegate : q.negate.getD false = true) (htype : q.conditionType.getD .all = .any)
    (hcounts : countsTokenAccounts q.tokenType = false) :
    (∀ d ∈ defaults q, holds (d.value (aloneJoined (differing q))) = true)
      ∧ ∀ c ∈ tested jsonText q, c.value (aloneJoined (differing q)) = some false := by
  have hdefaults : ∀ d ∈ defaults q, holds (d.value (aloneJoined (differing q))) = true := by
    unfold defaults supplyDefault ownerTypeDefault
    rw [List.forall_mem_append]
    constructor
    · intro d hd
      split at hd
      · rename_i hsupply
        rw [List.mem_singleton.mp hd]
        simp [Criterion.value, aloneJoined, defaultSupply, differing, Option.isNone_iff_eq_none.mp hsupply]
      · exact absurd hd List.not_mem_nil
    · intro d hd
      split at hd
      · rename_i howner
        rw [List.mem_singleton.mp hd]
        have hone : (differing q).supply ≤ 1 := by
          show (if q.supply = some 1 then (0 : ℤ) else 1) ≤ 1
          split <;> omega
        have hsingle : (differing q).ownerType = .single := by
          simp [differing, Option.isNone_iff_eq_none.mp howner]
        show holds (defaultOwnerType q.tokenType (differing q)) = true
        unfold defaultOwnerType
        split
        · rename_i htoken
          rw [htoken] at hcounts
          cases hcounts
        · rename_i htoken
          rw [htoken] at hcounts
          cases hcounts
        · simp [hsingle, hone, eq]
      · exact absurd hd List.not_mem_nil
  have hnot : ¬ Combined jsonText (alone (differing q)) q ([], differing q) := by
    unfold Combined
    rw [htype]
    rintro ⟨c, hc, hmeets⟩
    rw [meets_alone] at hmeets
    cases hcolumn : c.isColumn with
    | true =>
      rw [value_differing c hc hcolumn] at hmeets
      cases hmeets
    | false =>
      rcases value_unset (unset_differing q) hcounts c hc hcolumn with h | ⟨_, h⟩ <;> rw [h] at hmeets <;> cases hmeets
  have htaken := (taken_alone_iff hvalid hsemantics (differing q)).mpr
    ⟨hdefaults, by rw [if_pos hnegate]; exact hnot⟩
  unfold Taken at htaken
  rw [hnegate, htype] at htaken
  exact ⟨hdefaults, htaken⟩

/-- Then it has neither filters nor criteria that may be unknown. -/
theorem onlyNonNull_of_not_any (hvalid : validate q = .ok ()) (hsemantics : HasBooleanSemantics jsonText q)
    (hnegate : q.negate.getD false = true) (htype : q.conditionType.getD .all = .any)
    (hcounts : countsTokenAccounts q.tokenType = false) : WithoutDefaults q ∧ OnlyNonNull q := by
  obtain ⟨hdefaults, hfalse⟩ := all_false_of_differing hvalid hsemantics hnegate htype hcounts
  have hnodefault : ∀ d, d ∉ defaults q := by
    intro d hd
    have hholds := hdefaults d hd
    rw [hfalse d (List.mem_append_left _ hd)] at hholds
    cases hholds
  have hwithout : WithoutDefaults q := by
    constructor
    · cases hsupply : q.supply with
      | some s => rfl
      | none => exact absurd (mem_defaults_supply hsupply) (hnodefault _)
    · cases howner : q.ownerType with
      | some o => rfl
      | none => exact absurd (mem_defaults_ownerType howner) (hnodefault _)
  refine ⟨hwithout, (onlyNonNull_iff jsonText .any).mpr fun c hc => ?_⟩
  by_contra hcolumn
  have hnone := value_unset_eq_none (unset_differing q) (tokenType_eq_none hvalid hwithout) c hc
    (Bool.eq_false_of_not_eq_true hcolumn)
  rw [hfalse c (List.mem_append_right _ hc)] at hnone
  cases hnone

/-! ### An asset of which everything is false -/

theorem eq_some_of_ne {α : Type} [DecidableEq α] {x y : α} (h : x ≠ y) : eq (some x) (some y) = some false := by
  simp [eq, h]

/-- A key that is not the one that is asked for. -/
def otherKey (x : Option Bytes) : Bytes := 0 :: x.getD []

theorem eq_otherKey {value : Option Bytes} {x : Bytes} (h : value = some x) :
    eq (some (otherKey value)) (some x) = some false := by
  have hne : otherKey value ≠ x := by
    intro heq
    have hlength := congrArg List.length heq
    rw [h] at hlength
    simp [otherKey] at hlength
  exact eq_some_of_ne hne

theorem append_a_ne (s : String) : s ++ "a" ≠ s := by
  intro heq
  have hlength := congrArg String.length heq
  rw [String.length_append] at hlength
  have hone : "a".length = 1 := rfl
  omega

/-- An asset with other values; the filters are false of it where nothing is given. -/
def falseRow (q : SearchAssetsQuery) : AssetRow :=
  { differing q with
    supply := match q.supply with
      | none => 0
      | some s => (s : ℤ) + 1
    burnt := if q.supply.isNone then false else !q.burnt.getD false
    specificationVersion := some (if q.specificationVersion = some .v0 then .v1 else .v0)
    specificationAssetClass := if q.tokenType = some .all then none
      else some (if q.specificationAssetClass = some .nft then .print else .nft)
    owner := some (otherKey q.ownerAddress)
    delegate := some (otherKey q.delegate)
    supplyMint := some (otherKey q.supplyMint)
    royaltyTarget := some (otherKey q.royaltyTarget)
    agentToken := some (otherKey q.agentToken)
    assetSigner := some (otherKey q.assetSigner)
    assetData := some [] }

/-- A token account of another owner. -/
def falseTokenAccount (q : SearchAssetsQuery) : TokenAccountRow where
  mint := []
  amount := 0
  owner := otherKey q.ownerAddress
  frozen := false
  closeAuthority := none
  delegate := none
  delegatedAmount := 0
  slotUpdated := 0
  tokenProgram := []

/-- Metadata with another address, and with a name. -/
def falseData (q : SearchAssetsQuery) (name : String) : AssetDataRow where
  chainDataMutability := .mutable
  chainData := .obj [("name", .str name)]
  metadataUrl := if q.jsonUri = some "" then ⟨"a", Nat.le_of_ble_eq_true rfl⟩ else Sql.Varchar.empty
  metadataMutability := .mutable
  metadata := .null
  slotUpdated := 0
  reindex := none
  rawName := none
  rawSymbol := none
  baseInfoSeq := none

/-- A row of each table with other values. -/
def falseColumn (q : SearchAssetsQuery) (name : String) : (j : Join) → j.Row
  | .tokenAccounts => ([], falseTokenAccount q)
  | .assetCreators => (([], 0), ⟨otherKey q.creatorAddress, 0, !q.creatorVerified.getD false, none, none⟩)
  | .assetAuthority => ([], ⟨otherKey q.authorityAddress, 0, 0⟩)
  | .assetGrouping => (.collection [], ⟨some ((q.grouping.map Prod.snd).getD "" ++ "a"), false, none, none⟩)
  | .assetData => ([], falseData q name)

/-- The tables of these rows. -/
def falseTables (q : SearchAssetsQuery) (name : String) : Database where
  asset := (∅ : Table _ _).insert [] (falseRow q)
  tokenAccounts := (∅ : Table _ _).insert [] (falseColumn q name .tokenAccounts).2
  assetCreators := (∅ : Table _ _).insert ([], 0) (falseColumn q name .assetCreators).2
  assetAuthority := (∅ : Table _ _).insert [] (falseColumn q name .assetAuthority).2
  assetGrouping := (∅ : Table _ _).insert (.collection []) (falseColumn q name .assetGrouping).2
  assetData := (∅ : Table _ _).insert [] (falseColumn q name .assetData).2

theorem falseColumn_mem_related (q : SearchAssetsQuery) (name : String) (j : Join) :
    falseColumn q name j ∈ related (falseTables q name) ([], falseRow q) j := by
  cases j <;> exact List.mem_filter.mpr ⟨(mem_scan _ _ _).mpr (AList.lookup_insert _), decide_eq_true rfl⟩

/-- The asset with all rows beside it. -/
def falseJoined (q : SearchAssetsQuery) (name : String) : Joined :=
  Joined.ofColumns ([], falseRow q) fun j => some (falseColumn q name j)

/-- The row that is joined has a column from each table that is. -/
theorem mem_joinedRows_falseTables (q : SearchAssetsQuery) (name : String) (js : List Join) :
    Joined.ofColumns ([], falseRow q) (fun j => if j ∈ js then some (falseColumn q name j) else none)
      ∈ joinedRows (falseTables q name) js := by
  refine mem_joinedRows.mpr ⟨AList.lookup_insert _, fun j => ?_⟩
  rw [Joined.column_ofColumns, Joined.asset_ofColumns]
  by_cases hj : j ∈ js
  · rw [if_pos hj, if_pos hj]
    exact falseColumn_mem_related q name j
  · rw [if_neg hj, if_neg hj]

/-- The columns that are never null are other. -/
theorem value_falseJoined_of_isColumn (hcase : ¬ (q.supply = none ∧ q.burnt = some false)) (name : String) :
    ∀ c ∈ criteria jsonText .any q, c.isColumn = true → c.value (falseJoined q name) = some false := by
  have halone : ∀ c : Criterion, c.isColumn = true →
      c.value (falseJoined q name) = c.value (aloneJoined (falseRow q)) := by
    intro c hc
    cases c with
    | onColumn test => rfl
    | _ => cases hc
  intro c hc hcolumn
  rw [halone c hcolumn]
  refine forall_isColumn ?_ ?_ ?_ ?_ ?_ ?_ ?_ ?_ ?_ c hc hcolumn
  · intro x hx
    simp [falseRow, hx]
  · intro x hx
    cases x <;> simp [falseRow, differing, hx]
  · intro x hx
    cases x <;> simp [falseRow, differing, hx]
  · intro x hx
    cases x <;> simp [falseRow, differing, hx]
  · intro x hx
    cases x <;> simp [falseRow, differing, hx]
  · intro x hx
    cases x <;> simp [falseRow, differing, hx]
  · intro x hx
    simp [falseRow, differing, hx]
  · intro x hx
    cases hsupply : q.supply with
    | none =>
      cases x with
      | false => exact absurd ⟨hsupply, hx⟩ hcase
      | true => simp [falseRow, hsupply]
    | some s => cases x <;> simp [falseRow, hsupply, hx]
  · intro x hx
    cases x <;> simp [falseRow, differing, hx]

/-- The filters are false. -/
theorem value_falseJoined_of_default (hcounts : countsTokenAccounts q.tokenType = true) (name : String) :
    ∀ d ∈ defaults q, d.value (falseJoined q name) = some false := by
  unfold defaults supplyDefault ownerTypeDefault
  rw [List.forall_mem_append]
  constructor
  · intro d hd
    split at hd
    · rename_i hsupply
      rw [List.mem_singleton.mp hd]
      show defaultSupply (falseRow q) = some false
      simp [defaultSupply, falseRow, Option.isNone_iff_eq_none.mp hsupply, Sql.ne, eq, Sql.or]
    · exact absurd hd List.not_mem_nil
  · intro d hd
    split at hd
    · rename_i howner
      rw [List.mem_singleton.mp hd]
      show defaultOwnerType q.tokenType (falseRow q) = some false
      have hsingle : (falseRow q).ownerType = .single := by
        simp [falseRow, differing, Option.isNone_iff_eq_none.mp howner]
      unfold defaultOwnerType
      split
      · rw [hsingle]
        rfl
      · rename_i htoken
        simp [falseRow, htoken, isNotNull]
      · rename_i hfungible hall
        cases htoken : q.tokenType with
        | none =>
          rw [htoken] at hcounts
          cases hcounts
        | some t =>
          cases t <;> simp_all [countsTokenAccounts]
    · exact absurd hd List.not_mem_nil

/-- The token type is another. -/
theorem tokenTypeExpr_falseRow (hcounts : countsTokenAccounts q.tokenType = true) {t : TokenTypeClass}
    (ht : q.tokenType = some t) : tokenTypeExpr t (falseRow q) = some false := by
  rw [ht] at hcounts
  cases t with
  | fungible =>
    have hclass : (falseRow q).specificationAssetClass
        = some (if q.specificationAssetClass = some .nft then .print else .nft) := by
      simp [falseRow, ht]
    rw [tokenTypeExpr, classAmong, hclass]
    split <;> rfl
  | all => simp [tokenTypeExpr, falseRow, ht, isNotNull]
  | _ => cases hcounts

/-- The class is another, unless it is null. -/
theorem class_falseRow (hcase : ¬ (q.tokenType = some .all ∧ q.specificationAssetClass.isSome = true))
    {x : SpecificationAssetClass} (hx : q.specificationAssetClass = some x) :
    eq (falseRow q).specificationAssetClass (some x) = some false := by
  have htoken : q.tokenType ≠ some .all := fun h => hcase ⟨h, by rw [hx]; rfl⟩
  simp only [falseRow, if_neg htoken]
  apply eq_some_of_ne
  rw [hx]
  split
  · rename_i heq
    rw [Option.some.inj heq]
    decide
  · rename_i hne
    exact fun h => hne (congrArg some h.symm)

/-- Every criterion is false of the asset with all rows beside it. -/
theorem value_falseJoined (hcounts : countsTokenAccounts q.tokenType = true)
    (hsupply : ¬ (q.supply = none ∧ q.burnt = some false))
    (hclass : ¬ (q.tokenType = some .all ∧ q.specificationAssetClass.isSome = true)) {name : String}
    (hname : ∀ n, q.name = some n → ∃ pattern, namePattern n = some pattern ∧ Like.like pattern name.toList = false) :
    ∀ c ∈ criteria jsonText .any q, c.value (falseJoined q name) = some false := by
  have hcolumn := @value_falseJoined_of_isColumn jsonText q hsupply name
  have hkey : ∀ {value : Option Bytes} {column : AssetRow → Option Bytes},
      column (falseRow q) = some (otherKey value) → ∀ x, value = some x →
        (Criterion.onAsset fun a => eq (column a) (some x)).value (falseJoined q name) = some false := by
    intro value column h x hx
    show eq (column (falseRow q)) (some x) = some false
    rw [h]
    exact eq_otherKey hx
  simp only [criteria, assetCriteria, supplyCriteria, ownerTypeCriteria, relatedCriteria, List.forall_mem_append,
    forall_mem_asked, and_assoc] at hcolumn ⊢
  obtain ⟨-, -, -, -, -, hfrozen, -, hcompressed, hcompressible, htarget, -, hamount, hburnt, hagent, -, -,
    hsupply', howner, -⟩ := hcolumn
  refine ⟨?_, fun t ht => tokenTypeExpr_falseRow hcounts ht, fun x hx => class_falseRow hclass hx, ?_,
    hkey rfl, fun x hx => hfrozen x hx rfl, hkey rfl, fun x hx => hcompressed x hx rfl,
    fun x hx => hcompressible x hx rfl, fun x hx => htarget x hx rfl, hkey rfl, fun x hx => hamount x hx rfl,
    fun x hx => hburnt x hx rfl, fun x hx => hagent x hx rfl, hkey rfl, hkey rfl, fun x hx => hsupply' x hx rfl,
    fun x hx => howner x hx rfl, ?_, ?_, ?_, ?_, ?_⟩
  · intro x hx
    show eq (falseRow q).specificationVersion (some x) = some false
    cases x <;> simp [falseRow, hx, eq]
  · intro o ho
    have hcriterion : ownerCriterion q.tokenType o = .onEither (fun a => eq a.owner (some o)) .tokenAccounts
        fun t => eq (some t.2.owner) (some o) := by
      rw [ownerCriterion, if_pos hcounts]
    rw [hcriterion]
    exact or_eq_false.mpr ⟨eq_otherKey ho, eq_otherKey ho⟩
  · show ∀ c ∈ asked q.creatorAddress _ ++ asked q.creatorVerified _, _
    rw [List.forall_mem_append, forall_mem_asked, forall_mem_asked]
    refine ⟨fun x hx => eq_otherKey hx, fun v hv => ?_⟩
    apply eq_some_of_ne
    show (!q.creatorVerified.getD false) ≠ v
    rw [hv]
    cases v <;> decide
  · exact fun x hx => eq_otherKey hx
  · intro x hx
    refine and_eq_false.mpr (Or.inr (eq_some_of_ne ?_))
    show (q.grouping.map Prod.snd).getD "" ++ "a" ≠ x.2
    rw [hx]
    exact append_a_ne x.2
  · intro x hx
    apply eq_some_of_ne
    show (if q.jsonUri = some "" then (⟨"a", _⟩ : MetadataUrl) else ⟨"", _⟩).1 ≠ x
    rw [hx]
    split
    · rename_i hempty
      rw [Option.some.inj hempty]
      decide
    · rename_i hne
      exact fun h => hne (congrArg some h.symm)
  · intro n hn
    obtain ⟨pattern, hpattern, hlike⟩ := hname n hn
    show (namePattern n).bind (fun pattern => nameLike pattern (some name)) = some false
    rw [hpattern]
    exact congrArg some hlike

/-- Where token accounts count, a negated disjunction can be false of nothing. -/
theorem neverFalse_of_not_any (hvalid : validate q = .ok ()) (hsemantics : HasBooleanSemantics jsonText q)
    (hnegate : q.negate.getD false = true) (htype : q.conditionType.getD .all = .any)
    (hcounts : countsTokenAccounts q.tokenType = true) : NeverFalse q := by
  by_contra hnever
  have hcases : ¬ (q.supply = none ∧ q.burnt = some false)
      ∧ ¬ (q.tokenType = some .all ∧ q.specificationAssetClass.isSome = true)
      ∧ ∀ n pattern, q.name = some n → namePattern n = some pattern → ∃ x, Like.like pattern x = false := by
    refine ⟨fun h => hnever ⟨hcounts, Or.inl h⟩, fun h => hnever ⟨hcounts, Or.inr (Or.inl h)⟩, ?_⟩
    intro n pattern hn hpattern
    by_contra hall
    refine hnever ⟨hcounts, Or.inr (Or.inr ⟨n, pattern, hn, hpattern, fun x => ?_⟩)⟩
    exact Bool.eq_true_of_not_eq_false fun hx => hall ⟨x, hx⟩
  obtain ⟨hsupply, hclass, hlike⟩ := hcases
  obtain ⟨rows, hrows, _⟩ := hsemantics Database.empty
  have hruns := statementRuns_of_selectAssets hvalid hrows
  -- a name that the pattern does not match
  have hname : ∃ name : String, ∀ n, q.name = some n →
      ∃ pattern, namePattern n = some pattern ∧ Like.like pattern name.toList = false := by
    cases hn : q.name with
    | none => exact ⟨"", fun n h => by cases h⟩
    | some n =>
      obtain ⟨pattern, hpattern⟩ := Option.isSome_iff_exists.mp (hruns.oneComparison n hn)
      obtain ⟨x, hx⟩ := hlike n pattern hn hpattern
      refine ⟨String.ofList x, fun n' hn' => ?_⟩
      obtain rfl := Option.some.inj hn'
      exact ⟨pattern, hpattern, by rw [String.toList_ofList]; exact hx⟩
  obtain ⟨name, hname⟩ := hname
  obtain ⟨rows, hrows, hmem⟩ := hsemantics (falseTables q name)
  obtain ⟨rows', hrows', hmem'⟩ := @mem_selectAssets jsonText q hvalid hruns (falseTables q name)
  obtain rfl := Except.ok.inj (hrows.symm.trans hrows')
  -- the statement takes the row of which all is false
  have hselected : ([], falseRow q) ∈ rows := by
    refine (hmem' _).mpr ⟨_, mem_joinedRows_falseTables q name (joins q), rfl, ?_⟩
    unfold Taken
    rw [hnegate, htype]
    intro c hc
    have hcolumns : c.value (Joined.ofColumns ([], falseRow q)
        fun j => if j ∈ joins q then some (falseColumn q name j) else none) = c.value (falseJoined q name) := by
      refine Criterion.value_congr rfl fun j hj => ?_
      rw [falseJoined, Joined.column_ofColumns, Joined.column_ofColumns, if_pos (mem_joins_of_tested hc hj)]
    rw [hcolumns]
    rcases List.mem_append.mp hc with hdefault | hcriterion
    · exact value_falseJoined_of_default hcounts name c hdefault
    · exact value_falseJoined hcounts hsupply hclass hname c hcriterion
  -- but it is asked for nothing
  obtain ⟨_, hdefaults, hnot⟩ := (hmem _).mp hselected
  rw [if_pos hnegate, Combined, htype] at hnot
  exact hnot (combined_of_defaults hvalid hcounts hdefaults)

/-- **Which searches mean what they say**: the faithful ones. -/
theorem boolean_semantics_iff (jsonText : Json → String) (q : SearchAssetsQuery) (hvalid : validate q = .ok ()) :
    HasBooleanSemantics jsonText q ↔ Faithful q := by
  constructor
  · intro hsemantics
    obtain ⟨rows, hrows, _⟩ := hsemantics Database.empty
    refine ⟨statementRuns_of_selectAssets hvalid hrows, ?_⟩
    cases hnegate : q.negate.getD false <;> cases htype : q.conditionType.getD .all
    · exact withoutDefaults_of_any hvalid hsemantics hnegate htype
    · trivial
    · cases hcounts : countsTokenAccounts q.tokenType with
      | false => exact Or.inl (onlyNonNull_of_not_any hvalid hsemantics hnegate htype hcounts)
      | true => exact Or.inr (neverFalse_of_not_any hvalid hsemantics hnegate htype hcounts)
    · exact ⟨withoutDefaults_of_not_all hvalid hsemantics hnegate htype,
        onlyNonNull_of_not_all hvalid hsemantics hnegate htype⟩
  · exact hasBooleanSemantics_of_faithful hvalid

/-- A search for the assets of an owner. -/
def byOwner (conditionType : ConditionType) : SearchAssetsQuery :=
  { conditionType := some conditionType, ownerAddress := some (Pubkey.fill 1).bytes }

/-- Where all criteria count, it means what it says. -/
theorem owner_search_is_boolean :
    validate (byOwner .all) = .ok () ∧ HasBooleanSemantics (fun _ => "") (byOwner .all) :=
  ⟨rfl, (boolean_semantics_iff _ _ rfl).mpr ⟨⟨Or.inl rfl, nofun⟩, trivial⟩⟩

/-- An asset of another owner. -/
def otherOwners : AssetModel := ((Pubkey.fill 7).bytes, { owner := some (Pubkey.fill 2).bytes })

/-- Where one criterion counts, a search for an owner finds the asset of another, since it passes a filter. -/
theorem filter_is_enough :
    validate (byOwner .any) = .ok () ∧
      ¬ ∃ rows, selectAssets (fun _ => "") { asset := AList.singleton otherOwners.1 otherOwners.2 } (byOwner .any)
          = .ok rows
        ∧ ∀ a, a ∈ rows ↔ AskedFor (fun _ => "") { asset := AList.singleton otherOwners.1 otherOwners.2 }
          (byOwner .any) a := by
  refine ⟨rfl, ?_⟩
  rintro ⟨rows, hrows, hmem⟩
  obtain ⟨rows', hrows', hmem'⟩ := @mem_selectAssets (fun _ => "") (byOwner .any) rfl ⟨Or.inl rfl, nofun⟩
    { asset := AList.singleton otherOwners.1 otherOwners.2 }
  obtain rfl := Except.ok.inj (hrows.symm.trans hrows')
  have hselected : otherOwners ∈ rows := by
    refine (hmem' _).mpr ⟨{ asset := otherOwners }, mem_joinedRows.mpr ⟨rfl, fun j => ?_⟩, rfl, ?_⟩
    · cases j <;> rfl
    · exact ⟨.onAsset defaultSupply, List.mem_append_left _ (mem_defaults_supply rfl), rfl⟩
  obtain ⟨_, _, c, hc, hmeets⟩ := (hmem _).mp hselected
  have hcriteria : criteria (fun _ => "") .any (byOwner .any) = [ownerCriterion none (Pubkey.fill 1).bytes] := by
    simp only [criteria, assetCriteria, supplyCriteria, ownerTypeCriteria, creatorCriteria, relatedCriteria, asked,
      byOwner, Option.toList, List.map_nil, List.map_cons, List.nil_append, List.append_nil]
  rw [hcriteria] at hc
  rw [List.mem_singleton.mp hc] at hmeets
  have hother : holds (eq (some (Pubkey.fill 2).bytes) (some (Pubkey.fill 1).bytes)) = false := by decide
  exact absurd (hother.symm.trans hmeets) (by decide)

end DasIndexer.Dao
