import DasIndexer.Dao.Assembled
import DasIndexer.Dao.Search

/-!
# Joined rows as independent choices

A search joins up to five tables to `asset`, one after another, and each join multiplies the rows by the
partners of the asset in that table.  The partners depend on the asset only, so a joined row is an asset and
one partner from each table, chosen independently: **`mem_joinedRows`**.

A criterion reads the asset and at most one table.  **`exists_joined_iff`** is what independence gives: criteria
on different tables are satisfied by one joined row when each is satisfied by some partner.
-/

namespace DasIndexer.Dao

open Sql

/-! ### Partners -/

/-- What a left join puts beside a row: one of the related rows, or null where there are none. -/
def IsPartner {β : Type} (related : List β) : Option β → Prop
  | some b => b ∈ related
  | none => related = []

theorem exists_isPartner {β : Type} (related : List β) : ∃ o, IsPartner related o := by
  cases related with
  | nil => exact ⟨none, rfl⟩
  | cons b bs => exact ⟨some b, List.mem_cons_self⟩

theorem mem_leftJoin {α β : Type} {rows : List α} {related : α → List β} {a : α} {o : Option β} :
    (a, o) ∈ leftJoin rows related ↔ a ∈ rows ∧ IsPartner (related a) o := by
  cases o with
  | some b => exact mem_leftJoin_some
  | none =>
    simp only [leftJoin, List.mem_flatMap]
    constructor
    · rintro ⟨a', ha', h⟩
      split at h
      · rename_i hnil
        obtain ⟨rfl, _⟩ := Prod.mk.inj (List.mem_singleton.mp h)
        exact ⟨ha', hnil⟩
      · obtain ⟨b, _, heq⟩ := List.mem_map.mp h
        exact absurd (Prod.mk.inj heq).2 (by simp)
    · rintro ⟨ha, hnil⟩
      refine ⟨a, ha, ?_⟩
      rw [show related a = [] from hnil]
      exact List.mem_singleton_self _

/-! ### Columns -/

/-- The rows of a table that may be joined. -/
abbrev Join.Row : Join → Type
  | .tokenAccounts => Bytes × TokenAccountRow
  | .assetCreators => CreatorModel
  | .assetAuthority => AuthorityModel
  | .assetGrouping => GroupingModel
  | .assetData => AssetDataModel

/-- The rows of a table that belong to an asset. -/
def related (db : Database) (a : AssetModel) : (j : Join) → List j.Row
  | .tokenAccounts => (scan db.tokenAccounts).filter fun t => decide (t.2.mint = a.1)
  | .assetCreators => (scan db.assetCreators).filter fun c => decide (c.1.1 = a.1)
  | .assetAuthority => (scan db.assetAuthority).filter fun x => decide (x.1 = a.1)
  | .assetGrouping => (scan db.assetGrouping).filter fun g => decide (assetId g.1 = a.1)
  | .assetData => (scan db.assetData).filter fun d => decide (a.2.assetData = some d.1)

/-- What a joined row has of a table. -/
def Joined.column (r : Joined) : (j : Join) → Option j.Row
  | .tokenAccounts => r.tokenAccount
  | .assetCreators => r.creator
  | .assetAuthority => r.authority
  | .assetGrouping => r.grouping
  | .assetData => r.data

/-- The joined row of an asset and one choice for each table. -/
def Joined.ofColumns (a : AssetModel) (f : (j : Join) → Option j.Row) : Joined where
  asset := a
  tokenAccount := f .tokenAccounts
  creator := f .assetCreators
  authority := f .assetAuthority
  grouping := f .assetGrouping
  data := f .assetData

@[simp] theorem Joined.column_ofColumns (a : AssetModel) (f : (j : Join) → Option j.Row) (j : Join) :
    (Joined.ofColumns a f).column j = f j := by
  cases j <;> rfl

@[simp] theorem Joined.asset_ofColumns (a : AssetModel) (f : (j : Join) → Option j.Row) :
    (Joined.ofColumns a f).asset = a := rfl

/-- A joined row is its asset and its columns. -/
theorem Joined.ext_column {r r' : Joined} (hasset : r.asset = r'.asset) (hcolumn : ∀ j, r.column j = r'.column j) :
    r = r' := by
  cases r
  cases r'
  simp only [Joined.mk.injEq]
  exact ⟨hasset, hcolumn .tokenAccounts, hcolumn .assetCreators, hcolumn .assetAuthority, hcolumn .assetGrouping,
    hcolumn .assetData⟩

/-! ### What is joined -/

/-- One join sets one column. -/
theorem mem_joinOn {db : Database} {rows : List Joined} {j : Join} {r : Joined} :
    r ∈ joinOn db rows j ↔ ∃ r₀ ∈ rows, r.asset = r₀.asset ∧ (∀ k, k ≠ j → r.column k = r₀.column k)
      ∧ IsPartner (related db r.asset j) (r.column j) := by
  cases j <;>
  · simp only [joinOn, List.mem_map]
    constructor
    · intro ⟨⟨r₀, o⟩, hmem, hr⟩
      obtain ⟨hr₀, ho⟩ := mem_leftJoin.mp hmem
      subst hr
      refine ⟨r₀, hr₀, rfl, fun k hk => ?_, ho⟩
      cases k <;> first | rfl | exact absurd rfl hk
    · intro ⟨r₀, hr₀, hasset, hcolumn, hpartner⟩
      rw [hasset] at hpartner
      refine ⟨(r₀, _), mem_leftJoin.mpr ⟨hr₀, hpartner⟩, ?_⟩
      refine Joined.ext_column hasset.symm fun k => ?_
      have hk := hcolumn k
      cases k <;> first | rfl | exact (hk (by decide)).symm

/-- **Joined rows.**  A stored asset, a partner from each table that is joined, and nothing from the others. -/
theorem mem_joinedRows {db : Database} {js : List Join} {r : Joined} :
    r ∈ joinedRows db js ↔ db.asset.lookup r.asset.1 = some r.asset.2
      ∧ ∀ j, if j ∈ js then IsPartner (related db r.asset j) (r.column j) else r.column j = none := by
  induction js using List.reverseRecOn generalizing r with
  | nil =>
    show r ∈ (scan db.asset).map (fun a => { asset := a }) ↔ _
    simp only [List.mem_map, List.not_mem_nil, if_false]
    constructor
    · rintro ⟨a, ha, rfl⟩
      refine ⟨(mem_scan _ _ _).mp ha, fun j => ?_⟩
      cases j <;> rfl
    · intro ⟨hstored, hnull⟩
      refine ⟨r.asset, (mem_scan _ _ _).mpr hstored, Joined.ext_column rfl fun j => ?_⟩
      rw [hnull j]
      cases j <;> rfl
  | append_singleton js j ih =>
    have hstep : joinedRows db (js ++ [j]) = joinOn db (joinedRows db js) j := by
      rw [joinedRows, List.foldl_append]
      rfl
    rw [hstep, mem_joinOn]
    constructor
    · intro ⟨r₀, hr₀, hasset, hcolumn, hpartner⟩
      obtain ⟨hstored, hrest⟩ := ih.mp hr₀
      refine ⟨hasset ▸ hstored, fun k => ?_⟩
      by_cases hk : k = j
      · subst hk
        rw [if_pos (by simp)]
        exact hpartner
      · have hin : k ∈ js ++ [j] ↔ k ∈ js := by simp [hk]
        rw [hcolumn k hk, hasset]
        simpa only [hin] using hrest k
    · intro ⟨hstored, hrest⟩
      -- the row before the join has the columns of the tables before
      refine ⟨Joined.ofColumns r.asset fun k => if k ∈ js then r.column k else none, ?_, rfl, fun k hk => ?_, ?_⟩
      · refine ih.mpr ⟨hstored, fun k => ?_⟩
        rw [Joined.column_ofColumns, Joined.asset_ofColumns]
        by_cases hk : k ∈ js
        · have hpartner := hrest k
          rw [if_pos (List.mem_append_left _ hk)] at hpartner
          rw [if_pos hk, if_pos hk]
          exact hpartner
        · rw [if_neg hk, if_neg hk]
      · rw [Joined.column_ofColumns]
        by_cases hk' : k ∈ js
        · rw [if_pos hk']
        · have hnull := hrest k
          rw [if_neg (by simp [hk, hk'])] at hnull
          rw [if_neg hk', hnull]
      · have hpartner := hrest j
        rw [if_pos (by simp)] at hpartner
        exact hpartner

/-! ### Criteria -/

/-- A condition on a column of the asset that is never null, on the asset, on a related row, or on either of
them. -/
inductive Criterion where
  | onColumn (test : AssetRow → Bool)
  | onAsset (test : AssetRow → Truth)
  | onRow (j : Join) (test : j.Row → Truth)
  | onEither (test : AssetRow → Truth) (j : Join) (rowTest : j.Row → Truth)

namespace Criterion

/-- The table that a criterion reads. -/
def join : Criterion → Option Join
  | onColumn _ => none
  | onAsset _ => none
  | onRow j _ => some j
  | onEither _ j _ => some j

/-- The criterion is on a column that is never null. -/
def isColumn : Criterion → Bool
  | onColumn _ => true
  | _ => false

/-- The value of a criterion on a joined row; it is unknown where the related row is null. -/
def value : Criterion → Joined → Truth
  | onColumn test, r => some (test r.asset.2)
  | onAsset test, r => test r.asset.2
  | onRow j test, r => (r.column j).bind test
  | onEither test j rowTest, r => or (test r.asset.2) ((r.column j).bind rowTest)

/-- A criterion holds of an asset: of the asset itself, or of some row that belongs to it. -/
def Meets (db : Database) (a : AssetModel) : Criterion → Prop
  | onColumn test => test a.2 = true
  | onAsset test => holds (test a.2) = true
  | onRow j test => ∃ row ∈ related db a j, holds (test row) = true
  | onEither test j rowTest => holds (test a.2) = true ∨ ∃ row ∈ related db a j, holds (rowTest row) = true

/-- A criterion reads the asset and its own column. -/
theorem value_congr {c : Criterion} {r r' : Joined} (hasset : r.asset = r'.asset)
    (hcolumn : ∀ j, c.join = some j → r.column j = r'.column j) : c.value r = c.value r' := by
  cases c with
  | onColumn test => simp only [value, hasset]
  | onAsset test => simp only [value, hasset]
  | onRow j test => simp only [value, hcolumn j rfl]
  | onEither test j rowTest => simp only [value, hasset, hcolumn j rfl]

section Independence

variable {db : Database} {js : List Join}

/-- A test that holds beside a partner holds of a related row, since it is unknown beside null. -/
theorem exists_of_partner {j : Join} {rows : List j.Row} {o : Option j.Row} {test : j.Row → Truth}
    (ho : IsPartner rows o) (htest : holds (o.bind test) = true) : ∃ row ∈ rows, holds (test row) = true := by
  cases o with
  | none => exact absurd htest (by simp)
  | some row => exact ⟨row, ho, htest⟩

/-- What holds of a joined row holds of its asset. -/
theorem meets_of_holds {c : Criterion} {r : Joined} (hr : r ∈ joinedRows db js)
    (hjoin : ∀ j, c.join = some j → j ∈ js) (hholds : holds (c.value r) = true) : c.Meets db r.asset := by
  have hpartner : ∀ j, c.join = some j → IsPartner (related db r.asset j) (r.column j) := by
    intro j hj
    have hcolumn := (mem_joinedRows.mp hr).2 j
    rwa [if_pos (hjoin j hj)] at hcolumn
  cases c with
  | onColumn test =>
    rw [value, holds_some] at hholds
    exact hholds
  | onAsset test => exact hholds
  | onRow j test => exact exists_of_partner (hpartner j rfl) hholds
  | onEither test j rowTest =>
    rw [value, holds_or, Bool.or_eq_true] at hholds
    rcases hholds with hasset | hrow
    · exact Or.inl hasset
    · exact Or.inr (exists_of_partner (hpartner j rfl) hrow)

/-- What holds of an asset holds beside some partner, whatever else is joined. -/
theorem exists_partner_of_meets {c : Criterion} {a : AssetModel} (hmeets : c.Meets db a) {j : Join}
    (hjoin : c.join = some j) : ∃ o, IsPartner (related db a j) o
      ∧ ∀ r : Joined, r.asset = a → r.column j = o → holds (c.value r) = true := by
  cases c with
  | onColumn test => cases hjoin
  | onAsset test => cases hjoin
  | onRow k test =>
    obtain rfl := Option.some.inj hjoin
    obtain ⟨row, hrow, htest⟩ := hmeets
    refine ⟨some row, hrow, fun r _ hr => ?_⟩
    rw [value, hr]
    exact htest
  | onEither test k rowTest =>
    obtain rfl := Option.some.inj hjoin
    rcases hmeets with hasset | ⟨row, hrow, htest⟩
    · obtain ⟨o, ho⟩ := exists_isPartner (related db a k)
      refine ⟨o, ho, fun r ha _ => ?_⟩
      rw [value, holds_or, ha, hasset]
      rfl
    · refine ⟨some row, hrow, fun r _ hr => ?_⟩
      rw [value, holds_or, hr, Bool.or_eq_true]
      exact Or.inr htest

/-- **Independence.**  Criteria of which no two read one table hold of one joined row when each of them is met. -/
theorem exists_joined_iff {cs : List Criterion} (hjoin : ∀ c ∈ cs, ∀ j, c.join = some j → j ∈ js)
    (hdistinct : (cs.filterMap join).Nodup) (a : AssetModel) :
    (∃ r ∈ joinedRows db js, r.asset = a ∧ ∀ c ∈ cs, holds (c.value r) = true) ↔
      db.asset.lookup a.1 = some a.2 ∧ ∀ c ∈ cs, c.Meets db a := by
  constructor
  · rintro ⟨r, hr, rfl, hall⟩
    exact ⟨(mem_joinedRows.mp hr).1, fun c hc => meets_of_holds hr (hjoin c hc) (hall c hc)⟩
  · intro ⟨hstored, hmeets⟩
    have hchoice : ∀ j, ∃ o : Option j.Row, (if j ∈ js then IsPartner (related db a j) o else o = none)
        ∧ ∀ c ∈ cs, c.join = some j → ∀ r : Joined, r.asset = a → r.column j = o → holds (c.value r) = true := by
      intro j
      by_cases hj : ∃ c ∈ cs, c.join = some j
      · obtain ⟨c, hc, hcj⟩ := hj
        obtain ⟨o, ho, hvalue⟩ := exists_partner_of_meets (hmeets c hc) hcj
        refine ⟨o, by rwa [if_pos (hjoin c hc j hcj)], fun c' hc' hcj' => ?_⟩
        -- the table is read by one criterion only
        have hsame : c' = c := by
          by_contra hne
          have hsymm : Std.Symm fun c c' : Criterion => ∀ b, c.join = some b → ∀ b', c'.join = some b' → b ≠ b' :=
            ⟨fun x y h b hb b' hb' => (h b' hb' b hb).symm⟩
          exact (List.pairwise_filterMap.mp hdistinct).forall hc' hc hne j hcj' j hcj rfl
        rw [hsame]
        exact hvalue
      · have hnone : ∀ c ∈ cs, c.join ≠ some j := fun c hc hcj => hj ⟨c, hc, hcj⟩
        obtain ⟨o, ho⟩ := exists_isPartner (related db a j)
        by_cases hjs : j ∈ js
        · exact ⟨o, by rwa [if_pos hjs], fun c hc hcj => absurd hcj (hnone c hc)⟩
        · exact ⟨none, by rw [if_neg hjs], fun c hc hcj => absurd hcj (hnone c hc)⟩
    choose f hf hvalue using hchoice
    refine ⟨Joined.ofColumns a f, mem_joinedRows.mpr ⟨hstored, fun j => ?_⟩, rfl, fun c hc => ?_⟩
    · rw [Joined.column_ofColumns]
      exact hf j
    · cases hcj : c.join with
      | some j => exact hvalue j c hc hcj _ rfl (Joined.column_ofColumns a f j)
      | none =>
        cases c with
        | onColumn test =>
          rw [value, holds_some]
          exact hmeets _ hc
        | onAsset test => exact hmeets _ hc
        | onRow j test => cases hcj
        | onEither test j rowTest => cases hcj

end Independence

end Criterion

end DasIndexer.Dao
