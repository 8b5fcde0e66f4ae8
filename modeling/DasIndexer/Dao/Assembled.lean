import DasIndexer.Dao.Scopes
import DasIndexer.Sql.Query
import Mathlib.Data.Int.ConditionallyCompleteOrder

/-!
# What a list query assembles

`getRelatedForAssets` runs one query for each table and deals the rows out to the records.  Seen from one
record, each table contributes the rows of its asset (`assembled`): whichever other assets were asked for
makes no difference, except to the inscription.  **`mem_getRelatedForAssets`** is that reading of the whole
function.
-/

namespace DasIndexer.Dao

open Sql

/-! ### The rows of one asset -/

/-- The creator rows of an asset by position. -/
def creatorsOf (db : Database) (id : Bytes) : List CreatorModel :=
  ((scan db.assetCreators).filter fun c => decide (c.1.1 = id)).insertionSort fun a b => a.1.2 ≤ b.1.2

/-- The groupings of an asset that a reader is shown, the unverified ones only if asked for. -/
def shownGroupings (db : Database) (unverified : Bool) (id : Bytes) : List GroupingModel :=
  (scan db.assetGrouping).filter fun g => decide (assetId g.1 = id)
    && (holds (groupingShown g) && (unverified || holds (groupingVerified g)))

theorem holds_groupingShown (g : GroupingModel) :
    holds (groupingShown g) = true ↔ (groupKey g.1 = "collection" → g.2.groupValue.isSome = true) := by
  by_cases hkey : groupKey g.1 = "collection"
  · simp [groupingShown, hkey, eq]
  · simp [groupingShown, hkey]

theorem holds_groupingVerified (g : GroupingModel) :
    holds (groupingVerified g) = true ↔ g.2.verified = true := by
  cases hv : g.2.verified <;> simp [groupingVerified, hv, eq]

theorem mem_shownGroupings {db : Database} {unverified : Bool} {id : Bytes} {g : GroupingModel} :
    g ∈ shownGroupings db unverified id ↔ db.assetGrouping.lookup g.1 = some g.2 ∧ assetId g.1 = id ∧
      (groupKey g.1 = "collection" → g.2.groupValue.isSome = true) ∧
      (unverified = true ∨ g.2.verified = true) := by
  obtain ⟨k, r⟩ := g
  simp only [shownGroupings, List.mem_filter, mem_scan, Bool.and_eq_true, Bool.or_eq_true,
    decide_eq_true_eq, holds_groupingShown, holds_groupingVerified]

/-- The attachment that stands under the key of the asset itself, if its asset was asked for. -/
def attachmentUnder (db : Database) (assetIds : List Bytes) (id : Bytes) : Option AttachmentModel :=
  (db.attachments.lookup id).bind fun a =>
    if a.assetId.any (fun id => decide (id ∈ assetIds)) then some (id, a) else none

/-- The record of an asset, table by table. -/
def assembled (db : Database) (options : Options) (assetIds : List Bytes) (asset : AssetModel)
    (data : AssetDataModel) : FullAsset where
  asset := asset
  data := data
  tokenInfo := if options.showFungible then (db.tokens.lookup asset.1).map fun t => (asset.1, t) else none
  authorities := (db.assetAuthority.lookup asset.1).toList.map fun a => (asset.1, a)
  creators := filterOutStaleCreators (creatorsOf db asset.1)
  inscription := if options.showInscription then attachmentUnder db assetIds asset.1 else none
  groups := filterOutStaleAssetGroupings ((shownGroupings db options.showUnverifiedCollections asset.1).map
    (withMetadata db options))

/-! ### The newest rows -/

/-- A nullable slot as Rust compares it. -/
abbrev asColumn (o : Option ℤ) : WithBot ℤ := o

theorem asColumn_some_le {a b : ℤ} : asColumn (some a) ≤ asColumn (some b) ↔ a ≤ b := WithBot.coe_le_coe

theorem maxColumn_eq_some {l : List (Option ℤ)} {m : Option ℤ} :
    maxColumn l = some m ↔ m ∈ l ∧ ∀ x ∈ l, asColumn x ≤ asColumn m :=
  List.max?_eq_some_iff (α := WithBot ℤ)

theorem maxColumn_eq_none {l : List (Option ℤ)} : maxColumn l = none ↔ l = [] :=
  List.max?_eq_none_iff (α := WithBot ℤ)

/-- A grouping is current among others: a `group` row has a value, and none of them is newer. -/
def Current (gs : List GroupingModel) (g : GroupingModel) : Prop :=
  groupKey g.1 = "group" → g.2.groupValue.isSome = true ∧
    ∀ g' ∈ gs, groupKey g'.1 = "group" → asColumn g'.2.slotUpdated ≤ asColumn g.2.slotUpdated

instance (gs : List GroupingModel) : DecidablePred (Current gs) := fun g =>
  inferInstanceAs (Decidable (groupKey g.1 = "group" → g.2.groupValue.isSome = true ∧
    ∀ g' ∈ gs, groupKey g'.1 = "group" → asColumn g'.2.slotUpdated ≤ asColumn g.2.slotUpdated))

/-- The reader keeps the current groupings. -/
theorem filterOutStaleAssetGroupings_map {f : GroupingModel → GroupingModel × Option AssetDataModel}
    (hf : ∀ g, (f g).1 = g) (gs : List GroupingModel) :
    filterOutStaleAssetGroupings (gs.map f) = (gs.filter fun g => decide (Current gs g)).map f := by
  unfold filterOutStaleAssetGroupings
  have hslots : ((gs.map f).filter fun g => decide (groupKey g.1.1 = "group")).map
      (fun g => g.1.2.slotUpdated) = (gs.filter fun g => decide (groupKey g.1 = "group")).map
        fun g => g.2.slotUpdated := by
    simp [List.filter_map, Function.comp_def, hf]
  rw [hslots]
  split
  · rename_i hnone
    rw [maxColumn_eq_none, List.map_eq_nil_iff, List.filter_eq_nil_iff] at hnone
    have hall : (gs.filter fun g => decide (Current gs g)) = gs := by
      rw [List.filter_eq_self]
      intro g hg
      exact decide_eq_true fun hgroup => absurd (decide_eq_true hgroup) (hnone g hg)
    rw [hall]
  · rename_i newest hmax
    obtain ⟨hmem, hle⟩ := maxColumn_eq_some.mp hmax
    obtain ⟨g₀, hg₀, hslot₀⟩ := List.mem_map.mp hmem
    have hgroup₀ := List.mem_filter.mp hg₀
    rw [List.filter_map]
    refine congrArg (List.map f) (List.filter_congr fun g hg => ?_)
    rw [Bool.eq_iff_iff]
    simp only [Function.comp_apply, hf, Bool.or_eq_true, Bool.and_eq_true, decide_eq_true_eq]
    constructor
    · rintro (hne | ⟨hslot, hvalue⟩) hgroup
      · exact absurd hgroup hne
      · refine ⟨hvalue, fun g' hg' hgroup' => ?_⟩
        rw [hslot]
        exact hle _ (List.mem_map.mpr ⟨g', List.mem_filter.mpr ⟨hg', decide_eq_true hgroup'⟩, rfl⟩)
    · intro hcurrent
      by_cases hgroup : groupKey g.1 = "group"
      · obtain ⟨hvalue, hnewest⟩ := hcurrent hgroup
        refine Or.inr ⟨?_, hvalue⟩
        have hge := hnewest g₀ hgroup₀.1 (of_decide_eq_true hgroup₀.2)
        rw [hslot₀] at hge
        show asColumn g.2.slotUpdated = asColumn newest
        exact le_antisymm (hle _ (List.mem_map.mpr
          ⟨g, List.mem_filter.mpr ⟨hg, decide_eq_true hgroup⟩, rfl⟩)) hge
      · exact Or.inl hgroup

/-! ### Dealing out -/

/-- Picking the rows of one asset out of a query for many. -/
theorem filter_query {α : Type} (key : α → Bytes) (p : α → Bool) (l : List α) {ids : List Bytes} {k : Bytes}
    (hk : k ∈ ids) :
    ((l.filter fun a => decide (key a ∈ ids) && p a).filter fun a => decide (key a = k))
      = l.filter fun a => decide (key a = k) && p a := by
  rw [List.filter_filter]
  refine List.filter_congr fun a _ => ?_
  by_cases ha : key a = k
  · simp [ha, hk]
  · simp [ha]

/-- The same, where the query is ordered by the asset. -/
theorem filter_sorted_query {α : Type} (key : α → Bytes) (p : α → Bool) (l : List α) {ids : List Bytes}
    {k : Bytes} (hk : k ∈ ids) :
    (((l.filter fun a => decide (key a ∈ ids) && p a).insertionSort fun a b => key a ≤ key b).filter
      fun a => decide (key a = k)) = l.filter fun a => decide (key a = k) && p a := by
  have htrans : IsTrans α fun a b => key a ≤ key b := ⟨fun _ _ _ => List.le_trans⟩
  have htotal : Std.Total fun a b : α => key a ≤ key b := ⟨fun a b => List.le_total (key a) (key b)⟩
  rw [filter_insertionSort, filter_query key p l hk]
  refine List.pairwise_of_forall_mem_list fun a ha b hb => ?_
  have ha' : key a = k := by simpa using (List.mem_filter.mp ha).2
  have hb' : key b = k := by simpa using (List.mem_filter.mp hb).2
  rw [ha', hb']
  exact List.le_refl k

instance : IsTrans CreatorModel byAssetAndPosition where
  trans a b c hab hbc := by
    rcases hab with hab | ⟨hab, hle⟩
    · rcases hbc with hbc | ⟨hbc, _⟩
      · exact Or.inl (List.lt_trans hab hbc)
      · exact Or.inl (hbc ▸ hab)
    · rcases hbc with hbc | ⟨hbc, hle'⟩
      · exact Or.inl (hab ▸ hbc)
      · exact Or.inr ⟨hab.trans hbc, le_trans hle hle'⟩

instance : Std.Total byAssetAndPosition where
  total a b := by
    rcases Std.lt_trichotomy a.1.1 b.1.1 with h | h | h
    · exact Or.inl (Or.inl h)
    · rcases le_total a.1.2 b.1.2 with hle | hle
      · exact Or.inl (Or.inr ⟨h, hle⟩)
      · exact Or.inr (Or.inr ⟨h.symm, hle⟩)
    · exact Or.inr (Or.inl h)

/-- The creators of one asset among those of many: ordered by asset and position, they come by position. -/
theorem filter_sorted_creators (db : Database) {ids : List Bytes} {k : Bytes} (hk : k ∈ ids) :
    ((((scan db.assetCreators).filter fun c => decide (c.1.1 ∈ ids)).insertionSort
      byAssetAndPosition).filter
        fun c => decide (c.1.1 = k)) = creatorsOf db k := by
  have hpositions := List.pairwise_insertionSort (fun a b : CreatorModel => a.1.2 ≤ b.1.2)
    ((scan db.assetCreators).filter fun c => decide (c.1.1 = k))
  have hsorted := List.pairwise_insertionSort byAssetAndPosition
    ((scan db.assetCreators).filter fun c => decide (c.1.1 ∈ ids))
  have hperm := ((List.perm_insertionSort byAssetAndPosition
    ((scan db.assetCreators).filter fun c => decide (c.1.1 ∈ ids))).filter fun c => decide (c.1.1 = k))
  have hrows := filter_query (fun c : CreatorModel => c.1.1) (fun _ => true) (scan db.assetCreators) hk
  simp only [Bool.and_true] at hrows
  rw [hrows] at hperm
  refine @List.Perm.eq_of_pairwise _ (fun a b : CreatorModel => a.1.2 ≤ b.1.2) _ _ ?_ ?_ hpositions
    (hperm.trans (List.perm_insertionSort _ _).symm)
  · intro a b ha hb hab hba
    rw [hperm.mem_iff, List.mem_filter] at ha
    rw [creatorsOf, List.mem_insertionSort, List.mem_filter] at hb
    have hkey : a.1 = b.1 := Prod.ext ((of_decide_eq_true ha.2).trans (of_decide_eq_true hb.2).symm)
      (le_antisymm hab hba)
    exact List.inj_on_of_nodup_map (nodup_keys_scan db.assetCreators) ha.1 hb.1 hkey
  · refine (hsorted.filter _).imp_of_mem fun {a b} ha hb hab => ?_
    have ha' : a.1.1 = k := of_decide_eq_true (List.mem_filter.mp ha).2
    have hb' : b.1.1 = k := of_decide_eq_true (List.mem_filter.mp hb).2
    rcases hab with hlt | ⟨_, hle⟩
    · rw [ha', hb'] at hlt
      exact absurd hlt (List.lt_irrefl k)
    · exact hle

/-! ### The stages -/

theorem foldl_pushCreator (rows : List CreatorModel) (fa : FullAsset) :
    rows.foldl pushCreator fa = { fa with creators := fa.creators ++ rows } := by
  induction rows generalizing fa with
  | nil => simp
  | cons r rows ih => rw [List.foldl_cons, ih, pushCreator, List.append_assoc, List.singleton_append]

theorem foldl_pushGroup (rows : List (GroupingModel × Option AssetDataModel)) (fa : FullAsset) :
    rows.foldl pushGroup fa = { fa with groups := fa.groups ++ rows } := by
  induction rows generalizing fa with
  | nil => simp
  | cons r rows ih => rw [List.foldl_cons, ih, pushGroup, List.append_assoc, List.singleton_append]

variable (db : Database) (options : Options) {ids assetIds : List Bytes} (m : IndexMap Bytes FullAsset)

theorem addCreators_eq (hids : m.keys ⊆ ids) :
    addCreators db ids m = m.mapValues fun k fa =>
      { fa with creators := filterOutStaleCreators (fa.creators ++ creatorsOf db k) } := by
  rw [addCreators, IndexMap.pushAll_eq, IndexMap.mapValues_mapValues]
  refine IndexMap.mapValues_congr fun k fa h => ?_
  rw [filter_sorted_creators db (hids (IndexMap.mem_keys.mpr ⟨fa, h⟩)), foldl_pushCreator]

theorem addAuthorities_eq (hids : m.keys ⊆ ids) :
    addAuthorities db ids m = m.mapValues fun k fa => { fa with
      authorities := fa.authorities ++ (db.assetAuthority.lookup k).toList.map fun a => (k, a) } := by
  rw [addAuthorities, IndexMap.pushAll_eq]
  refine IndexMap.mapValues_congr fun k fa h => ?_
  have hrows := filter_sorted_query Prod.fst (fun _ => true) (scan db.assetAuthority)
    (hids (IndexMap.mem_keys.mpr ⟨fa, h⟩))
  simp only [Bool.and_true] at hrows
  rw [hrows, filter_scan_key]
  cases db.assetAuthority.lookup k <;> simp [pushAuthority]

theorem addTokenInfo_eq (hids : m.keys ⊆ ids) :
    addTokenInfo db options ids m = m.mapValues fun k fa => { fa with
      tokenInfo := if options.showFungible then
        ((db.tokens.lookup k).map fun t => (k, t)).or fa.tokenInfo else fa.tokenInfo } := by
  unfold addTokenInfo
  split
  · rw [IndexMap.pushAll_eq]
    refine IndexMap.mapValues_congr fun k fa h => ?_
    have hrows := filter_query Prod.fst (fun _ => true) (scan db.tokens)
      (hids (IndexMap.mem_keys.mpr ⟨fa, h⟩))
    simp only [Bool.and_true] at hrows
    rw [findTokens, hrows, filter_scan_key]
    cases db.tokens.lookup k <;> simp [setTokenInfo]
  · rw [IndexMap.mapValues_id]

theorem addInscriptions_eq :
    addInscriptions db options assetIds m = m.mapValues fun k fa => { fa with
      inscription := if options.showInscription then
        (attachmentUnder db assetIds k).or fa.inscription else fa.inscription } := by
  unfold addInscriptions
  split
  · rw [IndexMap.pushAll_eq]
    refine IndexMap.mapValues_congr fun k fa h => ?_
    have hrows : (((scan db.attachments).filter fun a => a.2.assetId.any fun id =>
        decide (id ∈ assetIds)).filter fun a => decide (a.1 = k)) = (attachmentUnder db assetIds k).toList := by
      rw [List.filter_comm, filter_scan_key, attachmentUnder]
      cases db.attachments.lookup k with
      | none => rfl
      | some a =>
        simp only [Option.toList_some, List.map_cons, List.map_nil, Option.bind_some, List.filter_cons,
          List.filter_nil]
        split <;> rfl
    rw [hrows]
    cases attachmentUnder db assetIds k <;> simp [setInscription]
  · rw [IndexMap.mapValues_id]

theorem addGroups_eq (hids : m.keys ⊆ ids) :
    addGroups db options ids m = m.mapValues fun k fa => { fa with
      groups := filterOutStaleAssetGroupings (fa.groups ++
        (shownGroupings db options.showUnverifiedCollections k).map (withMetadata db options)) } := by
  rw [addGroups, IndexMap.pushAll_eq, IndexMap.mapValues_mapValues]
  refine IndexMap.mapValues_congr fun k fa h => ?_
  rw [List.filter_map, foldl_pushGroup]
  have hrows := filter_sorted_query (fun g : GroupingModel => assetId g.1)
    (fun g => holds (groupingShown g) && (options.showUnverifiedCollections || holds (groupingVerified g)))
    (scan db.assetGrouping) (hids (IndexMap.mem_keys.mpr ⟨fa, h⟩))
  have hkey : ((fun g : GroupingModel × Option AssetDataModel => decide (assetId g.1.1 = k))
      ∘ withMetadata db options) = fun g => decide (assetId g.1 = k) := rfl
  rw [hkey, hrows]
  rfl

/-! ### Pages -/

/-- The rows fit on the page. -/
def Uncut (pagination : Pagination) (limit : ℕ) (sortDirection : Order) (rows : List AssetModel) : Prop :=
  paginate pagination limit sortDirection Prod.fst rows = rows

theorem uncut_page_one {limit : ℕ} {rows : List AssetModel} (sortDirection : Order)
    (h : rows.length ≤ limit) : Uncut (.page 1) limit sortDirection rows := by
  show (rows.drop ((1 - 1) * limit)).take limit = rows
  rw [Nat.sub_self, Nat.zero_mul, List.drop_zero]
  exact List.take_of_length_le h

/-- A page has no other rows. -/
theorem mem_of_mem_paginate {pagination : Pagination} {limit : ℕ} {sortDirection : Order}
    {rows : List AssetModel} {a : AssetModel}
    (h : a ∈ paginate pagination limit sortDirection Prod.fst rows) : a ∈ rows := by
  have hrows := List.mem_of_mem_take h
  split at hrows
  · exact List.mem_of_mem_filter hrows
  · split at hrows
    · exact List.mem_of_mem_drop hrows
    · exact hrows
  · exact hrows
  · exact List.mem_of_mem_filter hrows

/-! ### Joined queries -/

theorem mem_leftJoin_some {α β : Type} {rows : List α} {related : α → List β} {a : α} {b : β} :
    (a, some b) ∈ leftJoin rows related ↔ a ∈ rows ∧ b ∈ related a := by
  simp only [leftJoin, List.mem_flatMap]
  constructor
  · intro ⟨a', ha', h⟩
    split at h
    · exact absurd (List.mem_singleton.mp h) (by simp)
    · obtain ⟨b', hb', heq⟩ := List.mem_map.mp h
      obtain ⟨rfl, hb⟩ := Prod.mk.inj heq
      exact ⟨ha', Option.some.inj hb ▸ hb'⟩
  · intro ⟨ha, hb⟩
    refine ⟨a, ha, ?_⟩
    split
    · rename_i hnil
      rw [hnil] at hb
      exact absurd hb (by simp)
    · exact List.mem_map.mpr ⟨b, hb, rfl⟩

/-- The assets that a query by grouping finds, perhaps by a stale row. -/
theorem mem_selectRelated_groupings {db : Database} {key value : String} {options : Options}
    {a : AssetModel} :
    a ∈ selectRelated db (groupingsOf db) (groupingCondition key value options) ↔
      db.asset.lookup a.1 = some a.2 ∧ 0 < a.2.supply ∧ ∃ g : GroupingModel,
        db.assetGrouping.lookup g.1 = some g.2 ∧ assetId g.1 = a.1 ∧ groupKey g.1 = key ∧
        g.2.groupValue = some value ∧ (options.showUnverifiedCollections = true ∨ g.2.verified = true) := by
  have hcondition : ∀ (a : AssetModel) (g : GroupingModel),
      holds (groupingCondition key value options a (some g)) = true ↔
        (groupKey g.1 = key ∧ g.2.groupValue = some value ∧
          (options.showUnverifiedCollections = true ∨ g.2.verified = true)) ∧ 0 < a.2.supply := by
    intro a g
    unfold groupingCondition hasSupply
    cases options.showUnverifiedCollections with
    | true => simp [holds_eq_some]
    | false => simp [holds_eq_some, and_assoc]
  have hnone : ∀ a : AssetModel, holds (groupingCondition key value options a none) = false := by
    intro a
    unfold groupingCondition
    cases options.showUnverifiedCollections <;> simp [eq]
  rw [selectRelated, List.mem_map]
  constructor
  · rintro ⟨⟨a, g⟩, he, rfl⟩
    obtain ⟨hjoin, hholds⟩ := List.mem_filter.mp he
    simp only at hholds ⊢
    cases g with
    | none =>
      rw [hnone] at hholds
      exact absurd hholds (by simp)
    | some g =>
      obtain ⟨ha, hg⟩ := mem_leftJoin_some.mp hjoin
      obtain ⟨hgrouping, hsupply⟩ := (hcondition a g).mp hholds
      obtain ⟨hgScan, hgId⟩ := List.mem_filter.mp hg
      exact ⟨(mem_scan _ _ _).mp ha, hsupply, g, (mem_scan _ _ _).mp hgScan, of_decide_eq_true hgId,
        hgrouping⟩
  · rintro ⟨ha, hsupply, g, hg, hid, hgrouping⟩
    refine ⟨(a, some g), List.mem_filter.mpr ⟨mem_leftJoin_some.mpr ⟨(mem_scan _ _ _).mpr ha, ?_⟩, ?_⟩, rfl⟩
    · exact List.mem_filter.mpr ⟨(mem_scan _ _ _).mpr hg, decide_eq_true hid⟩
    · exact (hcondition a g).mpr ⟨hgrouping, hsupply⟩

/-! ### All of it -/

/-- The metadata of an asset, if it was loaded: the query asks for the keys of the assets. -/
def loadedData (db : Database) (assetIds : List Bytes) (asset : AssetModel) : Option AssetDataModel :=
  asset.2.assetData.bind fun dataId =>
    if dataId ∈ assetIds then (db.assetData.lookup dataId).map fun d => (dataId, d) else none

/-- Metadata is loaded when its key is among those of the assets, and it is stored. -/
theorem exists_loadedData_iff {assetIds : List Bytes} {asset : AssetModel} :
    (∃ data, loadedData db assetIds asset = some data) ↔
      ∃ dataId ∈ assetIds, asset.2.assetData = some dataId ∧ (db.assetData.lookup dataId).isSome = true := by
  unfold loadedData
  constructor
  · intro ⟨data, hdata⟩
    obtain ⟨dataId, hid, hdata⟩ := Option.bind_eq_some_iff.mp hdata
    split at hdata
    · rename_i hmem
      obtain ⟨d, hd, _⟩ := Option.map_eq_some_iff.mp hdata
      exact ⟨dataId, hmem, hid, Option.isSome_iff_exists.mpr ⟨d, hd⟩⟩
    · cases hdata
  · intro ⟨dataId, hmem, hid, hsome⟩
    obtain ⟨d, hd⟩ := Option.isSome_iff_exists.mp hsome
    exact ⟨(dataId, d), by rw [hid, Option.bind_some, if_pos hmem, hd]; rfl⟩

theorem bareAsset_eq (asset : AssetModel) :
    bareAsset ((scan db.assetData).filter fun d => decide (d.1 ∈ assetIds)) asset
      = (loadedData db assetIds asset).map fun data => (asset.1, { asset, data }) := by
  unfold bareAsset loadedData
  congr 1
  cases asset.2.assetData with
  | none => rfl
  | some dataId =>
    rw [Option.bind_some, Option.bind_some, ← List.head?_filter]
    split
    · rename_i hid
      have hrows := filter_query Prod.fst (fun _ => true) (scan db.assetData) hid
      simp only [Bool.and_true] at hrows
      rw [hrows, filter_scan_key]
      cases db.assetData.lookup dataId <;> rfl
    · rename_i hid
      have hnone : (((scan db.assetData).filter fun d => decide (d.1 ∈ assetIds)).filter
          fun d => decide (d.1 = dataId)) = [] := by
        rw [List.filter_eq_nil_iff]
        intro d hd heq
        have hmem : d.1 ∈ assetIds := of_decide_eq_true (List.mem_filter.mp hd).2
        exact hid (of_decide_eq_true heq ▸ hmem)
      rw [hnone]
      rfl

/-- A record has the creator that is required. -/
def HasRequired (requiredCreator : Option Bytes) (fa : FullAsset) : Prop :=
  ∀ required, requiredCreator = some required → ∃ c ∈ fa.creators, c.2.creator = required

theorem mem_requireCreator {requiredCreator : Option Bytes} {k : Bytes} {fa : FullAsset} :
    (k, fa) ∈ (requireCreator requiredCreator m).entries ↔
      (k, fa) ∈ m.entries ∧ HasRequired requiredCreator fa := by
  unfold requireCreator HasRequired
  cases requiredCreator with
  | none => simp
  | some required => simp

/-- The records before the filter on creators. -/
theorem mem_collect_bareAsset {assets : List AssetModel}
    (hstored : ∀ a ∈ assets, db.asset.lookup a.1 = some a.2) {k : Bytes} {fa : FullAsset} :
    (k, fa) ∈ (IndexMap.collect (bareAsset ((scan db.assetData).filter fun d =>
        decide (d.1 ∈ assetIds))) assets).entries ↔
      ∃ asset ∈ assets, ∃ data, loadedData db assetIds asset = some data ∧ k = asset.1 ∧
        fa = { asset, data } := by
  rw [IndexMap.mem_collect]
  · simp only [bareAsset_eq, Option.map_eq_some_iff, Prod.mk.injEq]
    constructor
    · rintro ⟨a, ha, data, hdata, rfl, rfl⟩
      exact ⟨a, ha, data, hdata, rfl, rfl⟩
    · rintro ⟨a, ha, data, hdata, rfl, rfl⟩
      exact ⟨a, ha, data, hdata, rfl, rfl⟩
  · intro a ha b hb k v v' hv hv'
    simp only [bareAsset_eq, Option.map_eq_some_iff, Prod.mk.injEq] at hv hv'
    obtain ⟨d, hd, rfl, rfl⟩ := hv
    obtain ⟨d', hd', hkey, rfl⟩ := hv'
    -- an asset that was selected twice is one and the same row
    have hab : b = a := by
      have hrow := (hstored b hb).symm.trans (hkey ▸ hstored a ha)
      exact Prod.ext hkey (Option.some.inj hrow)
    subst hab
    rw [hd] at hd'
    rw [Option.some.inj hd']

/-- The stages after the filter on creators, on records to which nothing else was pushed yet. -/
def finished (assetIds : List Bytes) (k : Bytes) (fa : FullAsset) : FullAsset :=
  { fa with
    authorities := fa.authorities ++ (db.assetAuthority.lookup k).toList.map fun a => (k, a)
    tokenInfo := if options.showFungible then
      ((db.tokens.lookup k).map fun t => (k, t)).or fa.tokenInfo else fa.tokenInfo
    inscription := if options.showInscription then
      (attachmentUnder db assetIds k).or fa.inscription else fa.inscription
    groups := filterOutStaleAssetGroupings (fa.groups ++
      (shownGroupings db options.showUnverifiedCollections k).map (withMetadata db options)) }

theorem stages_eq :
    addGroups db options m.keys (addInscriptions db options assetIds
      (addTokenInfo db options m.keys (addAuthorities db m.keys m)))
      = m.mapValues (finished db options assetIds) := by
  rw [addAuthorities_eq db m (List.Subset.refl _), addTokenInfo_eq db options _ (by simp),
    addInscriptions_eq, addGroups_eq db options _ (by simp)]
  simp only [IndexMap.mapValues_mapValues]
  rfl

/-- **What a list query assembles.** -/
theorem mem_getRelatedForAssets {assets : List AssetModel} {requiredCreator : Option Bytes}
    (hstored : ∀ a ∈ assets, db.asset.lookup a.1 = some a.2) {fa : FullAsset} :
    fa ∈ getRelatedForAssets db assets options requiredCreator ↔
      ∃ asset ∈ assets, ∃ data, loadedData db (assets.map Prod.fst) asset = some data ∧
        fa = assembled db options (assets.map Prod.fst) asset data ∧ HasRequired requiredCreator fa := by
  simp only [getRelatedForAssets]
  rw [stages_eq, IndexMap.mem_values_mapValues]
  simp only [mem_requireCreator]
  rw [addCreators_eq db _ (List.Subset.refl _)]
  simp only [IndexMap.mem_mapValues, mem_collect_bareAsset db hstored]
  constructor
  · rintro ⟨k, fa₁, ⟨⟨fa₀, ⟨asset, hasset, data, hdata, rfl, rfl⟩, rfl⟩, hrequired⟩, rfl⟩
    refine ⟨asset, hasset, data, hdata, ?_, hrequired⟩
    simp [finished, assembled]
  · rintro ⟨asset, hasset, data, hdata, rfl, hrequired⟩
    refine ⟨asset.1, _, ⟨⟨_, ⟨asset, hasset, data, hdata, rfl, rfl⟩, rfl⟩, ?_⟩, ?_⟩
    · exact hrequired
    · simp [finished, assembled]

/-- An asset comes once, however often it was selected, and the records come in the order of the rows. -/
theorem ids_getRelatedForAssets (assets : List AssetModel) (requiredCreator : Option Bytes) :
    ((getRelatedForAssets db assets options requiredCreator).map fun fa => fa.asset.1).Nodup
      ∧ ((getRelatedForAssets db assets options requiredCreator).map fun fa => fa.asset.1).Sublist
        (assets.map Prod.fst) := by
  simp only [getRelatedForAssets]
  rw [stages_eq, addCreators_eq db _ (List.Subset.refl _)]
  set bare := IndexMap.collect (bareAsset ((scan db.assetData).filter fun d =>
    decide (d.1 ∈ assets.map Prod.fst))) assets with hbare
  set required := requireCreator requiredCreator (bare.mapValues fun k fa =>
    { fa with creators := filterOutStaleCreators (fa.creators ++ creatorsOf db k) }) with hreq
  have hkey : ∀ a k fa, bareAsset ((scan db.assetData).filter fun d =>
      decide (d.1 ∈ assets.map Prod.fst)) a = some (k, fa) → k = a.1 ∧ fa.asset.1 = k := by
    intro a k fa h
    obtain ⟨data, _, heq⟩ := Option.map_eq_some_iff.mp h
    obtain ⟨rfl, rfl⟩ := Prod.mk.inj heq
    exact ⟨rfl, rfl⟩
  have hids : (required.mapValues (finished db options (assets.map Prod.fst))).values.map
      (fun fa => fa.asset.1) = required.keys := by
    rw [IndexMap.values, IndexMap.entries_mapValues, List.map_map, List.map_map, IndexMap.keys]
    refine List.map_congr_left fun e he => ?_
    obtain ⟨hmem, _⟩ := (mem_requireCreator _).mp he
    obtain ⟨fa, hfa, heq⟩ := IndexMap.mem_mapValues.mp hmem
    obtain ⟨a, _, ha⟩ := IndexMap.exists_of_mem_collect hfa
    show e.2.asset.1 = e.1
    rw [heq]
    exact (hkey a e.1 fa ha).2
  have hsub : required.keys.Sublist bare.keys := by
    have hmap : (bare.mapValues fun k fa =>
        { fa with creators := filterOutStaleCreators (fa.creators ++ creatorsOf db k) }).keys = bare.keys :=
      IndexMap.keys_mapValues _ _
    rw [← hmap, hreq]
    unfold requireCreator
    split
    · exact List.filter_sublist.map _
    · exact List.Sublist.refl _
  rw [hids]
  exact ⟨required.nodup, hsub.trans (IndexMap.keys_collect_sublist (fun a k fa h => (hkey a k fa h).1) assets)⟩

/-! ### By grouping -/

variable {db} {options}

theorem mem_orderBy {sortBy : Option SortColumn} {sortDirection : Order} {rows : List AssetModel}
    {a : AssetModel} : a ∈ orderBy sortBy sortDirection rows ↔ a ∈ rows := by
  cases sortBy with
  | none => exact Iff.rfl
  | some column => exact List.mem_insertionSort _

section ByGrouping

variable {key value : String} {sortBy : Option SortColumn} {sortDirection : Order}
  {pagination : Pagination} {limit : ℕ}

/-- The rows that a query by grouping selects, in their order. -/
def groupingRows (db : Database) (key value : String) (sortBy : Option SortColumn) (sortDirection : Order)
    (options : Options) : List AssetModel :=
  orderBy sortBy sortDirection (selectRelated db (groupingsOf db) (groupingCondition key value options))

theorem getByGrouping_eq
    (huncut : Uncut pagination limit sortDirection (groupingRows db key value sortBy sortDirection options)) :
    getByGrouping db key value sortBy sortDirection pagination limit options
      = (getRelatedForAssets db (groupingRows db key value sortBy sortDirection options) options none).filter
        fun asset => asset.groups.any fun g =>
          decide (groupKey g.1.1 = key) && decide (g.1.2.groupValue = some value) := by
  rw [Uncut] at huncut
  rw [getByGrouping, getByRelatedCondition]
  rw [show orderBy sortBy sortDirection (selectRelated db (groupingsOf db)
    (groupingCondition key value options)) = groupingRows db key value sortBy sortDirection options from rfl,
    huncut]

theorem stored_of_mem_groupingRows :
    ∀ a ∈ groupingRows db key value sortBy sortDirection options, db.asset.lookup a.1 = some a.2 :=
  fun _ ha => (mem_selectRelated_groupings.mp (mem_orderBy.mp ha)).1

/-- The assets found by grouping: those with a row that matches, and to which the grouping still belongs. -/
theorem mem_getByGrouping
    (huncut : Uncut pagination limit sortDirection (groupingRows db key value sortBy sortDirection options))
    {fa : FullAsset} :
    fa ∈ getByGrouping db key value sortBy sortDirection pagination limit options ↔
      (∃ asset ∈ groupingRows db key value sortBy sortDirection options, ∃ data,
        loadedData db ((groupingRows db key value sortBy sortDirection options).map Prod.fst) asset
          = some data ∧
        fa = assembled db options ((groupingRows db key value sortBy sortDirection options).map Prod.fst)
          asset data) ∧
      ∃ g ∈ fa.groups, groupKey g.1.1 = key ∧ g.1.2.groupValue = some value := by
  rw [getByGrouping_eq huncut, List.mem_filter, mem_getRelatedForAssets db options stored_of_mem_groupingRows]
  simp [HasRequired]

theorem nodup_getByGrouping
    (huncut : Uncut pagination limit sortDirection (groupingRows db key value sortBy sortDirection options)) :
    ((getByGrouping db key value sortBy sortDirection pagination limit options).map
      fun fa => fa.asset.1).Nodup := by
  rw [getByGrouping_eq huncut]
  exact (ids_getRelatedForAssets db options _ none).1.sublist (List.filter_sublist.map _)

end ByGrouping

end DasIndexer.Dao
