import DasIndexer.Dao.Assembled
import DasIndexer.Lib.Base58
import DasIndexer.Lib.CursorPages

/-!
# Paging through a lookup

A client that does not want all assets at once asks for the first `limit`, and then again with the cursor of the
answer, which is the id of the last asset in it, until an answer comes without a cursor.

The limit cuts the rows of the query; the assets that have no metadata, or to which the group or the creator does
not belong any more, are dropped after that.  Where all rows of a page are dropped there is no cursor, and the
client stops though there is more to come (`page_of_dropped_rows`).  **`loses_nothing_iff`**: nothing is lost
exactly when no `limit` rows in a row are dropped before one that is not.
-/

namespace DasIndexer.Dao

open Sql CursorPages

/-! ### The loop of a client -/

/-- `asset::Column::Id`. -/
def byId : SortColumn := fun a b => decide (a.1 ≤ b.1)

inductive DasApiError where
  | cursorValidationError (cursor : String)
deriving DecidableEq

/-- `get_cursor`. -/
def getCursor (cursor : Option String) : Except DasApiError Cursor :=
  match cursor with
  | some cursor =>
    match Base58.decode cursor with
    | some id => .ok { id := some id }
    | none => .error (.cursorValidationError cursor)
  | none => .ok {}

/-- The cursor in `build_asset_response`, for a request that came with one or without any pagination. -/
def nextCursor (assets : List FullAsset) : Option String :=
  assets.getLast?.map fun asset => Base58.encode asset.asset.1

/-- The assets of answer after answer until one has no cursor; nothing if the fuel does not suffice or a cursor
is refused. -/
def pageThrough (call : Pagination → ℕ → List FullAsset) (limit : ℕ) : ℕ → Option String → Option (List FullAsset)
  | 0, _ => none
  | fuel + 1, cursor =>
    match getCursor cursor with
    | .error _ => none
    | .ok cursor =>
      let assets := call (.cursor cursor) limit
      match nextCursor assets with
      | none => some assets
      | some next => (pageThrough call limit fuel (some next)).map (assets ++ ·)

/-- The client gets to an end, and has then seen each asset that the call returns with whatever limit, once. -/
def LosesNothing (call : Pagination → ℕ → List FullAsset) (limit : ℕ) : Prop :=
  ∃ fuel items, pageThrough call limit fuel none = some items
    ∧ ∀ unbounded, ∀ asset ∈ call (.cursor {}) unbounded, (items.map fun a => a.asset.1).count asset.asset.1 = 1

/-! ### The three lookups -/

inductive Lookup where
  | group (key value : String)
  | creator (creator : Bytes) (onlyVerified : Bool)
  | owner (owner : Bytes)

namespace Lookup

variable (db : Database) (options : Options)

/-- The call of a lookup, sorted by id. -/
def call (sortDirection : Order) : Lookup → Pagination → ℕ → List FullAsset
  | .group key value => fun pagination limit =>
    getByGrouping db key value (some byId) sortDirection pagination limit options
  | .creator address onlyVerified => fun pagination limit =>
    getByCreator db address onlyVerified (some byId) sortDirection pagination limit options
  | .owner address => fun pagination limit =>
    getAssetsByOwner db address (some byId) sortDirection pagination limit options

/-- The rows that its query selects. -/
def selected : Lookup → List AssetModel
  | .group key value => selectRelated db (groupingsOf db) (groupingCondition key value options)
  | .creator address onlyVerified =>
    selectRelated db (fun a => (scan db.assetCreators).filter fun c => decide (c.1.1 = a.1))
      (fun a c => and (and (eq (c.map fun c => c.2.creator) (some address)) (hasSupply a))
        (if onlyVerified then eq (c.map fun c => c.2.verified) (some true) else some true))
  | .owner address => (scan db.asset).filter fun a => holds (and (eq a.2.owner (some address)) (hasSupply a))

/-- The rows in the order of their ids. -/
def rows (sortDirection : Order) (lookup : Lookup) : List AssetModel :=
  orderBy (some byId) sortDirection (lookup.selected db options)

/-- What is made of a page of rows. -/
def assemble (lookup : Lookup) (page : List AssetModel) : List FullAsset :=
  match lookup with
  | .group key value => (getRelatedForAssets db page options none).filter fun asset =>
      asset.groups.any fun g => decide (groupKey g.1.1 = key) && decide (g.1.2.groupValue = some value)
  | .creator address _ => getRelatedForAssets db page options (some address)
  | .owner _ => getRelatedForAssets db page options none

theorem call_eq (sortDirection : Order) (lookup : Lookup) (pagination : Pagination) (limit : ℕ) :
    lookup.call db options sortDirection pagination limit
      = lookup.assemble db options (paginate pagination limit sortDirection Prod.fst
        (lookup.rows db options sortDirection)) := by
  cases lookup <;> rfl

/-- What the lookup looks for still belongs to the asset. -/
def StillHolds (lookup : Lookup) (id : Bytes) : Prop :=
  match lookup with
  | .group key value => ∃ g ∈ filterOutStaleAssetGroupings
      ((shownGroupings db options.showUnverifiedCollections id).map (withMetadata db options)),
      groupKey g.1.1 = key ∧ g.1.2.groupValue = some value
  | .creator address _ => ∃ c ∈ filterOutStaleCreators (creatorsOf db id), c.2.creator = address
  | .owner _ => True

/-- An asset survives on a page: its metadata is that of an asset of the page, and it still has what was looked
for. -/
def Survives (lookup : Lookup) (page : List AssetModel) (id : Bytes) : Prop :=
  ∃ asset ∈ page, asset.1 = id ∧ (∃ dataId ∈ page.map Prod.fst, asset.2.assetData = some dataId
    ∧ (db.assetData.lookup dataId).isSome = true) ∧ lookup.StillHolds db options id

/-- An asset has metadata under its own id, and it still has what was looked for. -/
def Kept (lookup : Lookup) (id : Bytes) : Prop :=
  (∃ asset, db.asset.lookup id = some asset ∧ asset.assetData = some id)
    ∧ (db.assetData.lookup id).isSome = true ∧ lookup.StillHolds db options id

end Lookup

/-! ### Rows and pages -/

/-- An id comes before another. -/
def Precedes : Order → Bytes → Bytes → Prop
  | .asc, a, b => a < b
  | .desc, a, b => b < a

instance (sortDirection : Order) : DecidableRel (Precedes sortDirection) := fun a b =>
  match sortDirection with
  | .asc => inferInstanceAs (Decidable (a < b))
  | .desc => inferInstanceAs (Decidable (b < a))

instance (sortDirection : Order) : IsStrictTotalOrder Bytes (Precedes sortDirection) where
  trichotomous a b hab hba := by
    cases sortDirection with
    | asc => exact List.le_antisymm (List.not_lt.mp hba) (List.not_lt.mp hab)
    | desc => exact List.le_antisymm (List.not_lt.mp hab) (List.not_lt.mp hba)
  irrefl a := by
    cases sortDirection with
    | asc => exact List.lt_irrefl a
    | desc => exact List.lt_irrefl a
  trans a b c hab hbc := by
    cases sortDirection with
    | asc => exact List.lt_trans hab hbc
    | desc => exact List.lt_trans hbc hab

theorem paginate_start {sortDirection : Order} {rows : List AssetModel} (limit : ℕ) :
    paginate (.cursor {}) limit sortDirection Prod.fst rows = rows.take limit := rfl

/-- A page after a cursor. -/
theorem paginate_after {sortDirection : Order} {rows : List AssetModel} (c : Bytes) (limit : ℕ) :
    paginate (.cursor { id := some c }) limit sortDirection Prod.fst rows
      = (after Prod.fst (Precedes sortDirection) c rows).take limit := by
  cases sortDirection <;> rfl

/-- The order of the ids, in a direction. -/
theorem inOrder_byId {sortDirection : Order} {a b : AssetModel} :
    inOrder byId sortDirection a b = true ↔ ¬ Precedes sortDirection b.1 a.1 := by
  cases sortDirection with
  | asc =>
    simp only [inOrder, byId, Bool.and_eq_true, Bool.or_eq_true, decide_eq_true_eq]
    exact ⟨fun h => List.not_lt.mpr h.1, fun h => ⟨List.not_lt.mp h, Or.inr (List.not_lt.mp h)⟩⟩
  | desc =>
    simp only [inOrder, byId, Bool.and_eq_true, Bool.or_eq_true, decide_eq_true_eq]
    exact ⟨fun h => List.not_lt.mpr h.1, fun h => ⟨List.not_lt.mp h, Or.inr (List.not_lt.mp h)⟩⟩

theorem sorted_orderBy (sortDirection : Order) (rows : List AssetModel) :
    (orderBy (some byId) sortDirection rows).Pairwise fun x y => ¬ Precedes sortDirection y.1 x.1 := by
  have htotal : Std.Total fun a b : AssetModel => inOrder byId sortDirection a b = true := by
    constructor
    intro a b
    rw [inOrder_byId, inOrder_byId]
    by_cases hab : Precedes sortDirection b.1 a.1
    · exact Or.inr fun hba => irrefl_of _ a.1 (trans_of (Precedes sortDirection) hba hab)
    · exact Or.inl hab
  have htrans : IsTrans AssetModel fun a b => inOrder byId sortDirection a b = true := by
    constructor
    intro a b c
    rw [inOrder_byId, inOrder_byId, inOrder_byId]
    intro hab hbc hca
    rcases trichotomous_of (Precedes sortDirection) a.1 b.1 with hlt | heq | hgt
    · exact hbc (trans_of (Precedes sortDirection) hca hlt)
    · exact hbc (heq ▸ hca)
    · exact hab hgt
  exact (List.pairwise_insertionSort _ rows).imp fun {a b} h => inOrder_byId.mp h

theorem stored_of_mem_selectRelated {β : Type} {db : Database} {related : AssetModel → List β}
    {condition : AssetModel → Option β → Truth} {a : AssetModel} (h : a ∈ selectRelated db related condition) :
    db.asset.lookup a.1 = some a.2 := by
  obtain ⟨e, he, rfl⟩ := List.mem_map.mp h
  obtain ⟨b, hb, hmem⟩ := List.mem_flatMap.mp (List.mem_of_mem_filter he)
  have hfst : e.1 = b := by
    split at hmem
    · rw [List.mem_singleton.mp hmem]
    · obtain ⟨r, _, rfl⟩ := List.mem_map.mp hmem
      rfl
  rw [hfst]
  exact (mem_scan _ _ _).mp hb

namespace Lookup

variable {db options}
variable {lookup : Lookup} {sortDirection : Order}

theorem stored_of_mem_rows {a : AssetModel} (h : a ∈ lookup.rows db options sortDirection) :
    db.asset.lookup a.1 = some a.2 := by
  have hselected : a ∈ lookup.selected db options := mem_orderBy.mp h
  cases lookup with
  | group key value => exact stored_of_mem_selectRelated hselected
  | creator address onlyVerified =>
    unfold selected at hselected
    exact stored_of_mem_selectRelated hselected
  | owner address => exact (mem_scan _ _ _).mp (List.mem_of_mem_filter hselected)

/-- The ids of the assets on a page. -/
def items (db : Database) (options : Options) (lookup : Lookup) (page : List AssetModel) : List Bytes :=
  (lookup.assemble db options page).map fun asset => asset.asset.1

variable (db options lookup) in
theorem items_sublist (page : List AssetModel) :
    (lookup.items db options page).Nodup ∧ (lookup.items db options page).Sublist (page.map Prod.fst) := by
  cases lookup with
  | group key value =>
    obtain ⟨hnodup, hsub⟩ := ids_getRelatedForAssets db options page none
    have hfilter := (List.filter_sublist (l := getRelatedForAssets db page options none)
      (p := fun asset => asset.groups.any fun g =>
        decide (groupKey g.1.1 = key) && decide (g.1.2.groupValue = some value))).map fun asset => asset.asset.1
    exact ⟨hnodup.sublist hfilter, hfilter.trans hsub⟩
  | creator address onlyVerified => exact ids_getRelatedForAssets db options page (some address)
  | owner address => exact ids_getRelatedForAssets db options page none

variable (db options lookup sortDirection) in
theorem assembles : Assembles Prod.fst (Precedes sortDirection) (lookup.items db options) := by
  constructor
  · intro page k hk
    exact List.mem_map.mp ((items_sublist db options lookup page).2.subset hk)
  · intro page hsorted
    obtain ⟨hnodup, hsub⟩ := items_sublist db options lookup page
    have hle : (lookup.items db options page).Pairwise fun a b => ¬ Precedes sortDirection b a :=
      List.Pairwise.sublist hsub (List.pairwise_map.mpr hsorted)
    refine (hle.and hnodup).imp fun {a b} ⟨hnot, hne⟩ => ?_
    exact ((trichotomous_of (Precedes sortDirection) a b).resolve_right fun h => h.elim hne hnot)

/-- The records of a page with a property come from the assets whose metadata is loaded. -/
theorem exists_related_iff {page : List AssetModel} (hstored : ∀ a ∈ page, db.asset.lookup a.1 = some a.2)
    (id : Bytes) (requiredCreator : Option Bytes) (p : FullAsset → Prop) :
    (∃ fa ∈ getRelatedForAssets db page options requiredCreator, p fa ∧ fa.asset.1 = id) ↔
      ∃ asset ∈ page, asset.1 = id ∧ ∃ data, loadedData db (page.map Prod.fst) asset = some data
        ∧ HasRequired requiredCreator (assembled db options (page.map Prod.fst) asset data)
        ∧ p (assembled db options (page.map Prod.fst) asset data) := by
  constructor
  · intro ⟨fa, hfa, hp, hid⟩
    obtain ⟨asset, hasset, data, hdata, rfl, hrequired⟩ := (mem_getRelatedForAssets db options hstored).mp hfa
    exact ⟨asset, hasset, hid, data, hdata, hrequired, hp⟩
  · intro ⟨asset, hasset, hid, data, hdata, hrequired, hp⟩
    exact ⟨_, (mem_getRelatedForAssets db options hstored).mpr ⟨asset, hasset, data, hdata, rfl, hrequired⟩,
      hp, hid⟩

/-- What the lookup looks for does not depend on the page. -/
theorem mem_items_iff_loaded {page : List AssetModel} (hstored : ∀ a ∈ page, db.asset.lookup a.1 = some a.2)
    (id : Bytes) : id ∈ lookup.items db options page ↔ ∃ asset ∈ page, asset.1 = id ∧ ∃ data,
      loadedData db (page.map Prod.fst) asset = some data ∧ lookup.StillHolds db options id := by
  cases lookup with
  | group key value =>
    have h := @exists_related_iff db options page hstored id none fun fa =>
      ∃ g ∈ fa.groups, groupKey g.1.1 = key ∧ g.1.2.groupValue = some value
    constructor
    · intro hid
      obtain ⟨fa, hfa, rfl⟩ := List.mem_map.mp hid
      obtain ⟨hfa, hgroup⟩ := List.mem_filter.mp hfa
      have hgroup' : ∃ g ∈ fa.groups, groupKey g.1.1 = key ∧ g.1.2.groupValue = some value := by
        simpa only [List.any_eq_true, Bool.and_eq_true, decide_eq_true_eq] using hgroup
      obtain ⟨asset, hasset, hid, data, hdata, _, hholds⟩ := h.mp ⟨fa, hfa, hgroup', rfl⟩
      exact ⟨asset, hasset, hid, data, hdata, hid ▸ hholds⟩
    · rintro ⟨asset, hasset, rfl, data, hdata, hholds⟩
      obtain ⟨fa, hfa, hgroup, hid⟩ := h.mpr ⟨asset, hasset, rfl, data, hdata, nofun, hholds⟩
      refine List.mem_map.mpr ⟨fa, List.mem_filter.mpr ⟨hfa, ?_⟩, hid⟩
      simpa only [List.any_eq_true, Bool.and_eq_true, decide_eq_true_eq] using hgroup
  | creator address onlyVerified =>
    have h := @exists_related_iff db options page hstored id (some address) fun _ => True
    constructor
    · intro hid
      obtain ⟨fa, hfa, rfl⟩ := List.mem_map.mp hid
      obtain ⟨asset, hasset, hid, data, hdata, hrequired, _⟩ := h.mp ⟨fa, hfa, trivial, rfl⟩
      exact ⟨asset, hasset, hid, data, hdata, hid ▸ hrequired address rfl⟩
    · rintro ⟨asset, hasset, rfl, data, hdata, hholds⟩
      have hrequired : HasRequired (some address) (assembled db options (page.map Prod.fst) asset data) := by
        intro required heq
        obtain rfl := Option.some.inj heq
        exact hholds
      obtain ⟨fa, hfa, _, hid⟩ := h.mpr ⟨asset, hasset, rfl, data, hdata, hrequired, trivial⟩
      exact List.mem_map.mpr ⟨fa, hfa, hid⟩
  | owner address =>
    have h := @exists_related_iff db options page hstored id none fun _ => True
    constructor
    · intro hid
      obtain ⟨fa, hfa, rfl⟩ := List.mem_map.mp hid
      obtain ⟨asset, hasset, hid, data, hdata, _⟩ := h.mp ⟨fa, hfa, trivial, rfl⟩
      exact ⟨asset, hasset, hid, data, hdata, trivial⟩
    · intro ⟨asset, hasset, hid, data, hdata, _⟩
      obtain ⟨fa, hfa, _, hid⟩ := h.mpr ⟨asset, hasset, hid, data, hdata, nofun, trivial⟩
      exact List.mem_map.mpr ⟨fa, hfa, hid⟩

/-- **Which assets are on a page.** -/
theorem mem_items {page : List AssetModel} (hstored : ∀ a ∈ page, db.asset.lookup a.1 = some a.2) (id : Bytes) :
    id ∈ lookup.items db options page ↔ lookup.Survives db options page id := by
  rw [mem_items_iff_loaded hstored]
  constructor
  · intro ⟨asset, hasset, hid, data, hdata, hholds⟩
    exact ⟨asset, hasset, hid, (exists_loadedData_iff db).mp ⟨data, hdata⟩, hholds⟩
  · intro ⟨asset, hasset, hid, hdata, hholds⟩
    obtain ⟨data, hdata⟩ := (exists_loadedData_iff db).mpr hdata
    exact ⟨asset, hasset, hid, data, hdata, hholds⟩

/-- An asset that survives on a page survives among all rows. -/
theorem Survives.mono {page rows : List AssetModel} (hsub : page ⊆ rows) {id : Bytes}
    (h : lookup.Survives db options page id) : lookup.Survives db options rows id := by
  obtain ⟨asset, hasset, hid, ⟨dataId, hmem, hdata⟩, hholds⟩ := h
  exact ⟨asset, hsub hasset, hid, ⟨dataId, List.map_subset _ hsub hmem, hdata⟩, hholds⟩

/-- The loop of the client is the loop over the rows. -/
theorem pageThrough_ids (limit fuel : ℕ) {cursor : Option String} {c : Cursor} {rest : List AssetModel}
    (hcursor : getCursor cursor = .ok c)
    (hpage : ∀ limit, paginate (.cursor c) limit sortDirection Prod.fst (lookup.rows db options sortDirection)
      = rest.take limit)
    (hafter : ∀ x ∈ rest, after Prod.fst (Precedes sortDirection) x.1 rest
      = after Prod.fst (Precedes sortDirection) x.1 (lookup.rows db options sortDirection)) :
    (pageThrough (lookup.call db options sortDirection) limit fuel cursor).map
        (fun items => items.map fun a => a.asset.1)
      = pages Prod.fst (Precedes sortDirection) (lookup.items db options) limit fuel rest := by
  induction fuel generalizing cursor c rest with
  | zero => rfl
  | succ fuel ih =>
    have hcall : lookup.call db options sortDirection (.cursor c) limit
        = lookup.assemble db options (rest.take limit) := by rw [call_eq, hpage]
    rw [pageThrough, hcursor, pages]
    dsimp only
    rw [hcall, items, List.getLast?_map, nextCursor]
    cases hlast : (lookup.assemble db options (rest.take limit)).getLast? with
    | none =>
      rw [List.getLast?_eq_none_iff.mp hlast]
      rfl
    | some asset =>
      have hmem : asset.asset.1 ∈ lookup.items db options (rest.take limit) :=
        List.mem_map_of_mem (List.mem_of_getLast? hlast)
      obtain ⟨x, hx, hkey⟩ := (assembles db options lookup sortDirection).mem _ _ hmem
      have hrest := hafter x (List.mem_of_mem_take hx)
      rw [hkey] at hrest
      have hdecoded : getCursor (some (Base58.encode asset.asset.1)) = .ok { id := some asset.asset.1 } := by
        rw [getCursor, Base58.decode_encode]
      have hpage' : ∀ limit, paginate (.cursor { id := some asset.asset.1 }) limit sortDirection Prod.fst
          (lookup.rows db options sortDirection)
          = (after Prod.fst (Precedes sortDirection) asset.asset.1 rest).take limit := by
        intro limit
        rw [paginate_after, hrest]
      have hnext := ih hdecoded hpage' (fun y hy => by
        rw [after_after (mem_after.mp hy).2]
        exact hafter y (mem_after.mp hy).1)
      show ((pageThrough _ limit fuel (some (Base58.encode asset.asset.1))).map _).map _
        = (pages _ _ _ limit fuel _).map _
      rw [← hnext, Option.map_map, Option.map_map]
      congr 1
      funext items
      exact List.map_append

theorem mem_items_of_subset_rows {page : List AssetModel}
    (hsub : page ⊆ lookup.rows db options sortDirection) (id : Bytes) :
    id ∈ lookup.items db options page ↔ lookup.Survives db options page id :=
  mem_items (fun _ ha => stored_of_mem_rows (hsub ha)) id

/-- To see once every asset of the unbounded first page is to see the wanted rows. -/
theorem seen_once_iff {wanted : Bytes → Prop} {out : List Bytes} (hnodup : out.Nodup)
    (hwanted : ∀ x ∈ lookup.rows db options sortDirection, wanted x.1 ↔
      lookup.Survives db options (lookup.rows db options sortDirection) x.1) :
    (∀ unbounded, ∀ asset ∈ lookup.call db options sortDirection (.cursor {}) unbounded,
      out.count asset.asset.1 = 1) ↔
    ∀ x ∈ lookup.rows db options sortDirection, wanted x.1 → x.1 ∈ out := by
  have hcall : ∀ unbounded, lookup.call db options sortDirection (.cursor {}) unbounded
      = lookup.assemble db options ((lookup.rows db options sortDirection).take unbounded) := by
    intro unbounded
    rw [call_eq, paginate_start]
  constructor
  · intro hall x hx hw
    have hmem := (mem_items_of_subset_rows (List.Subset.refl _) x.1).mpr ((hwanted x hx).mp hw)
    obtain ⟨asset, hasset, hid⟩ := List.mem_map.mp hmem
    have hcount := hall (lookup.rows db options sortDirection).length asset (by
      rw [hcall, List.take_length]
      exact hasset)
    rw [hid] at hcount
    exact List.count_pos_iff.mp (by omega)
  · intro hall unbounded asset hasset
    rw [hcall] at hasset
    have hsub : (lookup.rows db options sortDirection).take unbounded
        ⊆ lookup.rows db options sortDirection := fun x hx => List.mem_of_mem_take hx
    have hsurvives :=
      ((mem_items_of_subset_rows hsub asset.asset.1).mp (List.mem_map_of_mem hasset)).mono hsub
    obtain ⟨x, hx, hid, _⟩ := id hsurvives
    refine List.count_eq_one_of_mem hnodup ?_
    rw [← hid] at hsurvives ⊢
    exact hall x hx ((hwanted x hx).mpr hsurvives)

variable (db options lookup sortDirection) in
/-- The client has seen all that it wants exactly when the rows are paged out. -/
theorem losesNothing_iff (limit : ℕ) {wanted : Bytes → Prop}
    (hwanted : ∀ x ∈ lookup.rows db options sortDirection, wanted x.1 ↔
      lookup.Survives db options (lookup.rows db options sortDirection) x.1) :
    LosesNothing (lookup.call db options sortDirection) limit ↔
      PagedOut Prod.fst (Precedes sortDirection) limit (lookup.Survives db options) wanted
        (lookup.rows db options sortDirection) := by
  set rows := lookup.rows db options sortDirection with hrows
  have hitems : ∀ page, page ⊆ rows → ∀ k, k ∈ lookup.items db options page ↔
      lookup.Survives db options page k := fun _ => mem_items_of_subset_rows
  have hsorted : rows.Pairwise fun x y => ¬ Precedes sortDirection y.1 x.1 := sorted_orderBy _ _
  have hids : ∀ fuel, (pageThrough (lookup.call db options sortDirection) limit fuel none).map
      (fun items => items.map fun a => a.asset.1)
      = pages Prod.fst (Precedes sortDirection) (lookup.items db options) limit fuel rows :=
    fun fuel => pageThrough_ids limit fuel rfl (fun _ => rfl) fun _ _ => rfl
  have hnodup : ∀ {fuel out},
      pages Prod.fst (Precedes sortDirection) (lookup.items db options) limit fuel rows = some out →
      out.Nodup := pages_nodup (assembles db options lookup sortDirection) hsorted
  constructor
  · intro ⟨fuel, items, hrun, hall⟩
    have hout : pages Prod.fst (Precedes sortDirection) (lookup.items db options) limit fuel rows
        = some (items.map fun a => a.asset.1) := by
      rw [← hids fuel, hrun]
      rfl
    exact (mem_pages_iff (assembles db options lookup sortDirection) hitems (List.Subset.refl _)
      hsorted hout).mp ((seen_once_iff (hnodup hout) hwanted).mp hall)
  · intro hpaged
    obtain ⟨out, hout⟩ :=
      pages_isSome (assembles db options lookup sortDirection) limit (Nat.lt_succ_self rows.length)
    obtain ⟨items, hrun, rfl⟩ := Option.map_eq_some_iff.mp ((hids _).trans hout)
    exact ⟨_, items, hrun, (seen_once_iff (hnodup hout) hwanted).mpr
      ((mem_pages_iff (assembles db options lookup sortDirection) hitems (List.Subset.refl _)
        hsorted hout).mpr hpaged)⟩

/-- Where the metadata of the assets stands under their own ids, whether one survives does not depend on the
page. -/
theorem survives_iff {page : List AssetModel} (hstored : ∀ a ∈ page, db.asset.lookup a.1 = some a.2)
    (hown : ∀ a ∈ page, ∀ dataId, a.2.assetData = some dataId → dataId = a.1) (id : Bytes) :
    lookup.Survives db options page id ↔ lookup.Kept db options id ∧ ∃ x ∈ page, x.1 = id := by
  constructor
  · rintro ⟨asset, hasset, rfl, ⟨dataId, _, hdata, hsome⟩, hholds⟩
    obtain rfl := hown asset hasset dataId hdata
    exact ⟨⟨⟨asset.2, hstored asset hasset, hdata⟩, hsome, hholds⟩, asset, hasset, rfl⟩
  · rintro ⟨⟨⟨row, hrow, hdata⟩, hsome, hholds⟩, x, hx, rfl⟩
    obtain rfl : x.2 = row := Option.some.inj ((hstored x hx).symm.trans hrow)
    exact ⟨x, hx, rfl, ⟨x.1, List.mem_map_of_mem hx, hdata, hsome⟩, hholds⟩

end Lookup

/-- **When paging by cursor loses nothing**: exactly when the rows of the query are paged out; and where the
assets have their metadata under their own ids, exactly when no `limit` successive rows are of assets that are
dropped while a row of one that is kept comes later. -/
theorem loses_nothing_iff (db : Database) (options : Options) (lookup : Lookup) (sortDirection : Order)
    (limit : ℕ) (hlimit : 1 ≤ limit) :
    (LosesNothing (lookup.call db options sortDirection) limit ↔
      PagedOut Prod.fst (Precedes sortDirection) limit (lookup.Survives db options)
        (lookup.Survives db options (lookup.rows db options sortDirection)) (lookup.rows db options sortDirection))
    ∧ ((∀ a ∈ lookup.rows db options sortDirection, ∀ dataId, a.2.assetData = some dataId → dataId = a.1) →
      (LosesNothing (lookup.call db options sortDirection) limit ↔
        NoStretch Prod.fst limit (lookup.Kept db options) (lookup.rows db options sortDirection))) := by
  constructor
  · exact lookup.losesNothing_iff db options sortDirection limit fun x _ => Iff.rfl
  · intro hown
    have hkept : ∀ page, page ⊆ lookup.rows db options sortDirection → ∀ id,
        lookup.Survives db options page id ↔ lookup.Kept db options id ∧ ∃ x ∈ page, x.1 = id :=
      fun page hsub id => Lookup.survives_iff (fun a ha => Lookup.stored_of_mem_rows (hsub ha))
        (fun a ha => hown a (hsub ha)) id
    rw [lookup.losesNothing_iff db options sortDirection limit fun x hx => by
      rw [hkept _ (List.Subset.refl _)]
      exact ⟨fun h => ⟨h, x, hx, rfl⟩, fun h => h.1⟩]
    exact pagedOut_iff hkept hlimit (List.Subset.refl _) (sorted_orderBy _ _)

/-! ### Two assets of one owner -/

/-- An asset whose metadata has not been stored yet. -/
def bare : Bytes := (Pubkey.fill 1).bytes

def described : Bytes := (Pubkey.fill 2).bytes

def holder : Bytes := (Pubkey.fill 3).bytes

/-- Two assets of one owner, of which the second has its metadata. -/
def twoHeld : Database where
  asset := (AList.singleton described { owner := some holder, assetData := some described }).insert bare
    { owner := some holder, assetData := some bare }
  assetData := AList.singleton described
    { chainDataMutability := .mutable, chainData := .obj []
      metadataUrl := ⟨"https://metadata", Nat.le_of_ble_eq_true rfl⟩,
      metadataMutability := .mutable, metadata := .str "processing", slotUpdated := 5, reindex := some true,
      rawName := none, rawSymbol := none, baseInfoSeq := some 0 }

/-- In pages of two, nothing is lost. -/
theorem pages_of_two : 1 ≤ 2 ∧ LosesNothing ((Lookup.owner holder).call twoHeld {} .asc) 2 := by
  refine ⟨by decide, ((loses_nothing_iff twoHeld {} (.owner holder) .asc 2 (by decide)).2 ?_).mpr ?_⟩
  · intro a ha dataId hdata
    have hrows : (Lookup.owner holder).rows twoHeld {} .asc
        = [(bare, { owner := some holder, assetData := some bare }),
          (described, { owner := some holder, assetData := some described })] := rfl
    rw [hrows] at ha
    rcases List.mem_cons.mp ha with rfl | ha
    · exact (Option.some.inj hdata).symm
    · obtain rfl := List.mem_singleton.mp ha
      exact (Option.some.inj hdata).symm
  · intro pre mid post hrows hmid _ x hx
    have hlength : ((Lookup.owner holder).rows twoHeld {} .asc).length = 2 := rfl
    have hpos := List.length_pos_of_mem hx
    rw [hrows, List.length_append, List.length_append] at hlength
    omega

/-- In pages of one, the first is without an asset and so without a cursor, and the other asset is not found. -/
theorem page_of_dropped_rows :
    ¬ ∀ (db : Database) (options : Options) (lookup : Lookup) (sortDirection : Order) (limit : ℕ), 1 ≤ limit →
      LosesNothing (lookup.call db options sortDirection) limit := by
  intro hall
  obtain ⟨fuel, items, hrun, honce⟩ := hall twoHeld {} (.owner holder) .asc 1 (by decide)
  have hitems : items = [] := by
    cases fuel with
    | zero => cases hrun
    | succ fuel => exact (Option.some.inj hrun).symm
  have hids : ((Lookup.owner holder).call twoHeld {} .asc (.cursor {}) 2).map (fun a => a.asset.1)
      = [described] := rfl
  obtain ⟨asset, hasset, _⟩ := List.mem_map.mp (hids ▸ List.mem_singleton_self described)
  have hcount := honce 2 asset hasset
  rw [hitems] at hcount
  cases hcount

end DasIndexer.Dao
