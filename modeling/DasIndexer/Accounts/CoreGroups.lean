import DasIndexer.Accounts.MplCore
import DasIndexer.Dao.Assembled
import DasIndexer.Lib.LatestRows

/-!
# Collections and groups of Core accounts

A Core account carries at most one collection and any number of groups.  The collection is one row that is
rewritten; each group has a row of its own that is never deleted, and an account without groups writes a
row without a value.  A group that was left is recognised when it is read: its row is older than the newest
one of the account.

The reader drops it in Rust (`filterOutStaleAssetGroupings`) and in SQL (the `MAX` in `getGrouping`).  Both
agree with what the newest update of each account carries, in whatever order and however often the updates
came: **`groups_read_back`**.  An update whose URI is too long for its column does not count: its
transaction is dropped, and the groups of an older one stay (`long_uri_keeps_older_groups`).
-/

namespace DasIndexer.Accounts.CoreGroups

open Sql Session LatestRows
open MplCore (Kind IndexableAsset groupValues collectionRow groupRows saveEffect)
open Dao (GroupingModel AssetModel Options SortColumn Pagination Order)

/-! ### Updates -/

/-- An update of a Core asset, collection or group. -/
structure Update where
  id : Pubkey
  kind : Kind
  asset : IndexableAsset
  slot : ℕ

namespace Update

variable (E : MplCore.Env)

def handle (u : Update) : Handler Unit :=
  MplCore.handleMplCoreAccount E u.id u.slot (u.kind.accountData u.asset)

def effect (u : Update) : Database → Database := saveEffect E u.id u.kind u.asset u.slot

theorem handle_leaves (u : Update) : Session.Leaves (u.handle E) (u.effect E) := by
  rw [handle, MplCore.handleMplCoreAccount_accountData]
  exact MplCore.saveAndNotify_leaves E u.id u.kind u.asset u.slot

/-- The collection that an update carries. -/
def collection? (u : Update) : Option String :=
  match u.asset.updateAuthority with
  | .collection address => some address.toString
  | _ => none

/-- The collection and the groups that an update carries, under their keys. -/
def carried (u : Update) : List (String × String) :=
  (u.collection?.toList.map fun v => ("collection", v))
    ++ (groupValues u.kind u.asset).map fun v => ("group", v)

/-- The rows that an update proposes. -/
def rows (u : Update) : List GroupingModel :=
  (.collection u.id.bytes, (collectionRow u.asset u.slot).new)
    :: (groupRows u.id u.kind u.asset u.slot).map fun e => (e.1, e.2.new)

end Update

/-- Updates in the order in which they are processed, repetitions included: of one account, those of the
same slot are the same, and none names a group twice. -/
structure Delivered (us : List Update) : Prop where
  slots : ∀ u ∈ us, ∀ v ∈ us, u.id = v.id → u.slot = v.slot → u = v
  groups : ∀ u ∈ us, (groupValues u.kind u.asset).Nodup

/-- The updates that are stored: those whose URI fits its column. -/
def fitting (us : List Update) : List Update := us.filter fun u => decide u.asset.Fits

theorem mem_fitting {us : List Update} {u : Update} : u ∈ fitting us ↔ u ∈ us ∧ u.asset.Fits := by
  simp [fitting]

theorem fitting_append_singleton (us : List Update) (u : Update) :
    fitting (us ++ [u]) = if u.asset.Fits then fitting us ++ [u] else fitting us := by
  rw [fitting, List.filter_append, List.filter_singleton]
  by_cases h : u.asset.Fits
  · simp [fitting, h]
  · simp [fitting, h]

theorem Delivered.fitting {us : List Update} (h : Delivered us) : Delivered (fitting us) where
  slots u hu v hv := h.slots u (mem_fitting.mp hu).1 v (mem_fitting.mp hv).1
  groups u hu := h.groups u (mem_fitting.mp hu).1

/-- The update of its account with the highest slot. -/
def Newest (us : List Update) (u : Update) : Prop := u ∈ us ∧ ∀ v ∈ us, v.id = u.id → v.slot ≤ u.slot

/-! ### The rows of a run -/

def stamp (r : AssetGroupingRow) : ℤ := r.slotUpdated.getD 0

/-- The rows of an account: with a slot. -/
def HasSlot (r : AssetGroupingRow) : Prop := r.slotUpdated.isSome = true

theorem stamped_accountGrouping (value : Option String) (verified : Bool) (slot : ℕ) :
    Stamped stamp HasSlot (accountGrouping value verified slot) (accountGrouping value verified slot).new where
  new := rfl
  set _ _ := rfl
  guard r hr := by
    obtain ⟨s, hs⟩ := Option.isSome_iff_exists.mp hr
    simp [accountGrouping, Bubblegum.notOlder, stamp, hs]
  valid := rfl

theorem stamped_collectionRow (a : IndexableAsset) (slot : ℕ) :
    Stamped stamp HasSlot (collectionRow a slot) (collectionRow a slot).new := by
  unfold collectionRow
  split
  · exact stamped_accountGrouping _ _ _
  · exact stamped_accountGrouping _ _ _

theorem stamped_groupRows (id : Pubkey) (kind : Kind) (a : IndexableAsset) (slot : ℕ) :
    ∀ e ∈ groupRows id kind a slot, Stamped stamp HasSlot e.2 e.2.new := by
  intro e he
  unfold groupRows at he
  dsimp only at he
  split at he
  · rw [List.mem_singleton.mp he]
    exact stamped_accountGrouping _ _ _
  · obtain ⟨v, _, rfl⟩ := List.mem_map.mp he
    exact stamped_accountGrouping _ _ _

/-- **The groupings after a run** are newest among the rows that its stored updates proposed. -/
theorem latest_groupings (E : MplCore.Env) (us : List Update) :
    Latest stamp HasSlot (afterAll (Update.handle E) us Database.empty).assetGrouping
      ((fitting us).flatMap Update.rows) := by
  induction us using List.reverseRecOn with
  | nil => exact Latest.empty
  | append_singleton us u ih =>
    rw [afterAll_append, afterAll_cons, afterAll_nil, (u.handle_leaves E).after_eq, fitting_append_singleton,
      Update.effect, MplCore.saveEffect_assetGrouping]
    by_cases hfits : u.asset.Fits
    · rw [if_pos hfits, if_pos hfits, List.flatMap_append, List.flatMap_singleton]
      have hnext := (ih.upsert (.collection u.id.bytes) (stamped_collectionRow u.asset u.slot)).upsertAll
        (stamped_groupRows u.id u.kind u.asset u.slot)
      rw [List.append_assoc, List.singleton_append] at hnext
      exact hnext
    · rw [if_neg hfits, if_neg hfits]
      exact ih

/-! ### Seen from one account -/

/-- The values under which an update has a row: its groups, or the absent value. -/
def groupSlots (u : Update) : List (Option String) :=
  if (groupValues u.kind u.asset).isEmpty then [none] else (groupValues u.kind u.asset).map some

theorem groupSlots_ne_nil (u : Update) : groupSlots u ≠ [] := by
  unfold groupSlots
  split
  · simp
  · rename_i hne
    simpa using hne

theorem some_mem_groupSlots {u : Update} {v : String} :
    some v ∈ groupSlots u ↔ v ∈ groupValues u.kind u.asset := by
  unfold groupSlots
  split
  · rename_i hnil
    simp [List.isEmpty_iff.mp hnil]
  · simp

theorem mem_rows {u : Update} {g : GroupingModel} :
    g ∈ u.rows ↔ g = (.collection u.id.bytes, (collectionRow u.asset u.slot).new) ∨
      ∃ v ∈ groupSlots u, g = (.group u.id.bytes v, (accountGrouping v true u.slot).new) := by
  rw [Update.rows, List.mem_cons]
  refine or_congr Iff.rfl ?_
  unfold groupRows groupSlots
  dsimp only
  split
  · simp
  · simp only [List.map_map, List.mem_map, Function.comp_apply, exists_exists_and_eq_and]
    constructor
    · rintro ⟨v, hv, rfl⟩
      exact ⟨v, hv, rfl⟩
    · rintro ⟨v, hv, rfl⟩
      exact ⟨v, hv, rfl⟩

theorem slotUpdated_collectionRow (a : IndexableAsset) (slot : ℕ) :
    (collectionRow a slot).new.slotUpdated = some (slot : ℤ) := by
  unfold collectionRow
  split <;> rfl

/-- The collection row has the collection of the update, and is verified if there is one. -/
theorem groupValue_collectionRow (u : Update) :
    (collectionRow u.asset u.slot).new.groupValue = u.collection? ∧
      ((collectionRow u.asset u.slot).new.groupValue.isSome = true →
        (collectionRow u.asset u.slot).new.verified = true) := by
  unfold collectionRow Update.collection?
  cases u.asset.updateAuthority with
  | collection address => exact ⟨rfl, fun _ => rfl⟩
  | none => exact ⟨rfl, fun h => absurd h (by simp [accountGrouping])⟩
  | address address => exact ⟨rfl, fun h => absurd h (by simp [accountGrouping])⟩

/-- Every row of an update has its account and its slot. -/
theorem of_mem_rows {u : Update} {g : GroupingModel} (h : g ∈ u.rows) :
    Dao.assetId g.1 = u.id.bytes ∧ g.2.slotUpdated = some (u.slot : ℤ) := by
  rcases mem_rows.mp h with rfl | ⟨v, _, rfl⟩
  · exact ⟨rfl, slotUpdated_collectionRow u.asset u.slot⟩
  · exact ⟨rfl, rfl⟩

/-- An update proposes one row for a key. -/
theorem row_unique {u : Update} {k : GroupKey} {r r' : AssetGroupingRow} (h : (k, r) ∈ u.rows)
    (h' : (k, r') ∈ u.rows) : r = r' := by
  rcases mem_rows.mp h with heq | ⟨v, _, heq⟩ <;> rcases mem_rows.mp h' with heq' | ⟨v', _, heq'⟩
  · rw [(Prod.mk.inj heq).2, (Prod.mk.inj heq').2]
  · exact absurd ((Prod.mk.inj heq).1.symm.trans (Prod.mk.inj heq').1) (by simp)
  · exact absurd ((Prod.mk.inj heq).1.symm.trans (Prod.mk.inj heq').1) (by simp)
  · have hv := (Prod.mk.inj heq).1.symm.trans (Prod.mk.inj heq').1
    have hv' : v = v' := by simpa using hv
    rw [(Prod.mk.inj heq).2, (Prod.mk.inj heq').2, hv']

/-- A row of an update is determined by its key and its value. -/
theorem key_unique {u : Update} {g g' : GroupingModel} (h : g ∈ u.rows) (h' : g' ∈ u.rows)
    (hkey : Dao.groupKey g.1 = Dao.groupKey g'.1) (hvalue : g.2.groupValue = g'.2.groupValue) : g = g' := by
  rcases mem_rows.mp h with rfl | ⟨v, _, rfl⟩ <;> rcases mem_rows.mp h' with rfl | ⟨v', _, rfl⟩
  · rfl
  · exact absurd hkey (by simp [Dao.groupKey])
  · exact absurd hkey (by simp [Dao.groupKey])
  · have hv : v = v' := hvalue
    rw [hv]

/-- The collection and the groups that an update carries are those of its rows that have a value. -/
theorem mem_carried {u : Update} {key value : String} :
    (key, value) ∈ u.carried ↔ ∃ g ∈ u.rows, Dao.groupKey g.1 = key ∧ g.2.groupValue = some value := by
  simp only [Update.carried, List.mem_append, List.mem_map, Option.mem_toList, Prod.mk.injEq]
  constructor
  · rintro (⟨v, hv, rfl, rfl⟩ | ⟨v, hv, rfl, rfl⟩)
    · refine ⟨_, mem_rows.mpr (Or.inl rfl), rfl, ?_⟩
      rw [(groupValue_collectionRow u).1, hv]
    · exact ⟨_, mem_rows.mpr (Or.inr ⟨some v, some_mem_groupSlots.mpr hv, rfl⟩), rfl, rfl⟩
  · rintro ⟨g, hg, rfl, hvalue⟩
    rcases mem_rows.mp hg with rfl | ⟨v, hv, rfl⟩
    · rw [(groupValue_collectionRow u).1] at hvalue
      exact Or.inl ⟨value, hvalue, rfl, rfl⟩
    · have hv' : v = some value := hvalue
      rw [hv'] at hv
      exact Or.inr ⟨value, some_mem_groupSlots.mp hv, rfl, rfl⟩

theorem nodup_carried {u : Update} (h : (groupValues u.kind u.asset).Nodup) : u.carried.Nodup := by
  refine List.nodup_append.mpr ⟨?_, ?_, ?_⟩
  · cases u.collection? <;> simp
  · exact h.map fun v v' heq => (Prod.mk.inj heq).2
  · rintro e he e' he' rfl
    obtain ⟨v, _, rfl⟩ := List.mem_map.mp he
    obtain ⟨v', _, heq⟩ := List.mem_map.mp he'
    exact absurd (Prod.mk.inj heq).1 (by simp)

section Account

variable {us : List Update} (hus : Delivered us) {t : Table GroupKey AssetGroupingRow}
  (ht : Latest stamp HasSlot t (us.flatMap Update.rows)) {u : Update} (hu : Newest us u)

include hus ht hu

/-- A stored row of the account is not newer than its newest update, and is one of its rows if it is as
new. -/
theorem stored_le {k : GroupKey} {r : AssetGroupingRow} (hr : t.lookup k = some r)
    (hk : Dao.assetId k = u.id.bytes) :
    ∃ s : ℤ, r.slotUpdated = some s ∧ s ≤ u.slot ∧ (s = u.slot → (k, r) ∈ u.rows) := by
  obtain ⟨v, hv, hmem⟩ := List.mem_flatMap.mp (ht.proposed k r hr)
  obtain ⟨hid, hslot⟩ := of_mem_rows hmem
  have hsame : v.id = u.id := Pubkey.bytes_inj (hid.symm.trans hk)
  refine ⟨v.slot, hslot, by exact_mod_cast hu.2 v hv hsame, fun heq => ?_⟩
  have hvu : v = u := hus.slots v hv u hu.1 hsame (by exact_mod_cast heq)
  exact hvu ▸ hmem

/-- The rows of the newest update are stored. -/
theorem stored_of_mem_rows {k : GroupKey} {r : AssetGroupingRow} (h : (k, r) ∈ u.rows) :
    t.lookup k = some r := by
  obtain ⟨hid, hslot⟩ := of_mem_rows h
  obtain ⟨r', hr', hle⟩ := ht.newest k r (List.mem_flatMap.mpr ⟨u, hu.1, h⟩)
  obtain ⟨s, hs, hsle, hmem⟩ := stored_le hus ht hu hr' hid
  have hslot' : r.slotUpdated = some (u.slot : ℤ) := hslot
  have hs' : s = u.slot := by
    simp only [stamp, hslot', hs, Option.getD_some] at hle
    exact le_antisymm hsle hle
  rw [hr', row_unique (hmem hs') h]

/-- Among the rows of the account, those of its newest update are the newest. -/
theorem mem_rows_iff {k : GroupKey} {r : AssetGroupingRow} :
    (k, r) ∈ u.rows ↔ t.lookup k = some r ∧ Dao.assetId k = u.id.bytes ∧
      r.slotUpdated = some (u.slot : ℤ) := by
  constructor
  · intro h
    exact ⟨stored_of_mem_rows hus ht hu h, of_mem_rows h⟩
  · intro ⟨hr, hk, hslot⟩
    obtain ⟨s, hs, _, hmem⟩ := stored_le hus ht hu hr hk
    exact hmem (Option.some.inj (hs.symm.trans hslot))

end Account

/-! ### What is read of one account -/

/-- A newest update exists for every account that was updated. -/
theorem exists_newest {us : List Update} {v : Update} (hv : v ∈ us) : ∃ u, Newest us u ∧ u.id = v.id := by
  obtain ⟨u, hu, hid, hmax⟩ := exists_newest_of Update.slot (fun w => w.id = v.id) hv rfl
  exact ⟨u, ⟨hu, fun w hw hwid => hmax w hw (hwid.trans hid)⟩, hid⟩

section Read

variable {us : List Update} (hus : Delivered us) {db : Database}
  (ht : Latest stamp HasSlot db.assetGrouping (us.flatMap Update.rows)) {u : Update} (hu : Newest us u)
  (unverified : Bool)

include hus ht hu

/-- A row of the newest update with a value is shown. -/
theorem shown_of_mem_rows {g : GroupingModel} (hg : g ∈ u.rows)
    (hvalue : Dao.groupKey g.1 = "collection" → g.2.groupValue.isSome = true) :
    g ∈ Dao.shownGroupings db unverified u.id.bytes := by
  refine Dao.mem_shownGroupings.mpr ⟨stored_of_mem_rows hus ht hu hg, (of_mem_rows hg).1, hvalue, ?_⟩
  rcases mem_rows.mp hg with rfl | ⟨v, _, rfl⟩
  · exact Or.inr ((groupValue_collectionRow u).2 (hvalue rfl))
  · exact Or.inr rfl

/-- **What survives.**  The groupings that are shown and current are the rows of the newest update that
have a value. -/
theorem current_iff {g : GroupingModel} :
    (g ∈ Dao.shownGroupings db unverified u.id.bytes ∧
      Dao.Current (Dao.shownGroupings db unverified u.id.bytes) g) ↔
    g ∈ u.rows ∧ g.2.groupValue.isSome = true := by
  -- the newest update has a group row, with a value or without
  obtain ⟨v₀, hv₀⟩ := List.exists_mem_of_ne_nil _ (groupSlots_ne_nil u)
  have hrow₀ : (GroupKey.group u.id.bytes v₀, (accountGrouping v₀ true u.slot).new) ∈ u.rows :=
    mem_rows.mpr (Or.inr ⟨v₀, hv₀, rfl⟩)
  have hshown₀ := shown_of_mem_rows hus ht hu unverified hrow₀ fun h => absurd h (by simp [Dao.groupKey])
  constructor
  · intro ⟨hg, hcurrent⟩
    obtain ⟨hstored, hid, hvalue, _⟩ := Dao.mem_shownGroupings.mp hg
    obtain ⟨k, r⟩ := g
    cases k with
    | collection id =>
      have hid' : id = u.id.bytes := hid
      subst hid'
      have hown := stored_of_mem_rows hus ht hu (mem_rows.mpr (Or.inl rfl))
      rw [show r = (collectionRow u.asset u.slot).new from Option.some.inj (hstored.symm.trans hown)]
        at hvalue ⊢
      exact ⟨mem_rows.mpr (Or.inl rfl), hvalue rfl⟩
    | group id v =>
      obtain ⟨hsome, hnewest⟩ := hcurrent rfl
      have hge := hnewest _ hshown₀ rfl
      obtain ⟨s, hs, hle, hmem⟩ := stored_le hus ht hu hstored hid
      simp only at hs hge hsome
      rw [hs] at hge
      have hge' : (u.slot : ℤ) ≤ s := Dao.asColumn_some_le.mp hge
      exact ⟨hmem (le_antisymm hle hge'), hsome⟩
  · intro ⟨hg, hvalue⟩
    refine ⟨shown_of_mem_rows hus ht hu unverified hg fun _ => hvalue, fun _ => ⟨hvalue, ?_⟩⟩
    intro g' hg' _
    obtain ⟨hstored, hid, _, _⟩ := Dao.mem_shownGroupings.mp hg'
    obtain ⟨s, hs, hle, _⟩ := stored_le hus ht hu hstored hid
    rw [hs, (of_mem_rows hg).2]
    exact Dao.asColumn_some_le.mpr hle

/-- The groupings that are read of an account, under their keys, are those that its newest update carries. -/
theorem read_perm_carried (options : Options) :
    ((Dao.filterOutStaleAssetGroupings ((Dao.shownGroupings db unverified u.id.bytes).map
        (Dao.withMetadata db options))).map fun g => (Dao.groupKey g.1.1, g.1.2.groupValue)).Perm
      (u.carried.map fun e => (e.1, some e.2)) := by
  rw [Dao.filterOutStaleAssetGroupings_map (fun _ => rfl), List.map_map]
  have hmem : ∀ g, g ∈ ((Dao.shownGroupings db unverified u.id.bytes).filter fun g =>
      decide (Dao.Current (Dao.shownGroupings db unverified u.id.bytes) g)) ↔
        g ∈ u.rows ∧ g.2.groupValue.isSome = true := by
    intro g
    rw [List.mem_filter, decide_eq_true_eq, current_iff hus ht hu unverified]
  rw [List.perm_ext_iff_of_nodup]
  · intro ⟨key, value⟩
    rw [List.mem_map, List.mem_map]
    constructor
    · intro ⟨g, hg, heq⟩
      obtain ⟨rfl, rfl⟩ := Prod.mk.inj heq
      obtain ⟨hrow, hsome⟩ := (hmem g).mp hg
      obtain ⟨v, hv⟩ := Option.isSome_iff_exists.mp hsome
      exact ⟨(Dao.groupKey g.1, v), mem_carried.mpr ⟨g, hrow, rfl, hv⟩, Prod.ext rfl hv.symm⟩
    · intro ⟨⟨key', v⟩, hcarried, heq⟩
      obtain ⟨rfl, rfl⟩ := Prod.mk.inj heq
      obtain ⟨g, hrow, hkey, hv⟩ := mem_carried.mp hcarried
      exact ⟨g, (hmem g).mpr ⟨hrow, by simp [hv]⟩, Prod.ext hkey hv⟩
  · refine List.Nodup.map_on ?_ ?_
    · intro g hg g' hg' heq
      obtain ⟨hrow, _⟩ := (hmem g).mp hg
      obtain ⟨hrow', _⟩ := (hmem g').mp hg'
      obtain ⟨hkey, hvalue⟩ := Prod.mk.inj heq
      exact key_unique hrow hrow' hkey hvalue
    · exact ((nodup_scan db.assetGrouping).filter _).filter _
  · refine List.Nodup.map ?_ (nodup_carried (hus.groups u hu.1))
    intro ⟨key, v⟩ ⟨key', v'⟩ heq
    simpa using heq

theorem exists_read_iff (options : Options) {key value : String} :
    (∃ g ∈ Dao.filterOutStaleAssetGroupings ((Dao.shownGroupings db unverified u.id.bytes).map
        (Dao.withMetadata db options)), Dao.groupKey g.1.1 = key ∧ g.1.2.groupValue = some value) ↔
      (key, value) ∈ u.carried := by
  have hperm := (read_perm_carried hus ht hu unverified options).mem_iff (a := (key, some value))
  constructor
  · intro ⟨g, hg, hkey, hvalue⟩
    obtain ⟨e, he, heq⟩ := List.mem_map.mp (hperm.mp (List.mem_map.mpr ⟨g, hg, Prod.ext hkey hvalue⟩))
    obtain ⟨hkey', hvalue'⟩ := Prod.mk.inj heq
    rw [← hkey', ← Option.some.inj hvalue']
    exact he
  · intro hcarried
    obtain ⟨g, hg, heq⟩ := List.mem_map.mp (hperm.mpr (List.mem_map.mpr ⟨(key, value), hcarried, rfl⟩))
    obtain ⟨hkey, hvalue⟩ := Prod.mk.inj heq
    exact ⟨g, hg, hkey, hvalue⟩

end Read

/-! ### The assets of a run -/

/-- The columns that make a row readable: a supply of one, and its own metadata. -/
def Readable (id : Bytes) (r : AssetRow) : Prop := r.supply = 1 ∧ r.assetData = some id

theorem readable_row {id : Bytes} {w : Upsert AssetRow} {r : AssetRow} (h : Readable id r)
    (hset : Readable id (w.set r)) : Readable id (w.row (some r)) := by
  rw [Upsert.row_some]
  split
  · exact hset
  · exact h

theorem readable_savedAsset (E : MplCore.Env) (u : Update) (authority : Bytes) {o : Option AssetRow}
    (ho : ∀ r, o = some r → Readable u.id.bytes r) :
    Readable u.id.bytes (MplCore.savedAsset E u.id u.kind u.asset authority u.slot o) := by
  have hmetadata : Readable u.id.bytes ((metadataAccountColumns
      (MplCore.metadataColumns E u.id u.kind u.asset u.slot)).row o) := by
    cases o with
    | none => exact ⟨rfl, rfl⟩
    | some r => exact readable_row (ho r rfl) (ho r rfl)
  have hmint := readable_row (w := mintAccountColumns (MplCore.mintColumns u.id u.slot)) hmetadata hmetadata
  exact readable_row hmint hmint

/-- What the asset and the metadata tables hold after a run: one row of each for every account. -/
structure Stored (us : List Update) (db : Database) : Prop where
  updated : ∀ k r, db.asset.lookup k = some r → ∃ u ∈ us, u.id.bytes = k
  readable : ∀ k r, db.asset.lookup k = some r → Readable k r
  present : ∀ u ∈ us, (db.asset.lookup u.id.bytes).isSome = true
  data : ∀ u ∈ us, (db.assetData.lookup u.id.bytes).isSome = true

theorem stored_after (E : MplCore.Env) (us : List Update) :
    Stored (fitting us) (afterAll (Update.handle E) us Database.empty) := by
  induction us using List.reverseRecOn with
  | nil =>
    refine ⟨fun k r h => absurd h (by simp [Database.empty]), fun k r h => absurd h (by simp [Database.empty]),
      by simp [fitting], by simp [fitting]⟩
  | append_singleton us u ih =>
    rw [afterAll_append, afterAll_cons, afterAll_nil, (u.handle_leaves E).after_eq, fitting_append_singleton]
    by_cases hfits : u.asset.Fits
    · rw [if_pos hfits]
      have hasset : ∀ k, (u.effect E (afterAll (Update.handle E) us Database.empty)).asset.lookup k
          = if k = u.id.bytes then some (MplCore.savedAsset E u.id u.kind u.asset (MplCore.resolvedAuthority
              u.asset.updateAuthority (afterAll (Update.handle E) us Database.empty)) u.slot
                ((afterAll (Update.handle E) us Database.empty).asset.lookup k))
            else (afterAll (Update.handle E) us Database.empty).asset.lookup k := by
        intro k
        rw [Update.effect, MplCore.saveEffect_asset]
        simp only [hfits, true_and]
      refine ⟨?_, ?_, ?_, ?_⟩
      · intro k r hr
        rw [hasset] at hr
        split at hr
        · rename_i hk
          exact ⟨u, by simp, hk.symm⟩
        · obtain ⟨v, hv, hid⟩ := ih.updated k r hr
          exact ⟨v, List.mem_append_left _ hv, hid⟩
      · intro k r hr
        rw [hasset] at hr
        split at hr
        · rename_i hk
          subst hk
          obtain rfl := Option.some.inj hr
          exact readable_savedAsset E u _ fun r hr => ih.readable _ r hr
        · exact ih.readable k r hr
      · intro v hv
        rw [hasset]
        split
        · rfl
        · rename_i hne
          rcases List.mem_append.mp hv with hold | hnew
          · exact ih.present v hold
          · exact absurd (by rw [List.mem_singleton.mp hnew]) hne
      · intro v hv
        rw [Update.effect, MplCore.saveEffect_assetData, if_pos hfits, lookup_upsert]
        split
        · rfl
        · rename_i hne
          rcases List.mem_append.mp hv with hold | hnew
          · exact ih.data v hold
          · exact absurd (by rw [List.mem_singleton.mp hnew]) hne
    · rw [if_neg hfits]
      obtain ⟨t, heffect⟩ := MplCore.saveEffect_of_not_fits E u.id u.kind u.slot hfits
        (afterAll (Update.handle E) us Database.empty)
      rw [Update.effect, heffect]
      exact ⟨ih.updated, ih.readable, ih.present, ih.data⟩

/-! ### Members of a group -/

/-- The accounts whose newest update carries a grouping. -/
def Member (us : List Update) (key value : String) (id : Bytes) : Prop :=
  ∃ u, Newest us u ∧ u.id.bytes = id ∧ (key, value) ∈ u.carried

section Members

variable {us : List Update} (hus : Delivered us) {db : Database}
  (ht : Latest stamp HasSlot db.assetGrouping (us.flatMap Update.rows))
  (key value : String)

include hus ht

/-- The assets that are found by a grouping are the members. -/
theorem returned_iff (hdb : Stored us db) {sortBy : Option SortColumn} {sortDirection : Order}
    {pagination : Pagination} {limit : ℕ} {options : Options}
    (huncut : Dao.Uncut pagination limit sortDirection
      (Dao.groupingRows db key value sortBy sortDirection options)) (id : Bytes) :
    id ∈ (Dao.getByGrouping db key value sortBy sortDirection pagination limit options).map
        (fun fa => fa.asset.1) ↔ Member us key value id := by
  rw [List.mem_map]
  constructor
  · rintro ⟨fa, hfa, rfl⟩
    obtain ⟨⟨asset, hasset, data, _, rfl⟩, hgroup⟩ := (Dao.mem_getByGrouping huncut).mp hfa
    obtain ⟨v, hv, hid⟩ := hdb.updated _ _ (Dao.stored_of_mem_groupingRows asset hasset)
    obtain ⟨u, hu, huv⟩ := exists_newest hv
    have hid' : u.id.bytes = asset.1 := by rw [huv, hid]
    refine ⟨u, hu, hid', ?_⟩
    rw [← exists_read_iff hus ht hu options.showUnverifiedCollections options, hid']
    exact hgroup
  · rintro ⟨u, hu, rfl, hcarried⟩
    obtain ⟨r, hr⟩ := Option.isSome_iff_exists.mp (hdb.present u hu.1)
    obtain ⟨d, hd⟩ := Option.isSome_iff_exists.mp (hdb.data u hu.1)
    obtain ⟨hsupply, hdata⟩ := hdb.readable _ _ hr
    obtain ⟨g, hrow, hkey, hvalue⟩ := mem_carried.mp hcarried
    have hshown := shown_of_mem_rows hus ht hu options.showUnverifiedCollections hrow
      fun _ => by simp [hvalue]
    obtain ⟨hstored, hgid, _, hverified⟩ := Dao.mem_shownGroupings.mp hshown
    have hselected : ((u.id.bytes, r) : AssetModel) ∈
        Dao.groupingRows db key value sortBy sortDirection options := by
      refine Dao.mem_orderBy.mpr (Dao.mem_selectRelated_groupings.mpr ⟨hr, ?_, g, hstored, hgid, hkey, hvalue,
        hverified⟩)
      rw [hsupply]
      decide
    refine ⟨_, (Dao.mem_getByGrouping huncut).mpr ⟨⟨_, hselected, (u.id.bytes, d), ?_, rfl⟩, ?_⟩, rfl⟩
    · have hmem : u.id.bytes ∈ (Dao.groupingRows db key value sortBy sortDirection options).map Prod.fst :=
        List.mem_map.mpr ⟨_, hselected, rfl⟩
      rw [Dao.loadedData, hdata, Option.bind_some, if_pos hmem, hd, Option.map_some]
    · exact (exists_read_iff hus ht hu options.showUnverifiedCollections options).mpr hcarried

omit hus ht in
/-- The newest slot under a key, where some row of the account has it and none is above. -/
theorem maxSlotUpdated_eq {id : Bytes} {slot : ℤ} {g : GroupingModel}
    (hg : db.assetGrouping.lookup g.1 = some g.2) (hid : Dao.assetId g.1 = id) (hkey : Dao.groupKey g.1 = key)
    (hslot : g.2.slotUpdated = some slot)
    (hle : ∀ k r s, db.assetGrouping.lookup k = some r → Dao.assetId k = id → r.slotUpdated = some s →
      s ≤ slot) : Dao.maxSlotUpdated db id key = some slot := by
  rw [Dao.maxSlotUpdated, List.max?_eq_some_iff]
  constructor
  · refine List.mem_filterMap.mpr ⟨g, (mem_scan _ _ _).mpr hg, ?_⟩
    rw [if_pos ⟨hid, hkey⟩, hslot]
  · intro s hs
    obtain ⟨⟨k, r⟩, hmem, heq⟩ := List.mem_filterMap.mp hs
    split at heq
    · rename_i hk
      exact hle k r s ((mem_scan _ _ _).mp hmem) hk.1 heq
    · exact absurd heq (by simp)

/-- The newest slot of an account is that of its newest update, under either key. -/
theorem maxSlotUpdated_of_newest {u : Update} (hu : Newest us u) {g : GroupingModel} (hg : g ∈ u.rows)
    (hkey : Dao.groupKey g.1 = key) :
    Dao.maxSlotUpdated db u.id.bytes key = some (u.slot : ℤ) := by
  obtain ⟨hid, hslot⟩ := of_mem_rows hg
  refine maxSlotUpdated_eq key (stored_of_mem_rows hus ht hu hg) hid hkey hslot fun k r s hr hk hs => ?_
  obtain ⟨s', hs', hle, _⟩ := stored_le hus ht hu hr hk
  rw [Option.some.inj (hs.symm.trans hs')]
  exact hle

omit hus ht in
/-- A row of an update that has a value is verified. -/
theorem verified_of_mem_rows {u : Update} {g : GroupingModel} (hg : g ∈ u.rows)
    (hvalue : g.2.groupValue.isSome = true) : g.2.verified = true := by
  rcases mem_rows.mp hg with rfl | ⟨v, _, rfl⟩
  · exact (groupValue_collectionRow u).2 hvalue
  · rfl

omit hus ht in
/-- An update has a row under each of the two keys. -/
theorem exists_row_of_key (u : Update) (k : GroupKey) : ∃ g ∈ u.rows, Dao.groupKey g.1 = Dao.groupKey k := by
  cases k with
  | collection id => exact ⟨_, mem_rows.mpr (Or.inl rfl), rfl⟩
  | group id v =>
    obtain ⟨v₀, hv₀⟩ := List.exists_mem_of_ne_nil _ (groupSlots_ne_nil u)
    exact ⟨_, mem_rows.mpr (Or.inr ⟨v₀, hv₀, rfl⟩), rfl⟩

/-- The rows that `getGrouping` counts are rows of newest updates. -/
theorem counted_iff {g : GroupingModel} :
    g ∈ Dao.countedGroupings db key value ↔
    ∃ u, Newest us u ∧ g ∈ u.rows ∧ Dao.groupKey g.1 = key ∧ g.2.groupValue = some value := by
  obtain ⟨k, r⟩ := g
  simp only [Dao.countedGroupings, List.mem_filter, mem_scan, holds_and, Bool.and_eq_true, holds_eq_some,
    Option.some.injEq, Dao.holds_groupingVerified]
  rw [holds_eq_iff]
  constructor
  · rintro ⟨hstored, ⟨⟨hkey, hvalue⟩, _⟩, s, hs, hmax⟩
    obtain ⟨v, hv, hrow⟩ := List.mem_flatMap.mp (ht.proposed k r hstored)
    obtain ⟨u, hu, huv⟩ := exists_newest hv
    have hid : Dao.assetId k = u.id.bytes := by rw [huv, (of_mem_rows hrow).1]
    obtain ⟨g₀, hg₀, hkey₀⟩ := exists_row_of_key u k
    have hnewest := maxSlotUpdated_of_newest hus ht key hu hg₀ (hkey₀.trans hkey)
    rw [← hid, hmax] at hnewest
    refine ⟨u, hu, (mem_rows_iff hus ht hu).mpr ⟨hstored, hid, ?_⟩, hkey, hvalue⟩
    rw [hs, hnewest]
  · rintro ⟨u, hu, hrow, hkey, hvalue⟩
    have hverified := verified_of_mem_rows hrow (Option.isSome_iff_exists.mpr ⟨value, hvalue⟩)
    obtain ⟨hid, hslot⟩ := of_mem_rows hrow
    refine ⟨stored_of_mem_rows hus ht hu hrow, ⟨⟨hkey, hvalue⟩, hverified⟩, u.slot, hslot, ?_⟩
    rw [hid]
    exact maxSlotUpdated_of_newest hus ht key hu hrow hkey

/-- The accounts that are counted are the members, each once. -/
theorem getGrouping_eq_length {ids : List Bytes} (hids : ids.Nodup)
    (hmem : ∀ id, id ∈ ids ↔ Member us key value id) : ids.length = Dao.getGrouping db key value := by
  have hlength : ((Dao.countedGroupings db key value).map fun g => Dao.assetId g.1).length
      = Dao.getGrouping db key value := List.length_map _
  have hnodup : ((Dao.countedGroupings db key value).map fun g => Dao.assetId g.1).Nodup := by
    refine List.Nodup.map_on ?_ ((nodup_scan db.assetGrouping).filter _)
    intro g hg g' hg' heq
    obtain ⟨u, hu, hrow, hkey, hvalue⟩ := (counted_iff hus ht key value).mp hg
    obtain ⟨u', hu', hrow', hkey', hvalue'⟩ := (counted_iff hus ht key value).mp hg'
    have hid : u'.id = u.id :=
      Pubkey.bytes_inj ((of_mem_rows hrow').1.symm.trans (heq.symm.trans (of_mem_rows hrow).1))
    have hsame : u' = u :=
      hus.slots u' hu'.1 u hu.1 hid (le_antisymm (hu.2 u' hu'.1 hid) (hu'.2 u hu.1 hid.symm))
    exact key_unique hrow (hsame ▸ hrow') (hkey.trans hkey'.symm) (hvalue.trans hvalue'.symm)
  rw [← hlength]
  refine ((List.perm_ext_iff_of_nodup hids hnodup).mpr fun id => ?_).length_eq
  rw [hmem, List.mem_map]
  constructor
  · rintro ⟨u, hu, rfl, hcarried⟩
    obtain ⟨g, hrow, hkey, hvalue⟩ := mem_carried.mp hcarried
    exact ⟨g, (counted_iff hus ht key value).mpr ⟨u, hu, hrow, hkey, hvalue⟩, (of_mem_rows hrow).1⟩
  · rintro ⟨g, hg, rfl⟩
    obtain ⟨u, hu, hrow, hkey, hvalue⟩ := (counted_iff hus ht key value).mp hg
    exact ⟨u, hu, (of_mem_rows hrow).1.symm, mem_carried.mpr ⟨g, hrow, hkey, hvalue⟩⟩

end Members

/-- What is read of the groupings of an account, under their keys. -/
def read (db : Database) (options : Options) (id : Bytes) : List (String × Option String) :=
  (Dao.filterOutStaleAssetGroupings ((Dao.shownGroupings db options.showUnverifiedCollections id).map
    (Dao.withMetadata db options))).map fun g => (Dao.groupKey g.1.1, g.1.2.groupValue)

/-- Nothing is read of an account of which nothing was stored. -/
theorem read_eq_nil {us : List Update} {db : Database}
    (ht : Latest stamp HasSlot db.assetGrouping (us.flatMap Update.rows)) {id : Bytes}
    (hnone : ∀ u ∈ us, u.id.bytes ≠ id) (options : Options) : read db options id = [] := by
  have hshown : Dao.shownGroupings db options.showUnverifiedCollections id = [] := by
    rw [List.eq_nil_iff_forall_not_mem]
    intro g hg
    obtain ⟨hstored, hid, _, _⟩ := Dao.mem_shownGroupings.mp hg
    obtain ⟨u, hu, hrow⟩ := List.mem_flatMap.mp (ht.proposed _ _ hstored)
    exact hnone u hu ((of_mem_rows hrow).1.symm.trans hid)
  rw [read, hshown]
  rfl

/-- An asset that moved from one group to another, its updates out of order and one of them twice. -/
def movedAsset : List Update :=
  let update (slot : ℕ) (group : UInt8) : Update :=
    { id := Pubkey.fill 1, kind := .asset, slot
      asset :=
        { owner := some (Pubkey.fill 2), updateAuthority := .collection (Pubkey.fill 3), name := "moved",
          uri := "", plugins := [(.groups, ⟨.none, .groups [Pubkey.fill group], .null⟩)] } }
  [update 5 11, update 3 10, update 5 11]

/-- An asset without a collection in slot 5, its URI too long for the column. -/
def longUpdate : Update :=
  { id := Pubkey.fill 1, kind := .asset, slot := 5, asset := IndexableAsset.sampleLong }

/-- The same asset in a collection, two slots before. -/
def groupedUpdate : Update where
  id := Pubkey.fill 1
  kind := .asset
  slot := 3
  asset := { owner := none, updateAuthority := .collection (Pubkey.fill 3), name := "", uri := "" }

end DasIndexer.Accounts.CoreGroups
