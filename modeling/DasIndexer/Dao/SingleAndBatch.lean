import DasIndexer.Dao.Assembled

/-!
# One asset and many

`getById` and `getAssets` assemble the same record by separate queries.  They differ in four places: the
batch loads metadata by the keys of the assets, asks for a positive supply where the other asks for one
that is not zero, shows unverified groupings on demand, and looks for an inscription under the key of the
attachment.

**`batch_agrees_iff`** says on which tables, options and lists the two agree about an asset.
`batch_misses_inscription` is an asset on which they do not.
-/

namespace DasIndexer.Dao

open Sql

/-! ### The single record -/

/-- The record that `getById` assembles. -/
def single (db : Database) (options : Options) (asset : AssetModel) (data : AssetDataModel) : FullAsset where
  asset := asset
  data := data
  tokenInfo := if options.showFungible then (db.tokens.lookup asset.1).map fun t => (asset.1, t) else none
  authorities := (db.assetAuthority.lookup asset.1).toList.map fun a => (asset.1, a)
  creators := filterOutStaleCreators (creatorsOf db asset.1)
  inscription := if options.showInscription then (getInscriptionByMint db asset.1).toOption else none
  groups := filterOutStaleAssetGroupings ((shownGroupings db false asset.1).map (withMetadata db options))

/-- The asset is stored with metadata, as the join of `getById` asks. -/
def StoredWith (db : Database) (asset : AssetModel) (data : AssetDataModel) : Prop :=
  db.asset.lookup asset.1 = some asset.2 ∧ asset.2.assetData = some data.1 ∧
    db.assetData.lookup data.1 = some data.2

theorem getById_eq_ok {db : Database} {id : Bytes} {options : Options} {fa : FullAsset} :
    getById db id options = .ok fa ↔ ∃ asset data, asset.1 = id ∧ StoredWith db asset data ∧
      asset.2.supply ≠ 0 ∧ fa = single db options asset data := by
  have hauthorities : ((scan db.assetAuthority).filter fun a => decide (a.1 = id)).insertionSort
      (fun a b => a.1 ≤ b.1) = (db.assetAuthority.lookup id).toList.map fun a => (id, a) := by
    rw [filter_scan_key]
    cases db.assetAuthority.lookup id <;> rfl
  have hgroups : (((scan db.assetGrouping).filter fun g => decide (assetId g.1 = id)
      && (holds (groupingShown g) && holds (groupingVerified g))).insertionSort
        fun a b => assetId a.1 ≤ assetId b.1) = shownGroupings db false id := by
    have hrows : ((scan db.assetGrouping).filter fun g => decide (assetId g.1 = id)
        && (holds (groupingShown g) && holds (groupingVerified g))) = shownGroupings db false id := rfl
    rw [hrows]
    refine List.Pairwise.insertionSort_eq (List.pairwise_of_forall_mem_list fun a ha b hb => ?_)
    rw [(mem_shownGroupings.mp ha).2.1, (mem_shownGroupings.mp hb).2.1]
    exact List.le_refl id
  have htoken : (findTokens db [id]).head? = (db.tokens.lookup id).map fun t => (id, t) := by
    have hrows : findTokens db [id] = (scan db.tokens).filter fun t => decide (t.1 = id) := by
      simp [findTokens]
    rw [hrows, filter_scan_key]
    cases db.tokens.lookup id <;> rfl
  simp only [getById, hauthorities, hgroups, htoken]
  constructor
  · intro h
    split at h
    · exact absurd h (by simp)
    · rename_i asset data hfound
      simp only [Option.bind_eq_some_iff, Option.map_eq_some_iff, Prod.mk.injEq] at hfound
      obtain ⟨row, hrow, dataId, hdataId, d, hd, rfl, rfl⟩ := hfound
      split at h
      · exact absurd h (by simp)
      · rename_i hsupply
        exact ⟨(id, row), (dataId, d), rfl, ⟨hrow, hdataId, hd⟩, hsupply, (Except.ok.inj h).symm⟩
  · rintro ⟨⟨_, row⟩, ⟨dataId, d⟩, rfl, ⟨hrow, hdataId, hd⟩, hsupply, rfl⟩
    simp only at hrow hdataId hd hsupply
    simp only [hrow, hdataId, hd, Option.bind_some, Option.map_some, if_neg hsupply]
    rfl

/-! ### The batch record -/

/-- The assets that a batch selects. -/
def selected (db : Database) (ids : List Bytes) : List AssetModel :=
  (scan db.asset).filter fun a => decide (a.1 ∈ ids) && decide (0 < a.2.supply)

theorem mem_selected {db : Database} {ids : List Bytes} {a : AssetModel} :
    a ∈ selected db ids ↔ db.asset.lookup a.1 = some a.2 ∧ a.1 ∈ ids ∧ 0 < a.2.supply := by
  obtain ⟨k, r⟩ := a
  simp [selected, mem_scan]

/-- A list of ids does not select more assets than it has. -/
theorem length_selected_le (db : Database) (ids : List Bytes) :
    (selected db ids).length ≤ ids.length := by
  have hkeys : ((selected db ids).map Prod.fst).Nodup :=
    (nodup_keys_scan db.asset).sublist (List.filter_sublist.map _)
  have hsub : (selected db ids).map Prod.fst ⊆ ids := by
    intro k hk
    obtain ⟨a, ha, rfl⟩ := List.mem_map.mp hk
    exact (mem_selected.mp ha).2.1
  calc (selected db ids).length = ((selected db ids).map Prod.fst).length := (List.length_map _).symm
    _ ≤ ids.length := (List.subperm_of_subset hkeys hsub).length_le

theorem mem_getAssets {db : Database} {ids : List Bytes} {limit : ℕ} (hlen : ids.length ≤ limit)
    {options : Options} {fa : FullAsset} :
    fa ∈ getAssets db ids (.page 1) limit options ↔ ∃ asset ∈ selected db ids, ∃ data,
      loadedData db ((selected db ids).map Prod.fst) asset = some data ∧
        fa = assembled db options ((selected db ids).map Prod.fst) asset data := by
  have hrows : ((scan db.asset).filter fun a =>
      holds (and (some (decide (a.1 ∈ ids))) (hasSupply a))) = selected db ids := by
    refine List.filter_congr fun a _ => ?_
    simp [hasSupply]
  have hpage : paginate (.page 1) limit .asc Prod.fst (selected db ids) = selected db ids :=
    uncut_page_one .asc (le_trans (length_selected_le db ids) hlen)
  have hstored : ∀ a ∈ selected db ids, db.asset.lookup a.1 = some a.2 := fun a ha =>
    (mem_selected.mp ha).1
  simp only [getAssets, getAssetsByCondition, orderBy, hrows, hpage, mem_getRelatedForAssets db options hstored]
  simp [HasRequired]

/-! ### Where they agree -/

/-- An unverified grouping of the asset is current, or newer than the current verified ones. -/
def UnverifiedMatters (db : Database) (id : Bytes) : Prop :=
  ∃ u ∈ shownGroupings db true id, u.2.verified = false ∧
    (Current (shownGroupings db true id) u ∨ (groupKey u.1 = "group" ∧
      ∃ g ∈ shownGroupings db false id, groupKey g.1 = "group" ∧ Current (shownGroupings db false id) g ∧
        asColumn g.2.slotUpdated < asColumn u.2.slotUpdated))

/-- The first attachment whose data names the asset as its root. -/
def namingAttachment (db : Database) (id : Bytes) : Option AttachmentModel :=
  (scan db.attachments).find? fun a => a.2.data.any (fieldIs "root" (Base58.encode id))

/-- An attachment is attached to one of the selected assets. -/
def attachedTo (db : Database) (ids : List Bytes) (a : AttachmentRow) : Prop :=
  ∃ k ∈ (selected db ids).map Prod.fst, a.assetId = some k

/-- The inscription of the asset is the attachment under its own key, or there is none of either. -/
def InscriptionUnderKey (db : Database) (ids : List Bytes) (id : Bytes) : Prop :=
  (∃ a, namingAttachment db id = some (id, a) ∧ attachedTo db ids a) ∨
    (namingAttachment db id = none ∧ ∀ a, db.attachments.lookup id = some a → ¬ attachedTo db ids a)

/-- The tables, the options and the list leave no room for a difference. -/
structure Consistent (db : Database) (options : Options) (ids : List Bytes) (asset : AssetModel)
    (data : AssetDataModel) : Prop where
  supply : 0 < asset.2.supply
  data : data.1 ∈ (selected db ids).map Prod.fst
  groups : options.showUnverifiedCollections = true → ¬ UnverifiedMatters db asset.1
  inscription : options.showInscription = true → InscriptionUnderKey db ids asset.1

theorem mem_shownGroupings_false {db : Database} {id : Bytes} {g : GroupingModel} :
    g ∈ shownGroupings db false id ↔ g ∈ shownGroupings db true id ∧ g.2.verified = true := by
  simp only [mem_shownGroupings, Bool.false_eq_true, false_or, true_or, and_true]
  tauto

theorem shownGroupings_false (db : Database) (id : Bytes) :
    shownGroupings db false id = (shownGroupings db true id).filter fun g => g.2.verified := by
  rw [shownGroupings, shownGroupings, List.filter_filter]
  refine List.filter_congr fun g _ => ?_
  cases hv : g.2.verified <;> simp [groupingVerified, hv, eq]

/-- The unverified groupings make no difference exactly when none of them matters. -/
theorem groups_eq_iff (db : Database) (options : Options) (id : Bytes) :
    filterOutStaleAssetGroupings ((shownGroupings db true id).map (withMetadata db options))
      = filterOutStaleAssetGroupings ((shownGroupings db false id).map (withMetadata db options)) ↔
    ¬ UnverifiedMatters db id := by
  rw [filterOutStaleAssetGroupings_map (fun _ => rfl), filterOutStaleAssetGroupings_map (fun _ => rfl)]
  have hinj : Function.Injective (withMetadata db options) := fun a b h => congrArg Prod.fst h
  rw [(List.map_injective_iff.mpr hinj).eq_iff]
  constructor
  · rintro heq ⟨u, hu, hunverified, hcurrent | ⟨hgroup, g, hg, hgGroup, hgCurrent, hlt⟩⟩
    · have hmem : u ∈ (shownGroupings db false id).filter fun g =>
          decide (Current (shownGroupings db false id) g) := by
        rw [← heq]
        exact List.mem_filter.mpr ⟨hu, decide_eq_true hcurrent⟩
      have hverified := (mem_shownGroupings_false.mp (List.mem_filter.mp hmem).1).2
      exact absurd (hunverified.symm.trans hverified) (by simp)
    · have hmem : g ∈ (shownGroupings db true id).filter fun g =>
          decide (Current (shownGroupings db true id) g) := by
        rw [heq]
        exact List.mem_filter.mpr ⟨hg, decide_eq_true hgCurrent⟩
      have hcurrent : Current (shownGroupings db true id) g :=
        of_decide_eq_true (List.mem_filter.mp hmem).2
      exact absurd ((hcurrent hgGroup).2 u hu hgroup) (not_le.mpr hlt)
  · intro hno
    rw [show ((shownGroupings db false id).filter fun g => decide (Current (shownGroupings db false id) g))
        = (shownGroupings db true id).filter fun g =>
          decide (Current (shownGroupings db false id) g) && g.2.verified by
      conv_lhs => rw [shownGroupings_false, List.filter_filter]
      rw [← shownGroupings_false]]
    refine List.filter_congr fun g hg => ?_
    rw [Bool.eq_iff_iff, Bool.and_eq_true, decide_eq_true_eq, decide_eq_true_eq]
    constructor
    · intro hcurrent
      have hverified : g.2.verified = true := by
        by_contra hfalse
        exact hno ⟨g, hg, by simpa using hfalse, Or.inl hcurrent⟩
      refine ⟨fun hgroup => ⟨(hcurrent hgroup).1, fun g' hg' => ?_⟩, hverified⟩
      exact (hcurrent hgroup).2 g' (mem_shownGroupings_false.mp hg').1
    · intro ⟨hcurrent, hverified⟩ hgroup
      refine ⟨(hcurrent hgroup).1, fun g' hg' hgroup' => ?_⟩
      by_contra hlt
      rw [not_le] at hlt
      cases hv : g'.2.verified with
      | true =>
        have hle := (hcurrent hgroup).2 g' (mem_shownGroupings_false.mpr ⟨hg', hv⟩) hgroup'
        exact absurd hle (not_le.mpr hlt)
      | false =>
        exact hno ⟨g', hg', hv, Or.inr ⟨hgroup', g, mem_shownGroupings_false.mpr ⟨hg, hverified⟩, hgroup,
          hcurrent, hlt⟩⟩

theorem attachmentUnder_eq_some {db : Database} {ids : List Bytes} {id : Bytes} {a : AttachmentModel} :
    attachmentUnder db ((selected db ids).map Prod.fst) id = some a ↔
      a.1 = id ∧ db.attachments.lookup id = some a.2 ∧ attachedTo db ids a.2 := by
  have hattached : ∀ row : AttachmentRow, (row.assetId.any fun k =>
      decide (k ∈ (selected db ids).map Prod.fst)) = true ↔ attachedTo db ids row := by
    intro row
    unfold attachedTo
    cases row.assetId <;> simp
  unfold attachmentUnder
  rw [Option.bind_eq_some_iff]
  constructor
  · intro ⟨row, hrow, h⟩
    split at h
    · rename_i hany
      obtain rfl := Option.some.inj h
      exact ⟨rfl, hrow, (hattached row).mp hany⟩
    · exact absurd h (by simp)
  · rintro ⟨rfl, hrow, hattach⟩
    exact ⟨a.2, hrow, if_pos ((hattached a.2).mpr hattach)⟩

theorem toOption_getInscriptionByMint (db : Database) (id : Bytes) :
    (getInscriptionByMint db id).toOption = namingAttachment db id := by
  unfold getInscriptionByMint namingAttachment
  cases (scan db.attachments).find? fun a => a.2.data.any (fieldIs "root" (Base58.encode id)) <;> rfl

/-- The two inscriptions are the same exactly when the inscription stands under the key of its asset. -/
theorem inscription_eq_iff (db : Database) (ids : List Bytes) (id : Bytes) :
    attachmentUnder db ((selected db ids).map Prod.fst) id = (getInscriptionByMint db id).toOption ↔
      InscriptionUnderKey db ids id := by
  rw [toOption_getInscriptionByMint]
  constructor
  · intro heq
    cases hnaming : namingAttachment db id with
    | none =>
      rw [hnaming] at heq
      refine Or.inr ⟨hnaming, fun a ha hattach => ?_⟩
      have hsome := (attachmentUnder_eq_some (a := (id, a))).mpr ⟨rfl, ha, hattach⟩
      exact absurd (heq.symm.trans hsome) (by simp)
    | some a =>
      rw [hnaming] at heq
      obtain ⟨hid, _, hattach⟩ := attachmentUnder_eq_some.mp heq
      exact Or.inl ⟨a.2, by rw [hnaming, ← hid], hattach⟩
  · rintro (⟨a, hnaming, hattach⟩ | ⟨hnaming, hno⟩)
    · rw [hnaming]
      have hstored := (mem_scan db.attachments id a).mp (List.mem_of_find?_eq_some hnaming)
      exact attachmentUnder_eq_some.mpr ⟨rfl, hstored, hattach⟩
    · rw [hnaming, Option.eq_none_iff_forall_ne_some]
      intro a ha
      obtain ⟨_, hrow, hattach⟩ := attachmentUnder_eq_some.mp ha
      exact hno a.2 hrow hattach

/-- The two records of a stored asset are the same exactly when its groupings and its inscription agree. -/
theorem assembled_eq_single_iff (db : Database) (options : Options) (ids : List Bytes) (asset : AssetModel)
    (data : AssetDataModel) :
    assembled db options ((selected db ids).map Prod.fst) asset data = single db options asset data ↔
      (options.showUnverifiedCollections = true → ¬ UnverifiedMatters db asset.1) ∧
      (options.showInscription = true → InscriptionUnderKey db ids asset.1) := by
  simp only [assembled, single, FullAsset.mk.injEq, true_and]
  rw [and_comm]
  refine and_congr ?_ ?_
  · cases hshow : options.showUnverifiedCollections with
    | false => simp
    | true => simpa using groups_eq_iff db options asset.1
  · cases hshow : options.showInscription with
    | false => simp
    | true => simpa using inscription_eq_iff db ids asset.1

/-! ### The whole -/

/-- What is loaded for a selected asset is stored with it. -/
theorem storedWith_of_loaded {db : Database} {ids : List Bytes} {asset : AssetModel} {data : AssetDataModel}
    (hasset : asset ∈ selected db ids)
    (hdata : loadedData db ((selected db ids).map Prod.fst) asset = some data) :
    StoredWith db asset data ∧ data.1 ∈ (selected db ids).map Prod.fst := by
  obtain ⟨dataId, hid, hrest⟩ := Option.bind_eq_some_iff.mp hdata
  split at hrest
  · rename_i hmem
    obtain ⟨d, hd, rfl⟩ := Option.map_eq_some_iff.mp hrest
    exact ⟨⟨(mem_selected.mp hasset).1, hid, hd⟩, hmem⟩
  · exact absurd hrest (by simp)

theorem loaded_of_storedWith {db : Database} {assetIds : List Bytes} {asset : AssetModel}
    {data : AssetDataModel} (h : StoredWith db asset data) (hmem : data.1 ∈ assetIds) :
    loadedData db assetIds asset = some data := by
  obtain ⟨_, hid, hd⟩ := h
  simp [loadedData, hid, hmem, hd]

/-- The metadata of a stored asset is determined by it. -/
theorem StoredWith.unique {db : Database} {asset asset' : AssetModel} {data data' : AssetDataModel}
    (h : StoredWith db asset data) (h' : StoredWith db asset' data') (hid : asset'.1 = asset.1) :
    asset' = asset ∧ data' = data := by
  obtain ⟨hrow, hdataId, hd⟩ := h
  obtain ⟨hrow', hdataId', hd'⟩ := h'
  rw [hid, hrow] at hrow'
  have hasset : asset' = asset := Prod.ext hid (Option.some.inj hrow').symm
  subst hasset
  rw [hdataId] at hdataId'
  have hkey : data'.1 = data.1 := (Option.some.inj hdataId').symm
  rw [hkey, hd] at hd'
  exact ⟨rfl, Prod.ext hkey (Option.some.inj hd').symm⟩

/-- **Single and batch reads.**  A batch that asks for an asset returns what the single read returns, or
nothing where that fails, exactly when the tables leave no room for a difference. -/
theorem batch_agrees_iff (db : Database) (options : Options) (ids : List Bytes) (limit : ℕ) (id : Bytes)
    (hmem : id ∈ ids) (hlen : ids.length ≤ limit) :
    (∀ fa, (fa ∈ getAssets db ids (.page 1) limit options ∧ fa.asset.1 = id) ↔
      getById db id options = .ok fa) ↔
    ∀ asset data, asset.1 = id → StoredWith db asset data → asset.2.supply ≠ 0 →
      Consistent db options ids asset data := by
  simp only [mem_getAssets hlen, getById_eq_ok]
  constructor
  · rintro hagree asset data rfl hstored hsupply
    obtain ⟨⟨asset', hasset', data', hdata', heq⟩, hid⟩ :=
      (hagree (single db options asset data)).mpr ⟨asset, data, rfl, hstored, hsupply, rfl⟩
    obtain ⟨hstored', hdataMem⟩ := storedWith_of_loaded hasset' hdata'
    have hid' : asset'.1 = asset.1 := by
      have hfield := congrArg (fun fa : FullAsset => fa.asset.1) heq
      exact hfield.symm
    obtain ⟨rfl, rfl⟩ := hstored.unique hstored' hid'
    obtain ⟨hgroups, hinscription⟩ := (assembled_eq_single_iff db options ids _ _).mp heq.symm
    exact ⟨(mem_selected.mp hasset').2.2, hdataMem, hgroups, hinscription⟩
  · intro hconsistent fa
    constructor
    · rintro ⟨⟨asset, hasset, data, hdata, rfl⟩, hid⟩
      have hid' : asset.1 = id := hid
      obtain ⟨hstored, _⟩ := storedWith_of_loaded hasset hdata
      have hsupply : asset.2.supply ≠ 0 := ne_of_gt (mem_selected.mp hasset).2.2
      have hc := hconsistent asset data hid' hstored hsupply
      exact ⟨asset, data, hid', hstored, hsupply,
        (assembled_eq_single_iff db options ids _ _).mpr ⟨hc.groups, hc.inscription⟩⟩
    · rintro ⟨asset, data, rfl, hstored, hsupply, rfl⟩
      have hc := hconsistent asset data rfl hstored hsupply
      exact ⟨⟨asset, mem_selected.mpr ⟨hstored.1, hmem, hc.supply⟩, data, loaded_of_storedWith hstored hc.data,
        ((assembled_eq_single_iff db options ids _ _).mpr ⟨hc.groups, hc.inscription⟩).symm⟩, rfl⟩

/-! ### An inscribed asset -/

/-- The key of an asset for concrete reads. -/
def inscribed : Bytes := (Pubkey.fill 7).bytes

def inscribedRow : AssetRow := { assetData := some inscribed }

def inscribedData : AssetDataRow where
  chainDataMutability := .mutable
  chainData := .obj []
  metadataUrl := ⟨"https://inscription", Nat.le_of_ble_eq_true rfl⟩
  metadataMutability := .mutable
  metadata := .str "processing"
  slotUpdated := 5
  reindex := some true
  rawName := none
  rawSymbol := none
  baseInfoSeq := some 0

/-- An inscription account that names the asset, under a key of its own. -/
def inscriptionAccount : AttachmentModel :=
  ((Pubkey.fill 9).bytes,
    { assetId := some inscribed, attachmentType := .tokenInscription, initialized := true,
      data := some (.obj [("root", .str (Base58.encode inscribed))]), slotUpdated := 5 })

/-- The asset with its metadata and its inscription. -/
def inscribedTables : Database where
  asset := AList.singleton inscribed inscribedRow
  assetData := AList.singleton inscribed inscribedData
  attachments := AList.singleton inscriptionAccount.1 inscriptionAccount.2

theorem storedWith_inscribedTables :
    StoredWith inscribedTables (inscribed, inscribedRow) (inscribed, inscribedData) :=
  ⟨by simp [inscribedTables, lookup_singleton], rfl, by simp [inscribedTables, lookup_singleton]⟩

theorem namingAttachment_inscribedTables :
    namingAttachment inscribedTables inscribed = some inscriptionAccount := by
  have hscan : scan inscribedTables.attachments = [inscriptionAccount] := rfl
  rw [namingAttachment, hscan, List.find?_singleton, if_pos]
  simp [inscriptionAccount, fieldIs]

/-- Asked for alone, the asset comes with its inscription; asked for in a list, it comes without. -/
theorem batch_misses_inscription :
    ¬ ∀ (db : Database) (options : Options) (ids : List Bytes) (limit : ℕ) (id : Bytes), id ∈ ids →
      ids.length ≤ limit → ∀ fa, (fa ∈ getAssets db ids (.page 1) limit options ∧ fa.asset.1 = id) ↔
        getById db id options = .ok fa := by
  intro hall
  obtain ⟨hbatch, _⟩ := (hall inscribedTables { showInscription := true } [inscribed] 1 inscribed (by simp)
    (by simp) _).mpr (getById_eq_ok.mpr ⟨_, _, rfl, storedWith_inscribedTables, by decide, rfl⟩)
  obtain ⟨asset, _, data, _, heq⟩ := (mem_getAssets (by simp)).mp hbatch
  have hid : asset.1 = inscribed := (congrArg (fun fa : FullAsset => fa.asset.1) heq).symm
  have hinscription : attachmentUnder inscribedTables ((selected inscribedTables [inscribed]).map Prod.fst)
      asset.1 = some inscriptionAccount := by
    rw [← namingAttachment_inscribedTables, ← toOption_getInscriptionByMint]
    exact (congrArg FullAsset.inscription heq).symm
  obtain ⟨hkey, _⟩ := attachmentUnder_eq_some.mp hinscription
  exact absurd (hkey.trans hid) (by decide)

/-- Where no inscription is asked for, the two reads of the asset agree. -/
theorem batch_agrees_on_inscribed :
    inscribed ∈ [inscribed] ∧ ∀ fa, (fa ∈ getAssets inscribedTables [inscribed] (.page 1) 1 {} ∧
      fa.asset.1 = inscribed) ↔ getById inscribedTables inscribed {} = .ok fa := by
  refine ⟨by simp, (batch_agrees_iff inscribedTables {} [inscribed] 1 inscribed (by simp)
    (by simp)).mpr ?_⟩
  intro asset data hid hstored _
  obtain ⟨rfl, rfl⟩ := storedWith_inscribedTables.unique hstored hid
  refine ⟨by decide, ?_, fun h => absurd h (by decide), fun h => absurd h (by decide)⟩
  refine List.mem_map.mpr ⟨(inscribed, inscribedRow), mem_selected.mpr ?_, rfl⟩
  exact ⟨storedWith_inscribedTables.1, by simp, by decide⟩

end DasIndexer.Dao
