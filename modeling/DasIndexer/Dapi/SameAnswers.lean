import DasIndexer.Dao.Pages
import DasIndexer.Dao.SingleAndBatch
import DasIndexer.Dapi.AssetHistory
import DasIndexer.Dapi.BatchProofs

/-!
# Two indexers answer alike

Two indexers that handle the same Bubblegum instructions end in the same rows, whatever order their handlers ran in,
but for the columns of `upsert_asset_base_info`: those are written with the row and never again, so that a mint that
comes after a transfer of its asset leaves them empty.  Where two indexers have the same there (`SameBase`), do they
answer alike?  Rows come in the order of their insertion, and the answers are made of lists: the creators and
groupings of an asset, the nodes of a proof, the pages of a listing.

**`nodes_answer_alike`**: two such indexers give the same answers to `getAsset`, `getAssetProof`,
`getAssetSignatures` and to the listings by owner, creator, authority and group in the default order.  Every list of
an answer is put in an order by columns that tell its rows apart.
-/

namespace DasIndexer.Dapi

open Sql LastWriter Bubblegum
open Dao (AssetModel AssetDataModel CreatorModel GroupingModel FullAsset Options Pagination Order byId getById
  getAssetsByOwner getByCreator getByAuthority getByGrouping creatorsOf shownGroupings)

/-! ### Tables that Bubblegum instructions alone have written -/

/-- The columns that `upsert_asset_base_info` puts into a new row, `slot_updated` apart. -/
structure BaseColumns where
  ownerType : OwnerType
  specificationVersion : Option SpecificationVersions
  specificationAssetClass : Option SpecificationAssetClass
  royaltyTargetType : RoyaltyTargetType
  royaltyTarget : Option Bytes
  royaltyAmount : ℤ
  assetData : Option Bytes
  slotUpdatedCnftTransaction : Option ℤ
  baseInfoSeq : Option ℤ
deriving DecidableEq

def baseColumns (r : AssetRow) : BaseColumns :=
  ⟨r.ownerType, r.specificationVersion, r.specificationAssetClass, r.royaltyTargetType, r.royaltyTarget,
    r.royaltyAmount, r.assetData, r.slotUpdatedCnftTransaction, r.baseInfoSeq⟩

/-- The asset rows have the same in these columns. -/
def SameBase (db db' : Database) : Prop :=
  ∀ id, (db.asset.lookup id).map baseColumns = (db'.asset.lookup id).map baseColumns

/-- The row with its `slot_updated` left out of account. -/
def withoutSlotUpdated (r : AssetRow) : AssetRow := { r with slotUpdated := none }

theorem withoutSlotUpdated_congr {r r' : AssetRow} (h : r.withoutBaseInfo = r'.withoutBaseInfo)
    (hbase : baseColumns r = baseColumns r') : withoutSlotUpdated r = withoutSlotUpdated r' := by
  have hrow : ∀ r : AssetRow, withoutSlotUpdated r = { r.withoutBaseInfo with
      ownerType := (baseColumns r).ownerType
      specificationVersion := (baseColumns r).specificationVersion
      specificationAssetClass := (baseColumns r).specificationAssetClass
      royaltyTargetType := (baseColumns r).royaltyTargetType
      royaltyTarget := (baseColumns r).royaltyTarget
      royaltyAmount := (baseColumns r).royaltyAmount
      assetData := (baseColumns r).assetData
      slotUpdatedCnftTransaction := (baseColumns r).slotUpdatedCnftTransaction
      baseInfoSeq := (baseColumns r).baseInfoSeq } := fun _ => rfl
  rw [hrow r, hrow r', h, hbase]

/-- The rows agree, `asset.slot_updated` apart, and the tables that Bubblegum instructions do not write are the
same. -/
structure SameTables (db db' : Database) : Prop extends SameRows db db' where
  base : SameBase db db'
  noGroups : ∀ id v, db.assetGrouping.lookup (.group id v) = none
  tokens : db.tokens = db'.tokens
  attachments : db.attachments = db'.attachments

/-- An asset without its `slot_updated`. -/
def withoutSlot (a : AssetModel) : AssetModel := (a.1, withoutSlotUpdated a.2)

/-- Every other column of rows that agree is the same. -/
theorem column_eq {α : Type} {r r' : AssetRow} (column : AssetRow → α)
    (hcolumn : ∀ r, column (withoutSlotUpdated r) = column r) (h : withoutSlotUpdated r = withoutSlotUpdated r') :
    column r = column r' := by
  rw [← hcolumn r, h, hcolumn]

/-- An answer without the `slot_updated` of its asset. -/
def shown (fa : FullAsset) : FullAsset := { fa with asset := withoutSlot fa.asset }

/-! ### What is stored with an asset -/

namespace SameTables

variable {db db' : Database} (h : SameTables db db')

include h

theorem creatorsOf_eq (id : Bytes) : creatorsOf db id = creatorsOf db' id := by
  have : Std.Total fun a b : CreatorModel => a.1.2 ≤ b.1.2 := ⟨fun a b => le_total _ _⟩
  have : IsTrans CreatorModel fun a b => a.1.2 ≤ b.1.2 := ⟨fun a b c => le_trans⟩
  refine insertionSort_congr ((perm_scan h.assetCreators).filter _) fun a ha b hb hab hba => ?_
  obtain ⟨ha, hid⟩ := List.mem_filter.mp ha
  obtain ⟨hb, hid'⟩ := List.mem_filter.mp hb
  have hasset : a.1.1 = b.1.1 := (of_decide_eq_true hid).trans (of_decide_eq_true hid').symm
  have hkey : a.1 = b.1 := Prod.ext hasset (le_antisymm hab hba)
  exact List.inj_on_of_nodup_map (nodup_keys_scan db'.assetCreators) ha hb hkey

/-- An asset has one grouping, its collection. -/
theorem shownGroupings_eq (unverified : Bool) (id : Bytes) :
    shownGroupings db unverified id = shownGroupings db' unverified id := by
  refine eq_of_perm_of_forall_eq ((perm_scan h.assetGrouping).filter _) fun a ha b hb => ?_
  have hcollection : ∀ g ∈ shownGroupings db unverified id, g.1 = .collection id := by
    rintro ⟨k, r⟩ hg
    obtain ⟨hr, hid, -⟩ := Dao.mem_shownGroupings.mp hg
    cases k with
    | collection id' => exact congrArg _ hid
    | group id' v => cases (h.noGroups id' v).symm.trans hr
  have hkey := (hcollection a ha).trans (hcollection b hb).symm
  exact List.inj_on_of_nodup_map (nodup_keys_scan db.assetGrouping) (List.mem_of_mem_filter ha)
    (List.mem_of_mem_filter hb) hkey

theorem withMetadata_eq (options : Options) : Dao.withMetadata db options = Dao.withMetadata db' options := by
  funext g
  rw [Dao.withMetadata, Dao.withMetadata, h.assetData]

theorem single_eq (options : Options) (asset : AssetModel) (data : AssetDataModel) :
    Dao.single db options asset data = Dao.single db' options asset data := by
  rw [Dao.single, Dao.single, h.tokens, h.assetAuthority, h.creatorsOf_eq, h.shownGroupings_eq, h.withMetadata_eq,
    Dao.getInscriptionByMint, Dao.getInscriptionByMint, h.attachments]

/-- The asset rows agree, `slot_updated` apart. -/
theorem asset_cases (id : Bytes) : (db.asset.lookup id = none ∧ db'.asset.lookup id = none) ∨
    ∃ r r', db.asset.lookup id = some r ∧ db'.asset.lookup id = some r' ∧
      withoutSlotUpdated r = withoutSlotUpdated r' := by
  have hrow := h.asset id
  have hbase := h.base id
  cases hr : db.asset.lookup id with
  | none =>
    rw [hr] at hrow
    exact Or.inl ⟨rfl, Option.map_eq_none_iff.mp hrow.symm⟩
  | some r =>
    rw [hr] at hrow hbase
    obtain ⟨r', hr', heq⟩ := Option.map_eq_some_iff.mp hrow.symm
    rw [hr'] at hbase
    exact Or.inr ⟨r, r', rfl, hr', withoutSlotUpdated_congr heq.symm (Option.some.inj hbase)⟩

theorem rows_eq (id : Bytes) :
    (db.asset.lookup id).map withoutSlotUpdated = (db'.asset.lookup id).map withoutSlotUpdated := by
  rcases h.asset_cases id with ⟨hr, hr'⟩ | ⟨r, r', hr, hr', heq⟩
  · rw [hr, hr']
  · rw [hr, hr', Option.map_some, Option.map_some, heq]

end SameTables

/-- `getById`, case by case. -/
theorem getById_eq (db : Database) (id : Bytes) (options : Options) : getById db id options =
    match (db.asset.lookup id).bind fun r => r.assetData.bind fun dataId =>
      (db.assetData.lookup dataId).map fun data => (r, (dataId, data)) with
    | none => .error (.recordNotFound "Asset Not Found")
    | some (r, data) => if r.supply = 0 then .error (.custom "Asset has no supply")
      else .ok (Dao.single db options (id, r) data) := by
  cases hr : db.asset.lookup id with
  | none =>
    rw [getById, hr]
    rfl
  | some r =>
    rw [Option.bind_some]
    cases hid : r.assetData with
    | none =>
      rw [getById, hr]
      simp only [Option.bind_some, hid]
      rfl
    | some dataId =>
      rw [Option.bind_some]
      cases hdata : db.assetData.lookup dataId with
      | none =>
        rw [getById, hr]
        simp only [Option.bind_some, hid, hdata]
        rfl
      | some data =>
        rw [Option.map_some]
        simp only
        split
        · rename_i hsupply
          rw [getById, hr]
          simp only [Option.bind_some, hid, hdata, Option.map_some, if_pos hsupply]
        · rename_i hsupply
          exact Dao.getById_eq_ok.mpr ⟨(id, r), (dataId, data), rfl, ⟨hr, hid, hdata⟩, hsupply, rfl⟩

namespace SameTables

variable {db db' : Database} (h : SameTables db db')

include h

/-- `getAsset` answers alike. -/
theorem getById_alike (id : Bytes) (options : Options) :
    (getById db id options).map shown = (getById db' id options).map shown := by
  rw [getById_eq, getById_eq]
  rcases h.asset_cases id with ⟨hr, hr'⟩ | ⟨r, r', hr, hr', heq⟩
  · rw [hr, hr']
    rfl
  · have hdata : r.assetData = r'.assetData := column_eq AssetRow.assetData (fun _ => rfl) heq
    have hsupply : r.supply = r'.supply := column_eq AssetRow.supply (fun _ => rfl) heq
    rw [hr, hr', Option.bind_some, Option.bind_some, hdata]
    cases r'.assetData with
    | none => rfl
    | some dataId =>
      rw [Option.bind_some, Option.bind_some, h.assetData]
      cases db'.assetData.lookup dataId with
      | none => rfl
      | some data =>
        rw [Option.map_some, Option.map_some]
        simp only [hsupply]
        split
        · rfl
        · rw [h.single_eq]
          show Except.ok _ = Except.ok _
          congr 1
          rw [shown, shown, withoutSlot, withoutSlot]
          simp only [Dao.single, heq]

/-! ### Proofs and signatures -/

theorem requiredNodes_eq (tree : Bytes) (indexes : List ℤ) :
    requiredNodes db tree indexes = requiredNodes db' tree indexes := by
  have : Std.Total fun a b : SimpleChangeLog => b.nodeIdx ≤ a.nodeIdx := ⟨fun a b => le_total _ _⟩
  have : IsTrans SimpleChangeLog fun a b => b.nodeIdx ≤ a.nodeIdx := ⟨fun a b c hab hbc => le_trans hbc hab⟩
  refine insertionSort_congr (((perm_scan h.clItems).filter _).map _) fun a ha b hb hab hba => ?_
  obtain ⟨e, he, rfl⟩ := List.mem_map.mp ha
  obtain ⟨e', he', rfl⟩ := List.mem_map.mp hb
  obtain ⟨he, htree⟩ := List.mem_filter.mp he
  obtain ⟨he', htree'⟩ := List.mem_filter.mp he'
  have hkey : e.1 = e'.1 := Prod.ext ((of_decide_eq_true htree).1.trans (of_decide_eq_true htree').1.symm)
    (le_antisymm hba hab)
  rw [List.inj_on_of_nodup_map (nodup_keys_scan db'.clItems) he he' hkey]

/-- `getAssetSignatures` answers alike. -/
theorem fetchTransactions_eq (tree : Bytes) (leafIdx : ℤ) (pagination : Pagination) (limit : ℕ)
    (sortDirection : Option AssetSortDirection) :
    fetchTransactions db tree leafIdx pagination limit sortDirection
      = fetchTransactions db' tree leafIdx pagination limit sortDirection := by
  have hperm := (perm_scan h.clAuditsV2).filter fun e => decide (e.1.1 = tree ∧ e.1.2.1 = leafIdx)
  rw [fetchTransactions, fetchTransactions, insertionSort_congr hperm fun a ha b hb hab hba =>
    eq_of_seq_eq ha hb (seqInOrder_antisymm hab hba)]

theorem signaturesOf_eq (assetId tree : Option Bytes) (leafIdx : Option ℤ) (pagination : Pagination) (limit : ℕ)
    (sortDirection : Option AssetSortDirection) :
    signaturesOf db assetId tree leafIdx pagination limit sortDirection
      = signaturesOf db' assetId tree leafIdx pagination limit sortDirection := by
  unfold signaturesOf
  split
  · exact h.fetchTransactions_eq _ _ _ _ _
  · rfl
  · rename_i id _
    rcases h.asset_cases id with ⟨hr, hr'⟩ | ⟨r, r', hr, hr', heq⟩
    · rw [hr, hr']
    · have htree : r.treeId = r'.treeId := column_eq AssetRow.treeId (fun _ => rfl) heq
      have hnonce : r.nonce = r'.nonce := column_eq AssetRow.nonce (fun _ => rfl) heq
      rw [hr, hr']
      simp only [htree, hnonce, h.fetchTransactions_eq]

/-- `getAssetProof` answers alike, where the leaves of a tree can be told apart. -/
theorem getProofForAsset_eq (hapart : LeavesApart db) (emptyNode : ℕ → Pubkey) (id : Bytes) :
    getProofForAsset emptyNode db id = getProofForAsset emptyNode db' id := by
  have hleaf : leafRows db id = leafRows db' id := by
    unfold leafRows
    rcases h.asset_cases id with ⟨hr, hr'⟩ | ⟨r, r', hr, hr', heq⟩
    · rw [hr, hr']
    · have htree : r.treeId = r'.treeId := column_eq AssetRow.treeId (fun _ => rfl) heq
      have hnonce : r.nonce = r'.nonce := column_eq AssetRow.nonce (fun _ => rfl) heq
      rw [hr, hr']
      simp only [htree, hnonce]
      -- the leaf of an asset is one row
      refine congrArg _ (eq_of_perm_of_forall_eq ((perm_scan h.clItems).filter _) fun a ha b hb => ?_)
      obtain ⟨⟨t, i⟩, x⟩ := a
      obtain ⟨⟨t', j⟩, y⟩ := b
      have hmem : ∀ e, e ∈ (scan db.clItems).filter (fun e => holds (and (and (eq r'.nonce e.2.leafIdx)
          (eq r'.treeId (some e.1.1))) (eq (some e.2.level) (some 0)))) → e ∈ leafRows db id := by
        intro e he
        rw [leafRows, hr]
        simp only [htree, hnonce]
        exact (List.perm_insertionSort _ _).mem_iff.mpr he
      obtain ⟨a, n, ha', hat, han, hx, hxn, hx0⟩ := mem_leafRows.mp (hmem _ ha)
      obtain ⟨b, m, hb', hbt, hbn, hy, hym, hy0⟩ := mem_leafRows.mp (hmem _ hb)
      obtain rfl := Option.some.inj (ha'.symm.trans hb')
      obtain rfl := Option.some.inj (hat.symm.trans hbt)
      obtain rfl := Option.some.inj (han.symm.trans hbn)
      obtain rfl := hapart t i j x y hx hy hx0 hy0 (hxn.trans hym.symm)
      rw [Option.some.inj (hx.symm.trans hy)]
  simp only [getProofForAsset, hleaf, h.requiredNodes_eq]

end SameTables

/-! ### Listings -/

theorem paginate_withoutSlot (pagination : Pagination) (limit : ℕ) (sortDirection : Order) (rows : List AssetModel) :
    (Dao.paginate pagination limit sortDirection Prod.fst rows).map withoutSlot
      = Dao.paginate pagination limit sortDirection Prod.fst (rows.map withoutSlot) := by
  unfold Dao.paginate
  rw [List.map_take]
  congr 1
  split
  · rw [List.filter_map]
    rfl
  · split
    · rw [List.map_drop]
    · rfl
  · rfl
  · rw [List.filter_map]
    cases sortDirection <;> rfl

/-- Sorting by id leaves nothing of the order in which the rows came. -/
theorem orderBy_withoutSlot {rows rows' : List AssetModel} (h : (rows.map withoutSlot).Perm (rows'.map withoutSlot))
    (hkeys : ∀ a ∈ rows.map withoutSlot, ∀ b ∈ rows.map withoutSlot, a.1 = b.1 → a = b) (sortDirection : Order) :
    (Dao.orderBy (some byId) sortDirection rows).map withoutSlot
      = (Dao.orderBy (some byId) sortDirection rows').map withoutSlot := by
  have hperm : ∀ rows : List AssetModel,
      ((Dao.orderBy (some byId) sortDirection rows).map withoutSlot).Perm (rows.map withoutSlot) :=
    fun rows => (List.perm_insertionSort _ rows).map _
  have hsorted : ∀ rows : List AssetModel, ((Dao.orderBy (some byId) sortDirection rows).map withoutSlot).Pairwise
      fun x y => ¬ Dao.Precedes sortDirection y.1 x.1 :=
    fun rows => List.pairwise_map.mpr (Dao.sorted_orderBy sortDirection rows)
  refine List.Perm.eq_of_pairwise (fun a b ha hb hab hba => ?_) (hsorted rows) (hsorted rows')
    ((hperm rows).trans (h.trans (hperm rows').symm))
  refine hkeys a ((hperm rows).mem_iff.mp ha) b (h.mem_iff.mpr ((hperm rows').mem_iff.mp hb)) ?_
  rcases trichotomous_of (Dao.Precedes sortDirection) a.1 b.1 with hlt | heq | hgt
  · exact absurd hlt hba
  · exact heq
  · exact absurd hgt hab

/-- One asset with the rows that a join puts beside it. -/
def joined {α β : Type} (a : α) : List β → List (α × Option β)
  | [] => [(a, none)]
  | bs => bs.map fun b => (a, some b)

theorem joined_perm {α β : Type} (a : α) {bs bs' : List β} (h : bs.Perm bs') : (joined a bs).Perm (joined a bs') := by
  cases bs with
  | nil => rw [h.nil_eq]
  | cons b bs =>
    cases bs' with
    | nil => exact absurd h.eq_nil (List.cons_ne_nil _ _)
    | cons b' bs' => exact h.map fun b => (a, some b)

/-- A left join with rows that come in another order. -/
theorem leftJoin_perm {β : Type} {rows rows' : List AssetModel} {related related' : AssetModel → List β}
    (hrows : (rows.map withoutSlot).Perm (rows'.map withoutSlot)) (hrelated : ∀ a, (related a).Perm (related' a))
    (hslot : ∀ a, related (withoutSlot a) = related a) (hslot' : ∀ a, related' (withoutSlot a) = related' a) :
    ((Dao.leftJoin rows related).map fun e => (withoutSlot e.1, e.2)).Perm
      ((Dao.leftJoin rows' related').map fun e => (withoutSlot e.1, e.2)) := by
  have hjoined : ∀ (rows : List AssetModel) (related : AssetModel → List β),
      (∀ a, related (withoutSlot a) = related a) →
      ((Dao.leftJoin rows related).map fun e => (withoutSlot e.1, e.2))
        = (rows.map withoutSlot).flatMap fun a => joined a (related a) := by
    intro rows related hslot
    rw [Dao.leftJoin, List.map_flatMap, List.flatMap_map]
    congr 1
    funext a
    rw [hslot]
    cases related a with
    | nil => rfl
    | cons b bs => exact List.map_map
  rw [hjoined rows related hslot, hjoined rows' related' hslot']
  exact hrows.flatMap fun a _ => joined_perm a (hrelated a)

/-- A record with the creators of its asset, the stale ones left out. -/
def withCreators (db : Database) (id : Bytes) (fa : FullAsset) : FullAsset :=
  { fa with creators := Dao.filterOutStaleCreators (fa.creators ++ creatorsOf db id) }

theorem requireCreator_shown (requiredCreator : Option Bytes) (m : IndexMap Bytes FullAsset) :
    (Dao.requireCreator requiredCreator m).mapValues (fun _ => shown)
      = Dao.requireCreator requiredCreator (m.mapValues fun _ => shown) := by
  cases requiredCreator with
  | none => rfl
  | some required => exact IndexMap.mapValues_retain (g := shown) (fun _ _ => rfl) m

/-- No stage of a listing reads the `slot_updated` of an asset. -/
theorem getRelatedForAssets_shown (db : Database) (assets : List AssetModel) (options : Options)
    (requiredCreator : Option Bytes) : (Dao.getRelatedForAssets db assets options requiredCreator).map shown
      = ((Dao.requireCreator requiredCreator (((IndexMap.collect (Dao.bareAsset ((scan db.assetData).filter
          fun d => decide (d.1 ∈ assets.map Prod.fst))) assets).mapValues fun _ => shown).mapValues
            (withCreators db))).mapValues (Dao.finished db options (assets.map Prod.fst))).values := by
  have hcreators := fun m => IndexMap.mapValues_comm (f := withCreators db) (g := fun _ => shown) (fun _ _ => rfl) m
  have hfinished := fun m => IndexMap.mapValues_comm (f := Dao.finished db options (assets.map Prod.fst))
    (g := fun _ => shown) (fun _ _ => rfl) m
  simp only [Dao.getRelatedForAssets]
  rw [Dao.stages_eq, Dao.addCreators_eq db _ (List.Subset.refl _), ← IndexMap.values_mapValues, hfinished,
    requireCreator_shown]
  show ((Dao.requireCreator requiredCreator ((IndexMap.mapValues (withCreators db) _).mapValues _)).mapValues _).values
    = _
  rw [hcreators]

namespace SameTables

variable {db db' : Database} (h : SameTables db db')

include h

theorem withCreators_eq : withCreators db = withCreators db' := by
  funext id fa
  rw [withCreators, withCreators, h.creatorsOf_eq]

theorem perm_assets : ((scan db.asset).map withoutSlot).Perm ((scan db'.asset).map withoutSlot) :=
  perm_scan_map withoutSlotUpdated h.rows_eq

omit h in
theorem eq_of_key_eq {rows : List AssetModel} (hrows : ∀ a ∈ rows, db.asset.lookup a.1 = some a.2) :
    ∀ a ∈ rows.map withoutSlot, ∀ b ∈ rows.map withoutSlot, a.1 = b.1 → a = b := by
  intro a ha b hb hkey
  obtain ⟨x, hx, rfl⟩ := List.mem_map.mp ha
  obtain ⟨y, hy, rfl⟩ := List.mem_map.mp hb
  have hkey' : x.1 = y.1 := hkey
  have hrow := (hrows x hx).symm.trans (hkey' ▸ hrows y hy)
  rw [withoutSlot, withoutSlot, hkey', Option.some.inj hrow]

/-- The rows of a joined query. -/
theorem selectRelated_perm {β : Type} {related related' : AssetModel → List β}
    {condition : AssetModel → Option β → Truth} (hrelated : ∀ a, (related a).Perm (related' a))
    (hslot : ∀ a, related (withoutSlot a) = related a) (hslot' : ∀ a, related' (withoutSlot a) = related' a)
    (hcondition : ∀ a b, condition (withoutSlot a) b = condition a b) :
    ((Dao.selectRelated db related condition).map withoutSlot).Perm
      ((Dao.selectRelated db' related' condition).map withoutSlot) := by
  have hselected : ∀ (db : Database) (related : AssetModel → List β),
      (Dao.selectRelated db related condition).map withoutSlot
        = (((Dao.leftJoin (scan db.asset) related).map fun e => (withoutSlot e.1, e.2)).filter
          fun e => holds (condition e.1 e.2)).map Prod.fst := by
    intro db related
    rw [List.filter_map, List.map_map, Dao.selectRelated, List.map_map]
    congr 1
    exact List.filter_congr fun e _ => by
      show _ = holds (condition (withoutSlot e.1) e.2)
      rw [hcondition]
  rw [hselected, hselected]
  exact ((leftJoin_perm h.perm_assets hrelated hslot hslot').filter _).map _

theorem finished_eq (options : Options) (assetIds : List Bytes) :
    Dao.finished db options assetIds = Dao.finished db' options assetIds := by
  funext k fa
  rw [Dao.finished, Dao.finished, h.assetAuthority, h.tokens, h.shownGroupings_eq, h.withMetadata_eq,
    Dao.attachmentUnder, Dao.attachmentUnder, h.attachments]

/-- The records of assets before anything is pushed to them. -/
theorem bare_eq {assets assets' : List AssetModel} (hassets : assets.map withoutSlot = assets'.map withoutSlot)
    (assetIds : List Bytes) :
    (IndexMap.collect (Dao.bareAsset ((scan db.assetData).filter fun d => decide (d.1 ∈ assetIds)))
        assets).mapValues (fun _ => shown)
      = (IndexMap.collect (Dao.bareAsset ((scan db'.assetData).filter fun d => decide (d.1 ∈ assetIds)))
        assets').mapValues (fun _ => shown) := by
  have hbare : ∀ (db : Database) (assets : List AssetModel),
      (IndexMap.collect (Dao.bareAsset ((scan db.assetData).filter fun d => decide (d.1 ∈ assetIds)))
        assets).mapValues (fun _ => shown)
      = IndexMap.collect (fun a => (Dao.loadedData db assetIds a).map fun data =>
        (a.1, ({ asset := a, data } : FullAsset))) (assets.map withoutSlot) := by
    intro db assets
    rw [IndexMap.mapValues_collect, IndexMap.collect_map]
    congr 1
    funext a
    rw [Dao.bareAsset_eq, Option.map_map]
    rfl
  rw [hbare, hbare, hassets]
  congr 1
  funext a
  rw [Dao.loadedData, Dao.loadedData]
  simp only [h.assetData]

/-- The records of a page. -/
theorem getRelatedForAssets_alike {assets assets' : List AssetModel}
    (hassets : assets.map withoutSlot = assets'.map withoutSlot) (options : Options) (requiredCreator : Option Bytes) :
    (Dao.getRelatedForAssets db assets options requiredCreator).map shown
      = (Dao.getRelatedForAssets db' assets' options requiredCreator).map shown := by
  have hids : assets.map Prod.fst = assets'.map Prod.fst := by
    have hfst := congrArg (List.map Prod.fst) hassets
    rwa [List.map_map, List.map_map] at hfst
  rw [getRelatedForAssets_shown, getRelatedForAssets_shown, hids, h.bare_eq hassets, h.finished_eq,
    h.withCreators_eq]

/-- A page of a joined query in the order of the ids. -/
theorem getByRelatedCondition_alike {β : Type} {related related' : AssetModel → List β}
    {condition : AssetModel → Option β → Truth} (hrelated : ∀ a, (related a).Perm (related' a))
    (hslot : ∀ a, related (withoutSlot a) = related a) (hslot' : ∀ a, related' (withoutSlot a) = related' a)
    (hcondition : ∀ a b, condition (withoutSlot a) b = condition a b) (sortDirection : Order) (pagination : Pagination)
    (limit : ℕ) (options : Options) (requiredCreator : Option Bytes) :
    (Dao.getByRelatedCondition db related condition (some byId) sortDirection pagination limit options
        requiredCreator).map shown
      = (Dao.getByRelatedCondition db' related' condition (some byId) sortDirection pagination limit options
        requiredCreator).map shown := by
  refine h.getRelatedForAssets_alike ?_ options requiredCreator
  rw [paginate_withoutSlot, paginate_withoutSlot]
  congr 1
  exact orderBy_withoutSlot (h.selectRelated_perm hrelated hslot hslot' hcondition)
    (eq_of_key_eq fun a ha => Dao.stored_of_mem_selectRelated ha) sortDirection

/-- `getAssetsByCreator` answers alike. -/
theorem getByCreator_alike (creator : Bytes) (onlyVerified : Bool) (sortDirection : Order) (pagination : Pagination)
    (limit : ℕ) (options : Options) :
    (getByCreator db creator onlyVerified (some byId) sortDirection pagination limit options).map shown
      = (getByCreator db' creator onlyVerified (some byId) sortDirection pagination limit options).map shown := by
  rw [getByCreator, getByCreator]
  refine h.getByRelatedCondition_alike ?_ ?_ ?_ ?_ sortDirection pagination limit options (some creator)
  · exact fun _ => (perm_scan h.assetCreators).filter _
  · exact fun _ => rfl
  · exact fun _ => rfl
  · exact fun _ _ => rfl

/-- `getAssetsByAuthority` answers alike. -/
theorem getByAuthority_alike (authority : Bytes) (sortDirection : Order) (pagination : Pagination) (limit : ℕ)
    (options : Options) :
    (getByAuthority db authority (some byId) sortDirection pagination limit options).map shown
      = (getByAuthority db' authority (some byId) sortDirection pagination limit options).map shown := by
  rw [getByAuthority, getByAuthority]
  refine h.getByRelatedCondition_alike ?_ ?_ ?_ ?_ sortDirection pagination limit options none
  · exact fun _ => (perm_scan h.assetAuthority).filter _
  · exact fun _ => rfl
  · exact fun _ => rfl
  · exact fun _ _ => rfl

/-- `getAssetsByGroup` answers alike. -/
theorem getByGrouping_alike (key value : String) (sortDirection : Order) (pagination : Pagination) (limit : ℕ)
    (options : Options) :
    (getByGrouping db key value (some byId) sortDirection pagination limit options).map shown
      = (getByGrouping db' key value (some byId) sortDirection pagination limit options).map shown := by
  have hkept : ∀ (p : FullAsset → Bool) (l : List FullAsset), (∀ fa, p (shown fa) = p fa) →
      (l.filter p).map shown = (l.map shown).filter p := by
    intro p l hp
    rw [List.filter_map]
    congr 1
    exact List.filter_congr fun fa _ => (hp fa).symm
  simp only [getByGrouping]
  rw [hkept _ _ fun _ => rfl, hkept _ _ fun _ => rfl]
  congr 1
  unfold Dao.groupingsOf
  refine h.getByRelatedCondition_alike ?_ ?_ ?_ ?_ sortDirection pagination limit options none
  · exact fun _ => (perm_scan h.assetGrouping).filter _
  · exact fun _ => rfl
  · exact fun _ => rfl
  · exact fun _ _ => rfl

/-- `getAssetsByOwner` answers alike. -/
theorem getAssetsByOwner_alike (owner : Bytes) (sortDirection : Order) (pagination : Pagination) (limit : ℕ)
    (options : Options) :
    (getAssetsByOwner db owner (some byId) sortDirection pagination limit options).map shown
      = (getAssetsByOwner db' owner (some byId) sortDirection pagination limit options).map shown := by
  have hselected : ∀ (p : AssetModel → Bool) (l : List AssetModel), (∀ a, p (withoutSlot a) = p a) →
      (l.filter p).map withoutSlot = (l.map withoutSlot).filter p := by
    intro p l hp
    rw [List.filter_map]
    congr 1
    exact List.filter_congr fun a _ => (hp a).symm
  refine h.getRelatedForAssets_alike ?_ options none
  rw [paginate_withoutSlot, paginate_withoutSlot]
  congr 1
  refine orderBy_withoutSlot ?_ ?_ sortDirection
  swap
  · exact eq_of_key_eq fun a ha => (mem_scan _ _ _).mp (List.mem_of_mem_filter ha)
  rw [hselected _ _ fun _ => rfl, hselected _ _ fun _ => rfl]
  exact h.perm_assets.filter _

end SameTables

/-! ### Two indexers -/

/-- The answers of two databases are the same, the `slot_updated` of the assets apart. -/
structure SameAnswers (db db' : Database) : Prop where
  asset : ∀ id options, (getById db id options).map shown = (getById db' id options).map shown
  proof : ∀ emptyNode id, getProofForAsset emptyNode db id = getProofForAsset emptyNode db' id
  signatures : ∀ payload, getAssetSignatures db payload = getAssetSignatures db' payload
  byOwner : ∀ owner sortDirection pagination limit options,
    (getAssetsByOwner db owner (some byId) sortDirection pagination limit options).map shown
      = (getAssetsByOwner db' owner (some byId) sortDirection pagination limit options).map shown
  byCreator : ∀ creator onlyVerified sortDirection pagination limit options,
    (getByCreator db creator onlyVerified (some byId) sortDirection pagination limit options).map shown
      = (getByCreator db' creator onlyVerified (some byId) sortDirection pagination limit options).map shown
  byAuthority : ∀ authority sortDirection pagination limit options,
    (getByAuthority db authority (some byId) sortDirection pagination limit options).map shown
      = (getByAuthority db' authority (some byId) sortDirection pagination limit options).map shown
  byGroup : ∀ key value sortDirection pagination limit options,
    (getByGrouping db key value (some byId) sortDirection pagination limit options).map shown
      = (getByGrouping db' key value (some byId) sortDirection pagination limit options).map shown

theorem SameTables.sameAnswers {db db' : Database} (h : SameTables db db') (hapart : LeavesApart db) :
    SameAnswers db db' where
  asset := h.getById_alike
  proof := h.getProofForAsset_eq hapart
  signatures payload := by
    simp only [getAssetSignatures, h.signaturesOf_eq]
  byOwner := h.getAssetsByOwner_alike
  byCreator := h.getByCreator_alike
  byAuthority := h.getByAuthority_alike
  byGroup := h.getByGrouping_alike

/-- Bubblegum instructions write neither tokens nor attachments. -/
theorem untouched {E : Env} {is : List Ingest} {s : Running} (h : Reachable E is s) :
    s.db.tokens = ∅ ∧ s.db.attachments = ∅ := by
  have hwrite : ∀ (w : TableWrite) (db : Database),
      (w.apply E db).tokens = db.tokens ∧ (w.apply E db).attachments = db.attachments := by
    intro w db
    cases w <;> exact ⟨rfl, rfl⟩
  have hcommit : ∀ (ws : List TableWrite) (db : Database),
      (ws.foldl (fun db w => w.apply E db) db).tokens = db.tokens ∧
        (ws.foldl (fun db w => w.apply E db) db).attachments = db.attachments := by
    intro ws
    induction ws with
    | nil => exact fun db => ⟨rfl, rfl⟩
    | cons w ws ih =>
      intro db
      exact ⟨(ih _).1.trans (hwrite w db).1, (ih _).2.trans (hwrite w db).2⟩
  induction h with
  | refl => exact ⟨rfl, rfl⟩
  | tail _ hstep ih =>
    cases hstep with
    | advance before after t t' db htasks hadvance =>
      cases hadvance with
      | act db i a rest known clean =>
        cases a with
        | commit writes => exact ⟨(hcommit writes _).1.trans ih.1, (hcommit writes _).2.trans ih.2⟩
        | _ => exact ih
      | tolerate => exact ih
    | _ => exact ih

/-- The events of a tree have paths of one length: a tree keeps its depth. -/
def OneDepth (E : Env) (is : List Ingest) : Prop :=
  ∀ i ∈ is, ∀ j ∈ is, ∀ e e', recordedEvent E i = some e → recordedEvent E j = some e' → e.id = e'.id →
    e.path.length = e'.path.length

/-- A leaf node is numbered by its place in the tree. -/
theorem leafIdx_nodeRow {event : ChangeLogEventV1} {p : PathNode} (h : (nodeRow event p.index p).level = 0) :
    (nodeRow event p.index p).leafIdx = some (nodeIdxToLeafIdx p.index (event.path.length - 1)) := by
  unfold nodeRow at h ⊢
  cases hfirst : event.path.zipIdx.find? fun e => e.1.index == p.index with
  | none => rfl
  | some first =>
    rw [hfirst] at h
    have hindex : first.1.index = p.index := by
      have hfound := List.find?_some hfirst
      exact eq_of_beq hfound
    have hlevel : first.2 = 0 := Int.ofNat_inj.mp h
    simp only [Option.getD_some, clItem, hlevel, hindex, if_true]

/-- The leaf nodes that a run has stored are numbered by their place in the tree. -/
theorem leafIdx_of_reachable {E : Env} {is : List Ingest} (h : Delivery E is) {s : Running} (hreach : Reachable E is s)
    {t : Bytes} {idx : ℤ} {r : ClItemRow} (hr : s.db.clItems.lookup (t, idx) = some r) (hlevel : r.level = 0) :
    ∃ i ∈ is, ∃ e, recordedEvent E i = some e ∧ t = e.id.bytes ∧
      r.leafIdx = some (nodeIdxToLeafIdx idx (e.path.length - 1)) := by
  obtain ⟨ver, hver⟩ := h.exists_version
  obtain ⟨W, hinv⟩ := hreach.inv h hver
  rw [hinv.represents.clItems, foldl_put_apply, Option.map_eq_some_iff] at hr
  obtain ⟨x, hx, rfl⟩ := hr
  have hfrom := (foldl_newer_spec _ _ _ _ hx).1.resolve_right (Option.some_ne_none x ∘ Eq.symm)
  obtain ⟨i, hi, hcell⟩ := hinv.writes _ ((mem_writesTo _ _ _).mp hfrom)
  obtain ⟨change, tx, ws, hof, hbody, hcases, hplan, -⟩ := mem_ingestCells hcell
  refine ⟨i, hi, change.event, recordedEvent_of_plan hplan, ?_⟩
  rcases hcases with hpath | haudit | ⟨w, hw, hcell⟩
  · obtain ⟨p, -, hp⟩ := List.mem_map.mp hpath
    cases hp
    exact ⟨rfl, leafIdx_nodeRow hlevel⟩
  · cases haudit
  · cases (TableWrite.mem_cells (hof.fits ws hbody w hw) hcell).1

theorem leavesApart_of_reachable {E : Env} {is : List Ingest} (h : Delivery E is) (hdepth : OneDepth E is)
    {s : Running} (hreach : Reachable E is s) : LeavesApart s.db := by
  intro t idx idx' r r' hr hr' hlevel hlevel' hsame
  obtain ⟨i, hi, e, he, rfl, hleaf⟩ := leafIdx_of_reachable h hreach hr hlevel
  obtain ⟨j, hj, e', he', hid, hleaf'⟩ := leafIdx_of_reachable h hreach hr' hlevel'
  have hlength := hdepth i hi j hj e e' he he' (Pubkey.bytes_inj hid)
  rw [hleaf, hleaf', hlength, Option.some.injEq, nodeIdxToLeafIdx, nodeIdxToLeafIdx] at hsame
  omega

/-- **Two indexers answer alike.**  Where every instruction of a delivery has had a handler that ran to its end and
had no statement fail, and the base columns of the assets are the same, the answers do not depend on the order of the
statements, on repetitions, or on handlers that were dropped half way. -/
theorem nodes_answer_alike {E : Env} {is : List Ingest} (h : Delivery E is) (hstamp : OneChangePerStamp E is)
    (hdepth : OneDepth E is) {s s' : Running} (hreach : Reachable E is s) (hreach' : Reachable E is s')
    (happlied : ∀ i ∈ is, i ∈ s.applied) (happlied' : ∀ i ∈ is, i ∈ s'.applied) (hbase : SameBase s.db s'.db) :
    SameAnswers s.db s'.db := by
  obtain ⟨ver, hver⟩ := h.exists_version
  obtain ⟨W, hinv⟩ := hreach.inv h hver
  obtain ⟨W', hinv'⟩ := hreach'.inv h hver
  have hrows := (hinv.sameRows h hstamp hver happlied).trans (hinv'.sameRows h hstamp hver happlied').symm
  have htables : SameTables s.db s'.db :=
    { hrows with
      base := hbase
      noGroups := hinv.represents.groups
      tokens := (untouched hreach).1.trans (untouched hreach').1.symm
      attachments := (untouched hreach).2.trans (untouched hreach').2.symm }
  exact htables.sameAnswers (leavesApart_of_reachable h hdepth hreach)

/-- Tables whose rows have the same base columns in the order of their insertion. -/
theorem sameBase_of_scan {db db' : Database} (h : (scan db.asset).map (fun e => (e.1, baseColumns e.2))
    = (scan db'.asset).map fun e => (e.1, baseColumns e.2)) : SameBase db db' := by
  have hmem : ∀ (db : Database) id b, (id, b) ∈ (scan db.asset).map (fun e => (e.1, baseColumns e.2)) ↔
      (db.asset.lookup id).map baseColumns = some b := by
    intro db id b
    rw [List.mem_map, Option.map_eq_some_iff]
    constructor
    · rintro ⟨⟨id', r⟩, hr, heq⟩
      obtain ⟨rfl, rfl⟩ := Prod.mk.inj heq
      exact ⟨r, (mem_scan _ _ _).mp hr, rfl⟩
    · rintro ⟨r, hr, rfl⟩
      exact ⟨(id, r), (mem_scan _ _ _).mpr hr, rfl⟩
  intro id
  ext b
  rw [← hmem, ← hmem, h]

/-- Two indexers have handled a transfer and a delegation of one leaf in different orders. -/
theorem either_order_answers_alike : ∃ s s', Reachable Env.sample [sampleTransfer 1 1 10, sampleDelegate] s ∧
    Reachable Env.sample [sampleTransfer 1 1 10, sampleDelegate] s' ∧
    s.applied = [sampleDelegate, sampleTransfer 1 1 10] ∧ s'.applied = [sampleTransfer 1 1 10, sampleDelegate] ∧
    SameAnswers s.db s'.db := by
  set is := [sampleTransfer 1 1 10, sampleDelegate] with his
  have hfirst : sampleTransfer 1 1 10 ∈ is := List.mem_cons_self
  have hsecond : sampleDelegate ∈ is := List.mem_cons_of_mem _ List.mem_cons_self
  have hcases : ∀ i ∈ is, i = sampleTransfer 1 1 10 ∨ i = sampleDelegate := fun i hi =>
    (List.mem_cons.mp hi).imp_right List.mem_singleton.mp
  have hstamp : OneChangePerStamp Env.sample is := by
    intro i hi j hj id cl cl' _ _ hcl hcl' hseq
    rcases hcases i hi with rfl | rfl <;> rcases hcases j hj with rfl | rfl
    · rfl
    · cases hcl
      cases hcl'
      exact absurd hseq (by decide)
    · cases hcl
      cases hcl'
      exact absurd hseq (by decide)
    · rfl
  have hdepth : OneDepth Env.sample is := by
    have hlength : ∀ i ∈ is, ∀ e, recordedEvent Env.sample i = some e → e.path.length = 1 := by
      intro i hi e he
      rcases hcases i hi with rfl | rfl
      · obtain rfl := Option.some.inj he
        rfl
      · obtain rfl := Option.some.inj he
        rfl
    intro i hi j hj e e' he he' _
    rw [hlength i hi e he, hlength j hj e' he']
  obtain ⟨s, hreach, -, happlied, hdb⟩ := handles_both .refl hfirst hsecond
  obtain ⟨s', hreach', -, happlied', hdb'⟩ := handles_both .refl hsecond hfirst
  refine ⟨s, s', hreach, hreach', happlied, happlied', nodes_answer_alike delivery_of_delegate hstamp hdepth hreach
    hreach' ?_ ?_ ?_⟩
  · intro i hi
    rw [happlied]
    rcases hcases i hi with rfl | rfl
    · exact List.mem_cons_of_mem _ List.mem_cons_self
    · exact List.mem_cons_self
  · intro i hi
    rw [happlied']
    exact hi
  · rw [hdb, hdb']
    exact sameBase_of_scan (by decide +kernel)

end DasIndexer.Dapi
