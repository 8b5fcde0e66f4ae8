import DasIndexer.Bubblegum.Plan
import DasIndexer.Lib.StampedUpsert

/-!
# The tables as last-writer cells

What the Bubblegum handlers write is a set of cells: a row of `cl_items`, `cl_audits_v2`, `asset_data`,
`asset_creators`, `asset_grouping` and `asset_authority` is one cell each, and a row of `asset` is six,
one for each group of columns that is written under its own stamp and one for the row being there.
`Represents` relates a store of cells to the tables, and **`Represents.write`** says that every statement
of a handler is its cell writes.  The columns of `upsert_asset_base_info` are no cell: they go into a new
row only, so what they hold is a matter of which statement made the row.

The relation holds only while no stored stamp is zero (zero marks a decompressed asset and blocks every
guard) and while the leaves of an asset have one schema version (a version 1 write leaves the version 2
columns as they are); `Valid` carries both.
-/

namespace DasIndexer.Bubblegum

open Sql LastWriter

/-! ### Cells -/

inductive Cell where
  | clItem (k : Bytes × ℤ)
  | clAudit (k : Bytes × ℤ × ℤ)
  | data (id : Bytes)
  | creator (k : Bytes × ℤ)
  | collection (id : Bytes)
  | authority (id : Bytes)
  | row (id : Bytes)
  | leaf (id : Bytes)
  | owner (id : Bytes)
  | seq (id : Bytes)
  | burnt (id : Bytes)
  | compression (id : Bytes)
deriving DecidableEq

/-- What a cell holds beside its stamp. -/
@[reducible] def Cell.Value : Cell → Type
  | .clItem _ => ClItemRow
  | .clAudit _ => ClAuditRow
  | .data _ => AssetDataRow
  | .creator _ => AssetCreatorRow
  | .collection _ => AssetGroupingRow
  | .authority _ => AssetAuthorityRow
  | .leaf _ => LeafInfo
  | .owner _ => Bytes × Option Bytes
  | .row _ | .seq _ | .burnt _ | .compression _ => Unit

/-- Whether a write of equal stamp is taken. -/
def tie : Cell → Bool
  | .clItem _ | .clAudit _ | .authority _ => false
  | _ => true

/-- The cell writes of a statement. -/
def TableWrite.cells : TableWrite → List (Write Cell.Value)
  | .data id row n => [⟨.data id, (n, row)⟩]
  | .baseInfo id _ _ _ => [⟨.row id, (0, ())⟩]
  | .compression id => [⟨.row id, (0, ())⟩, ⟨.compression id, (0, ())⟩]
  | .leafInfo id l n => [⟨.row id, (0, ())⟩, ⟨.leaf id, (n, l)⟩]
  | .ownerAndDelegate id owner delegate n =>
    [⟨.row id, (0, ())⟩, ⟨.owner id, (n, (owner, delegate))⟩]
  | .seq id n => [⟨.row id, (0, ())⟩, ⟨.seq id, (n, ())⟩]
  | .burnt id => [⟨.row id, (0, ())⟩, ⟨.burnt id, (0, ())⟩]
  | .creators id cs slot n => (creatorRows id cs slot n).map fun e => ⟨.creator e.1, (n, e.2.new)⟩
  | .authority id a slot n => [⟨.authority id, (0, { authority := a, seq := n, slotUpdated := slot })⟩]
  | .collection id c slot n => [⟨.collection id, (n, (collectionInfo c slot n).new)⟩]

/-! ### The asset row -/

/-- The cells of one asset row. -/
structure AssetCells where
  leaf : Option (ℤ × LeafInfo) := none
  owner : Option (ℤ × (Bytes × Option Bytes)) := none
  seq : Option (ℤ × Unit) := none
  burnt : Option (ℤ × Unit) := none
  compression : Option (ℤ × Unit) := none

/-- The frozen column of a leaf. -/
def LeafInfo.frozen (E : Env) (l : LeafInfo) : Bool :=
  match l.flags with
  | some flags =>
    (E.flagsFromBytes flags).assetLvlFrozen || (E.flagsFromBytes flags).permanentLvlFrozen
  | none => false

/-- The asset row that its cells describe, the columns of `upsert_asset_base_info` left empty. -/
def AssetCells.assetRow (E : Env) (c : AssetCells) : AssetRow where
  nonce := c.leaf.map fun x => x.2.nonce
  treeId := c.leaf.map fun x => x.2.treeId
  leaf := c.leaf.map fun x => x.2.leaf
  dataHash := c.leaf.map fun x => x.2.dataHash.toString
  creatorHash := c.leaf.map fun x => x.2.creatorHash.toString
  leafSeq := c.leaf.map Prod.fst
  frozen := (c.leaf.map fun x => x.2.frozen E).getD false
  collectionHash := c.leaf.bind fun x => x.2.flags.bind fun _ => x.2.collectionHash.map Pubkey.toString
  assetDataHash := c.leaf.bind fun x => x.2.flags.bind fun _ => x.2.assetDataHash.map Pubkey.toString
  bubblegumFlags := c.leaf.bind fun x => x.2.flags.map fun flags => (flags.toNat : ℤ)
  nonTransferable :=
    c.leaf.bind fun x => x.2.flags.map fun flags => (E.flagsFromBytes flags).nonTransferable
  owner := c.owner.map fun x => x.2.1
  delegate := c.owner.bind fun x => x.2.2
  ownerDelegateSeq := c.owner.map Prod.fst
  seq := c.seq.map Prod.fst
  burnt := c.burnt.isSome
  compressed := c.compression.isSome

/-- The cells of asset `id` in a store. -/
def cellsOf (S : Store Cell.Value) (id : Bytes) : AssetCells :=
  ⟨S (.leaf id), S (.owner id), S (.seq id), S (.burnt id), S (.compression id)⟩

/-! ### Guards -/

theorem holds_notOlder {V : Type} (n : ℤ) (o : Option (ℤ × V)) :
    holds (notOlder n (o.map Prod.fst)) = true ↔ ∀ x, o = some x → x.1 ≤ n := by
  cases o with
  | none => simp [notOlder]
  | some y => simp [notOlder]

theorem holds_notOlderNorZero_some {n m : ℤ} (h : m ≠ 0) :
    holds (notOlderNorZero n (some m)) = true ↔ m ≤ n := by
  simp [notOlderNorZero, h]

theorem holds_notOlderNorZero {V : Type} (n : ℤ) (o : Option (ℤ × V))
    (h : ∀ x, o = some x → x.1 ≠ 0) :
    holds (notOlderNorZero n (o.map Prod.fst)) = true ↔ ∀ x, o = some x → x.1 ≤ n := by
  cases o with
  | none => simp [notOlderNorZero]
  | some y => simp [holds_notOlderNorZero_some (h y rfl)]

theorem holds_notDecompressed {r : AssetRow} (h : ∀ n, r.seq = some n → n ≠ 0) :
    holds (notDecompressed r) = true := by
  cases hr : r.seq with
  | none => simp [notDecompressed, hr]
  | some n => simp [notDecompressed, hr, h n hr]

/-! ### The relation -/

/-- What is known of a cell's content: rows carry their own stamp, stamps are not zero, and leaves have
the version of their asset. -/
def Valid (ver : Bytes → Version) : (c : Cell) → ℤ × c.Value → Prop
  | .clItem _ => fun (x : ℤ × ClItemRow) => x.2.seq = x.1
  | .clAudit _ => fun (x : ℤ × ClAuditRow) => x.1 = 0
  | .data _ => fun (x : ℤ × AssetDataRow) =>
    x.1 ≠ 0 ∧ x.2.baseInfoSeq = some x.1 ∧ x.2.metadata = .str "processing"
  | .creator _ => fun (x : ℤ × AssetCreatorRow) => x.1 ≠ 0 ∧ x.2.seq = some x.1
  | .collection _ => fun (x : ℤ × AssetGroupingRow) => x.1 ≠ 0 ∧ x.2.groupInfoSeq = some x.1
  | .authority _ => fun (x : ℤ × AssetAuthorityRow) => x.1 = 0
  | .burnt _ | .compression _ => fun (x : ℤ × Unit) => x.1 = 0
  | .seq _ => fun (x : ℤ × Unit) => x.1 ≠ 0
  | .leaf id => fun (x : ℤ × LeafInfo) => x.2.version = ver id
  | .row _ | .owner _ => fun _ => True

/-- The tables hold what the store says. -/
structure Represents (E : Env) (ver : Bytes → Version) (S : Store Cell.Value) (db : Database) :
    Prop where
  valid : ∀ c x, S c = some x → Valid ver c x
  covered : ∀ id, S (.row id) = none → cellsOf S id = {}
  clItems : ∀ k, db.clItems.lookup k = (S (.clItem k)).map Prod.snd
  clAudits : ∀ k, db.clAuditsV2.lookup k = (S (.clAudit k)).map Prod.snd
  data : ∀ id, db.assetData.lookup id = (S (.data id)).map Prod.snd
  creators : ∀ k, db.assetCreators.lookup k = (S (.creator k)).map Prod.snd
  collections : ∀ id, db.assetGrouping.lookup (.collection id) = (S (.collection id)).map Prod.snd
  groups : ∀ id v, db.assetGrouping.lookup (.group id v) = none
  authorities : ∀ id, db.assetAuthority.lookup id = (S (.authority id)).map Prod.snd
  assets : ∀ id, (db.asset.lookup id).map AssetRow.withoutBaseInfo
    = (S (.row id)).map fun _ => (cellsOf S id).assetRow E

theorem Represents.empty (E : Env) (ver : Bytes → Version) :
    Represents E ver (fun _ => none) Database.empty where
  valid := by simp
  covered := fun _ _ => rfl
  clItems := fun _ => rfl
  clAudits := fun _ => rfl
  data := fun _ => rfl
  creators := fun _ => rfl
  collections := fun _ => rfl
  groups := fun _ _ => rfl
  authorities := fun _ => rfl
  assets := fun _ => rfl

namespace Represents

variable {E : Env} {ver : Bytes → Version} {S : Store Cell.Value} {db : Database}

/-! ### Tables of one cell a row -/

/-- An upsert under one key that is the write of its cell keeps a table and its cells in step. -/
theorem lookup_of_cell {K R : Type} [DecidableEq K] {t : Table K R} {k : K} {u : Upsert R}
    {old : K → Option (ℤ × R)} (new : K → Option (ℤ × R)) (h : ∀ k', t.lookup k' = (old k').map Prod.snd)
    (hself : some (u.row ((old k).map Prod.snd)) = (new k).map Prod.snd)
    (hne : ∀ k', k' ≠ k → new k' = old k') (k' : K) :
    (upsert t k u).lookup k' = (new k').map Prod.snd := by
  by_cases hk : k' = k
  · subst hk
    rw [lookup_upsert_self, h, hself]
  · rw [lookup_upsert_ne _ _ hk, h, hne k' hk]

theorem upsertAssetData (h : Represents E ver S db) {id : Bytes} {row : AssetDataRow} {n : ℤ}
    (hn : n ≠ 0) (hrow : row.baseInfoSeq = some n) (hmeta : row.metadata = .str "processing") :
    Represents E ver (put tie S ⟨.data id, (n, row)⟩)
      (Database.upsertAssetData id (assetDataInfo row n) db) where
  valid := put_forall tie h.valid ⟨hn, hrow, hmeta⟩
  covered := h.covered
  clItems := h.clItems
  clAudits := h.clAudits
  creators := h.creators
  collections := h.collections
  groups := h.groups
  authorities := h.authorities
  assets := h.assets
  data := by
    refine lookup_of_cell (fun id' => put tie S ⟨.data id, (n, row)⟩ (.data id')) h.data ?_ ?_
    · rw [put_self]
      refine StampedUpsert.row_of_notOlder _ _ (n, row) rfl ?_ ?_
      · intro x hx
        obtain ⟨hx0, hstamp, _⟩ := h.valid (.data id) x hx
        show holds (notOlderNorZero n x.2.baseInfoSeq) = true ↔ _
        rw [hstamp, holds_notOlderNorZero_some hx0]
      · intro x hx
        obtain ⟨_, _, hxmeta⟩ := h.valid (.data id) x hx
        show { row with metadata := x.2.metadata } = row
        rw [hxmeta, ← hmeta]
    · intro id' hid
      exact put_ne tie S _ (by simpa using hid)

theorem upsertCreator (h : Represents E ver S db) {k : Bytes × ℤ} {u : Upsert AssetCreatorRow}
    {n : ℤ} (hn : n ≠ 0) (hnew : u.new.seq = some n) (hset : ∀ r, u.set r = u.new)
    (hguard : ∀ r, u.guard r = notOlderNorZero n r.seq) :
    Represents E ver (put tie S ⟨.creator k, (n, u.new)⟩)
      { db with assetCreators := upsert db.assetCreators k u } where
  valid := put_forall tie h.valid ⟨hn, hnew⟩
  covered := h.covered
  clItems := h.clItems
  clAudits := h.clAudits
  data := h.data
  collections := h.collections
  groups := h.groups
  authorities := h.authorities
  assets := h.assets
  creators := by
    refine lookup_of_cell (fun k' => put tie S ⟨.creator k, (n, u.new)⟩ (.creator k'))
      h.creators ?_ ?_
    · rw [put_self]
      refine StampedUpsert.row_of_notOlder _ _ (n, u.new) rfl ?_ fun x _ => hset x.2
      intro x hx
      obtain ⟨hx0, hstamp⟩ := h.valid (.creator k) x hx
      rw [hguard, hstamp, holds_notOlderNorZero_some hx0]
    · intro k' hk
      exact put_ne tie S _ (by simpa using hk)

theorem upsertCreators (h : Represents E ver S db) {rows : List ((Bytes × ℤ) × Upsert AssetCreatorRow)}
    {n : ℤ} (hn : n ≠ 0)
    (hrows : ∀ e ∈ rows, e.2.new.seq = some n ∧ (∀ r, e.2.set r = e.2.new) ∧
      ∀ r, e.2.guard r = notOlderNorZero n r.seq) :
    Represents E ver
      ((rows.map fun e => (⟨.creator e.1, (n, e.2.new)⟩ : Write Cell.Value)).foldl (put tie) S)
      (Database.upsertCreators rows db) := by
  induction rows generalizing S db with
  | nil => exact h
  | cons e rows ih =>
    obtain ⟨hnew, hset, hguard⟩ := hrows e List.mem_cons_self
    exact ih (h.upsertCreator hn hnew hset hguard) fun e' he' =>
      hrows e' (List.mem_cons_of_mem _ he')

theorem creatorRows_stamped {id : Bytes} {cs : List Creator} {slot n : ℤ} :
    ∀ e ∈ creatorRows id cs slot n, e.2.new.seq = some n ∧ (∀ r, e.2.set r = e.2.new) ∧
      ∀ r, e.2.guard r = notOlderNorZero n r.seq := by
  intro e he
  unfold creatorRows at he
  split at he
  · rw [List.mem_singleton] at he
    subst he
    exact ⟨rfl, fun _ => rfl, fun _ => rfl⟩
  · obtain ⟨c, _, rfl⟩ := List.mem_map.mp he
    exact ⟨rfl, fun _ => rfl, fun _ => rfl⟩

theorem upsertCollection (h : Represents E ver S db) {id : Bytes} {c : Option Collection}
    {slot n : ℤ} (hn : n ≠ 0) :
    Represents E ver (put tie S ⟨.collection id, (n, (collectionInfo c slot n).new)⟩)
      (Database.upsertGrouping (.collection id) (collectionInfo c slot n) db) where
  valid := put_forall tie h.valid ⟨hn, rfl⟩
  covered := h.covered
  clItems := h.clItems
  clAudits := h.clAudits
  data := h.data
  creators := h.creators
  authorities := h.authorities
  assets := h.assets
  groups := by
    intro id' v
    exact (lookup_upsert_ne _ _ (by simp)).trans (h.groups id' v)
  collections := by
    intro id'
    by_cases hid : id' = id
    · subst hid
      show (upsert db.assetGrouping (.collection id') (collectionInfo c slot n)).lookup _ = _
      rw [lookup_upsert_self, h.collections, put_self]
      refine StampedUpsert.row_of_notOlder _ _ (n, (collectionInfo c slot n).new) rfl ?_
        fun _ _ => rfl
      intro x hx
      obtain ⟨hx0, hstamp⟩ := h.valid (.collection id') x hx
      show holds (notOlderNorZero n x.2.groupInfoSeq) = true ↔ _
      rw [hstamp, holds_notOlderNorZero_some hx0]
    · rw [put_ne tie S _ (by simpa using hid)]
      exact (lookup_upsert_ne _ _ (by simpa using hid)).trans (h.collections id')

theorem upsertAuthority (h : Represents E ver S db) {id a : Bytes} {slot n : ℤ} :
    Represents E ver
      (put tie S ⟨.authority id, (0, { authority := a, seq := n, slotUpdated := slot })⟩)
      (Database.upsertAuthority id (assetAuthority a slot n) db) where
  valid := put_forall tie h.valid rfl
  covered := h.covered
  clItems := h.clItems
  clAudits := h.clAudits
  data := h.data
  creators := h.creators
  collections := h.collections
  groups := h.groups
  assets := h.assets
  authorities := by
    refine lookup_of_cell (fun id' => put tie S
      ⟨.authority id, (0, { authority := a, seq := n, slotUpdated := slot })⟩ (.authority id'))
      h.authorities ?_ ?_
    · rw [put_self]
      exact StampedUpsert.row_of_doNothing _ _ 0 (h.valid (.authority id))
    · intro id' hid
      exact put_ne tie S _ (by simpa using hid)

theorem upsertClAudit (h : Represents E ver S db) {event : ChangeLogEventV1} {tx : Bytes}
    {ix : Instruction} :
    Represents E ver
      (put tie S ⟨.clAudit (event.id.bytes, (event.index : ℤ), (event.seq : ℤ)),
        (0, { tx, instruction := ix })⟩)
      (clAudit event tx ix db) where
  valid := put_forall tie h.valid rfl
  covered := h.covered
  clItems := h.clItems
  data := h.data
  creators := h.creators
  collections := h.collections
  groups := h.groups
  authorities := h.authorities
  assets := h.assets
  clAudits := by
    refine lookup_of_cell (fun k' => put tie S
      ⟨.clAudit (event.id.bytes, (event.index : ℤ), (event.seq : ℤ)), (0, { tx, instruction := ix })⟩
      (.clAudit k')) h.clAudits ?_ ?_
    · rw [put_self]
      exact StampedUpsert.row_of_doNothing _ _ 0 (h.valid (.clAudit _))
    · intro k' hk
      exact put_ne tie S _ (by simpa using hk)

theorem upsertClItem (h : Represents E ver S db) (event : ChangeLogEventV1) (depth i : ℕ)
    (p : PathNode) :
    Represents E ver
      (put tie S ⟨.clItem (event.id.bytes, (p.index : ℤ)),
        ((event.seq : ℤ), (clItem event depth i p).new)⟩)
      (Database.upsertClItem (event.id.bytes, (p.index : ℤ)) (clItem event depth i p) db) where
  valid := put_forall tie h.valid rfl
  covered := h.covered
  clAudits := h.clAudits
  data := h.data
  creators := h.creators
  collections := h.collections
  groups := h.groups
  authorities := h.authorities
  assets := h.assets
  clItems := by
    refine lookup_of_cell (fun k' => put tie S ⟨.clItem (event.id.bytes, (p.index : ℤ)),
      ((event.seq : ℤ), (clItem event depth i p).new)⟩ (.clItem k')) h.clItems ?_ ?_
    · rw [put_self]
      refine StampedUpsert.row_of_strict _ _ ((event.seq : ℤ), (clItem event depth i p).new) rfl ?_
        fun _ _ => rfl
      intro x hx
      have hstamp : x.2.seq = x.1 := h.valid (.clItem _) x hx
      show holds (gt (some (event.seq : ℤ)) (some x.2.seq)) = true ↔ _
      rw [hstamp, holds_gt_some, decide_eq_true_iff]
    · intro k' hk
      exact put_ne tie S _ (by simpa using hk)

/-! ### The asset row -/

/-- The store after a write to one of the cells of an asset row: the row is there. -/
abbrev putAsset (S : Store Cell.Value) (id : Bytes) (w : Write Cell.Value) : Store Cell.Value :=
  put tie (put tie S ⟨.row id, (0, ())⟩) w

section

variable {u : Upsert AssetRow} {S' : Store Cell.Value}

theorem covered_of_cells (h : Represents E ver S db) (id : Bytes)
    (hrow : S' (.row id) = newer true (S (.row id)) (0, ()))
    (hother : ∀ id', id' ≠ id → S' (.row id') = S (.row id') ∧ cellsOf S' id' = cellsOf S id')
    (id' : Bytes) (hnone : S' (.row id') = none) : cellsOf S' id' = {} := by
  by_cases hid : id' = id
  · subst hid
    have hsome := newer_isSome true (S (.row id')) (0, ())
    rw [← hrow, hnone] at hsome
    exact absurd hsome (by simp)
  · obtain ⟨hr, hc⟩ := hother id' hid
    rw [hc]
    rw [hr] at hnone
    exact h.covered id' hnone

/-- An upsert of an asset row is a write of its cells when it turns the row that the old cells describe
into the row that the new ones describe, and proposes the latter for an absent row. -/
theorem assets_of_cells (h : Represents E ver S db) {id : Bytes}
    (hrow : S' (.row id) = newer true (S (.row id)) (0, ()))
    (hother : ∀ id', id' ≠ id → S' (.row id') = S (.row id') ∧ cellsOf S' id' = cellsOf S id')
    (hnew : cellsOf S id = {} → u.new.withoutBaseInfo = (cellsOf S' id).assetRow E)
    (hold : ∀ r, r.withoutBaseInfo = (cellsOf S id).assetRow E →
      (u.row (some r)).withoutBaseInfo = (cellsOf S' id).assetRow E) (id' : Bytes) :
    ((upsert db.asset id u).lookup id').map AssetRow.withoutBaseInfo
      = (S' (.row id')).map fun _ => (cellsOf S' id').assetRow E := by
  by_cases hid : id' = id
  · subst hid
    obtain ⟨x, hx⟩ := Option.isSome_iff_exists.mp (newer_isSome true (S (.row id')) (0, ()))
    rw [hrow, hx, lookup_upsert_self, Option.map_some, Option.map_some]
    have hasset := h.assets id'
    cases hl : db.asset.lookup id' with
    | none =>
      rw [hl] at hasset
      have hnone : S (.row id') = none := Option.map_eq_none_iff.mp hasset.symm
      rw [Upsert.row_none, hnew (h.covered id' hnone)]
    | some r =>
      rw [hl, Option.map_some] at hasset
      obtain ⟨_, _, hr⟩ := Option.map_eq_some_iff.mp hasset.symm
      rw [hold r hr.symm]
  · obtain ⟨hr, hc⟩ := hother id' hid
    rw [lookup_upsert_ne _ _ hid, hr, hc]
    exact h.assets id'

/-- A row that the cells of an unopened asset describe can be written to. -/
theorem holds_notDecompressed_of_cells (h : Represents E ver S db) {id : Bytes} {r : AssetRow}
    (hr : r.withoutBaseInfo = (cellsOf S id).assetRow E) :
    holds (notDecompressed r) = true := by
  have hseq : r.seq = (S (.seq id)).map Prod.fst := congrArg AssetRow.seq hr
  apply holds_notDecompressed
  intro n hn
  rw [hseq] at hn
  obtain ⟨x, hx, rfl⟩ := Option.map_eq_some_iff.mp hn
  exact h.valid (.seq id) x hx

/-- A guarded assignment of one group of columns, as a write of its cell; `c` is the row's cells as a
function of that one. -/
theorem row_of_cell {V : Type} {o : Option (ℤ × V)} {w : ℤ × V} {r : AssetRow}
    (c : Option (ℤ × V) → AssetCells) (hr : r.withoutBaseInfo = (c o).assetRow E)
    (hguard : holds (u.guard r) = true ↔ ∀ x, o = some x → x.1 ≤ w.1)
    (hset : (u.set r).withoutBaseInfo = (c (some w)).assetRow E) :
    (u.row (some r)).withoutBaseInfo = (c (newer true o w)).assetRow E := by
  rw [Upsert.row_some]
  by_cases hle : ∀ x, o = some x → x.1 ≤ w.1
  · rw [newer_true_of_le hle, if_pos (hguard.mpr hle)]
    exact hset
  · rw [newer_true_of_not_le hle, if_neg fun hg => hle (hguard.mp hg)]
    exact hr

end

theorem setLeafInfo_withoutBaseInfo (E : Env) (l : LeafInfo) (n : ℤ) (r : AssetRow) :
    (setLeafInfo E l n r).withoutBaseInfo = setLeafInfo E l n r.withoutBaseInfo := by
  cases hl : l.flags <;> simp [setLeafInfo, AssetRow.withoutBaseInfo, hl]

/-- A leaf write on the row that cells of its version describe.  Only here does the version matter:
without flags the version 2 columns keep what the old leaf put there, which is nothing. -/
theorem setLeafInfo_assetRow (E : Env) (l : LeafInfo) (n : ℤ) (c : AssetCells)
    (hver : ∀ x, c.leaf = some x → x.2.version = l.version) :
    setLeafInfo E l n (c.assetRow E) = AssetCells.assetRow E { c with leaf := some (n, l) } := by
  cases hl : l.flags with
  | some flags =>
    simp [setLeafInfo, AssetCells.assetRow, LeafInfo.frozen, hl]
  | none =>
    have hold : ∀ x, c.leaf = some x → x.2.flags = none := by
      intro x hx
      have := hver x hx
      simpa [LeafInfo.version, hl] using this
    cases hc : c.leaf with
    | none => simp [setLeafInfo, AssetCells.assetRow, LeafInfo.frozen, hl, hc]
    | some x => simp [setLeafInfo, AssetCells.assetRow, LeafInfo.frozen, hl, hc, hold x hc]

theorem upsertAssetSeq (h : Represents E ver S db) {id : Bytes} {n : ℤ} (hn : n ≠ 0) :
    Represents E ver (putAsset S id ⟨.seq id, (n, ())⟩)
      (Database.upsertAsset id (assetSeq n) db) where
  valid := put_forall tie (put_forall tie h.valid trivial) hn
  clItems := h.clItems
  clAudits := h.clAudits
  data := h.data
  creators := h.creators
  collections := h.collections
  groups := h.groups
  authorities := h.authorities
  covered := by
    refine h.covered_of_cells id (by simp [put_ne, tie]) fun id' hid => ?_
    simp [cellsOf, put_ne, hid]
  assets := by
    have hcells : cellsOf (putAsset S id ⟨.seq id, (n, ())⟩) id
        = { cellsOf S id with seq := newer true (S (.seq id)) (n, ()) } := by
      simp [cellsOf, put_ne, tie]
    refine h.assets_of_cells (by simp [put_ne, tie]) (fun id' hid => ?_) (fun hempty => ?_)
      fun r hr => ?_
    · simp [cellsOf, put_ne, hid]
    · have hnone : S (.seq id) = none := congrArg AssetCells.seq hempty
      rw [hcells, hempty, hnone]
      rfl
    · rw [hcells]
      refine row_of_cell (fun o => { cellsOf S id with seq := o }) hr ?_ ?_
      · have hseq : r.seq = (S (.seq id)).map Prod.fst := congrArg AssetRow.seq hr
        show holds (notOlderNorZero n r.seq) = true ↔ _
        rw [hseq]
        exact holds_notOlderNorZero n (S (.seq id)) (h.valid (.seq id))
      · show { r.withoutBaseInfo with seq := some n } = _
        rw [hr]
        rfl

theorem upsertAssetOwnerAndDelegate (h : Represents E ver S db) {id owner : Bytes} {delegate : Option Bytes} {n : ℤ} :
    Represents E ver (putAsset S id ⟨.owner id, (n, (owner, delegate))⟩)
      (Database.upsertAsset id (assetOwnerAndDelegate owner delegate n) db) where
  valid := put_forall tie (put_forall tie h.valid trivial) trivial
  clItems := h.clItems
  clAudits := h.clAudits
  data := h.data
  creators := h.creators
  collections := h.collections
  groups := h.groups
  authorities := h.authorities
  covered := by
    refine h.covered_of_cells id (by simp [put_ne, tie]) fun id' hid => ?_
    simp [cellsOf, put_ne, hid]
  assets := by
    have hcells : cellsOf (putAsset S id ⟨.owner id, (n, (owner, delegate))⟩) id
        = { cellsOf S id with owner := newer true (S (.owner id)) (n, (owner, delegate)) } := by
      simp [cellsOf, put_ne, tie]
    refine h.assets_of_cells (by simp [put_ne, tie]) (fun id' hid => ?_) (fun hempty => ?_)
      fun r hr => ?_
    · simp [cellsOf, put_ne, hid]
    · have hnone : S (.owner id) = none := congrArg AssetCells.owner hempty
      rw [hcells, hempty, hnone]
      rfl
    · rw [hcells]
      refine row_of_cell (fun o => { cellsOf S id with owner := o }) hr ?_ ?_
      · have hstamp : r.ownerDelegateSeq = (S (.owner id)).map Prod.fst :=
          congrArg AssetRow.ownerDelegateSeq hr
        show holds (and (notDecompressed r) (notOlder n r.ownerDelegateSeq)) = true ↔ _
        rw [holds_and, h.holds_notDecompressed_of_cells hr, Bool.true_and, hstamp]
        exact holds_notOlder n (S (.owner id))
      · show { r.withoutBaseInfo with
          owner := some owner, delegate, ownerDelegateSeq := some n } = _
        rw [hr]
        rfl

/-- The row is there; a stored one keeps all but `slot_updated`, whichever way the guard decides. -/
theorem upsertAssetBaseInfo (h : Represents E ver S db) {id : Bytes} {b : BaseInfo} {slot n : ℤ} :
    Represents E ver (put tie S ⟨.row id, (0, ())⟩)
      (Database.upsertAsset id (assetBaseInfo id b slot n) db) where
  valid := put_forall tie h.valid trivial
  clItems := h.clItems
  clAudits := h.clAudits
  data := h.data
  creators := h.creators
  collections := h.collections
  groups := h.groups
  authorities := h.authorities
  covered := by
    refine h.covered_of_cells id (by simp [tie]) fun id' hid => ?_
    simp [cellsOf, put_ne, hid]
  assets := by
    have hcells : cellsOf (put tie S ⟨.row id, (0, ())⟩) id = cellsOf S id := by
      simp [cellsOf, put_ne]
    refine h.assets_of_cells (by simp [tie]) (fun id' hid => ?_) (fun hempty => ?_) fun r hr => ?_
    · simp [cellsOf, put_ne, hid]
    · rw [hcells, hempty]
      rfl
    · rw [hcells, ← hr, Upsert.row_some]
      split
      · rfl
      · rfl

/-- The unguarded write: all its stamps are the same. -/
theorem upsertAssetBurnt (h : Represents E ver S db) {id : Bytes} :
    Represents E ver (putAsset S id ⟨.burnt id, (0, ())⟩)
      (Database.upsertAsset id assetBurnt db) where
  valid := put_forall tie (put_forall tie h.valid trivial) rfl
  clItems := h.clItems
  clAudits := h.clAudits
  data := h.data
  creators := h.creators
  collections := h.collections
  groups := h.groups
  authorities := h.authorities
  covered := by
    refine h.covered_of_cells id (by simp [put_ne, tie]) fun id' hid => ?_
    simp [cellsOf, put_ne, hid]
  assets := by
    have hcells : cellsOf (putAsset S id ⟨.burnt id, (0, ())⟩) id
        = { cellsOf S id with burnt := newer true (S (.burnt id)) (0, ()) } := by
      simp [cellsOf, put_ne, tie]
    refine h.assets_of_cells (by simp [put_ne, tie]) (fun id' hid => ?_) (fun hempty => ?_)
      fun r hr => ?_
    · simp [cellsOf, put_ne, hid]
    · have hnone : S (.burnt id) = none := congrArg AssetCells.burnt hempty
      rw [hcells, hempty, hnone]
      rfl
    · rw [hcells]
      refine row_of_cell (fun o => { cellsOf S id with burnt := o }) hr ?_ ?_
      · have hstamp : ∀ x, S (.burnt id) = some x → x.1 ≤ 0 :=
          fun x hx => le_of_eq (h.valid (.burnt id) x hx)
        exact ⟨fun _ => hstamp, fun _ => rfl⟩
      · show { r.withoutBaseInfo with burnt := true } = _
        rw [hr]
        rfl

theorem upsertAssetCompression (h : Represents E ver S db) {id : Bytes} :
    Represents E ver (putAsset S id ⟨.compression id, (0, ())⟩)
      (Database.upsertAsset id (assetCompression true false 1 none) db) where
  valid := put_forall tie (put_forall tie h.valid trivial) rfl
  clItems := h.clItems
  clAudits := h.clAudits
  data := h.data
  creators := h.creators
  collections := h.collections
  groups := h.groups
  authorities := h.authorities
  covered := by
    refine h.covered_of_cells id (by simp [put_ne, tie]) fun id' hid => ?_
    simp [cellsOf, put_ne, hid]
  assets := by
    have hcells : cellsOf (putAsset S id ⟨.compression id, (0, ())⟩) id
        = { cellsOf S id with compression := newer true (S (.compression id)) (0, ()) } := by
      simp [cellsOf, put_ne, tie]
    refine h.assets_of_cells (by simp [put_ne, tie]) (fun id' hid => ?_) (fun hempty => ?_)
      fun r hr => ?_
    · simp [cellsOf, put_ne, hid]
    · have hnone : S (.compression id) = none := congrArg AssetCells.compression hempty
      rw [hcells, hempty, hnone]
      rfl
    · rw [hcells]
      refine row_of_cell (fun o => { cellsOf S id with compression := o }) hr ?_ ?_
      · have hstamp : ∀ x, S (.compression id) = some x → x.1 ≤ 0 :=
          fun x hx => le_of_eq (h.valid (.compression id) x hx)
        exact ⟨fun _ => hstamp, fun _ => h.holds_notDecompressed_of_cells hr⟩
      · show { r.withoutBaseInfo with
          compressed := true, compressible := false, supply := 1, supplyMint := none } = _
        rw [hr]
        rfl

theorem upsertAssetLeafInfo (h : Represents E ver S db) {id : Bytes} {l : LeafInfo} {n : ℤ}
    (hver : l.version = ver id) :
    Represents E ver (putAsset S id ⟨.leaf id, (n, l)⟩)
      (Database.upsertAsset id (assetLeafInfo E l n) db) where
  valid := put_forall tie (put_forall tie h.valid trivial) hver
  clItems := h.clItems
  clAudits := h.clAudits
  data := h.data
  creators := h.creators
  collections := h.collections
  groups := h.groups
  authorities := h.authorities
  covered := by
    refine h.covered_of_cells id (by simp [put_ne, tie]) fun id' hid => ?_
    simp [cellsOf, put_ne, hid]
  assets := by
    have hcells : cellsOf (putAsset S id ⟨.leaf id, (n, l)⟩) id
        = { cellsOf S id with leaf := newer true (S (.leaf id)) (n, l) } := by
      simp [cellsOf, put_ne, tie]
    refine h.assets_of_cells (by simp [put_ne, tie]) (fun id' hid => ?_) (fun hempty => ?_)
      fun r hr => ?_
    · simp [cellsOf, put_ne, hid]
    · have hnone : S (.leaf id) = none := congrArg AssetCells.leaf hempty
      rw [hcells, hempty, hnone]
      exact (setLeafInfo_withoutBaseInfo E l n {}).trans
        (setLeafInfo_assetRow E l n {} (by simp))
    · rw [hcells]
      refine row_of_cell (fun o => { cellsOf S id with leaf := o }) hr ?_ ?_
      · have hstamp : r.leafSeq = (S (.leaf id)).map Prod.fst := congrArg AssetRow.leafSeq hr
        show holds (and (notDecompressed r) (notOlder n r.leafSeq)) = true ↔ _
        rw [holds_and, h.holds_notDecompressed_of_cells hr, Bool.true_and, hstamp]
        exact holds_notOlder n (S (.leaf id))
      · show (setLeafInfo E l n r).withoutBaseInfo = _
        rw [setLeafInfo_withoutBaseInfo, hr]
        refine setLeafInfo_assetRow E l n (cellsOf S id) fun x hx => ?_
        exact (h.valid (.leaf id) x hx).trans hver.symm

/-- **A statement of a handler is its cell writes.** -/
theorem write (h : Represents E ver S db) {id : Bytes} {n : ℤ} {w : TableWrite} (hn : n ≠ 0)
    (hfits : w.Fits id n) (hver : ∀ id' l n', w = .leafInfo id' l n' → l.version = ver id) :
    Represents E ver (w.cells.foldl (put tie) S) (w.apply E db) := by
  cases w with
  | data id' row n' =>
    obtain ⟨rfl, rfl, hrow, hmeta⟩ := hfits
    exact h.upsertAssetData hn hrow hmeta
  | baseInfo id' b slot n' => exact h.upsertAssetBaseInfo
  | compression id' => exact h.upsertAssetCompression
  | leafInfo id' l n' =>
    obtain ⟨rfl, rfl⟩ := hfits
    exact h.upsertAssetLeafInfo (hver _ l _ rfl)
  | ownerAndDelegate id' owner delegate n' => exact h.upsertAssetOwnerAndDelegate
  | seq id' n' =>
    obtain ⟨rfl, rfl⟩ := hfits
    exact h.upsertAssetSeq hn
  | burnt id' => exact h.upsertAssetBurnt
  | creators id' cs slot n' =>
    obtain ⟨rfl, rfl⟩ := hfits
    exact h.upsertCreators hn creatorRows_stamped
  | authority id' a slot n' => exact h.upsertAuthority
  | collection id' c slot n' =>
    obtain ⟨rfl, rfl⟩ := hfits
    exact h.upsertCollection hn

end Represents

end DasIndexer.Bubblegum
