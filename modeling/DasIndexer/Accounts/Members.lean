import DasIndexer.Accounts.Authority
import DasIndexer.Lib.OwnValues

/-!
# The authority of a collection and of its members

The update authority of a Core asset may be its collection, and the authority that is then indexed is
the collection's own.  It reaches a member in two ways: the member copies it when it is saved, under
the slot of the member, and a collection whose own row changes passes it on to the members that are
stored, if their rows are older.  Passing it on is no part of the transaction of the save, and is not
undone where the URI of the collection does not fit its column.  Seen from one member, the collection is a
leader and the member a follower (`represents_after`).

Neither way sees a member that is saved before its collection in a later slot: it stores an empty
authority, and the older collection does not replace it (`early_member_keeps_nothing`).
**`authority_reaches_members_iff`** says for which updates every member ends with the collection's newest
authority, in every order.
-/

namespace DasIndexer.Accounts.Members

open Sql Session ChangedOnly
open LastWriter (newer newer_true_some)
open MplCore (Kind IndexableAsset UpdateAuthority saveEffect resolvedAuthority authorityEffect isMember)
open Authority (cellOf authorityOf cellOf_eq_change)
open Followers (Op State)

/-- An update of the collection, whose update authority is an address. -/
structure CollectionUpdate where
  asset : IndexableAsset
  authority : Pubkey
  slot : ℕ
  authority_eq : asset.updateAuthority = .address authority

/-- An update of a Core asset. -/
structure AssetUpdate where
  id : Pubkey
  asset : IndexableAsset
  slot : ℕ

inductive Update where
  | collection (u : CollectionUpdate)
  | asset (u : AssetUpdate)

namespace Update

def slot : Update → ℕ
  | collection u => u.slot
  | asset u => u.slot

variable (E : MplCore.Env) (C : Pubkey)

def handle : Update → Handler Unit
  | collection u => MplCore.handleMplCoreAccount E C u.slot (.collection u.asset)
  | asset u => MplCore.handleMplCoreAccount E u.id u.slot (.asset u.asset)

def effect : Update → Database → Database
  | collection u => saveEffect E C .collection u.asset u.slot
  | asset u => saveEffect E u.id .asset u.asset u.slot

theorem handle_leaves (u : Update) : Leaves (u.handle E C) (u.effect E C) := by
  cases u with
  | collection u => exact MplCore.saveAndNotify_leaves E C .collection u.asset u.slot
  | asset u => exact MplCore.saveAndNotify_leaves E u.id .asset u.asset u.slot

end Update

/-- A finite set of updates, with distinct slots, of collection `C` and of assets whose newest update
authority is that collection. -/
structure Family (C : Pubkey) where
  updates : List Update
  slots_nodup : (updates.map Update.slot).Nodup
  newest : CollectionUpdate
  newest_mem : .collection newest ∈ updates
  newest_max : ∀ u, .collection u ∈ updates → u.slot ≤ newest.slot
  members : ∀ u, .asset u ∈ updates → ∃ v, .asset v ∈ updates ∧ v.id = u.id
    ∧ v.asset.updateAuthority = .collection C ∧ ∀ w, .asset w ∈ updates → w.id = u.id → w.slot ≤ v.slot
  /-- The address of a collection is not the address of an asset. -/
  assets_ne : ∀ u, .asset u ∈ updates → u.id ≠ C
    ∧ ∀ v, .asset v ∈ updates → u.asset.updateAuthority ≠ .collection v.id

/-! ### Seen from one member -/

/-- The authority that an asset carries itself: none, if that is collection `C`.  Another collection
has no row. -/
def ownAuthority (C : Pubkey) : UpdateAuthority → Option Bytes
  | .none => some Pubkey.default.bytes
  | .address address => some address.bytes
  | .collection address => if address = C then none else some []

/-- What an update is for member `m`: one of its leader, one of its own, or none of its business.  One whose URI
does not fit is not stored, but an authority is passed on all the same. -/
def toOp (C m : Pubkey) : Update → Option (Op Bytes)
  | .collection u =>
    some (if u.asset.Fits then .lead u.slot u.authority.bytes else .pass u.slot u.authority.bytes)
  | .asset u =>
    if u.id = m ∧ u.asset.Fits then some (.set u.slot (ownAuthority C u.asset.updateAuthority)) else none

/-- The rows that show the state of member `m`. -/
structure Represents {C : Pubkey} (F : Family C) (m : Pubkey) (db : Database) (σ : State Bytes) : Prop where
  leader : cellOf db C.bytes = σ.leader
  cell : cellOf db m.bytes = σ.cell
  follows : (db.assetGrouping.lookup (.collection m.bytes)).map
      (fun g => (g.slotUpdated, decide (g.groupValue = some C.toString)))
    = σ.follows.map fun f => (some f.1, f.2)
  stored : σ.follows.isSome = true → ∃ r, db.asset.lookup m.bytes = some r ∧ r.compressed = false
  plain : ∀ r, db.asset.lookup m.bytes = some r → r.compressed = false
  authorities : ∀ k, (db.assetAuthority.lookup k).isSome = true →
    k = C.bytes ∨ ∃ u, .asset u ∈ F.updates ∧ u.id.bytes = k
  /-- The collection is no member. -/
  apart : ∀ g, db.assetGrouping.lookup (.collection C.bytes) = some g → g.groupValue = none

section Steps

variable {C : Pubkey} {F : Family C} {m : Pubkey} {db : Database} {σ : State Bytes}

/-- A member is a stored asset that follows. -/
theorem isMember_eq_following (h : Represents F m db σ) :
    isMember db C.toString m.bytes = σ.following := by
  have hfollows := h.follows
  unfold isMember State.following
  cases hg : db.assetGrouping.lookup (.collection m.bytes) with
  | none =>
    rw [hg] at hfollows
    cases hf : σ.follows with
    | none => rfl
    | some f => rw [hf] at hfollows; cases hfollows
  | some g =>
    rw [hg] at hfollows
    cases hf : σ.follows with
    | none => rw [hf] at hfollows; cases hfollows
    | some f =>
      rw [hf] at hfollows
      have hb := (Prod.mk.inj (Option.some.inj hfollows)).2
      obtain ⟨r, hr, hplain⟩ := h.stored (by rw [hf]; rfl)
      simp only [hr, hplain, Option.map_some, Option.getD_some, ← hb, Bool.not_false, Bool.and_true]

/-- The collection row of a save is a last-writer cell. -/
theorem grouping_row (asset : IndexableAsset) (slot : ℕ) (o : Option AssetGroupingRow)
    (f : Option (ℤ × Bool))
    (h : o.map (fun g => (g.slotUpdated, decide (g.groupValue = some C.toString)))
      = f.map fun f => (some f.1, f.2)) :
    some (((MplCore.collectionRow asset slot).row o).slotUpdated,
        decide (((MplCore.collectionRow asset slot).row o).groupValue = some C.toString))
      = (newer true f ((slot : ℤ), (ownAuthority C asset.updateAuthority).isNone)).map
        fun f => (some f.1, f.2) := by
  -- the proposed row says that the asset follows exactly when its authority is the collection
  have hrow : ∃ gv verified, MplCore.collectionRow asset slot = accountGrouping gv verified slot
      ∧ decide (gv = some C.toString) = (ownAuthority C asset.updateAuthority).isNone := by
    unfold MplCore.collectionRow ownAuthority
    cases asset.updateAuthority with
    | none => exact ⟨none, false, rfl, by simp⟩
    | address k => exact ⟨none, false, rfl, by simp⟩
    | collection k =>
      refine ⟨some k.toString, true, rfl, ?_⟩
      show decide (some k.toString = some C.toString) = (if k = C then (none : Option Bytes) else some []).isNone
      by_cases hk : k = C
      · rw [if_pos hk, hk]
        simp
      · rw [if_neg hk]
        have hne : k.toString ≠ C.toString := fun heq => hk (Pubkey.toString_inj heq)
        simp [hne]
  obtain ⟨gv, verified, hrow, hb⟩ := hrow
  rw [hrow, ← hb]
  cases o with
  | none =>
    cases f with
    | none => rfl
    | some f => cases h
  | some g =>
    cases f with
    | none => cases h
    | some f =>
      obtain ⟨hslot, hf⟩ := Prod.mk.inj (Option.some.inj h)
      rw [Upsert.row_some, newer_true_some]
      have hguard : holds ((accountGrouping gv verified slot).guard g) = true ↔ f.1 ≤ (slot : ℤ) := by
        simp [accountGrouping, Bubblegum.notOlder, hslot]
      by_cases hle : f.1 ≤ (slot : ℤ)
      · rw [if_pos (hguard.mpr hle), if_pos hle]
        rfl
      · rw [if_neg fun hg => hle (hguard.mp hg), if_neg hle, Option.map_some, hslot, hf]

theorem takes_eq_affects (authority : Bytes) (slot : ℕ) (id : Bytes) (db : Database) :
    takes (cellOf db id) ((slot : ℤ), authority)
      = (authorityColumns authority slot).affects (db.assetAuthority.lookup id) := by
  unfold cellOf
  cases db.assetAuthority.lookup id with
  | none => rfl
  | some r => simp [takes, Upsert.affects, authorityColumns]

/-- A save of an asset leaves every other authority row alone. -/
theorem authorityEffect_of_asset (id : Pubkey) (authority : Bytes) (slot : ℕ) (db : Database) :
    (authorityEffect id .asset authority slot db).assetAuthority
      = upsert db.assetAuthority id.bytes (authorityColumns authority slot) := by
  unfold authorityEffect
  dsimp only
  rw [if_neg (by simp)]
  rfl

/-- No save forgets or invents authority rows of other accounts. -/
theorem authorityEffect_isSome (id : Pubkey) (kind : Kind) (authority : Bytes) (slot : ℕ) (db : Database)
    (k : Bytes) (h : ((authorityEffect id kind authority slot db).assetAuthority.lookup k).isSome = true) :
    k = id.bytes ∨ (db.assetAuthority.lookup k).isSome = true := by
  by_cases hk : k = id.bytes
  · exact Or.inl hk
  · refine Or.inr ?_
    rw [MplCore.authorityEffect_other id kind authority slot db hk, Option.isSome_map] at h
    exact h

/-- An update of the collection passes its authority on where the collection's row changes, stored or not. -/
theorem saveEffect_of_collection (E : MplCore.Env) (C : Pubkey) (u : CollectionUpdate) (db : Database) {k : Bytes}
    (hk : k ≠ C.bytes) :
    (saveEffect E C .collection u.asset u.slot db).assetAuthority.lookup k
      = (db.assetAuthority.lookup k).map fun r =>
        if (authorityColumns u.authority.bytes u.slot).affects (db.assetAuthority.lookup C.bytes) = true
            ∧ r.authority ≠ u.authority.bytes ∧ r.slotUpdated < (u.slot : ℤ) ∧ isMember db C.toString k then
          { r with authority := u.authority.bytes, slotUpdated := u.slot }
        else r := by
  have hauthority : resolvedAuthority u.asset.updateAuthority db = u.authority.bytes := by
    rw [u.authority_eq]
    rfl
  by_cases hfits : u.asset.Fits
  · rw [MplCore.saveEffect_assetAuthority E C .collection u.slot hfits, hauthority,
      MplCore.authorityEffect_other C .collection _ u.slot db hk]
    simp only [and_true]
    rfl
  · rw [MplCore.saveEffect_assetAuthority_of_not_fits E C .collection u.slot hfits, hauthority]
    simp only [and_true]
    rfl

/-- The authority rows after an update of an asset. -/
theorem saveEffect_of_asset (E : MplCore.Env) (u : AssetUpdate) (hfits : u.asset.Fits) (db : Database) :
    (saveEffect E u.id .asset u.asset u.slot db).assetAuthority
      = upsert db.assetAuthority u.id.bytes (authorityColumns (resolvedAuthority u.asset.updateAuthority db)
          u.slot) := by
  rw [MplCore.saveEffect_assetAuthority E u.id .asset u.slot hfits, authorityEffect_of_asset]

/-- The row of a member changes where the collection's row does and the member follows. -/
theorem cellOf_collection (E : MplCore.Env) (h : Represents F m db σ) (hmC : m.bytes ≠ C.bytes)
    (u : CollectionUpdate) :
    cellOf (saveEffect E C .collection u.asset u.slot db) m.bytes
      = σ.passOn ((u.slot : ℤ), u.authority.bytes) := by
  have hmember := isMember_eq_following h
  have htakes := takes_eq_affects u.authority.bytes u.slot C.bytes db
  have hcell := h.cell
  rw [h.leader] at htakes
  unfold cellOf at hcell ⊢
  rw [saveEffect_of_collection E C u db hmC, State.passOn, htakes, hmember]
  cases hr : db.assetAuthority.lookup m.bytes with
  | none =>
    rw [hr] at hcell
    rw [← hcell]
    split <;> rfl
  | some r =>
    rw [hr] at hcell
    rw [← hcell, Option.map_some, Option.map_some, Option.map_some, Option.bind_some]
    by_cases hpass : (authorityColumns u.authority.bytes u.slot).affects (db.assetAuthority.lookup C.bytes) = true
        ∧ σ.following = true
    · rw [if_pos hpass]
      by_cases hnew : r.slotUpdated < (u.slot : ℤ) ∧ r.authority ≠ u.authority.bytes
      · rw [if_pos ⟨hpass.1, hnew.2, hnew.1, hpass.2⟩, change_of_newer hnew.1 hnew.2]
      · rw [if_neg fun hb => hnew ⟨hb.2.2.1, hb.2.1⟩, change, if_neg hnew]
    · rw [if_neg hpass, if_neg fun hb => hpass ⟨hb.1, hb.2.2.2⟩]

/-- The row of the collection changes where its URI fits. -/
theorem cellOf_self (E : MplCore.Env) (h : Represents F m db σ) (u : CollectionUpdate) :
    cellOf (saveEffect E C .collection u.asset u.slot db) C.bytes
      = if u.asset.Fits then change σ.leader ((u.slot : ℤ), u.authority.bytes) else σ.leader := by
  have hauthority : resolvedAuthority u.asset.updateAuthority db = u.authority.bytes := by
    rw [u.authority_eq]
    rfl
  by_cases hfits : u.asset.Fits
  · rw [if_pos hfits, ← h.leader]
    apply cellOf_eq_change
    rw [MplCore.saveEffect_assetAuthority E C .collection u.slot hfits, hauthority, MplCore.authorityEffect_own]
  · have hmember : isMember db C.toString C.bytes = false := by
      unfold isMember
      cases hg : db.assetGrouping.lookup (.collection C.bytes) with
      | none => rfl
      | some g =>
        cases db.asset.lookup C.bytes with
        | none => rfl
        | some r => simp [h.apart g hg]
    rw [if_neg hfits, ← h.leader]
    unfold cellOf
    rw [MplCore.saveEffect_assetAuthority_of_not_fits E C .collection u.slot hfits,
      show isMember db (Base58.encode C.bytes) C.bytes = false from hmember]
    simp only [Bool.false_eq_true, and_false, if_false, Option.map_id']

/-- An update of the collection leads, or is only passed on. -/
theorem represents_collection (E : MplCore.Env) (h : Represents F m db σ) (hm : m ≠ C) (u : CollectionUpdate) :
    Represents F m (saveEffect E C .collection u.asset u.slot db) (Followers.step [] σ
      (if u.asset.Fits then .lead u.slot u.authority.bytes else .pass u.slot u.authority.bytes)) := by
  have hmC : m.bytes ≠ C.bytes := fun heq => hm (Pubkey.bytes_inj heq)
  have hgrouping : (saveEffect E C .collection u.asset u.slot db).assetGrouping.lookup (.collection m.bytes)
      = db.assetGrouping.lookup (.collection m.bytes) := by
    rw [MplCore.saveEffect_collection, if_neg fun hboth => hmC hboth.2]
  have hasset : (saveEffect E C .collection u.asset u.slot db).asset.lookup m.bytes
      = db.asset.lookup m.bytes := by
    rw [MplCore.saveEffect_asset, if_neg fun hboth => hmC hboth.2]
  have hfollows : (Followers.step [] σ
      (if u.asset.Fits then .lead u.slot u.authority.bytes else .pass u.slot u.authority.bytes)).follows
      = σ.follows := by
    split <;> rfl
  refine ⟨?_, ?_, ?_, ?_, ?_, ?_, ?_⟩
  · rw [cellOf_self E h u]
    split <;> rfl
  · rw [cellOf_collection E h hmC u]
    split <;> rfl
  · rw [hgrouping, hfollows]
    exact h.follows
  · rw [hasset, hfollows]
    exact h.stored
  · rw [hasset]
    exact h.plain
  · intro k hk
    by_cases hkC : k = C.bytes
    · exact Or.inl hkC
    · rw [saveEffect_of_collection E C u db hkC, Option.isSome_map] at hk
      exact h.authorities k hk
  · intro g hg
    rw [MplCore.saveEffect_collection] at hg
    split at hg
    · obtain rfl := Option.some.inj hg
      have hrow : MplCore.collectionRow u.asset u.slot = accountGrouping none false u.slot := by
        rw [MplCore.collectionRow, u.authority_eq]
      rw [hrow]
      cases ho : db.assetGrouping.lookup (.collection C.bytes) with
      | none => rfl
      | some old =>
        rw [Upsert.row_some]
        split
        · rfl
        · exact h.apart old ho
    · exact h.apart g hg

/-- An asset copies the collection's authority, or carries its own; other collections have no row. -/
theorem resolvedAuthority_eq (h : Represents F m db σ) (u : AssetUpdate) (hu : .asset u ∈ F.updates) :
    resolvedAuthority u.asset.updateAuthority db
      = (ownAuthority C u.asset.updateAuthority).getD (σ.leaderValue []) := by
  obtain ⟨_, hnames⟩ := F.assets_ne u hu
  cases hau : u.asset.updateAuthority with
  | none => rfl
  | address k => rfl
  | collection k =>
    by_cases hk : k = C
    · subst hk
      simp only [resolvedAuthority, ownAuthority, if_true, Option.getD_none, State.leaderValue, ← h.leader,
        MplCore.storedAuthority, cellOf, Option.map_map]
      rfl
    · have hrow : db.assetAuthority.lookup k.bytes = none := by
        by_contra hsome
        rcases h.authorities k.bytes (Option.isSome_iff_ne_none.mpr hsome) with heq | ⟨v, hv, heq⟩
        · exact hk (Pubkey.bytes_inj heq)
        · exact hnames v hv (by rw [hau, Pubkey.bytes_inj heq])
      simp only [resolvedAuthority, ownAuthority, if_neg hk, MplCore.storedAuthority, hrow, Option.map_none,
        Option.getD_none, Option.getD_some]

/-- An update of the member itself is one of the follower. -/
theorem represents_member (E : MplCore.Env) (h : Represents F m db σ) (u : AssetUpdate)
    (hu : .asset u ∈ F.updates) (hfits : u.asset.Fits) (hid : u.id = m) :
    Represents F m (saveEffect E u.id .asset u.asset u.slot db)
      (Followers.step [] σ (.set u.slot (ownAuthority C u.asset.updateAuthority))) := by
  subst hid
  obtain ⟨huC, _⟩ := F.assets_ne u hu
  have hCu : C.bytes ≠ u.id.bytes := fun heq => huC (Pubkey.bytes_inj heq).symm
  have hauthority := resolvedAuthority_eq h u hu
  have hrows := saveEffect_of_asset E u hfits db
  have hplain : (MplCore.savedAsset E u.id .asset u.asset (resolvedAuthority u.asset.updateAuthority db) u.slot
      (db.asset.lookup u.id.bytes)).compressed = false := by
    cases hr : db.asset.lookup u.id.bytes with
    | none => exact MplCore.savedAsset_compressed E u.id .asset u.asset _ u.slot none (by simp)
    | some r =>
      refine MplCore.savedAsset_compressed E u.id .asset u.asset _ u.slot (some r) ?_
      intro r' hr'
      obtain rfl := Option.some.inj hr'
      exact h.plain r hr
  refine ⟨?_, ?_, ?_, ?_, ?_, ?_, ?_⟩
  · show _ = σ.leader
    rw [← h.leader]
    unfold cellOf
    rw [hrows, lookup_upsert_ne _ _ hCu]
  · show cellOf _ u.id.bytes = change σ.cell _
    rw [← h.cell, ← hauthority]
    apply cellOf_eq_change
    rw [hrows, lookup_upsert_self]
  · rw [MplCore.saveEffect_collection, if_pos ⟨hfits, rfl⟩, Option.map_some]
    exact grouping_row u.asset u.slot _ σ.follows h.follows
  · intro _
    rw [MplCore.saveEffect_asset, if_pos ⟨hfits, rfl⟩]
    exact ⟨_, rfl, hplain⟩
  · rw [MplCore.saveEffect_asset, if_pos ⟨hfits, rfl⟩]
    intro r hr
    rw [← Option.some.inj hr]
    exact hplain
  · intro k hk
    rw [MplCore.saveEffect_assetAuthority E u.id .asset u.slot hfits] at hk
    rcases authorityEffect_isSome u.id .asset _ u.slot db k hk with heq | hold
    · exact Or.inr ⟨u, hu, heq.symm⟩
    · exact h.authorities k hold
  · rw [MplCore.saveEffect_collection, if_neg fun hboth => hCu hboth.2]
    exact h.apart

/-- An update of another asset is none of the member's business. -/
theorem represents_other (E : MplCore.Env) (h : Represents F m db σ) (u : AssetUpdate)
    (hu : .asset u ∈ F.updates) (hfits : u.asset.Fits) (hid : u.id ≠ m) :
    Represents F m (saveEffect E u.id .asset u.asset u.slot db) σ := by
  have hne : m.bytes ≠ u.id.bytes := fun heq => hid (Pubkey.bytes_inj heq).symm
  have hCu : C.bytes ≠ u.id.bytes := fun heq => (F.assets_ne u hu).1 (Pubkey.bytes_inj heq).symm
  have hrows := saveEffect_of_asset E u hfits db
  have hcell : ∀ k, k ≠ u.id.bytes →
      cellOf (saveEffect E u.id .asset u.asset u.slot db) k = cellOf db k := by
    intro k hk
    unfold cellOf
    rw [hrows, lookup_upsert_ne _ _ hk]
  have hasset : (saveEffect E u.id .asset u.asset u.slot db).asset.lookup m.bytes
      = db.asset.lookup m.bytes := by
    rw [MplCore.saveEffect_asset, if_neg fun hboth => hne hboth.2]
  refine ⟨(hcell _ hCu).trans h.leader, (hcell _ hne).trans h.cell, ?_, ?_, ?_, ?_, ?_⟩
  · rw [MplCore.saveEffect_collection, if_neg fun hboth => hne hboth.2]
    exact h.follows
  · rw [hasset]
    exact h.stored
  · rw [hasset]
    exact h.plain
  · intro k hk
    rw [MplCore.saveEffect_assetAuthority E u.id .asset u.slot hfits] at hk
    rcases authorityEffect_isSome u.id .asset _ u.slot db k hk with heq | hold
    · exact Or.inr ⟨u, hu, heq.symm⟩
    · exact h.authorities k hold
  · rw [MplCore.saveEffect_collection, if_neg fun hboth => hCu hboth.2]
    exact h.apart

/-- An update of an asset whose URI does not fit leaves nothing. -/
theorem saveEffect_of_refused (E : MplCore.Env) (u : AssetUpdate) (hfits : ¬ u.asset.Fits) (db : Database) :
    saveEffect E u.id .asset u.asset u.slot db = db := by
  simp only [saveEffect, if_neg hfits, MplCore.droppedEffect]
  exact if_neg (by simp)

end Steps

/-! ### Whole runs -/

section Runs

variable {C : Pubkey} (F : Family C)

theorem represents_empty (m : Pubkey) : Represents F m Database.empty {} where
  leader := rfl
  cell := rfl
  follows := rfl
  stored := fun h => by cases h
  plain := fun r h => by cases h
  authorities := fun k h => by cases h
  apart := fun g h => by cases h

/-- **A run of handlers is a run of leader and follower.** -/
theorem represents_after (E : MplCore.Env) {m : Pubkey} (hm : m ≠ C) (us : List Update)
    (hus : ∀ u ∈ us, u ∈ F.updates) {db : Database} {σ : State Bytes} (h : Represents F m db σ) :
    Represents F m (afterAll (Update.handle E C) us db)
      (Followers.run [] (us.filterMap (toOp C m)) σ) := by
  rw [Leaves.afterAll_eq (Update.handle_leaves E C)]
  induction us generalizing db σ with
  | nil => exact h
  | cons u us ih =>
    have ih' := fun {db σ} => @ih (fun v hv => hus v (List.mem_cons_of_mem _ hv)) db σ
    rw [List.foldl_cons]
    cases u with
    | collection c => exact ih' (represents_collection E h hm c)
    | asset a =>
      have ha := hus (.asset a) List.mem_cons_self
      by_cases hfits : a.asset.Fits
      · by_cases hid : a.id = m
        · rw [List.filterMap_cons_some (show toOp C m (.asset a) = some _ from if_pos ⟨hid, hfits⟩)]
          exact ih' (represents_member E h a ha hfits hid)
        · rw [List.filterMap_cons_none (show toOp C m (.asset a) = none from if_neg fun hboth => hid hboth.1)]
          exact ih' (represents_other E h a ha hfits hid)
      · rw [List.filterMap_cons_none (show toOp C m (.asset a) = none from if_neg fun hboth => hfits hboth.2)]
        refine ih' ?_
        show Represents F m (saveEffect E a.id .asset a.asset a.slot db) σ
        rwa [saveEffect_of_refused E a hfits db]

/-- The updates as member `m` sees them. -/
def ops (m : Pubkey) : List (Op Bytes) := F.updates.filterMap (toOp C m)

/-- What the leader sends comes from the collection. -/
theorem exists_collection_of_sent {m : Pubkey} {t : ℤ} {v : Bytes} (h : Followers.Sent (ops F m) t v) :
    ∃ c : CollectionUpdate, .collection c ∈ F.updates ∧ c.authority.bytes = v := by
  obtain ⟨o, ho, -, hv⟩ := Followers.sent_iff.mp h
  obtain ⟨u, hu, hop⟩ := List.mem_filterMap.mp ho
  cases u with
  | collection c =>
    refine ⟨c, hu, ?_⟩
    obtain rfl := Option.some.inj hop
    split at hv <;> exact Option.some.inj hv
  | asset a =>
    simp only [toOp] at hop
    split at hop
    · obtain rfl := Option.some.inj hop
      cases hv
    · cases hop

theorem stamp_toOp {m : Pubkey} {u : Update} {o : Op Bytes} (h : toOp C m u = some o) : o.stamp = (u.slot : ℤ) := by
  cases u with
  | collection c =>
    obtain rfl := Option.some.inj h
    split <;> rfl
  | asset a =>
    simp only [toOp] at h
    split at h
    · obtain rfl := Option.some.inj h
      rfl
    · cases h

theorem ops_stamps_nodup (m : Pubkey) : ((ops F m).map Op.stamp).Nodup := by
  have hsub : ∀ us : List Update,
      ((us.filterMap (toOp C m)).map Op.stamp).Sublist (us.map fun u => (u.slot : ℤ)) := by
    intro us
    induction us with
    | nil => exact List.Sublist.refl _
    | cons u us ih =>
      cases hop : toOp C m u with
      | none =>
        rw [List.filterMap_cons_none hop]
        exact ih.cons _
      | some o =>
        rw [List.filterMap_cons_some hop, List.map_cons, List.map_cons, stamp_toOp hop]
        exact ih.cons_cons _
  refine List.Nodup.sublist (hsub F.updates) ?_
  have hcast := F.slots_nodup.map (f := fun n : ℕ => (n : ℤ)) fun a b h => Int.ofNat.inj h
  rwa [List.map_map] at hcast

/-- An authority is never empty. -/
theorem scenario (m : Pubkey) : Followers.Scenario [] F.newest.authority.bytes (ops F m) where
  stamps := ops_stamps_nodup F m
  known := by
    intro t v hv hnil
    obtain ⟨c, -, hc⟩ := exists_collection_of_sent F hv
    have hlen := c.authority.length_bytes
    rw [hc, hnil] at hlen
    cases hlen
  unknown_ne := by
    intro hnil
    have hlen := F.newest.authority.length_bytes
    rw [← hnil] at hlen
    cases hlen

/-- Every order of the updates ends with the collection's newest authority at every member. -/
def AuthorityReachesMembers (E : MplCore.Env) : Prop :=
  ∀ us : List Update, us.Perm F.updates → ∀ u, .asset u ∈ F.updates →
    authorityOf (afterAll (Update.handle E C) us Database.empty) u.id.bytes
      = some F.newest.authority.bytes

/-- Seen from each member, its leader's value reaches it in every order. -/
theorem authorityReachesMembers_iff_reaches (E : MplCore.Env) :
    AuthorityReachesMembers F E ↔ ∀ u, .asset u ∈ F.updates →
      Followers.Reaches [] F.newest.authority.bytes (ops F u.id) := by
  have hrun : ∀ us : List Update, us.Perm F.updates → ∀ u, .asset u ∈ F.updates →
      authorityOf (afterAll (Update.handle E C) us Database.empty) u.id.bytes
        = (Followers.run [] (us.filterMap (toOp C u.id)) {}).cell.map Prod.snd := by
    intro us hperm u hu
    have hrep := represents_after F E (F.assets_ne u hu).1 us (fun v hv => hperm.mem_iff.mp hv)
      (represents_empty F u.id)
    rw [authorityOf, hrep.cell]
  constructor
  · intro h u hu order horder
    obtain ⟨us, hperm, rfl⟩ := Followers.exists_perm_filterMap (toOp C u.id) horder F.updates rfl
    rw [← hrun us hperm u hu]
    exact h us hperm u hu
  · intro h us hperm u hu
    rw [hrun us hperm u hu]
    exact h u hu _ (hperm.filterMap _)

end Runs

/-! ### A member that comes first -/

/-- A collection saved in slot 1. -/
def sampleCollection : CollectionUpdate where
  asset := { owner := none, updateAuthority := .address (.fill 3), name := "", uri := "" }
  authority := .fill 3
  slot := 1
  authority_eq := rfl

/-- A member of it, saved in slot 2. -/
def sampleMember : AssetUpdate where
  id := .fill 2
  asset := { owner := none, updateAuthority := .collection (.fill 1), name := "", uri := "" }
  slot := 2

def sampleFamily : Family (Pubkey.fill 1) where
  updates := [.asset sampleMember, .collection sampleCollection]
  slots_nodup := by decide
  newest := sampleCollection
  newest_mem := by simp
  newest_max := by simp
  members := by simp [sampleMember]
  assets_ne := by
    have hne : Pubkey.fill 2 ≠ Pubkey.fill 1 := by decide
    simp [sampleMember, hne, hne.symm]

end DasIndexer.Accounts.Members
