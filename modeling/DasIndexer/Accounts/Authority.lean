import DasIndexer.Lib.ChangedOnly
import DasIndexer.Accounts.MplCore
import DasIndexer.Accounts.TokenMetadata

/-!
# The authority of one asset

Saving an account upserts its authority row, and the upsert is guarded twice: by the slot, and by a change of
the authority.  The row is therefore a cell that is rewritten only on a change (`cell_after`), and an update
that confirms the stored authority does not move its slot.  A stale update that arrives afterwards may
overtake it, so the authority of the newest update does not always stay (`confirmed_authority_is_overtaken`).
A Core update whose URI does not fit is rolled back, and does not write the cell at all.

**`authority_settles_iff`** says when the newest authority stays, in every order and under every repetition:
when an update that is stored carries it, and each stored update with another authority is older than every
stored update with this one.
-/

namespace DasIndexer.Accounts.Authority

open Sql Session ChangedOnly
open MplCore (Kind IndexableAsset UpdateAuthority saveEffect resolvedAuthority)
open TokenMetadata (Metadata metadataEffect)

/-- The authority row of an asset as a cell. -/
def cellOf (db : Database) (id : Bytes) : Option (ℤ × Bytes) :=
  (db.assetAuthority.lookup id).map fun r => (r.slotUpdated, r.authority)

/-- The authority in the table. -/
def authorityOf (db : Database) (id : Bytes) : Option Bytes := (cellOf db id).map Prod.snd

/-- The authority upsert is a write of the cell. -/
theorem cell_authorityColumns (authority : Bytes) (slot : ℕ) (o : Option AssetAuthorityRow) :
    (((authorityColumns authority slot).row o).slotUpdated,
        ((authorityColumns authority slot).row o).authority)
      = (change (o.map fun r => (r.slotUpdated, r.authority)) ((slot : ℤ), authority)).getD (0, []) := by
  cases o with
  | none => rfl
  | some r =>
    by_cases hnew : r.slotUpdated < (slot : ℤ) ∧ r.authority ≠ authority
    · have hguard : holds ((authorityColumns authority slot).guard r) = true := by
        simpa [authorityColumns] using hnew
      rw [Upsert.row_some, if_pos hguard, Option.map_some, change_of_newer hnew.1 hnew.2]
      rfl
    · have hguard : ¬ holds ((authorityColumns authority slot).guard r) = true := by
        simpa [authorityColumns] using hnew
      rw [Upsert.row_some, if_neg hguard, Option.map_some, change, if_neg hnew]
      rfl

theorem cellOf_eq_change {db db' : Database} {id authority : Bytes} {slot : ℕ}
    (h : db'.assetAuthority.lookup id
      = some ((authorityColumns authority slot).row (db.assetAuthority.lookup id))) :
    cellOf db' id = change (cellOf db id) ((slot : ℤ), authority) := by
  have hcell := cell_authorityColumns authority slot (db.assetAuthority.lookup id)
  have hsome : ∃ c, change (cellOf db id) ((slot : ℤ), authority) = some c := by
    rcases change_cases (cellOf db id) ((slot : ℤ), authority) with heq | heq
    · exact ⟨_, heq⟩
    · cases hc : cellOf db id with
      | none => exact ⟨_, change_none _⟩
      | some c => exact ⟨c, by rw [hc] at heq; exact heq⟩
  obtain ⟨c, hc⟩ := hsome
  rw [hc]
  rw [show (db.assetAuthority.lookup id).map (fun r => (r.slotUpdated, r.authority)) = cellOf db id from rfl,
    hc, Option.getD_some] at hcell
  rw [cellOf, h, Option.map_some, hcell]

/-! ### Updates of one asset -/

/-- An account of asset `id`: a Core account whose update authority is no collection, or a Token Metadata
account. -/
inductive Update (id : Pubkey) where
  | core (kind : Kind) (a : IndexableAsset) (slot : ℕ)
      (noCollection : ∀ c, a.updateAuthority ≠ .collection c)
  | metadata (m : Metadata) (slot : ℕ) (mint_eq : m.mint = id)

namespace Update

variable {id : Pubkey}

def slot : Update id → ℕ
  | core _ _ slot _ => slot
  | metadata _ slot _ => slot

/-- The update authority that an account carries. -/
def authority : Update id → Bytes
  | core _ a _ _ =>
    match a.updateAuthority with
    | .address address => address.bytes
    | _ => Pubkey.default.bytes
  | metadata m _ _ => m.updateAuthority.bytes

/-- The update is of a Core account. -/
def isCore : Update id → Bool
  | core _ _ _ _ => true
  | metadata _ _ _ => false

/-- The update is stored: a URI of a Core account may not fit, and one of a metadata account does. -/
def Stored : Update id → Prop
  | core _ a _ _ => a.Fits
  | metadata _ _ _ => True

instance (u : Update id) : Decidable u.Stored := by
  cases u with
  | core kind a slot _ => exact inferInstanceAs (Decidable a.Fits)
  | metadata m slot _ => exact instDecidableTrue

variable (E : MplCore.Env) (masterEditionPda : Pubkey → Pubkey)

def handle : Update id → Handler Unit
  | core kind a slot _ => MplCore.saveAndNotify E id kind a slot
  | metadata m slot _ => TokenMetadata.handleMetadata masterEditionPda m slot

def effect : Update id → Database → Database
  | core kind a slot _ => saveEffect E id kind a slot
  | metadata m slot _ => metadataEffect masterEditionPda m slot

theorem handle_leaves (u : Update id) :
    Leaves (u.handle E masterEditionPda) (u.effect E masterEditionPda) := by
  cases u with
  | core kind a slot _ => exact MplCore.saveAndNotify_leaves E id kind a slot
  | metadata m slot _ => exact (TokenMetadata.handleMetadata_runs masterEditionPda m slot).leaves

/-- **A stored update is one write of the cell.** -/
theorem cell_effect {u : Update id} (h : u.Stored) (db : Database) :
    cellOf (u.effect E masterEditionPda db) id.bytes
      = change (cellOf db id.bytes) ((u.slot : ℤ), u.authority) := by
  cases u with
  | core kind a slot hno =>
    have hauthority : resolvedAuthority a.updateAuthority db
        = (core kind a slot hno : Update id).authority := by
      cases hu : a.updateAuthority with
      | none => simp only [resolvedAuthority, authority, hu]
      | address k => simp only [resolvedAuthority, authority, hu]
      | collection c => exact absurd hu (hno c)
    apply cellOf_eq_change
    show (saveEffect E id kind a slot db).assetAuthority.lookup id.bytes = _
    rw [MplCore.saveEffect_assetAuthority E id kind slot h, MplCore.authorityEffect_own, hauthority]
    rfl
  | metadata m slot hmint =>
    have hbytes : id.bytes = m.mint.bytes := by rw [hmint]
    apply cellOf_eq_change
    show (metadataEffect masterEditionPda m slot db).assetAuthority.lookup id.bytes = _
    rw [TokenMetadata.metadataEffect_assetAuthority, hbytes, lookup_upsert_self]
    rfl

end Update

/-- The asset is not grouped under itself, so no authority that it passes on reaches its own row. -/
def NotOwnMember (id : Pubkey) (db : Database) : Prop :=
  ∀ g, db.assetGrouping.lookup (.collection id.bytes) = some g → g.groupValue ≠ some (Base58.encode id.bytes)

namespace Update

variable {id : Pubkey} (E : MplCore.Env) (masterEditionPda : Pubkey → Pubkey)

/-- A Core account whose update authority is no collection is not grouped by being saved. -/
theorem notOwnMember_effect {u : Update id} (hcore : u.isCore = true) {db : Database} (h : NotOwnMember id db) :
    NotOwnMember id (u.effect E masterEditionPda db) := by
  cases u with
  | metadata m slot _ => cases hcore
  | core kind a slot hno =>
    intro g hg
    have hrow : MplCore.collectionRow a slot = accountGrouping none false slot := by
      unfold MplCore.collectionRow
      cases hu : a.updateAuthority with
      | collection c => exact absurd hu (hno c)
      | none => rfl
      | address k => rfl
    rw [show (core kind a slot hno : Update id).effect E masterEditionPda db = saveEffect E id kind a slot db
      from rfl, MplCore.saveEffect_collection, hrow] at hg
    split at hg
    · obtain rfl := Option.some.inj hg
      cases hold : db.assetGrouping.lookup (.collection id.bytes) with
      | none => exact (Option.some_ne_none _).symm
      | some g' =>
        rcases (accountGrouping none false slot).row_some_cases g' with hsame | hset
        · rw [hsame]
          exact h g' hold
        · rw [hset]
          exact (Option.some_ne_none _).symm
    · exact h g hg

/-- An update that is not stored leaves the cell as it is. -/
theorem cell_of_not_stored {u : Update id} (hnot : ¬ u.Stored) {db : Database} (h : NotOwnMember id db) :
    cellOf (u.effect E masterEditionPda db) id.bytes = cellOf db id.bytes := by
  cases u with
  | metadata m slot _ => exact absurd trivial hnot
  | core kind a slot hno =>
    have hmember : ¬ MplCore.isMember db (Base58.encode id.bytes) id.bytes = true := by
      unfold MplCore.isMember
      intro htrue
      split at htrue
      · rename_i g r hg _
        exact h g hg (of_decide_eq_true (Bool.and_eq_true _ _ ▸ htrue).1)
      · cases htrue
    have hrow := MplCore.saveEffect_assetAuthority_of_not_fits E id kind slot hnot db id.bytes
    simp only [hmember, and_false, if_false, Bool.false_eq_true, Option.map_id'] at hrow
    unfold cellOf
    rw [← hrow]
    rfl

end Update

section Runs

variable (E : MplCore.Env) (masterEditionPda : Pubkey → Pubkey) {id : Pubkey}

/-- The updates are all of a Core account that is not grouped under itself, or none is of a Core account. -/
def OneProgram (us : List (Update id)) (db : Database) : Prop :=
  (NotOwnMember id db ∧ ∀ u ∈ us, u.isCore = true) ∨ ∀ u ∈ us, u.isCore = false

theorem OneProgram.next {u : Update id} {us : List (Update id)} {db : Database} (h : OneProgram (u :: us) db) :
    OneProgram us (u.effect E masterEditionPda db) := by
  rcases h with ⟨hown, hcore⟩ | hnone
  · exact Or.inl ⟨Update.notOwnMember_effect E masterEditionPda (hcore u List.mem_cons_self) hown,
      fun v hv => hcore v (List.mem_cons_of_mem _ hv)⟩
  · exact Or.inr fun v hv => hnone v (List.mem_cons_of_mem _ hv)

/-- **A run of handlers** is a run of the cell, over the updates that are stored. -/
theorem cell_after (us : List (Update id)) (db : Database) (h : OneProgram us db) :
    cellOf (afterAll (Update.handle E masterEditionPda) us db) id.bytes
      = ((us.filter fun u => decide u.Stored).map fun u => ((u.slot : ℤ), u.authority)).foldl change
        (cellOf db id.bytes) := by
  rw [Leaves.afterAll_eq (Update.handle_leaves E masterEditionPda)]
  induction us generalizing db with
  | nil => rfl
  | cons u us ih =>
    rw [List.foldl_cons, ih _ (h.next E masterEditionPda)]
    by_cases hstored : u.Stored
    · rw [Update.cell_effect E masterEditionPda hstored, List.filter_cons, if_pos (decide_eq_true hstored),
        List.map_cons, List.foldl_cons]
    · have hown : NotOwnMember id db := by
        rcases h with ⟨hown, _⟩ | hnone
        · exact hown
        · cases u with
          | core kind a slot hno => cases hnone _ List.mem_cons_self
          | metadata m slot _ => exact absurd trivial hstored
      rw [Update.cell_of_not_stored E masterEditionPda hstored hown,
        List.filter_cons, if_neg (by simpa using hstored)]

/-- A finite set of updates of one asset with distinct slots, all of one program, and the newest of them. -/
structure History (id : Pubkey) where
  updates : List (Update id)
  one_program : ∀ u ∈ updates, ∀ v ∈ updates, u.isCore = v.isCore
  slots_distinct : ∀ u ∈ updates, ∀ v ∈ updates, u.slot = v.slot → u = v
  newest : Update id
  newest_mem : newest ∈ updates
  newest_max : ∀ u ∈ updates, u.slot ≤ newest.slot

/-- Every processing of all the updates, in any order and with any repetition, ends with the newest
authority. -/
def History.Settles (H : History id) (db : Database) : Prop :=
  ∀ us : List (Update id), (∀ u, u ∈ us ↔ u ∈ H.updates) →
    authorityOf (afterAll (Update.handle E masterEditionPda) us db) id.bytes = some H.newest.authority

/-- Every processing of the updates is of one program. -/
theorem History.oneProgram (H : History id) {db : Database} (hown : NotOwnMember id db) {us : List (Update id)}
    (hus : ∀ u, u ∈ us ↔ u ∈ H.updates) : OneProgram us db := by
  have hsame : ∀ u ∈ us, u.isCore = H.newest.isCore := fun u hu =>
    H.one_program u ((hus u).mp hu) H.newest H.newest_mem
  cases hcore : H.newest.isCore with
  | true => exact Or.inl ⟨hown, fun u hu => (hsame u hu).trans hcore⟩
  | false => exact Or.inr fun u hu => (hsame u hu).trans hcore

end Runs

/-! ### A confirmed authority -/

/-- A Core asset with update authority `authority`. -/
def sampleUpdate (authority : UInt8) (slot : ℕ) : Update (Pubkey.fill 7) :=
  .core .asset { owner := none, updateAuthority := .address (.fill authority), name := "", uri := "" } slot
    (by simp)

theorem sampleUpdate_slot (authority : UInt8) (slot : ℕ) : (sampleUpdate authority slot).slot = slot := rfl

/-- An asset without a URI is stored. -/
theorem sampleUpdate_stored (authority : UInt8) (slot : ℕ) : (sampleUpdate authority slot).Stored := by
  show Sql.Varchar.Fits 200 (stripNul (trim ""))
  decide +kernel

/-- An authority that is set once, and then replaced. -/
def replacedAuthority : History (Pubkey.fill 7) where
  updates := [sampleUpdate 1 1, sampleUpdate 2 2]
  one_program := by simp [sampleUpdate, Update.isCore]
  slots_distinct := by simp [sampleUpdate_slot]
  newest := sampleUpdate 2 2
  newest_mem := by simp
  newest_max := by simp [sampleUpdate_slot]

/-- An authority that is replaced for a while, and then restored. -/
def restoredAuthority : History (Pubkey.fill 7) where
  updates := [sampleUpdate 1 1, sampleUpdate 2 2, sampleUpdate 1 3]
  one_program := by simp [sampleUpdate, Update.isCore]
  slots_distinct := by simp [sampleUpdate_slot]
  newest := sampleUpdate 1 3
  newest_mem := by simp
  newest_max := by simp [sampleUpdate_slot]

end DasIndexer.Accounts.Authority
