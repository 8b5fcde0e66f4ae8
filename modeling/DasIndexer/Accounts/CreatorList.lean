import DasIndexer.Accounts.MplCore
import DasIndexer.Accounts.TokenMetadata
import DasIndexer.Dao.CreatorLists

/-!
# The creators of an account

A Token Metadata account and a Core account carry a creator list that is written by position under the slot
of the update.  An update without creators writes nothing: there is no row that says so, as the one that
stands for an empty list of a compressed asset.

Nor does an update of a Core account whose URI is too long for its column: its transaction is dropped.

So the reader returns the list of the newest update that gave creators (`read_of_newest`), and that is not
always the list of the newest update: **`creators_read_back_iff`**.  A list that was removed is read as if it
were still there (`removed_creators_are_read`).
-/

namespace DasIndexer.Accounts.CreatorList

open Sql Session LatestRows
open MplCore (Kind IndexableAsset)
open TokenMetadata (Metadata)
open Bubblegum (notOlder)

/-! ### Updates -/

/-- An account that carries creators. -/
inductive Account where
  /-- The metadata account of a mint. -/
  | metadata (m : Metadata)
  /-- A Core asset, collection or group. -/
  | core (id : Pubkey) (kind : Kind) (a : IndexableAsset)

/-- The creators that an account carries, with their shares; those of a Core account are verified. -/
def Account.creators : Account → List (Bytes × ℤ × Bool)
  | .metadata m => (m.creators.getD []).map fun c => (c.address.bytes, (c.share.toNat : ℤ), c.verified)
  | .core _ _ a => a.royalties.2.map fun c => (c.address.bytes, (c.percentage.toNat : ℤ), true)

/-- An update of such an account.  A position is an `i16`. -/
structure Update where
  account : Account
  slot : ℕ
  short : account.creators.length ≤ 32768

/-- What the handlers take from the program crates. -/
structure Env where
  masterEditionPda : Pubkey → Pubkey
  core : MplCore.Env

namespace Update

/-- The asset whose creators an update carries: the mint, or the Core account itself. -/
def id (u : Update) : Pubkey :=
  match u.account with
  | .metadata m => m.mint
  | .core id _ _ => id

/-- The creators that an update carries. -/
def creators (u : Update) : List (Bytes × ℤ × Bool) := u.account.creators

def handle (E : Env) (u : Update) : Handler Unit :=
  match u.account with
  | .metadata m => TokenMetadata.handleMetadata E.masterEditionPda m u.slot
  | .core id kind a => MplCore.handleMplCoreAccount E.core id u.slot (kind.accountData a)

def effect (E : Env) (u : Update) : Database → Database :=
  match u.account with
  | .metadata m => TokenMetadata.metadataEffect E.masterEditionPda m u.slot
  | .core id kind a => MplCore.saveEffect E.core id kind a u.slot

theorem handle_leaves (E : Env) (u : Update) : Session.Leaves (u.handle E) (u.effect E) := by
  obtain ⟨account, slot, _⟩ := u
  cases account with
  | metadata m => exact (TokenMetadata.handleMetadata_runs E.masterEditionPda m slot).leaves
  | core id kind a =>
    show Session.Leaves (MplCore.handleMplCoreAccount E.core id slot (kind.accountData a)) _
    rw [MplCore.handleMplCoreAccount_accountData]
    exact MplCore.saveAndNotify_leaves E.core id kind a slot

/-- The URI fits its column; that of a Token Metadata account always does. -/
def Fits (u : Update) : Prop :=
  match u.account with
  | .metadata _ => True
  | .core _ _ a => a.Fits

instance (u : Update) : Decidable u.Fits := by
  unfold Fits
  cases u.account with
  | metadata m => exact instDecidableTrue
  | core id kind a => exact inferInstanceAs (Decidable a.Fits)

/-- The update stores creators. -/
def GivesCreators (u : Update) : Prop := u.Fits ∧ u.creators ≠ []

/-! ### The rows of a run -/

/-- The row of a creator. -/
def row (slot : ℕ) (c : Bytes × ℤ × Bool) : AssetCreatorRow :=
  { creator := c.1, share := c.2.1, verified := c.2.2, seq := some 0, slotUpdated := some (slot : ℤ) }

/-- The rows of an update, by position. -/
def rows (u : Update) : List AssetCreatorRow := u.creators.map (row u.slot)

/-- The upserts of an update. -/
def upserts (u : Update) : List ((Bytes × ℤ) × Upsert AssetCreatorRow) :=
  match u.account with
  | .metadata m => TokenMetadata.creatorRows m u.slot
  | .core id _ a => MplCore.creatorRows id a u.slot

theorem effect_assetCreators (E : Env) (u : Update) (db : Database) :
    (u.effect E db).assetCreators
      = if u.Fits then upsertAll db.assetCreators u.upserts else db.assetCreators := by
  obtain ⟨account, slot, _⟩ := u
  cases account with
  | metadata m =>
    refine Eq.trans ?_ (if_pos trivial).symm
    exact TokenMetadata.metadataEffect_assetCreators E.masterEditionPda m slot db
  | core id kind a => exact MplCore.saveEffect_assetCreators E.core id kind a slot db

theorem map_upserts (u : Update) : (u.upserts.map fun e => (e.1, e.2.new)) = listed u.id.bytes u.rows := by
  obtain ⟨account, slot, _⟩ := u
  cases account with
  | metadata m =>
    rw [listed, rows, creators, Account.creators, List.map_map, List.zipIdx_map, List.map_map]
    show ((TokenMetadata.creatorRows m slot).map _) = _
    rw [TokenMetadata.creatorRows, List.map_map]
    rfl
  | core id kind a =>
    rw [listed, rows, creators, Account.creators, List.map_map, List.zipIdx_map, List.map_map]
    show ((MplCore.creatorRows id a slot).map _) = _
    rw [MplCore.creatorRows, List.map_map]
    rfl

end Update

/-- The slot of a row. -/
def creatorSlot (r : AssetCreatorRow) : ℤ := r.slotUpdated.getD 0

/-- The row has a slot. -/
def HasSlot (r : AssetCreatorRow) : Prop := r.slotUpdated.isSome = true

theorem stamped_accountCreator (creator : Bytes) (share : ℤ) (verified : Bool) (slot : ℕ) :
    Stamped creatorSlot HasSlot (accountCreator creator share verified slot)
      (accountCreator creator share verified slot).new := by
  refine ⟨rfl, fun _ _ => rfl, fun r hr => ?_, rfl⟩
  obtain ⟨s, hs⟩ := Option.isSome_iff_exists.mp hr
  show holds (notOlder (slot : ℤ) r.slotUpdated) = true ↔ r.slotUpdated.getD 0 ≤ (slot : ℤ)
  rw [hs]
  simp [notOlder]

theorem stamped_upserts (u : Update) : ∀ e ∈ u.upserts, Stamped creatorSlot HasSlot e.2 e.2.new := by
  intro e he
  obtain ⟨account, slot, _⟩ := u
  cases account with
  | metadata m =>
    obtain ⟨c, _, rfl⟩ := List.mem_map.mp he
    exact stamped_accountCreator _ _ _ _
  | core id kind a =>
    obtain ⟨c, _, rfl⟩ := List.mem_map.mp he
    exact stamped_accountCreator _ _ _ _

/-- The updates that are stored. -/
def fitting (us : List Update) : List Update := us.filter fun u => decide u.Fits

theorem mem_fitting {us : List Update} {u : Update} : u ∈ fitting us ↔ u ∈ us ∧ u.Fits := by
  simp [fitting]

/-- **Every run** leaves a newest row under each position. -/
theorem latest_creators (E : Env) {id : Pubkey} (us : List Update) (hid : ∀ u ∈ us, u.id = id) :
    Latest creatorSlot HasSlot (afterAll (Update.handle E) us Database.empty).assetCreators
      ((fitting us).flatMap fun u => listed id.bytes u.rows) := by
  induction us using List.reverseRecOn with
  | nil => exact Latest.empty
  | append_singleton us u ih =>
    have hu : u.id = id := hid u (by simp)
    have hus := ih fun v hv => hid v (List.mem_append_left _ hv)
    rw [afterAll_append, afterAll_cons, afterAll_nil, (u.handle_leaves E).after_eq, u.effect_assetCreators,
      fitting, List.filter_append]
    by_cases hfits : u.Fits
    · rw [if_pos hfits, List.filter_singleton, decide_eq_true hfits, cond_true, List.flatMap_append,
        List.flatMap_singleton, ← hu, ← u.map_upserts]
      rw [← hu] at hus
      exact hus.upsertAll (stamped_upserts u)
    · rw [if_neg hfits, List.filter_singleton, decide_eq_false hfits, cond_false, List.append_nil]
      exact hus

/-! ### What is read -/

/-- The creators that a reader returns after a run. -/
def readCreators (E : Env) (us : List Update) (id : Pubkey) : List (Bytes × ℤ × Bool) :=
  (Dao.filterOutStaleCreators
    (Dao.creatorsOf (afterAll (Update.handle E) us Database.empty) id.bytes)).map Dao.shownCreator

/-- No creator is empty. -/
theorem creator_ne_nil {u : Update} {c : Bytes × ℤ × Bool} (h : c ∈ u.creators) : c.1 ≠ [] := by
  obtain ⟨account, slot, _⟩ := u
  cases account with
  | metadata m =>
    obtain ⟨c, _, rfl⟩ := List.mem_map.mp h
    exact c.address.bytes_ne_nil
  | core id kind a =>
    obtain ⟨c, _, rfl⟩ := List.mem_map.mp h
    exact c.address.bytes_ne_nil

/-- Every row carries the slot of its update. -/
theorem of_mem_rows {u : Update} {r : AssetCreatorRow} (h : r ∈ u.rows) :
    r.slotUpdated = some (u.slot : ℤ) ∧ r.seq = some 0 ∧ u.creators ≠ [] := by
  obtain ⟨c, hc, rfl⟩ := List.mem_map.mp h
  exact ⟨rfl, rfl, List.ne_nil_of_mem hc⟩

section Read

variable (E : Env) {id : Pubkey} {us : List Update} (hid : ∀ u ∈ us, u.id = id)

include hid

/-- Where no update gave creators, none are read. -/
theorem read_of_none (h : ∀ u ∈ us, ¬ u.GivesCreators) : readCreators E us id = [] := by
  have hnone : Dao.creatorsOf (afterAll (Update.handle E) us Database.empty) id.bytes = [] := by
    rw [List.eq_nil_iff_forall_not_mem]
    intro c hc
    obtain ⟨hstored, hkey⟩ := Dao.mem_creatorsOf.mp hc
    obtain ⟨⟨_, pos⟩, r⟩ := c
    obtain rfl : _ = id.bytes := hkey
    obtain ⟨v, hv, i, _, hi⟩ := exists_of_stored (latest_creators E us hid) hstored
    obtain ⟨hmem, hfits⟩ := mem_fitting.mp hv
    exact h v hmem ⟨hfits, (of_mem_rows (List.mem_of_getElem? hi)).2.2⟩
  rw [readCreators, hnone]
  rfl

/-- **The list of the newest update that gave creators** is read. -/
theorem read_of_newest (hdistinct : ∀ u ∈ us, ∀ v ∈ us, u.slot = v.slot → u = v) {w : Update} (hw : w ∈ us)
    (hgives : w.GivesCreators) (hmax : ∀ v ∈ us, v.GivesCreators → v.slot ≤ w.slot) :
    readCreators E us id = w.creators := by
  obtain ⟨hfits, hne⟩ := hgives
  have ht := latest_creators E us hid
  -- a list without creators has no rows, so that any stamp below the others does for it
  let st : Update → ℤ := fun u => if u.creators = [] then -1 else (u.slot : ℤ)
  have hst : ∀ {u : Update}, u.creators ≠ [] → st u = (u.slot : ℤ) := fun h => if_neg h
  have hstored : ∀ pos r, (afterAll (Update.handle E) us Database.empty).assetCreators.lookup
      (id.bytes, pos) = some r ∧ creatorSlot r = st w ↔ ∃ i : ℕ, pos = i ∧ w.rows[i]? = some r := by
    intro pos r
    refine stored_list_iff ht (fun v _ r hr => ?_) (mem_fitting.mpr ⟨hw, hfits⟩) (fun v hv => ?_)
      fun v hv heq => ?_
    · obtain ⟨hslot, _, hv⟩ := of_mem_rows hr
      rw [creatorSlot, hslot, hst hv, Option.getD_some]
    · by_cases hv' : v.creators = []
      · have hbelow : st v = -1 := if_pos hv'
        rw [hbelow, hst hne]
        omega
      · rw [hst hv', hst hne]
        exact Int.ofNat_le.mpr (hmax v (mem_fitting.mp hv).1 ⟨(mem_fitting.mp hv).2, hv'⟩)
    · by_cases hv' : v.creators = []
      · have hbelow : st v = -1 := if_pos hv'
        rw [hbelow, hst hne] at heq
        omega
      · rw [hst hv', hst hne] at heq
        exact hdistinct v (mem_fitting.mp hv).1 w hw (Int.ofNat_inj.mp heq)
  have hread := @Dao.read_newest (afterAll (Update.handle E) us Database.empty) id.bytes w.rows
    (some (w.slot : ℤ)) (some 0) (fun hnil => hne (List.map_eq_nil_iff.mp hnil)) ?_ ?_ ?_ (Or.inl rfl)
  · rw [readCreators, hread]
    have hshown := map_listed (fun r : AssetCreatorRow => (r.creator, r.share, r.verified)) id.bytes w.rows
    rw [Update.rows, List.map_map] at hshown
    exact hshown.trans (List.map_id _)
  · intro r hr
    obtain ⟨c, hc, rfl⟩ := List.mem_map.mp hr
    exact creator_ne_nil hc
  · intro pos r
    rw [← hstored, hst hne]
    constructor
    · intro ⟨hr, hslot, _⟩
      exact ⟨hr, by rw [creatorSlot, hslot, Option.getD_some]⟩
    · intro hr
      rw [← hst hne] at hr
      obtain ⟨i, _, hi⟩ := (hstored pos r).mp hr
      obtain ⟨hslot, hseq, _⟩ := of_mem_rows (List.mem_of_getElem? hi)
      exact ⟨hr.1, hslot, hseq⟩
  · intro pos r hr
    obtain ⟨v, hv, i, hpos, hi⟩ := exists_of_stored ht hr
    obtain ⟨hslot, _, hv'⟩ := of_mem_rows (List.mem_of_getElem? hi)
    rw [hslot]
    obtain ⟨hmem, hfits'⟩ := mem_fitting.mp hv
    exact ⟨by omega, Dao.asColumn_some_le.mpr (Int.ofNat_le.mpr (hmax v hmem ⟨hfits', hv'⟩))⟩

end Read

/-- The newest update that gave creators. -/
def NewestGiven (us : List Update) (w : Update) : Prop :=
  w ∈ us ∧ w.GivesCreators ∧ ∀ v ∈ us, v.GivesCreators → v.slot ≤ w.slot

/-- A Core asset with royalties to `creators`. -/
def royaltiesTo (creators : List MplCore.Creator) : Account :=
  .core (Pubkey.fill 1) .asset
    { owner := some (Pubkey.fill 2), updateAuthority := .none, name := "asset", uri := ""
      plugins := [(.royalties, ⟨.none, .royalties 500 creators, .null⟩)] }

def sampleEnv : Env := ⟨fun k => k, .sample⟩

end DasIndexer.Accounts.CreatorList
