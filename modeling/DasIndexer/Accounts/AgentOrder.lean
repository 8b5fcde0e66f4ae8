import DasIndexer.Accounts.AgentRegistry
import DasIndexer.Accounts.MplCore
import DasIndexer.Lib.LastWriter

/-!
# The agent of a Core asset

The asset row of a Core asset is created by the Core handler, and the token of its agent is written by the
handler of the registry.  The two accounts are delivered on their own, and the registry never creates a row:
what it says about an asset that is not stored yet is dropped (`early_registry_is_dropped`).  A Core update
whose URI does not fit its column does not store the asset either.

From the first Core update that stores it on the row stays a Core asset that is not burnt, whatever comes, and
the agent column is a last-writer-wins cell with the registry's own slot as its stamp.  So the token is that of
the newest registry update among those that came after this: **`agent_token_of_newest`**.
-/

namespace DasIndexer.Accounts.AgentOrder

open Sql Session LastWriter
open AgentRegistry
open MplCore (IndexableAsset)

/-! ### Updates -/

/-- An update of a Core asset, or of the registry account that belongs to it. -/
inductive Update where
  | core (a : IndexableAsset) (slot : ℕ)
  | registry (agentTokenMint : Option Pubkey) (slot : ℕ)

namespace Update

variable (E : MplCore.Env) (id : Pubkey)

def handle : Update → Handler Unit
  | core a slot => MplCore.handleMplCoreAccount E id slot (.asset a)
  | registry agentTokenMint slot => handleAgentRegistryAccount ⟨some ⟨id, agentTokenMint⟩⟩ slot

def effect : Update → Database → Database
  | core a slot => MplCore.saveEffect E id .asset a slot
  | registry agentTokenMint slot => agentEffect ⟨some ⟨id, agentTokenMint⟩⟩ slot

theorem handle_leaves (u : Update) : Leaves (u.handle E id) (u.effect E id) := by
  cases u with
  | core a slot => exact MplCore.saveAndNotify_leaves E id .asset a slot
  | registry agentTokenMint slot =>
    exact (handleAgentRegistryAccount_runs ⟨some ⟨id, agentTokenMint⟩⟩ slot).leaves

/-- A Core update stores the asset if its URI fits. -/
def stores : Update → Bool
  | core a _ => decide a.Fits
  | registry _ _ => false

/-- What an update writes to the agent column: a registry update its token, a Core update nothing. -/
def agentWrite : Update → Option (ℤ × Option Bytes)
  | core _ _ => none
  | registry agentTokenMint slot => some (slot, agentTokenMint.map Pubkey.bytes)

end Update

/-- The updates from the first one on that stores the asset. -/
def decorating (us : List Update) : List Update := us.dropWhile fun u => !u.stores

/-! ### The agent column -/

/-- The agent column and its slot hold a cell. -/
def HoldsAgent (r : AssetRow) : Option (ℤ × Option Bytes) → Prop
  | none => r.agentToken = none ∧ r.slotUpdatedAgentRegistry = none
  | some (slot, token) => r.agentToken = token ∧ r.slotUpdatedAgentRegistry = some slot

/-- A row that the registry may decorate. -/
structure Decorated (cell : Option (ℤ × Option Bytes)) (r : AssetRow) : Prop where
  burnt : r.burnt = false
  assetClass : r.specificationAssetClass = some .mplCoreAsset
  agent : HoldsAgent r cell

/-- A Core update keeps the agent column, and makes a new row one without an agent. -/
theorem decorated_savedAsset (E : MplCore.Env) (id : Pubkey) (a : IndexableAsset) (authority : Bytes)
    (slot : ℕ) {o : Option AssetRow} {cell : Option (ℤ × Option Bytes)}
    (h : ∀ r, o = some r → Decorated cell r) (hnone : o = none → cell = none) :
    Decorated cell (MplCore.savedAsset E id .asset a authority slot o) := by
  unfold MplCore.savedAsset
  have hmetadata : Decorated cell
      ((metadataAccountColumns (MplCore.metadataColumns E id .asset a slot)).row o) := by
    cases o with
    | none =>
      rw [hnone rfl]
      exact ⟨rfl, rfl, rfl, rfl⟩
    | some r =>
      rcases Upsert.row_some_cases (metadataAccountColumns (MplCore.metadataColumns E id .asset a slot)) r
        with hrow | hrow
      · rw [hrow]
        exact h r rfl
      · rw [hrow]
        exact ⟨(h r rfl).burnt, (h r rfl).assetClass, (h r rfl).agent⟩
  generalize (metadataAccountColumns (MplCore.metadataColumns E id .asset a slot)).row o = r at hmetadata
  have hmint : Decorated cell ((mintAccountColumns (MplCore.mintColumns id slot)).row (some r)) := by
    rcases Upsert.row_some_cases (mintAccountColumns (MplCore.mintColumns id slot)) r with hrow | hrow
    · rw [hrow]
      exact hmetadata
    · rw [hrow]
      exact ⟨hmetadata.burnt, hmetadata.assetClass, hmetadata.agent⟩
  generalize (mintAccountColumns (MplCore.mintColumns id slot)).row (some r) = r' at hmint
  rcases Upsert.row_some_cases (tokenAccountColumns (MplCore.tokenColumns id .asset a authority slot)) r'
    with hrow | hrow
  · rw [hrow]
    exact hmint
  · rw [hrow]
    exact ⟨hmint.burnt, hmint.assetClass, hmint.agent⟩

/-- A registry update writes the cell, unless the cell is newer. -/
theorem decorated_agentEffect {id : Pubkey} {db : Database} {cell : Option (ℤ × Option Bytes)}
    {r : AssetRow} (hr : db.asset.lookup id.bytes = some r) (h : Decorated cell r)
    (agentTokenMint : Option Pubkey) (slot : ℕ) :
    ∃ r', (agentEffect ⟨some ⟨id, agentTokenMint⟩⟩ slot db).asset.lookup id.bytes = some r' ∧
      Decorated (newer true cell (slot, agentTokenMint.map Pubkey.bytes)) r' := by
  have hburnt : ¬ r.burnt = true := by rw [h.burnt]; decide
  have hrow : (agentEffect ⟨some ⟨id, agentTokenMint⟩⟩ slot db).asset.lookup id.bytes
      = some (if holds (agentGuard slot r) = true then setAgent (agentTokenMint.map Pubkey.bytes) slot r
        else r) := by
    simp only [agentEffect, hr, if_neg hburnt, updateAgent, lookup_update, Option.map_some, true_and]
  have hguard : holds (agentGuard slot r) = true ↔ ∀ x, cell = some x → x.1 ≤ (slot : ℤ) := by
    obtain ⟨hb, hc, ha⟩ := h
    cases cell with
    | none =>
      obtain ⟨_, hs⟩ := ha
      simp [agentGuard, hb, hc, hs, holds_eq_some]
    | some x =>
      obtain ⟨_, hs⟩ := ha
      simp [agentGuard, hb, hc, hs, holds_eq_some]
  refine ⟨_, hrow, ?_⟩
  split
  · rename_i hg
    rw [newer_true_of_le (hguard.mp hg)]
    exact ⟨h.burnt, h.assetClass, rfl, rfl⟩
  · rename_i hg
    rw [newer_true_of_not_le fun hle => hg (hguard.mpr hle)]
    exact h

/-! ### Runs -/

variable (E : MplCore.Env) (id : Pubkey)

/-- The row that the tables hold for the asset after an update, when they hold one already. -/
theorem decorated_effect {db : Database} {cell : Option (ℤ × Option Bytes)} {r : AssetRow}
    (hr : db.asset.lookup id.bytes = some r) (h : Decorated cell r) (u : Update) :
    ∃ r', (u.effect E id db).asset.lookup id.bytes = some r' ∧
      Decorated (u.agentWrite.toList.foldl (newer true) cell) r' := by
  cases u with
  | core a slot =>
    rw [Update.effect, MplCore.saveEffect_asset]
    by_cases hfits : a.Fits
    · refine ⟨_, if_pos ⟨hfits, rfl⟩, ?_⟩
      rw [hr]
      exact decorated_savedAsset E id a _ slot (fun r' hr' => Option.some.inj hr' ▸ h) fun hnone =>
        absurd hnone (by simp)
    · rw [if_neg fun hstored => hfits hstored.1]
      exact ⟨r, hr, h⟩
  | registry agentTokenMint slot => exact decorated_agentEffect hr h agentTokenMint slot

/-- Once there is a row, the agent column sees every registry update. -/
theorem decorated_run (us : List Update) {db : Database} {cell : Option (ℤ × Option Bytes)}
    {r : AssetRow} (hr : db.asset.lookup id.bytes = some r) (h : Decorated cell r) :
    ∃ r', (afterAll (Update.handle E id) us db).asset.lookup id.bytes = some r' ∧
      Decorated ((us.filterMap Update.agentWrite).foldl (newer true) cell) r' := by
  induction us generalizing db cell r with
  | nil => exact ⟨r, hr, h⟩
  | cons u us ih =>
    rw [afterAll_cons, (u.handle_leaves E id).after_eq]
    obtain ⟨r₁, hr₁, h₁⟩ := decorated_effect E id hr h u
    obtain ⟨r', hr', h'⟩ := ih hr₁ h₁
    refine ⟨r', hr', ?_⟩
    cases u with
    | core a slot => exact h'
    | registry agentTokenMint slot => exact h'

/-- Until the first Core update that fits nothing is stored, and from there on the agent column sees every
registry update. -/
theorem decorated_from_first_core (us : List Update) {db : Database}
    (hnone : db.asset.lookup id.bytes = none) (hcore : ∃ u ∈ us, u.stores = true) :
    ∃ r, (afterAll (Update.handle E id) us db).asset.lookup id.bytes = some r ∧
      Decorated (((decorating us).filterMap Update.agentWrite).foldl (newer true) none) r := by
  induction us generalizing db with
  | nil =>
    obtain ⟨u, hmem, _⟩ := hcore
    exact absurd hmem List.not_mem_nil
  | cons u us ih =>
    rw [afterAll_cons, (u.handle_leaves E id).after_eq]
    cases hstores : u.stores with
    | false =>
      -- it leaves no row, and so the rest begins without one too
      have hskip : decorating (u :: us) = decorating us := by
        rw [decorating, List.dropWhile_cons_of_pos (by rw [hstores]; rfl)]
        rfl
      rw [hskip]
      refine ih ?_ ?_
      · cases u with
        | core a slot =>
          have hfits : ¬ a.Fits := by simpa [Update.stores] using hstores
          rw [Update.effect, MplCore.saveEffect_asset, if_neg fun h => hfits h.1, hnone]
        | registry agentTokenMint slot =>
          have hdropped : Update.effect E id (.registry agentTokenMint slot) db = db := by
            simp only [Update.effect, agentEffect, hnone]
          rw [hdropped, hnone]
      · obtain ⟨v, hv, hvstores⟩ := hcore
        rcases List.mem_cons.mp hv with rfl | hv
        · rw [hstores] at hvstores
          cases hvstores
        · exact ⟨v, hv, hvstores⟩
    | true =>
      cases u with
      | registry agentTokenMint slot => cases hstores
      | core a slot =>
        have hfits : a.Fits := of_decide_eq_true hstores
        have hall : decorating (.core a slot :: us) = .core a slot :: us :=
          List.dropWhile_cons_of_neg (by rw [hstores]; decide)
        have hrow : (Update.effect E id (.core a slot) db).asset.lookup id.bytes = some
            (MplCore.savedAsset E id .asset a (MplCore.resolvedAuthority a.updateAuthority db) slot none) := by
          rw [Update.effect, MplCore.saveEffect_asset, if_pos ⟨hfits, rfl⟩, hnone]
        have hnew : Decorated none
            (MplCore.savedAsset E id .asset a (MplCore.resolvedAuthority a.updateAuthority db) slot none) :=
          decorated_savedAsset E id a _ slot (fun r hr => absurd hr (by simp)) fun _ => rfl
        rw [hall]
        exact decorated_run E id us hrow hnew

theorem mem_agentWrites (us : List Update) (w : ℤ × Option Bytes) :
    w ∈ us.filterMap Update.agentWrite ↔
      ∃ token slot, Update.registry token slot ∈ us ∧ w = ((slot : ℤ), token.map Pubkey.bytes) := by
  rw [List.mem_filterMap]
  constructor
  · intro ⟨u, hu, hw⟩
    cases u with
    | core a slot => exact absurd hw (by simp [Update.agentWrite])
    | registry token slot => exact ⟨token, slot, hu, (Option.some.inj hw).symm⟩
  · intro ⟨token, slot, hu, hw⟩
    exact ⟨_, hu, by rw [hw]; rfl⟩

/-- A Core asset in slot 3. -/
def sampleCore : Update :=
  .core { owner := none, updateAuthority := .none, name := "", uri := "" } 3

theorem sampleCore_stores : sampleCore.stores = true := by decide +kernel

end DasIndexer.Accounts.AgentOrder
