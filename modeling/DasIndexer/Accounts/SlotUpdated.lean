import DasIndexer.Accounts.AgentRegistry
import DasIndexer.Accounts.Tokens
import Mathlib.Data.List.Induction

/-!
# The newest slot of an asset row

Five columns of an asset row name a slot of each of its sources, and `slot_updated` should be above all of
them.  No trigger keeps it there; each writer does so itself, in the branch that updates a stored row.  The
branch that inserts a row leaves `slot_updated` empty, for every writer but that of the
mint (`first_mint_leaves_no_slot`), and the metadata of a Token-2022 mint does not move it at all.

**`dominated_along_iff`** says in which runs the invariant holds throughout: in those in which every row is
created by a mint account, and no Token-2022 metadata is newer than its row.
-/

namespace DasIndexer.Accounts.SlotUpdated

open Sql Session
open Bubblegum (BaseInfo notOlder)
open AgentRegistry (AgentRegistryAccount)

/-! ### The invariant -/

/-- The slot columns of the sources. -/
def sources (r : AssetRow) : List (Option ℤ) :=
  [r.slotUpdatedTokenAccount, r.slotUpdatedMintAccount, r.slotUpdatedMetadataAccount,
    r.slotUpdatedCnftTransaction, r.slotUpdatedAgentRegistry]

/-- `slot_updated` is there and not below any source that is there. -/
def Dominated (r : AssetRow) : Prop :=
  ∀ s, some s ∈ sources r → ∃ t, r.slotUpdated = some t ∧ s ≤ t

/-- Every asset row is dominated by its `slot_updated`. -/
def AllDominated (db : Database) : Prop := ∀ id r, db.asset.lookup id = some r → Dominated r

theorem allDominated_empty : AllDominated Database.empty := by
  intro id r h
  exact absurd h (by simp [Database.empty])

/-- Raising `slot_updated` to the slot that a source moves to keeps it above all of them. -/
theorem Dominated.raise {r r' : AssetRow} (h : Dominated r) (slot : ℤ)
    (hsources : ∀ s, some s ∈ sources r' → s = slot ∨ some s ∈ sources r)
    (hslot : r'.slotUpdated = greatest r.slotUpdated (some slot)) : Dominated r' := by
  intro s hs
  refine ⟨max (r.slotUpdated.getD 0) slot, hslot, ?_⟩
  rcases hsources s hs with rfl | hs
  · exact le_max_right _ _
  · obtain ⟨t, ht, hle⟩ := h s hs
    rw [ht]
    exact le_trans hle (le_max_left _ _)

theorem allDominated_upsertAsset_iff {db : Database} (h : AllDominated db) (id : Bytes)
    (u : Upsert AssetRow) :
    AllDominated (Database.upsertAsset id u db) ↔ Dominated (u.row (db.asset.lookup id)) := by
  constructor
  · intro hall
    exact hall id _ (lookup_upsert_self _ _ _)
  · intro hrow id' r hr
    have hlookup : (upsert db.asset id u).lookup id' = some r := hr
    rw [lookup_upsert] at hlookup
    split at hlookup
    · obtain rfl := Option.some.inj hlookup
      exact hrow
    · exact h id' r hlookup

/-- An upsert whose assignment raises `slot_updated` keeps a stored row dominated; a row that it inserts
is so only if the proposed one is. -/
theorem dominated_row_iff {u : Upsert AssetRow} {o : Option AssetRow}
    (hstored : ∀ r, o = some r → Dominated r) (hset : ∀ r, Dominated r → Dominated (u.set r)) :
    Dominated (u.row o) ↔ (o.isSome = true ∨ Dominated u.new) := by
  cases o with
  | none => simp
  | some r =>
    refine ⟨fun _ => Or.inl rfl, fun _ => ?_⟩
    rw [Upsert.row_some]
    split
    · exact hset r (hstored r rfl)
    · exact hstored r rfl

/-! ### The writers -/

/-- The writers of the slot columns. -/
inductive Writer where
  | tokenAccount (c : AssetTokenAccountColumns)
  | mintAccount (c : AssetMintAccountColumns)
  | metadataAccount (c : AssetMetadataAccountColumns)
  | baseInfo (id : Bytes) (b : BaseInfo) (slot seq : ℤ)
  | shadowMetadata (mint : Bytes) (slot : ℕ)
  | agentRegistry (parsed : AgentRegistryAccount) (slot : ℕ)

namespace Writer

open ProgramTransformerError

def handle : Writer → Handler Unit
  | tokenAccount c => upsertAssetsTokenAccountColumns storageWriteError c
  | mintAccount c => upsertAssetsMintAccountColumns storageWriteError c
  | metadataAccount c => upsertAssetsMetadataAccountColumns storageWriteError c
  | baseInfo id b slot seq => Bubblegum.upsertAssetBaseInfo id b slot seq
  | shadowMetadata mint slot =>
    Session.write storageWriteError (Database.upsertAsset mint (metadataSlotColumn slot))
  | agentRegistry parsed slot => AgentRegistry.handleAgentRegistryAccount parsed slot

def effect : Writer → Database → Database
  | tokenAccount c => Database.upsertAsset c.mint (tokenAccountColumns c)
  | mintAccount c => Database.upsertAsset c.mint (mintAccountColumns c)
  | metadataAccount c => Database.upsertAsset c.mint (metadataAccountColumns c)
  | baseInfo id b slot seq => Database.upsertAsset id (Bubblegum.assetBaseInfo id b slot seq)
  | shadowMetadata mint slot => Database.upsertAsset mint (metadataSlotColumn slot)
  | agentRegistry parsed slot => AgentRegistry.agentEffect parsed slot

theorem handle_runs (w : Writer) : Session.Runs w.handle fun db => ((), w.effect db) := by
  cases w with
  | agentRegistry parsed slot => exact AgentRegistry.handleAgentRegistryAccount_runs parsed slot
  | _ => exact Session.Runs.write _ _

/-- The writer does not create the row, unless it is that of a mint; and Token-2022 metadata is not newer
than the row. -/
def Safe (db : Database) : Writer → Prop
  | tokenAccount c => (db.asset.lookup c.mint).isSome = true
  | metadataAccount c => (db.asset.lookup c.mint).isSome = true
  | baseInfo id _ _ _ => (db.asset.lookup id).isSome = true
  | shadowMetadata mint slot =>
    ∃ r t, db.asset.lookup mint = some r ∧ r.slotUpdated = some t ∧ (slot : ℤ) ≤ t
  | mintAccount _ | agentRegistry _ _ => True

end Writer

/-! ### One writer -/

/-- An assignment that only raises `slot_updated`. -/
theorem Dominated.raise_only {r : AssetRow} (h : Dominated r) (slot : ℤ) :
    Dominated { r with slotUpdated := greatest r.slotUpdated (some slot) } :=
  h.raise slot (fun _ hs => Or.inr hs) rfl

theorem dominated_setAgent (agentToken : Option Bytes) (slot : ℕ) {r : AssetRow} (h : Dominated r) :
    Dominated (AgentRegistry.setAgent agentToken slot r) := by
  refine h.raise slot (fun s hs => ?_) rfl
  simp only [sources, AgentRegistry.setAgent, List.mem_cons, Option.some.injEq, List.not_mem_nil]
    at hs ⊢
  tauto

/-- A row with a source and no `slot_updated` is not dominated. -/
theorem not_dominated_of_none {r : AssetRow} {s : ℤ} (hs : some s ∈ sources r)
    (hnone : r.slotUpdated = none) : ¬ Dominated r := by
  intro h
  obtain ⟨t, ht, _⟩ := h s hs
  exact absurd (hnone.symm.trans ht) (by simp)

/-- Token-2022 metadata leaves `slot_updated` as it is, and so asks that it be there and high enough.  A
write that is refused is older than the stored metadata, and then older than `slot_updated` as well. -/
theorem dominated_row_metadataSlot_iff (slot : ℕ) {o : Option AssetRow}
    (hstored : ∀ r, o = some r → Dominated r) :
    Dominated ((metadataSlotColumn slot).row o) ↔
      ∃ r t, o = some r ∧ r.slotUpdated = some t ∧ (slot : ℤ) ≤ t := by
  cases o with
  | none =>
    refine ⟨fun hd => absurd hd ?_, fun ⟨r, _, hr, _⟩ => absurd hr (by simp)⟩
    exact not_dominated_of_none (s := (slot : ℤ)) (by simp [sources, metadataSlotColumn]) rfl
  | some r =>
    have hr : Dominated r := hstored r rfl
    rw [Upsert.row_some]
    split
    · constructor
      · intro hd
        obtain ⟨t, ht, hle⟩ := hd slot (by simp [sources, metadataSlotColumn])
        exact ⟨r, t, rfl, ht, hle⟩
      · intro ⟨_, t, heq, ht, hle⟩ s hs
        obtain rfl := Option.some.inj heq
        simp only [sources, metadataSlotColumn, List.mem_cons, Option.some.injEq,
          List.not_mem_nil] at hs
        by_cases hslot : s = slot
        · exact ⟨t, ht, hslot ▸ hle⟩
        · refine hr s ?_
          simp only [sources, List.mem_cons, List.not_mem_nil]
          tauto
    · rename_i hguard
      refine ⟨fun _ => ?_, fun _ => hr⟩
      simp only [metadataSlotColumn, notOlder, holds_ge_or_null, not_forall] at hguard
      obtain ⟨m, hm, hlt⟩ := hguard
      obtain ⟨t, ht, hle⟩ := hr m (by simp [sources, hm])
      exact ⟨r, t, rfl, ht, by omega⟩

/-- **One writer.**  It keeps the invariant exactly when it is safe. -/
theorem allDominated_effect_iff {db : Database} (h : AllDominated db) (w : Writer) :
    AllDominated (w.effect db) ↔ w.Safe db := by
  cases w with
  | tokenAccount c =>
    rw [Writer.effect, allDominated_upsertAsset_iff h,
      dominated_row_iff (fun r hr => h _ r hr) fun r hr => hr.raise_only c.slotUpdatedTokenAccount]
    exact or_iff_left (not_dominated_of_none (s := c.slotUpdatedTokenAccount) (by simp [sources,
      tokenAccountColumns]) rfl)
  | metadataAccount c =>
    rw [Writer.effect, allDominated_upsertAsset_iff h,
      dominated_row_iff (fun r hr => h _ r hr) fun r hr => hr.raise_only c.slotUpdatedMetadataAccount]
    exact or_iff_left (not_dominated_of_none (s := (c.slotUpdatedMetadataAccount : ℤ)) (by
      simp [sources, metadataAccountColumns]) rfl)
  | baseInfo id b slot seq =>
    rw [Writer.effect, allDominated_upsertAsset_iff h,
      dominated_row_iff (fun r hr => h _ r hr) fun r hr => hr.raise_only slot]
    exact or_iff_left (not_dominated_of_none (s := slot) (by
      simp [sources, Bubblegum.assetBaseInfo]) rfl)
  | mintAccount c =>
    rw [Writer.effect, allDominated_upsertAsset_iff h,
      dominated_row_iff (fun r hr => h _ r hr) fun r hr => hr.raise_only c.slotUpdatedMintAccount]
    refine ⟨fun _ => trivial, fun _ => Or.inr fun s hs => ⟨c.slotUpdatedMintAccount, rfl, ?_⟩⟩
    have hslot : s = c.slotUpdatedMintAccount := by
      simpa [sources, mintAccountColumns] using hs
    exact le_of_eq hslot
  | shadowMetadata mint slot =>
    rw [Writer.effect, allDominated_upsertAsset_iff h]
    exact dominated_row_metadataSlot_iff slot fun r hr => h mint r hr
  | agentRegistry parsed slot =>
    refine ⟨fun _ => trivial, fun _ id r hr => ?_⟩
    rcases AgentRegistry.lookup_agentEffect parsed slot db id with heq | ⟨r', token, hr', heq⟩
    · exact h id r (heq.symm.trans hr)
    · obtain rfl := Option.some.inj (heq.symm.trans hr)
      exact dominated_setAgent token slot (h id r' hr')

/-! ### Runs -/

/-- The invariant holds at every point of a run exactly when every step of it is safe where it is taken. -/
theorem dominated_from_iff (ws : List Writer) {db : Database} (h : AllDominated db) :
    (∀ pre post, ws = pre ++ post → AllDominated (afterAll Writer.handle pre db)) ↔
      ∀ pre w post, ws = pre ++ w :: post → w.Safe (afterAll Writer.handle pre db) := by
  -- `AllDominated` at a point is what makes the step lemma apply there, so both directions go along the run
  constructor
  · intro hall pre w post hws
    rw [← allDominated_effect_iff (hall pre (w :: post) hws)]
    have hnext := hall (pre ++ [w]) post (by simp [hws])
    rw [afterAll_append, afterAll_cons, afterAll_nil, w.handle_runs.after_eq] at hnext
    exact hnext
  · intro hsafe pre
    induction pre using List.reverseRecOn with
    | nil =>
      intro post _
      exact h
    | append_singleton pre w ih =>
      intro post hws
      have hws' : ws = pre ++ w :: post := by simp [hws]
      have hbefore := ih (w :: post) hws'
      rw [afterAll_append, afterAll_cons, afterAll_nil, w.handle_runs.after_eq]
      exact (allDominated_effect_iff hbefore w).mpr (hsafe pre w post hws')

/-- **Runs from empty tables.**  `slot_updated` is above its sources throughout a run exactly when no writer
but that of a mint creates a row, and no Token-2022 metadata is newer than its row. -/
theorem dominated_along_iff (ws : List Writer) :
    (∀ pre post, ws = pre ++ post → AllDominated (afterAll Writer.handle pre Database.empty)) ↔
      ∀ pre w post, ws = pre ++ w :: post → w.Safe (afterAll Writer.handle pre Database.empty) :=
  dominated_from_iff ws allDominated_empty

/-- The base info that a compressed mint writes. -/
def mintedBaseInfo : BaseInfo where
  ownerType := .single
  specificationVersion := .v1
  specificationAssetClass := .nft
  royaltyTargetType := .creators
  royaltyTarget := none
  royaltyAmount := 500

/-- A compressed mint creates its row with a source slot and no `slot_updated`. -/
theorem first_mint_leaves_no_slot :
    ¬ ∀ ws : List Writer, AllDominated (afterAll Writer.handle ws Database.empty) := by
  intro hall
  have hmint := hall [.baseInfo [7] mintedBaseInfo 5 1]
  rw [afterAll_cons, afterAll_nil, (Writer.handle_runs _).after_eq,
    allDominated_effect_iff allDominated_empty] at hmint
  have hexists : ((Database.empty).asset.lookup [7]).isSome = true := hmint
  exact absurd hexists (by decide)

end DasIndexer.Accounts.SlotUpdated
