import DasIndexer.Accounts.AssetUpserts

/-!
# The agent registry

A registry account decorates the asset row of a Core asset with the token of its agent.  It never creates
a row: the handler looks for the asset first and gives up when there is none or when it is burnt, and the
write is a plain `UPDATE` whose filter repeats both tests, asks for a Core asset, and compares the
registry's own slot column.  Like the other writers of the row it moves `slot_updated` up.
-/

namespace DasIndexer.Accounts.AgentRegistry

open Sql ProgramTransformerError

structure ParsedAgentIdentity where
  asset : Pubkey
  agentTokenMint : Option Pubkey
deriving DecidableEq

structure AgentRegistryAccount where
  inner : Option ParsedAgentIdentity
deriving DecidableEq

/-- The filter of the update, the key apart. -/
def agentGuard (slot : ℕ) (r : AssetRow) : Truth :=
  and (and (eq (some r.burnt) (some false)) (eq r.specificationAssetClass (some .mplCoreAsset)))
    (or (isNull r.slotUpdatedAgentRegistry) (ge (some (slot : ℤ)) r.slotUpdatedAgentRegistry))

/-- The assignments of the update. -/
def setAgent (agentToken : Option Bytes) (slot : ℕ) (r : AssetRow) : AssetRow :=
  { r with
    agentToken
    slotUpdatedAgentRegistry := some (slot : ℤ)
    slotUpdated := greatest r.slotUpdated (some (slot : ℤ)) }

/-- The one statement of the handler. -/
def updateAgent (asset : Bytes) (agentToken : Option Bytes) (slot : ℕ) (db : Database) : Database :=
  { db with asset := update db.asset fun id r =>
      if id = asset ∧ holds (agentGuard slot r) = true then setAgent agentToken slot r else r }

/-- `handle_agent_registry_account`. -/
def handleAgentRegistryAccount (parsed : AgentRegistryAccount) (slot : ℕ) : Handler Unit :=
  match parsed.inner with
  | none => pure ()
  | some inner => do
    let found ← findModelWithRetry storageWriteError (fun db => db.asset.lookup inner.asset.bytes)
      retryIntervals
    match found with
    | none => pure ()
    | some asset =>
      if asset.burnt = true then pure ()
      else
        Session.write assetIndexError
          (updateAgent inner.asset.bytes (inner.agentTokenMint.map Pubkey.bytes) slot)

/-- The tables after a registry account. -/
def agentEffect (parsed : AgentRegistryAccount) (slot : ℕ) (db : Database) : Database :=
  match parsed.inner with
  | none => db
  | some inner =>
    match db.asset.lookup inner.asset.bytes with
    | none => db
    | some asset =>
      if asset.burnt = true then db
      else updateAgent inner.asset.bytes (inner.agentTokenMint.map Pubkey.bytes) slot db

theorem handleAgentRegistryAccount_runs (parsed : AgentRegistryAccount) (slot : ℕ) :
    Session.Runs (handleAgentRegistryAccount parsed slot)
      fun db => ((), agentEffect parsed slot db) := by
  obtain ⟨_ | inner⟩ := parsed
  · exact Session.Runs.pure ()
  · have hrest : ∀ asset : Option AssetRow, Session.Runs
        (match asset with
          | none => (pure () : Handler Unit)
          | some asset =>
            if asset.burnt = true then pure ()
            else
              Session.write assetIndexError
                (updateAgent inner.asset.bytes (inner.agentTokenMint.map Pubkey.bytes) slot))
        (match asset with
          | none => fun db => ((), db)
          | some asset => fun db => ((), if asset.burnt = true then db
              else updateAgent inner.asset.bytes (inner.agentTokenMint.map Pubkey.bytes) slot db)) := by
      intro asset
      cases asset with
      | none => exact Session.Runs.pure ()
      | some asset =>
        by_cases hb : asset.burnt = true
        · simp only [hb, if_true]
          exact Session.Runs.pure ()
        · simp only [hb]
          exact Session.Runs.write _ _
    refine (Session.Runs.bind (findModelWithRetry_runs _ _ retryIntervals (by decide)) hrest).congr ?_
    intro db
    simp only [agentEffect]
    cases db.asset.lookup inner.asset.bytes <;> rfl

/-- The row that a registry account leaves: it has been decorated, or is as it was. -/
theorem lookup_agentEffect (parsed : AgentRegistryAccount) (slot : ℕ) (db : Database) (id : Bytes) :
    (agentEffect parsed slot db).asset.lookup id = db.asset.lookup id ∨
      ∃ r agentToken, db.asset.lookup id = some r ∧
        (agentEffect parsed slot db).asset.lookup id = some (setAgent agentToken slot r) := by
  unfold agentEffect
  split
  · exact Or.inl rfl
  · rename_i inner _
    split
    · exact Or.inl rfl
    · split
      · exact Or.inl rfl
      · simp only [updateAgent, lookup_update]
        cases hr : db.asset.lookup id with
        | none => exact Or.inl rfl
        | some r =>
          rw [Option.map_some]
          split
          · exact Or.inr ⟨r, _, rfl, rfl⟩
          · exact Or.inl rfl

end DasIndexer.Accounts.AgentRegistry
