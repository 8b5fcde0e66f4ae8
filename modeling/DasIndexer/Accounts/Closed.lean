import DasIndexer.Accounts.Tokens

/-!
# Closed token accounts and mints

A `CloseAccount` instruction takes the row of a token account away, or the row of a mint, whose asset it also
marks as burnt.  The row goes with its slot, and the slot of the instruction is not kept: nothing is left
that a late account update could be compared with.

**`staysClosed_iff`** says what this means for updates that are handled after the instruction although they
are not newer: the account stays closed exactly where the first statement of every such update fails.  An
update that is handled puts the row back, whatever stood there before.
-/

namespace DasIndexer.Accounts.Closed

open Sql Session ProgramTransformerError

/-! ### The handler -/

def deleteToken (mint : Bytes) (db : Database) : Database := { db with tokens := db.tokens.erase mint }

def deleteTokenAccount (pubkey : Bytes) (db : Database) : Database :=
  { db with tokenAccounts := db.tokenAccounts.erase pubkey }

/-- `UPDATE asset SET burnt = TRUE WHERE id IN (id)`. -/
def markBurnt (id : Bytes) (db : Database) : Database :=
  { db with asset := update db.asset fun k r => if k = id then { r with burnt := true } else r }

/-- `handle_token_program_close_ix`, of both programs.  A failure is logged, and one of the query counts as
no mint; the two statements on a mint touch different tables, so their order does not matter. -/
def handleTokenProgramCloseIx (accToClose : Pubkey) : Handler Unit := do
  let mint ← Session.ok (Session.select storageWriteError fun db => db.tokens.lookup accToClose.bytes)
  if mint.join.isSome then do
    Session.tolerate (Session.write storageWriteError (deleteToken accToClose.bytes))
    Session.tolerate (Session.write storageWriteError (markBurnt accToClose.bytes))
  else Session.tolerate (Session.write storageWriteError (deleteTokenAccount accToClose.bytes))

/-- The tables after it, where nothing fails. -/
def closeEffect (accToClose : Pubkey) (db : Database) : Database :=
  if (db.tokens.lookup accToClose.bytes).isSome then
    markBurnt accToClose.bytes (deleteToken accToClose.bytes db)
  else deleteTokenAccount accToClose.bytes db

theorem handleTokenProgramCloseIx_runs (accToClose : Pubkey) :
    Session.Runs (handleTokenProgramCloseIx accToClose) fun db => ((), closeEffect accToClose db) := by
  have hrest : ∀ mint : Option (Option TokenRow), Session.Runs
      (if mint.join.isSome then (do
        Session.tolerate (Session.write storageWriteError (deleteToken accToClose.bytes))
        Session.tolerate (Session.write storageWriteError (markBurnt accToClose.bytes)) : Handler Unit)
      else Session.tolerate (Session.write storageWriteError (deleteTokenAccount accToClose.bytes)))
      fun db => ((), if mint.join.isSome then markBurnt accToClose.bytes (deleteToken accToClose.bytes db)
        else deleteTokenAccount accToClose.bytes db) := by
    intro mint
    cases mint.join.isSome with
    | true => exact Session.Runs.bind (Session.Runs.tolerate (Session.Runs.write _ _)) fun _ =>
        Session.Runs.tolerate (Session.Runs.write _ _)
    | false => exact Session.Runs.tolerate (Session.Runs.write _ _)
  exact Session.Runs.bind (Session.Runs.ok (Session.Runs.select _ _)) hrest

/-- Where nothing fails, the instruction takes the row away, and marks the asset of a mint. -/
theorem close_takes_row (accToClose : Pubkey) (db : Database) :
    (db.tokens.lookup accToClose.bytes = none →
      (after (handleTokenProgramCloseIx accToClose) db).tokenAccounts.lookup accToClose.bytes = none) ∧
    ∀ token r, db.tokens.lookup accToClose.bytes = some token → db.asset.lookup accToClose.bytes = some r →
      (after (handleTokenProgramCloseIx accToClose) db).tokens.lookup accToClose.bytes = none ∧
      (after (handleTokenProgramCloseIx accToClose) db).asset.lookup accToClose.bytes
        = some { r with burnt := true } := by
  rw [(handleTokenProgramCloseIx_runs accToClose).after_eq, closeEffect]
  constructor
  · intro hnone
    rw [hnone]
    exact AList.lookup_erase _ _
  · intro token r htoken hasset
    rw [htoken]
    refine ⟨AList.lookup_erase _ _, ?_⟩
    show (update db.asset _).lookup accToClose.bytes = _
    rw [lookup_update, hasset, Option.map_some, if_pos rfl]

/-! ### Runs -/

/-- What the two streams bring. -/
inductive Event where
  | tokenAccount (u : TokenAccountUpdate)
  | mint (u : MintUpdate)
  | close (accToClose : Pubkey) (slot : ℕ)

namespace Event

def handle : Event → Handler Unit
  | tokenAccount u => u.handle
  | mint u => u.handle
  | close accToClose _ => handleTokenProgramCloseIx accToClose

/-- Nothing is left of the account that an update is about. -/
def Gone (db : Database) : Event → Prop
  | tokenAccount u => db.tokenAccounts.lookup u.info.pubkey.bytes = none
  | mint u => db.tokens.lookup u.info.pubkey.bytes = none ∧
      ∃ r, db.asset.lookup u.info.pubkey.bytes = some r ∧ r.burnt = true
  | close _ _ => True

/-- The account update, where the event is one. -/
def update? : Event → Option AccountInfo
  | tokenAccount u => some u.info
  | mint u => some u.info
  | close _ _ => none

end Event

/-- An event, and which of its statements fail. -/
structure Step where
  event : Event
  faults : Faults := noFaults

namespace Step

def tables (s : Step) (db : Database) : Database := (s.event.handle.run s.faults (World.init db)).2.db

/-- `late` is an update of the account that `close` closes, and is not newer. -/
def NotNewer (close late : Step) : Prop :=
  ∃ accToClose slot info, close.event = .close accToClose slot ∧ late.event.update? = some info ∧
    info.pubkey = accToClose ∧ info.slot ≤ slot

end Step

def tablesAfter (steps : List Step) (db : Database) : Database :=
  steps.foldl (fun db s => s.tables db) db

/-- A step of a run, after the steps `before`, that updates an account closed by one of them in the same or
a later slot. -/
def Late (steps before : List Step) (late : Step) : Prop :=
  (before ++ [late]) <+: steps ∧ ∃ close ∈ before, close.NotNewer late

/-- No such update leaves anything of its account. -/
def StaysClosed (steps : List Step) (db : Database) : Prop :=
  ∀ before late, Late steps before late → late.event.Gone (tablesAfter (before ++ [late]) db)

/-! ### One update -/

/-- A handler that writes first changes nothing, or leaves what its write leaves and the rest keeps. -/
theorem run_write_first {f : Database → Database} {k : Unit → Handler Unit} {P : Database → Prop}
    (db : Database) (hf : P (f db)) (hk : ∀ a, Session.Keeps P (k a)) (F : Faults) :
    (F 0 ≠ none ∧ ((Session.write storageWriteError f >>= k).run F (World.init db)).2.db = db) ∨
      (F 0 = none ∧ P ((Session.write storageWriteError f >>= k).run F (World.init db)).2.db) := by
  rw [run_write_bind]
  show (F 0 ≠ none ∧ _) ∨ (F 0 = none ∧ _)
  cases hF : F (World.init db).tick with
  | some e =>
    have hne : F 0 ≠ none := fun h => Option.some_ne_none e (hF.symm.trans h)
    exact Or.inl ⟨hne, rfl⟩
  | none => exact Or.inr ⟨hF, (hk () F _ ⟨hf, by simp [World.init]⟩).1⟩

/-- The rest of a token account's handler keeps the row of the account. -/
theorem rest_keeps_tokenAccount (ta : TokenAccount) (info : AccountInfo) (pubkey : Bytes) :
    Session.Keeps (fun db : Database => (db.tokenAccounts.lookup pubkey).isSome) (do
      let token ← Session.select storageWriteError fun db : Database => db.tokens.lookup ta.mint.bytes
      if (token.map isNonFungible).getD false then
        Session.transaction storageWriteError
          (upsertAssetsTokenAccountColumns storageWriteError (ta.columns info))
      else pure () : Handler Unit) := by
  refine Session.Keeps.bind (Session.Keeps.execute _ fun _ h => h) fun token => ?_
  split
  · refine Session.Keeps.transaction _ ?_
    exact Session.Keeps.write _ fun _ h => h
  · exact Session.Keeps.pure ()

/-- A handled token account has a row. -/
theorem tokenAccount_row (u : TokenAccountUpdate) (F : Faults) (db : Database) :
    (F 0 ≠ none ∧ (u.handle.run F (World.init db)).2.db = db) ∨
      (F 0 = none ∧ ((u.handle.run F (World.init db)).2.db.tokenAccounts.lookup
        u.info.pubkey.bytes).isSome) := by
  cases u with
  | token info ta =>
    refine run_write_first db ?_ (fun _ => rest_keeps_tokenAccount ta info info.pubkey.bytes) F
    simp [upsertTokenAccount]
  | tokenExtensions info ta extensions =>
    refine run_write_first db ?_ (fun _ => rest_keeps_tokenAccount ta info info.pubkey.bytes) F
    simp [upsertTokenAccount]

/-- The rest of a mint's handler keeps the row of the mint. -/
theorem rest_keeps_token (columns : AssetMintAccountColumns) (mint : Bytes) :
    Session.Keeps (fun db : Database => (db.tokens.lookup mint).isSome)
      (Session.transaction storageWriteError
        (upsertAssetsMintAccountColumns storageWriteError columns)) := by
  refine Session.Keeps.transaction _ ?_
  exact Session.Keeps.write _ fun _ h => h

/-- So do the metadata of a Token-2022 mint. -/
theorem shadow_keeps_token (metadata : Option ShadowMetadata) (key mint : Bytes) (slot : ℕ) :
    Session.Keeps (fun db : Database => (db.tokens.lookup mint).isSome)
      (match metadata with
        | none => (pure () : Handler Unit)
        | some metadata => do
          match ← upsertShadowAssetData metadata key slot with
          | none => pure ()
          | some _ => Session.fallible downloadMetadataNotify) := by
  cases metadata with
  | none => exact Session.Keeps.pure ()
  | some m =>
    have hupsert : Session.Keeps (fun db : Database => (db.tokens.lookup mint).isSome)
        (upsertShadowAssetData m key slot) := by
      refine Session.Keeps.bind (Session.Keeps.writeChecked _ fun _ _ _ h => h) fun _ => ?_
      refine Session.Keeps.bind (Session.Keeps.transaction _ (Session.Keeps.write _ fun _ h => h))
        fun _ => ?_
      split <;> exact Session.Keeps.pure _
    refine Session.Keeps.bind hupsert fun info => ?_
    cases info with
    | none => exact Session.Keeps.pure ()
    | some _ => exact Session.Keeps.execute _ fun _ h => h

/-- A handled mint has a row. -/
theorem mint_row (u : MintUpdate) (F : Faults) (db : Database) :
    (F 0 ≠ none ∧ (u.handle.run F (World.init db)).2.db = db) ∨
      (F 0 = none ∧ ((u.handle.run F (World.init db)).2.db.tokens.lookup u.info.pubkey.bytes).isSome) := by
  cases u with
  | token info m =>
    refine run_write_first db ?_ (fun _ => rest_keeps_token _ info.pubkey.bytes) F
    simp [upsertToken]
  | tokenExtensions info m extensions =>
    show (F 0 ≠ none ∧ ((handleMint info m extensions.value true >>= _).run F (World.init db)).2.db = db) ∨
      (F 0 = none ∧ (((handleMint info m extensions.value true >>= _).run F
        (World.init db)).2.db.tokens.lookup info.pubkey.bytes).isSome)
    rw [handleMint, bind_assoc]
    refine run_write_first db ?_ (fun _ => Session.Keeps.bind (rest_keeps_token _ info.pubkey.bytes)
      fun _ => shadow_keeps_token extensions.metadata info.pubkey.bytes info.pubkey.bytes info.slot) F
    simp [upsertToken]

/-- An update leaves nothing of its account only where its first statement fails and nothing was there. -/
theorem Step.gone_iff {s : Step} {info : AccountInfo} (h : s.event.update? = some info) (db : Database) :
    s.event.Gone (s.tables db) ↔ s.faults 0 ≠ none ∧ s.event.Gone db := by
  obtain ⟨event, F⟩ := s
  cases event with
  | close account slot => cases h
  | tokenAccount u =>
    rcases tokenAccount_row u F db with ⟨hF, hrun⟩ | ⟨hF, hrow⟩
    · show Event.Gone (u.handle.run F (World.init db)).2.db (.tokenAccount u) ↔ _
      rw [hrun]
      exact (and_iff_right hF).symm
    · refine iff_of_false (fun hgone => ?_) fun hgone => hgone.1 hF
      exact absurd hrow (Option.not_isSome_iff_eq_none.mpr hgone)
  | mint u =>
    rcases mint_row u F db with ⟨hF, hrun⟩ | ⟨hF, hrow⟩
    · show Event.Gone (u.handle.run F (World.init db)).2.db (.mint u) ↔ _
      rw [hrun]
      exact (and_iff_right hF).symm
    · refine iff_of_false (fun hgone => ?_) fun hgone => hgone.1 hF
      exact absurd hrow (Option.not_isSome_iff_eq_none.mpr hgone.1)

/-! ### Every run -/

/-- **When a closed account stays closed**: when every update of it that is not newer fails at its first
statement, and nothing of the account is there before.  An update that is handled puts its row back. -/
theorem staysClosed_iff (steps : List Step) (db : Database) :
    StaysClosed steps db ↔ ∀ before late, Late steps before late →
      late.faults 0 ≠ none ∧ late.event.Gone (tablesAfter before db) := by
  have hlast : ∀ before late, tablesAfter (before ++ [late]) db = late.tables (tablesAfter before db) :=
    fun _ _ => List.foldl_append
  constructor
  · intro h before late hlate
    have hgone := h before late hlate
    obtain ⟨_, close, _, _, _, _, _, hupdate, _⟩ := hlate
    rw [hlast] at hgone
    exact (Step.gone_iff hupdate _).mp hgone
  · intro h before late hlate
    have hgone := h before late hlate
    obtain ⟨_, close, _, _, _, _, _, hupdate, _⟩ := hlate
    rw [hlast]
    exact (Step.gone_iff hupdate _).mpr hgone

/-- The account with all bytes 1, of the Token program, as it was in slot 1. -/
def sampleInfo : AccountInfo := { slot := 1, pubkey := Pubkey.fill 1, owner := Pubkey.fill 9 }

def sampleAccount : Step where
  event := .tokenAccount (.token sampleInfo
    { mint := Pubkey.fill 2, owner := Pubkey.fill 3, amount := 1, delegate := none, state := .initialized
      delegatedAmount := 0 })

def sampleMint : Step where
  event := .mint (.token sampleInfo
    { mintAuthority := none, supply := 1, decimals := 0, freezeAuthority := none })

def sampleClose : Step where
  event := .close (Pubkey.fill 1) 2

/-- A token account is stored, closed and stored again by a replay, and a mint is stored that was closed
before its update came. -/
theorem replayed_update_resurrects :
    ¬ StaysClosed [sampleAccount, sampleClose, sampleAccount] Database.empty ∧
    ¬ StaysClosed [sampleClose, sampleMint] Database.empty := by
  constructor
  · intro h
    have hlate : Late [sampleAccount, sampleClose, sampleAccount] [sampleAccount, sampleClose] sampleAccount :=
      ⟨List.prefix_refl _, sampleClose, by simp, Pubkey.fill 1, 2, sampleInfo, rfl, rfl, rfl, by decide⟩
    exact ((Step.gone_iff rfl _).mp (h _ _ hlate)).1 rfl
  · intro h
    have hlate : Late [sampleClose, sampleMint] [sampleClose] sampleMint :=
      ⟨List.prefix_refl _, sampleClose, by simp, Pubkey.fill 1, 2, sampleInfo, rfl, rfl, rfl, by decide⟩
    exact ((Step.gone_iff rfl _).mp (h _ _ hlate)).1 rfl

end DasIndexer.Accounts.Closed
