import DasIndexer.Bubblegum.Plan

/-!
# Failures after the change log

The detectors of missing changes look at `cl_audits_v2` and `backfill_items` only.  A handler writes
both before it opens the transaction that applies the change, so an error after that leaves a change
that is recorded and not applied.  This file says exactly when that happens.

The attempts of a handler are numbered: the nodes of the path, the audit row, the query and the insert
of the backfill row, and then the transaction and the notification.  `RecordsOnlyApplied` is a condition
on the instruction, the failing attempts and the stored rows, and **`keepsGapVisible_iff`** says that a
failed handler leaves no new row of its change exactly under that condition.  A version 2 leaf in a
`CancelRedeem` breaks it without any database failure (`cancelRedeem_v2_hides_gap`).
-/

namespace DasIndexer.Bubblegum

open Sql ProgramTransformerError

/-- The tables that the gap detectors read. -/
def gapTables (db : Database) : Table (Bytes × ℤ × ℤ) ClAuditRow × List BackfillItemRow :=
  (db.clAuditsV2, db.backfillItems)

/-- The backfill rows of a change. -/
def backfillRowsOf (db : Database) (tree : Bytes) (seq : ℤ) : List BackfillItemRow :=
  db.backfillItems.filter fun r => r.tree == tree && r.seq == seq

/-- No row of the change is in `db'` that is not in `db`. -/
def NoNewRows (tree : Bytes) (seq : ℤ) (db db' : Database) : Prop :=
  (∀ leafIdx, (db'.clAuditsV2.lookup (tree, leafIdx, seq)).isSome →
    (db.clAuditsV2.lookup (tree, leafIdx, seq)).isSome) ∧
  backfillRowsOf db' tree seq = backfillRowsOf db tree seq

/-- A handler that fails leaves no new row of its change. -/
def KeepsGapVisible (E : Env) (ix : BubblegumInstruction) (bundle : InstructionBundle)
    (cl : ChangeLogEventV1) (F : Faults) (db : Database) : Prop :=
  ∀ e w', (handleBubblegumInstruction E ix bundle).run F (World.init db) = (.error e, w') →
    NoNewRows cl.id.bytes cl.seq db w'.db

/-- The attempts of a plan after the change log: the statements, `BEGIN` and `COMMIT`, and the
notification. -/
def attemptsAfter (writes : List TableWrite) (download : Option DownloadMetadataInfo) : ℕ :=
  writes.length + 2 + download.toList.length

/-- Nothing is recorded that is not applied: a node of the path fails or the signature does not decode,
so that nothing is recorded; or the audit row is not new and the backfill row is not reached; or the
rest of the handler is not rejected and nothing in it fails. -/
def RecordsOnlyApplied (txnId : String) (change : Change) (F : Faults) (db : Database) : Prop :=
  let n := change.event.path.length
  (∃ t, t < n ∧ F t ≠ none) ∨
  Base58.decode txnId = none ∨
  ((F n ≠ none ∨ (db.clAuditsV2.lookup
      (change.event.id.bytes, (change.event.index : ℤ), (change.event.seq : ℤ))).isSome) ∧
    (F (n + 1) ≠ none ∨ F (n + 2) ≠ none)) ∨
  (F (n + 1) = none ∧ F (n + 2) = none ∧
    ∃ writes, change.body = .ok writes ∧
      ∀ t, n + 3 ≤ t → t < n + 3 + attemptsAfter writes change.download → F t = none)

theorem NoNewRows.of_gapTables_eq {tree : Bytes} {seq : ℤ} {db db' : Database}
    (h : gapTables db' = gapTables db) : NoNewRows tree seq db db' := by
  obtain ⟨haudit, hback⟩ := Prod.mk.inj h
  refine ⟨fun leafIdx hsome => ?_, ?_⟩
  · rw [haudit] at hsome
    exact hsome
  · simp only [backfillRowsOf, hback]

/-! ### Counting the attempts of a handler -/

theorem insertPath_counted (event : ChangeLogEventV1) (depth i : ℕ) (ps : List PathNode) :
    Session.Counted gapTables ps.length (insertPath event depth i ps) := by
  induction ps generalizing i with
  | nil => exact Session.Counted.pure ()
  | cons p ps ih =>
    rw [List.length_cons, Nat.add_comm]
    exact Session.Counted.bind (Session.Counted.execute _ _ fun _ => rfl) fun _ => ih (i + 1)

/-- The transaction of a handler does not write the tables of the detectors. -/
theorem TableWrite.apply_gapTables (E : Env) (w : TableWrite) (db : Database) :
    gapTables (w.apply E db) = gapTables db := by
  cases w <;> rfl

theorem TableWrite.step_counted (E : Env) (w : TableWrite) :
    Session.Counted gapTables 1 (w.step E) :=
  Session.Counted.execute _ (fun db => ((), w.apply E db)) (w.apply_gapTables E)

theorem TableWrite.stepAll_counted (E : Env) (ws : List TableWrite) :
    Session.Counted gapTables ws.length (TableWrite.stepAll E ws) := by
  induction ws with
  | nil => exact Session.Counted.pure ()
  | cons w ws ih =>
    rw [List.length_cons, Nat.add_comm]
    exact Session.Counted.bind (w.step_counted E) fun _ => ih

theorem notifyDownload_counted (download : Option DownloadMetadataInfo) :
    Session.Counted gapTables download.toList.length (notifyDownload download) := by
  cases download with
  | none => exact Session.Counted.pure ()
  | some info => exact Session.Counted.execute _ _ fun _ => rfl

theorem runBody_counted (E : Env) (change : Change) {writes : List TableWrite}
    (h : change.body = .ok writes) :
    Session.Counted gapTables (attemptsAfter writes change.download) (Plan.runBody E change) := by
  rw [Plan.runBody, h]
  exact Session.Counted.bind
    (Session.Counted.transaction _ (TableWrite.stepAll_counted E writes))
    fun _ => notifyDownload_counted change.download

/-! ### The change log under faults -/

section

variable (event : ChangeLogEventV1) (slot : ℕ) (txnId name : String) (F : Faults) (db : Database)

/-- A failing node of the path ends the handler before anything is recorded. -/
theorem insertChangeLog_path_fault (h : ∃ t, t < event.path.length ∧ F t ≠ none) :
    ∃ e w', (insertChangeLog event slot txnId name).run F (World.init db) = (.error e, w') ∧
      gapTables w'.db = gapTables db := by
  have hpath := insertPath_counted event (event.path.length - 1) 0 event.path
  obtain ⟨t, ht, hF⟩ := h
  obtain ⟨e, w', hrun⟩ := hpath.error F (World.init db)
    ⟨t, Nat.zero_le t, by simpa [World.init] using ht, hF⟩
  refine ⟨e, w', Session.run_bind_error hrun _, ?_⟩
  have hkeep := hpath.keeps F (World.init db)
  rw [hrun] at hkeep
  exact hkeep

variable (hpath : ∀ t, t < event.path.length → F t = none)
include hpath

theorem insertPath_run_ok :
    ∃ w, (insertPath event (event.path.length - 1) 0 event.path).run F (World.init db)
        = (.ok (), w) ∧ w.tick = event.path.length ∧ gapTables w.db = gapTables db := by
  have hcount := insertPath_counted event (event.path.length - 1) 0 event.path
  obtain ⟨_, w, hrun, htick⟩ := hcount.ok F (World.init db) fun t _ ht =>
    hpath t (by simpa [World.init] using ht)
  refine ⟨w, hrun, by simpa [World.init] using htick, ?_⟩
  have hkeep := hcount.keeps F (World.init db)
  rw [hrun] at hkeep
  exact hkeep

/-- So does a signature that does not decode. -/
theorem insertChangeLog_undecodable (h : Base58.decode txnId = none) :
    ∃ e w', (insertChangeLog event slot txnId name).run F (World.init db) = (.error e, w') ∧
      gapTables w'.db = gapTables db := by
  obtain ⟨w, hrun, _, hkeep⟩ := insertPath_run_ok event F db hpath
  refine ⟨changeLogEventMalformed, w, ?_, hkeep⟩
  rw [insertChangeLog, Session.run_bind_ok hrun, h]
  rfl

/-- The two steps of the backfill row. -/
def recordBackfill : Handler Unit := do
  let known ← Session.select storageWriteError fun db =>
    db.backfillItems.any fun r => r.tree == event.id.bytes
  Session.write storageWriteError
    (Database.insertBackfillItem (backfillItem event slot (!known && decide (1 < event.seq))))

/-- Past the path, the handler goes on from a world in which the audit row was tried. -/
theorem insertChangeLog_run {tx : Bytes} (h : Base58.decode txnId = some tx) :
    ∃ w, (insertChangeLog event slot txnId name).run F (World.init db)
        = (recordBackfill event slot).run F w ∧
      w.tick = event.path.length + 1 ∧ w.db.backfillItems = db.backfillItems ∧
      w.db.clAuditsV2 = if F event.path.length = none
        then upsert db.clAuditsV2 (event.id.bytes, (event.index : ℤ), (event.seq : ℤ))
          (.doNothing { tx, instruction := Instruction.fromStr name })
        else db.clAuditsV2 := by
  obtain ⟨w, hrun, htick, hkeep⟩ := insertPath_run_ok event F db hpath
  obtain ⟨haudit, hback⟩ := Prod.mk.inj hkeep
  cases hF : F event.path.length with
  | some e =>
    refine ⟨w.next, ?_, by simp [htick], hback, by simp [haudit]⟩
    rw [insertChangeLog, Session.run_bind_ok hrun, h]
    have htried : (Session.tolerate (Session.write storageWriteError
        (clAudit event tx (Instruction.fromStr name)))).run F w = (.ok (), w.next) := by
      simp only [Session.tolerate, Session.write, Session.execute, htick, hF]
    exact Session.run_bind_ok htried _
  | none =>
    refine ⟨{ w.next with db := clAudit event tx (Instruction.fromStr name) w.db }, ?_,
      by simp [htick], hback, ?_⟩
    · rw [insertChangeLog, Session.run_bind_ok hrun, h]
      refine Session.run_bind_ok (a := ()) ?_ _
      simp only [Session.tolerate, Session.write, Session.execute, htick, hF]
    · simp only [if_true]
      rw [← haudit]
      rfl

end

/-- A failing query or insert of the backfill row changes no table. -/
theorem recordBackfill_fault (event : ChangeLogEventV1) (slot : ℕ) (F : Faults)
    (w : World Database) (h : F w.tick ≠ none ∨ F (w.tick + 1) ≠ none) :
    ∃ e w', (recordBackfill event slot).run F w = (.error e, w') ∧ w'.db = w.db := by
  cases hq : F w.tick with
  | some e =>
    refine ⟨storageWriteError e, w.next, ?_, rfl⟩
    refine Session.run_bind_error ?_ _
    simp only [Session.select, Session.execute, hq]
  | none =>
    obtain ⟨e, he⟩ := Option.ne_none_iff_exists'.mp (h.resolve_left (by simp [hq]))
    refine ⟨storageWriteError e, w.next.next, ?_, rfl⟩
    have hsel : (Session.select storageWriteError fun db : Database =>
        db.backfillItems.any fun r => r.tree == event.id.bytes).run F w
        = (.ok (w.db.backfillItems.any fun r => r.tree == event.id.bytes), w.next) := by
      simp only [Session.select, Session.execute, hq]
      rfl
    rw [recordBackfill, Session.run_bind_ok hsel]
    simp only [Session.write, Session.execute, World.next_tick, he]

theorem recordBackfill_ok (event : ChangeLogEventV1) (slot : ℕ) (F : Faults)
    (w : World Database) (hq : F w.tick = none) (hi : F (w.tick + 1) = none) :
    ∃ forceChk, (recordBackfill event slot).run F w = (.ok (),
      { w.next.next with
        db := Database.insertBackfillItem (backfillItem event slot forceChk) w.db }) := by
  have hsel : (Session.select storageWriteError fun db : Database =>
      db.backfillItems.any fun r => r.tree == event.id.bytes).run F w
      = (.ok (w.db.backfillItems.any fun r => r.tree == event.id.bytes), w.next) := by
    simp only [Session.select, Session.execute, hq]
    rfl
  refine ⟨!(w.db.backfillItems.any fun r => r.tree == event.id.bytes) && decide (1 < event.seq), ?_⟩
  rw [recordBackfill, Session.run_bind_ok hsel]
  simp only [Session.write, Session.execute, World.next_tick, hi]
  rfl

/-! ### When a failed handler leaves a record -/

/-- A backfill row of the change is a new row of it. -/
theorem not_noNewRows_of_insert {event : ChangeLogEventV1} (slot : ℕ) (forceChk : Bool)
    {db db' : Database}
    (h : db'.backfillItems = db.backfillItems ++ [backfillItem event slot forceChk]) :
    ¬ NoNewRows event.id.bytes event.seq db db' := by
  intro ⟨_, hback⟩
  have hlen := congrArg List.length hback
  simp [backfillRowsOf, h, backfillItem] at hlen

/-- The audit row of the change, tried or not, is no new row exactly when it was not written or was
already there. -/
theorem noNewRows_audit_iff {event : ChangeLogEventV1} {row : ClAuditRow} {tried : Prop}
    [Decidable tried] (db db' : Database) (hback : db'.backfillItems = db.backfillItems)
    (haudit : db'.clAuditsV2 = if tried
      then upsert db.clAuditsV2 (event.id.bytes, (event.index : ℤ), (event.seq : ℤ))
        (.doNothing row)
      else db.clAuditsV2) :
    NoNewRows event.id.bytes event.seq db db' ↔
      (¬ tried ∨ (db.clAuditsV2.lookup
        (event.id.bytes, (event.index : ℤ), (event.seq : ℤ))).isSome) := by
  have hrows : backfillRowsOf db' event.id.bytes event.seq
      = backfillRowsOf db event.id.bytes event.seq := by simp only [backfillRowsOf, hback]
  by_cases ht : tried
  · rw [if_pos ht] at haudit
    constructor
    · intro ⟨hnew, _⟩
      refine Or.inr (hnew event.index ?_)
      rw [haudit, lookup_upsert_self]
      rfl
    · intro h
      have hthere := h.resolve_left (not_not_intro ht)
      refine ⟨fun leafIdx hsome => ?_, hrows⟩
      rw [haudit, lookup_upsert] at hsome
      split at hsome
      · rename_i heq
        rw [heq]
        exact hthere
      · exact hsome
  · rw [if_neg ht] at haudit
    exact ⟨fun _ => Or.inl ht, fun _ => NoNewRows.of_gapTables_eq (Prod.ext haudit hback)⟩

/-- What follows the change log fails exactly when it is rejected or one of its attempts fails, and it
never touches the detectors' tables. -/
theorem runBody_run (E : Env) (change : Change) (F : Faults) (w : World Database) :
    gapTables ((Plan.runBody E change).run F w).2.db = gapTables w.db ∧
    ((∃ e w', (Plan.runBody E change).run F w = (.error e, w')) ↔
      ¬ ∃ writes, change.body = .ok writes ∧ ∀ t, w.tick ≤ t →
        t < w.tick + attemptsAfter writes change.download → F t = none) := by
  cases hbody : change.body with
  | error e =>
    have hrun : Plan.runBody E change = Session.throw e := by rw [Plan.runBody, hbody]
    rw [hrun]
    exact ⟨rfl, fun _ => by simp, fun _ => ⟨e, w, rfl⟩⟩
  | ok writes =>
    have hcount := runBody_counted E change hbody
    refine ⟨hcount.keeps F w, ?_⟩
    rw [hcount.fails_iff]
    simp only [Except.ok.injEq, exists_eq_left']

/-- Once the change is recorded, a failure leaves the record, so nothing after it may fail. -/
theorem runBody_noNewRows_iff (E : Env) (change : Change) (F : Faults) {w : World Database}
    {db : Database} (hnew : ∀ db', gapTables db' = gapTables w.db →
      ¬ NoNewRows change.event.id.bytes change.event.seq db db') :
    (∀ e w', (Plan.runBody E change).run F w = (.error e, w') →
      NoNewRows change.event.id.bytes change.event.seq db w'.db) ↔
    ∃ writes, change.body = .ok writes ∧ ∀ t, w.tick ≤ t →
      t < w.tick + attemptsAfter writes change.download → F t = none := by
  obtain ⟨hkeep, hfails⟩ := runBody_run E change F w
  constructor
  · intro h
    by_contra hwrites
    obtain ⟨e, w', herr⟩ := hfails.mpr hwrites
    rw [herr] at hkeep
    exact hnew w'.db hkeep (h e w' herr)
  · intro h e w' herr
    exact absurd h (hfails.mp ⟨e, w', herr⟩)

section

variable (E : Env) {bundle : InstructionBundle} {name : String} {change : Change} {F : Faults}
  {db : Database} {w : World Database}
  (hlog : (insertChangeLog change.event bundle.slot bundle.txnId name).run F (World.init db)
    = (recordBackfill change.event bundle.slot).run F w)
  (hback : w.db.backfillItems = db.backfillItems)
include hlog hback

/-- Where the backfill row fails, what counts is the audit row. -/
theorem failedBackfill_noNewRows_iff {tried : Prop} [Decidable tried] {row : ClAuditRow}
    (haudit : w.db.clAuditsV2 = if tried
      then upsert db.clAuditsV2 (change.event.id.bytes, (change.event.index : ℤ),
        (change.event.seq : ℤ)) (.doNothing row)
      else db.clAuditsV2)
    (hrec : F w.tick ≠ none ∨ F (w.tick + 1) ≠ none) :
    (∀ e w', ((Plan.record change).run E bundle name).run F (World.init db) = (.error e, w') →
      NoNewRows change.event.id.bytes change.event.seq db w'.db) ↔
    (¬ tried ∨ (db.clAuditsV2.lookup (change.event.id.bytes, (change.event.index : ℤ),
      (change.event.seq : ℤ))).isSome) := by
  obtain ⟨e, w', herr, hdb⟩ := recordBackfill_fault change.event bundle.slot F w hrec
  rw [← hlog] at herr
  rw [← hdb] at hback haudit
  rw [Plan.run, Session.forall_error_bind_iff herr]
  exact noNewRows_audit_iff db w'.db hback haudit

/-- Where it is written, the change is recorded, so it must be applied. -/
theorem writtenBackfill_noNewRows_iff (hq : F w.tick = none) (hi : F (w.tick + 1) = none) :
    (∀ e w', ((Plan.record change).run E bundle name).run F (World.init db) = (.error e, w') →
      NoNewRows change.event.id.bytes change.event.seq db w'.db) ↔
    ∃ writes, change.body = .ok writes ∧ ∀ t, w.tick + 2 ≤ t →
      t < w.tick + 2 + attemptsAfter writes change.download → F t = none := by
  obtain ⟨forceChk, hok⟩ := recordBackfill_ok change.event bundle.slot F w hq hi
  rw [← hlog] at hok
  rw [Plan.run, Session.run_bind_ok hok]
  refine runBody_noNewRows_iff E change F fun db' hkeep => ?_
  refine not_noNewRows_of_insert bundle.slot forceChk ?_
  rw [(Prod.mk.inj hkeep).2, ← hback]
  rfl

end

/-- The condition under which a recorded change is an applied one. -/
theorem record_noNewRows_iff (E : Env) (bundle : InstructionBundle) (name : String)
    (change : Change) (F : Faults) (db : Database) :
    (∀ e w', ((Plan.record change).run E bundle name).run F (World.init db) = (.error e, w') →
      NoNewRows change.event.id.bytes change.event.seq db w'.db) ↔
    RecordsOnlyApplied bundle.txnId change F db := by
  by_cases hpath : ∃ t, t < change.event.path.length ∧ F t ≠ none
  · obtain ⟨e, w', herr, hkeep⟩ :=
      insertChangeLog_path_fault change.event bundle.slot bundle.txnId name F db hpath
    rw [Plan.run, Session.forall_error_bind_iff herr]
    exact iff_of_true (NoNewRows.of_gapTables_eq hkeep) (Or.inl hpath)
  have hnone : ∀ t, t < change.event.path.length → F t = none := by
    intro t ht
    by_contra hF
    exact hpath ⟨t, ht, hF⟩
  cases hdec : Base58.decode bundle.txnId with
  | none =>
    obtain ⟨e, w', herr, hkeep⟩ :=
      insertChangeLog_undecodable change.event bundle.slot bundle.txnId name F db hnone hdec
    rw [Plan.run, Session.forall_error_bind_iff herr]
    exact iff_of_true (NoNewRows.of_gapTables_eq hkeep) (Or.inr (Or.inl hdec))
  | some tx =>
    obtain ⟨w, hlog, htick, hback, haudit⟩ :=
      insertChangeLog_run change.event bundle.slot bundle.txnId name F db hnone hdec
    have hdec' : ¬ Base58.decode bundle.txnId = none := by simp [hdec]
    simp only [RecordsOnlyApplied, hpath, hdec', false_or]
    by_cases hrec : F w.tick ≠ none ∨ F (w.tick + 1) ≠ none
    · rw [failedBackfill_noNewRows_iff E hlog hback haudit hrec]
      rw [htick] at hrec
      constructor
      · intro h
        exact Or.inl ⟨h, hrec⟩
      · intro h
        rcases h with ⟨h, _⟩ | ⟨hq, hi, _⟩
        · exact h
        · exact absurd hrec (by simp [hq, hi])
    · rw [not_or, not_not, not_not] at hrec
      rw [writtenBackfill_noNewRows_iff E hlog hback hrec.1 hrec.2]
      rw [htick] at hrec ⊢
      constructor
      · intro h
        exact Or.inr ⟨hrec.1, hrec.2, h⟩
      · intro h
        rcases h with ⟨_, h⟩ | ⟨_, _, h⟩
        · exact absurd h (by simp [hrec.1, hrec.2])
        · exact h

/-- **A failed handler leaves no new row of its change exactly when nothing is recorded that is not
applied.** -/
theorem keepsGapVisible_iff (E : Env) (ix : BubblegumInstruction) (bundle : InstructionBundle)
    (cl : ChangeLogEventV1) (F : Faults) (db : Database) (h : ix.treeUpdate = some cl) :
    KeepsGapVisible E ix bundle cl F db ↔
      ∀ change, plan E ix bundle = .record change →
        RecordsOnlyApplied bundle.txnId change F db := by
  unfold KeepsGapVisible
  rw [handleBubblegumInstruction_eq]
  cases hplan : plan E ix bundle with
  | ignore =>
    refine ⟨fun _ change hc => Plan.noConfusion hc, fun _ e w' herr => ?_⟩
    exact absurd (Prod.mk.inj herr).1 (by simp)
  | refuse =>
    refine ⟨fun _ change hc => Plan.noConfusion hc, fun _ e w' herr => ?_⟩
    obtain ⟨_, rfl⟩ := Prod.mk.inj herr
    exact NoNewRows.of_gapTables_eq rfl
  | record change =>
    have hevent : some cl = some change.event := h ▸ (plan_ofInstruction hplan).event
    obtain rfl := Option.some.inj hevent
    rw [record_noNewRows_iff]
    refine ⟨fun hr change' hc => ?_, fun hr => hr change rfl⟩
    obtain rfl := Plan.record.inj hc
    exact hr

/-- A change of leaf 0 of a one-leaf tree. -/
def sampleEvent : ChangeLogEventV1 :=
  { id := Pubkey.fill 1, path := [⟨Pubkey.fill 2, 1⟩], seq := 1, index := 0 }

/-- A bundle with the all-zero signature. -/
def sampleBundle : InstructionBundle :=
  { txnId := "1111111111111111111111111111111111111111111111111111111111111111", slot := 7 }

/-- A `CancelRedeem` whose leaf event has schema version 1. -/
def cancelRedeemV1 : BubblegumInstruction :=
  { instruction := .cancelRedeem
    treeUpdate := some sampleEvent
    leafUpdate := some ⟨.v1, .v1 (Pubkey.fill 3) (Pubkey.fill 4) (Pubkey.fill 4) 0 (Pubkey.fill 5)
      (Pubkey.fill 6), Pubkey.fill 2⟩ }

/-- The same instruction with a leaf event of schema version 2. -/
def cancelRedeemV2 : BubblegumInstruction :=
  { cancelRedeemV1 with
    leafUpdate := some ⟨.v2, .v2 (Pubkey.fill 3) (Pubkey.fill 4) (Pubkey.fill 4) 0 (Pubkey.fill 5)
      (Pubkey.fill 6) (Pubkey.fill 7) (Pubkey.fill 8) 0, Pubkey.fill 2⟩ }

theorem cancelRedeem_v1_keepsGapVisible :
    cancelRedeemV1.treeUpdate = some sampleEvent ∧
    KeepsGapVisible Env.sample cancelRedeemV1 sampleBundle sampleEvent noFaults Database.empty := by
  refine ⟨rfl, (keepsGapVisible_iff Env.sample cancelRedeemV1 sampleBundle sampleEvent noFaults Database.empty
    rfl).mpr fun change hc => ?_⟩
  obtain rfl := Plan.record.inj hc
  exact Or.inr (Or.inr (Or.inr ⟨rfl, rfl, _, rfl, fun _ _ _ => rfl⟩))

/-- No statement fails, the handler returns an error, and both rows of the change are new. -/
theorem cancelRedeem_v2_hides_gap :
    ¬ KeepsGapVisible Env.sample cancelRedeemV2 sampleBundle sampleEvent noFaults Database.empty := by
  intro h
  have hnew := (h _ _ rfl).1 0 rfl
  exact absurd hnew (by decide)

end DasIndexer.Bubblegum
