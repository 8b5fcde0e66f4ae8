import DasIndexer.Bubblegum.Convergence
import Mathlib.Logic.Relation

/-!
# Bubblegum handlers side by side

The ingester runs many handlers at a time, a handler stops at a statement that fails, and a process can end
with handlers under way.  Here a handler is a `Task`: the statements that it has still to send, one transaction
counting as one because it takes effect when it commits.  The statements of different tasks come in any order,
and a task may be dropped after any of them.

**`handle_advances`**: whatever fails, a handler that runs alone is its task, stopped somewhere.
**`concurrent_converges`**: when every instruction of a delivery has had one task that ran to its end with no
failed statement, the rows are those of handling each instruction once, whatever other tasks have run next to
these, were repeated, or were dropped half way.
-/

namespace DasIndexer.Bubblegum

open Sql LastWriter ProgramTransformerError

/-! ### Tasks -/

/-- What a handler has the database do: a statement on the connection itself, or a transaction as a whole. -/
inductive Action where
  /-- the node of a path at a level -/
  | node (event : ChangeLogEventV1) (level : ℕ) (p : PathNode)
  | audit (event : ChangeLogEventV1) (tx : Bytes) (ix : Instruction)
  /-- the query for a backfill row of the tree -/
  | known (event : ChangeLogEventV1)
  | backfill (event : ChangeLogEventV1) (slot : ℕ)
  | commit (writes : List TableWrite)

namespace Action

/-- The effect of an action, given what the query has returned. -/
def apply (E : Env) (known : Bool) : Action → Database → Database
  | .node event level p =>
    Database.upsertClItem (event.id.bytes, (p.index : ℤ)) (clItem event (event.path.length - 1) level p)
  | .audit event tx ix => clAudit event tx ix
  | .known _ => id
  | .backfill event slot =>
    Database.insertBackfillItem (backfillItem event slot (!known && decide (1 < event.seq)))
  | .commit writes => fun db => writes.foldl (fun db w => w.apply E db) db

/-- What the handler knows after an action. -/
def learn (known : Bool) (db : Database) : Action → Bool
  | .known event => db.backfillItems.any fun r => r.tree == event.id.bytes
  | _ => known

/-- The handler goes on when this statement fails. -/
def tolerated : Action → Bool
  | .audit .. => true
  | _ => false

/-- The cell writes of an action. -/
def cells : Action → List (Write Cell.Value)
  | .node event _ p => [⟨.clItem (event.id.bytes, (p.index : ℤ)), ((event.seq : ℤ), nodeRow event p.index p)⟩]
  | .audit event tx ix =>
    [⟨.clAudit (event.id.bytes, (event.index : ℤ), (event.seq : ℤ)), (0, { tx, instruction := ix })⟩]
  | .known _ | .backfill .. => []
  | .commit writes => writes.flatMap TableWrite.cells

end Action

/-- The nodes of a path, from a level up. -/
def nodes (event : ChangeLogEventV1) : ℕ → List PathNode → List Action
  | _, [] => []
  | level, p :: ps => .node event level p :: nodes event (level + 1) ps

/-- What a handler sends after the change log. -/
def bodyActions (change : Change) : List Action :=
  match change.body with
  | .ok writes => [.commit writes]
  | .error _ => []

/-- What a handler sends after the path. -/
def afterPath (change : Change) (i : Ingest) : List Action :=
  match Base58.decode i.bundle.txnId with
  | none => []
  | some tx =>
    .audit change.event tx (Instruction.fromStr (ixStr i.ix.instruction)) :: .known change.event ::
      .backfill change.event i.bundle.slot :: bodyActions change

/-- What the handler of an instruction sends. -/
def actionsOf (E : Env) (i : Ingest) : List Action :=
  match plan E i.ix i.bundle with
  | .record change => nodes change.event 0 change.event.path ++ afterPath change i
  | _ => []

theorem actionsOf_eq {E : Env} {i : Ingest} {change : Change} (h : plan E i.ix i.bundle = .record change) :
    actionsOf E i = nodes change.event 0 change.event.path ++ afterPath change i := by
  rw [actionsOf, h]

/-- A handler under way: what it has still to send, what its query has returned, and whether all its statements
have succeeded. -/
structure Task where
  ingest : Ingest
  todo : List Action
  known : Bool := false
  clean : Bool := true

/-- A handler that begins. -/
def Task.start (E : Env) (i : Ingest) : Task := { ingest := i, todo := actionsOf E i }

/-- One statement of a task. -/
inductive Advance (E : Env) : Database × Task → Database × Task → Prop
  | act (db : Database) (i : Ingest) (a : Action) (rest : List Action) (known clean : Bool) :
    Advance E (db, ⟨i, a :: rest, known, clean⟩) (a.apply E known db, ⟨i, rest, a.learn known db, clean⟩)
  /-- the audit row cannot be written, and this is only logged -/
  | tolerate (db : Database) (i : Ingest) (a : Action) (rest : List Action) (known clean : Bool) :
    a.tolerated = true → Advance E (db, ⟨i, a :: rest, known, clean⟩) (db, ⟨i, rest, known, false⟩)

/-- Some statements of a task. -/
abbrev Advances (E : Env) := Relation.ReflTransGen (Advance E)

/-- The database with the tasks under way, and the instructions with a task that has run to its end and had no
statement fail. -/
structure Running where
  db : Database := Database.empty
  tasks : List Task := []
  applied : List Ingest := []

/-- One step of an ingester that handles instructions of `is`. -/
inductive Step (E : Env) (is : List Ingest) : Running → Running → Prop
  | start (s : Running) (i : Ingest) : i ∈ is → Step E is s { s with tasks := Task.start E i :: s.tasks }
  | advance (s : Running) (before after : List Task) (t t' : Task) (db : Database) :
    s.tasks = before ++ t :: after → Advance E (s.db, t) (db, t') →
    Step E is s { s with db, tasks := before ++ t' :: after }
  /-- a statement fails, or the process ends -/
  | drop (s : Running) (before after : List Task) (t : Task) : s.tasks = before ++ t :: after →
    Step E is s { s with tasks := before ++ after }
  | finish (s : Running) (before after : List Task) (t : Task) : s.tasks = before ++ t :: after →
    t.todo = [] →
    Step E is s { s with
      tasks := before ++ after
      applied := if t.clean then t.ingest :: s.applied else s.applied }

/-- The states that an ingester reaches from empty tables. -/
def Reachable (E : Env) (is : List Ingest) (s : Running) : Prop := Relation.ReflTransGen (Step E is) {} s

/-! ### A handler that runs alone -/

section

variable {E : Env} {i : Ingest} {F : Faults}

theorem Advance.advances {x y z : Database × Task} (h : Advance E x y) (hrest : Advances E y z) :
    Advances E x z := Relation.ReflTransGen.head h hrest

/-- The loop over the path stops at the first node that fails. -/
theorem insertPath_advances (event : ChangeLogEventV1) (rest : List Action) (known clean : Bool)
    (ps : List PathNode) (level : ℕ) (w : World Database) :
    ∃ todo, Advances E (w.db, ⟨i, nodes event level ps ++ rest, known, clean⟩)
        (((insertPath event (event.path.length - 1) level ps).run F w).2.db, ⟨i, todo, known, clean⟩) ∧
      ∀ w', (insertPath event (event.path.length - 1) level ps).run F w = (.ok (), w') → todo = rest := by
  induction ps generalizing level w with
  | nil => exact ⟨rest, .refl, fun _ _ => rfl⟩
  | cons p ps ih =>
    have hrun := Session.run_write_bind storageWriteError (Database.upsertClItem (event.id.bytes, (p.index : ℤ))
      (clItem event (event.path.length - 1) level p))
      (fun _ => insertPath event (event.path.length - 1) (level + 1) ps) F w
    cases hF : F w.tick with
    | some e =>
      rw [hF] at hrun
      refine ⟨nodes event level (p :: ps) ++ rest, ?_, fun w' hok => ?_⟩
      · show Advances E _ ((Session.run (_ >>= _) F w).2.db, _)
        rw [hrun]
        exact .refl
      · cases (Prod.mk.inj (hrun.symm.trans hok)).1
    | none =>
      rw [hF] at hrun
      obtain ⟨todo, hsteps, htodo⟩ := ih (level + 1) { w.next with
        db := Database.upsertClItem (event.id.bytes, (p.index : ℤ))
          (clItem event (event.path.length - 1) level p) w.db }
      refine ⟨todo, ?_, fun w' hok => htodo w' (hrun.symm.trans hok)⟩
      refine (Advance.act w.db i (.node event level p) (nodes event (level + 1) ps ++ rest) known clean).advances ?_
      show Advances E _ ((Session.run (_ >>= _) F w).2.db, _)
      rw [hrun]
      exact hsteps

/-- The statements of a transaction, none failing. -/
theorem stepAll_db (ws : List TableWrite) {w w' : World Database}
    (h : (TableWrite.stepAll E ws).run F w = (.ok (), w')) :
    w'.db = ws.foldl (fun db w => w.apply E db) w.db := by
  induction ws generalizing w with
  | nil => exact (Prod.mk.inj h).2 ▸ rfl
  | cons a ws ih =>
    have hrun := Session.run_write_bind a.wrap (a.apply E) (fun _ => TableWrite.stepAll E ws) F w
    cases hF : F w.tick with
    | some e =>
      rw [hF] at hrun
      cases (Prod.mk.inj (hrun.symm.trans h)).1
    | none =>
      rw [hF] at hrun
      exact ih (hrun.symm.trans h)

/-- A transaction is made as a whole or not at all. -/
theorem transaction_db (ws : List TableWrite) (w : World Database) :
    (∃ w', (Session.transaction storageWriteError (TableWrite.stepAll E ws)).run F w = (.ok (), w') ∧
      w'.db = ws.foldl (fun db w => w.apply E db) w.db) ∨
    ∃ e w', (Session.transaction storageWriteError (TableWrite.stepAll E ws)).run F w = (.error e, w') ∧
      w'.db = w.db := by
  have houter := (TableWrite.stepAll_counted E ws).outer F ⟨w.db, w.db :: w.outer, w.tick + 1⟩
  simp only [Session.transaction]
  cases F w.tick with
  | some e => exact Or.inr ⟨_, _, rfl, rfl⟩
  | none =>
    rcases hbody : (TableWrite.stepAll E ws).run F ⟨w.db, w.db :: w.outer, w.tick + 1⟩ with ⟨e | a, w'⟩
    · rw [hbody] at houter
      have houter' : w'.outer = w.db :: w.outer := houter
      exact Or.inr ⟨e, _, rfl, by rw [Session.rollback, houter']⟩
    · rw [hbody] at houter
      have houter' : w'.next.outer = w.db :: w.outer := houter
      simp only
      cases F w'.tick with
      | some e => exact Or.inr ⟨_, _, rfl, by rw [Session.rollback, houter']⟩
      | none =>
        have hdb := stepAll_db ws hbody
        exact Or.inl ⟨_, rfl, hdb⟩

/-- The query and the insert of the backfill row. -/
theorem recordBackfill_advances (event : ChangeLogEventV1) (slot : ℕ) (rest : List Action) (known clean : Bool)
    (w : World Database) :
    ∃ t, Advances E (w.db, ⟨i, .known event :: .backfill event slot :: rest, known, clean⟩)
        (((recordBackfill event slot).run F w).2.db, t) ∧
      (∀ w', (recordBackfill event slot).run F w = (.ok (), w') → t.todo = rest) ∧
      t.ingest = i ∧ t.clean = clean := by
  cases hq : F w.tick with
  | some e =>
    obtain ⟨e', w', hrun, hdb⟩ := recordBackfill_fault event slot F w (Or.inl (by simp [hq]))
    rw [hrun, hdb]
    exact ⟨_, .refl, fun _ hok => (by cases (Prod.mk.inj hok).1), rfl, rfl⟩
  | none =>
    have hquery : Advance E (w.db, ⟨i, .known event :: .backfill event slot :: rest, known, clean⟩)
        (w.db, ⟨i, .backfill event slot :: rest, _, clean⟩) := .act ..
    cases hi : F (w.tick + 1) with
    | some e =>
      obtain ⟨e', w', hrun, hdb⟩ := recordBackfill_fault event slot F w (Or.inr (by simp [hi]))
      rw [hrun, hdb]
      exact ⟨_, hquery.advances .refl, fun _ hok => (by cases (Prod.mk.inj hok).1), rfl, rfl⟩
    | none =>
      have hrun : (recordBackfill event slot).run F w = (.ok (), { w.next.next with
          db := Database.insertBackfillItem (backfillItem event slot
            (!(w.db.backfillItems.any fun r => r.tree == event.id.bytes) && decide (1 < event.seq))) w.db }) := by
        have hselect : (Session.select storageWriteError fun db : Database =>
            db.backfillItems.any fun r => r.tree == event.id.bytes).run F w
            = (.ok (w.db.backfillItems.any fun r => r.tree == event.id.bytes), w.next) := by
          simp only [Session.select, Session.execute, hq]
          rfl
        rw [recordBackfill, Session.run_bind_ok hselect]
        simp only [Session.write, Session.execute, World.next_tick, hi]
        rfl
      rw [hrun]
      exact ⟨_, hquery.advances ((Advance.act ..).advances .refl), fun _ _ => rfl, rfl, rfl⟩

/-- What `insert_change_log` does after the path. -/
def recordLog (event : ChangeLogEventV1) (slot : ℕ) (tx : Bytes) (ix : Instruction) : Handler Unit := do
  Session.tolerate (Session.write storageWriteError (clAudit event tx ix))
  recordBackfill event slot

theorem recordLog_advances (event : ChangeLogEventV1) (slot : ℕ) (tx : Bytes) (ix : Instruction)
    (rest : List Action) (w : World Database) :
    ∃ t, Advances E (w.db, ⟨i, .audit event tx ix :: .known event :: .backfill event slot :: rest, false, true⟩)
        (((recordLog event slot tx ix).run F w).2.db, t) ∧
      (∀ w', (recordLog event slot tx ix).run F w = (.ok (), w') → t.todo = rest) ∧
      t.ingest = i ∧ (t.clean = false → ∃ n, F n ≠ none) := by
  cases hF : F w.tick with
  | some e =>
    have hrun : (recordLog event slot tx ix).run F w = (recordBackfill event slot).run F w.next := by
      refine Session.run_bind_ok (a := ()) ?_ _
      simp only [Session.tolerate, Session.write, Session.execute, hF]
    obtain ⟨t, hsteps, htodo, hi, _⟩ := recordBackfill_advances event slot rest false false w.next
    rw [hrun]
    refine ⟨t, (Advance.tolerate _ _ _ _ _ _ rfl).advances hsteps, htodo, hi, fun _ => ⟨w.tick, ?_⟩⟩
    rw [hF]
    exact Option.some_ne_none e
  | none =>
    have hrun : (recordLog event slot tx ix).run F w
        = (recordBackfill event slot).run F { w.next with db := clAudit event tx ix w.db } := by
      refine Session.run_bind_ok (a := ()) ?_ _
      simp only [Session.tolerate, Session.write, Session.execute, hF]
    obtain ⟨t, hsteps, htodo, hi, hclean⟩ :=
      recordBackfill_advances event slot rest false true { w.next with db := clAudit event tx ix w.db }
    rw [hrun]
    refine ⟨t, (Advance.act ..).advances hsteps, htodo, hi, fun hfalse => ?_⟩
    cases hclean.symm.trans hfalse

/-- What follows the change log: the transaction, and a notification that touches no table. -/
theorem runBody_advances (change : Change) (known clean : Bool) (w : World Database) :
    ∃ t, Advances E (w.db, ⟨i, bodyActions change, known, clean⟩) (((Plan.runBody E change).run F w).2.db, t) ∧
      (∀ w', (Plan.runBody E change).run F w = (.ok (), w') → t.todo = []) ∧ t.ingest = i ∧ t.clean = clean := by
  unfold bodyActions
  cases hbody : change.body with
  | error e =>
    have hrun : Plan.runBody E change = Session.throw e := by rw [Plan.runBody, hbody]
    rw [hrun]
    exact ⟨_, .refl, fun _ _ => rfl, rfl, rfl⟩
  | ok writes =>
    have hnotify : ∀ w : World Database, ((notifyDownload change.download).run F w).2.db = w.db := by
      intro w
      cases change.download with
      | none => rfl
      | some info =>
        simp only [notifyDownload, Session.fallible, Session.execute]
        cases F w.tick <;> rfl
    have heq : Plan.runBody E change = (do
        Session.transaction storageWriteError (TableWrite.stepAll E writes)
        notifyDownload change.download) := by rw [Plan.runBody, hbody]
    rw [heq]
    rcases transaction_db writes w with ⟨w', hrun, hdb⟩ | ⟨e, w', hrun, hdb⟩
    · rw [Session.run_bind_ok hrun, hnotify w', hdb]
      exact ⟨_, (Advance.act ..).advances .refl, fun _ _ => rfl, rfl, rfl⟩
    · rw [Session.run_bind_error hrun, hdb]
      exact ⟨_, .refl, fun _ hok => (by cases (Prod.mk.inj hok).1), rfl, rfl⟩

/-- **A handler that runs alone is its task.**  Whichever of its statements fail, it leaves the database as its
task does, stopped somewhere; it has sent all its statements when it succeeds, and none has failed when none
could. -/
theorem handle_advances (E : Env) (i : Ingest) (F : Faults) (db : Database) :
    ∃ t, Advances E (db, Task.start E i) (((i.handle E).run F (World.init db)).2.db, t) ∧ t.ingest = i ∧
      (((i.handle E).run F (World.init db)).1 = .ok () → t.todo = []) ∧ (t.clean = false → ∃ n, F n ≠ none) := by
  unfold Ingest.handle Task.start
  rw [handleBubblegumInstruction_eq]
  cases hplan : plan E i.ix i.bundle with
  | ignore =>
    rw [actionsOf, hplan]
    exact ⟨_, .refl, rfl, fun _ => rfl, fun h => (by cases h)⟩
  | refuse =>
    rw [actionsOf, hplan]
    exact ⟨_, .refl, rfl, fun _ => rfl, fun h => (by cases h)⟩
  | record change =>
    rw [actionsOf_eq hplan]
    obtain ⟨todo, hpath, htodo⟩ := insertPath_advances (E := E) (i := i) (F := F) change.event
      (afterPath change i) false true change.event.path 0 (World.init db)
    rcases hrun : (insertPath change.event (change.event.path.length - 1) 0 change.event.path).run F
      (World.init db) with ⟨e | _, w₁⟩
    · rw [hrun] at hpath
      have hlog : (insertChangeLog change.event i.bundle.slot i.bundle.txnId (ixStr i.ix.instruction)).run F
          (World.init db) = (.error e, w₁) := Session.run_bind_error hrun _
      rw [Plan.run, Session.run_bind_error hlog]
      exact ⟨_, hpath, rfl, fun h => (by cases h), fun h => (by cases h)⟩
    obtain rfl := htodo w₁ hrun
    rw [hrun] at hpath
    cases hdec : Base58.decode i.bundle.txnId with
    | none =>
      have hlog : (insertChangeLog change.event i.bundle.slot i.bundle.txnId (ixStr i.ix.instruction)).run F
          (World.init db) = (.error changeLogEventMalformed, w₁) := by
        rw [insertChangeLog, Session.run_bind_ok hrun, hdec]
        rfl
      rw [Plan.run, Session.run_bind_error hlog]
      exact ⟨_, hpath, rfl, fun h => (by cases h), fun h => (by cases h)⟩
    | some tx =>
      have hlog : (insertChangeLog change.event i.bundle.slot i.bundle.txnId (ixStr i.ix.instruction)).run F
          (World.init db) = (recordLog change.event i.bundle.slot tx
            (Instruction.fromStr (ixStr i.ix.instruction))).run F w₁ := by
        rw [insertChangeLog, Session.run_bind_ok hrun, hdec]
        rfl
      obtain ⟨t, hrecord, htodo, rfl, hclean⟩ := recordLog_advances (E := E) (i := i) (F := F) change.event
        i.bundle.slot tx (Instruction.fromStr (ixStr i.ix.instruction)) (bodyActions change) w₁
      have hthere : afterPath change t.ingest = .audit change.event tx
          (Instruction.fromStr (ixStr t.ingest.ix.instruction)) :: .known change.event ::
            .backfill change.event t.ingest.bundle.slot :: bodyActions change := by
        rw [afterPath, hdec]
      rw [hthere] at hpath
      rw [hthere]
      rw [← hlog] at hrecord htodo
      rcases hrun' : (insertChangeLog change.event t.ingest.bundle.slot t.ingest.bundle.txnId
        (ixStr t.ingest.ix.instruction)).run F (World.init db) with ⟨e | _, w₂⟩
      · rw [hrun'] at hrecord
        rw [Plan.run, Session.run_bind_error hrun']
        exact ⟨t, hpath.trans hrecord, rfl, fun h => (by cases h), hclean⟩
      · rw [hrun'] at hrecord
        obtain ⟨t', hbody, hdone, hi, hsame⟩ := runBody_advances (E := E) (i := t.ingest) (F := F)
          change t.known t.clean w₂
        rw [← htodo w₂ hrun'] at hbody
        rw [Plan.run, Session.run_bind_ok hrun']
        refine ⟨t', (hpath.trans hrecord).trans hbody, hi, fun hok => ?_, fun hfalse => hclean (hsame ▸ hfalse)⟩
        exact hdone _ (Prod.ext hok rfl)

end

/-! ### The cell writes of a task -/

theorem nodes_cells (event : ChangeLogEventV1) (level : ℕ) (ps : List PathNode) :
    (nodes event level ps).flatMap Action.cells = pathCells event ps := by
  induction ps generalizing level with
  | nil => rfl
  | cons p ps ih => exact congrArg (_ :: ·) (ih (level + 1))

/-- The actions of a handler that succeeds make the cell writes of its instruction. -/
theorem actionsOf_cells {E : Env} {i : Ingest} (h : Succeeds E i) :
    (actionsOf E i).flatMap Action.cells = ingestCells E i := by
  have hgood := good_of_succeeds h
  unfold actionsOf ingestCells
  cases hplan : plan E i.ix i.bundle with
  | ignore => rfl
  | refuse => rfl
  | record change =>
    rw [hplan] at hgood
    obtain ⟨⟨tx, hdec⟩, ws, hbody⟩ := hgood
    simp only [afterPath, bodyActions, hdec, hbody, List.flatMap_append, nodes_cells]
    simp [Action.cells]

/-- A node among the actions is one of the path; the nodes in front of it are those below it. -/
theorem node_split {event event' : ChangeLogEventV1} {level k : ℕ} {p : PathNode} {ps : List PathNode}
    {done rest tail : List Action} (htail : ∀ a ∈ tail, ∀ event level p, a ≠ .node event level p)
    (h : done ++ .node event' k p :: rest = nodes event level ps ++ tail) :
    ∃ pre post, ps = pre ++ p :: post ∧ event' = event ∧ k = level + pre.length ∧ done = nodes event level pre := by
  induction ps generalizing level done with
  | nil =>
    have hmem : Action.node event' k p ∈ tail := by
      have := congrArg (Action.node event' k p ∈ ·) h
      simpa [nodes] using this
    exact absurd rfl (htail _ hmem event' k p)
  | cons q ps ih =>
    cases done with
    | nil =>
      obtain ⟨hnode, -⟩ := List.cons.inj h
      obtain ⟨rfl, rfl, rfl⟩ := Action.node.inj hnode
      exact ⟨[], ps, rfl, rfl, rfl, rfl⟩
    | cons d done =>
      obtain ⟨rfl, hrest⟩ := List.cons.inj h
      obtain ⟨pre, post, rfl, rfl, rfl, rfl⟩ := ih hrest
      refine ⟨q :: pre, post, rfl, rfl, ?_, rfl⟩
      rw [List.length_cons]
      omega

theorem mem_nodes {event : ChangeLogEventV1} {level : ℕ} {ps : List PathNode} {p : PathNode} (hp : p ∈ ps) :
    ∃ k, Action.node event k p ∈ nodes event level ps := by
  induction ps generalizing level with
  | nil => exact absurd hp List.not_mem_nil
  | cons q ps ih =>
    rcases List.mem_cons.mp hp with rfl | hp
    · exact ⟨level, List.mem_cons_self⟩
    · obtain ⟨k, hk⟩ := ih hp
      exact ⟨k, List.mem_cons_of_mem _ hk⟩

theorem eq_node_of_mem {event : ChangeLogEventV1} {level : ℕ} {ps : List PathNode} {a : Action}
    (ha : a ∈ nodes event level ps) : ∃ k p, a = .node event k p := by
  induction ps generalizing level with
  | nil => exact absurd ha List.not_mem_nil
  | cons q ps ih =>
    rcases List.mem_cons.mp ha with rfl | ha
    · exact ⟨level, q, rfl⟩
    · exact ih ha

theorem not_node_of_mem_afterPath {change : Change} {i : Ingest} {a : Action} (ha : a ∈ afterPath change i)
    (event : ChangeLogEventV1) (level : ℕ) (p : PathNode) : a ≠ .node event level p := by
  rintro rfl
  unfold afterPath at ha
  cases hdec : Base58.decode i.bundle.txnId <;> cases hbody : change.body <;> simp [bodyActions, hdec, hbody] at ha

theorem body_of_commit_mem {change : Change} {i : Ingest} {writes : List TableWrite}
    (h : .commit writes ∈ nodes change.event 0 change.event.path ++ afterPath change i) :
    change.body = .ok writes := by
  rcases List.mem_append.mp h with h | h
  · obtain ⟨k, p, hnode⟩ := eq_node_of_mem h
    cases hnode
  · unfold afterPath at h
    cases hdec : Base58.decode i.bundle.txnId <;> cases hbody : change.body <;> simp [bodyActions, hdec, hbody] at h
    rw [h]

section

variable {E : Env} {ver : Bytes → Version} {S : Store Cell.Value} {db : Database}

/-- A node, those below it being of this change or later. -/
theorem Represents.node (h : Represents E ver S db) {event : ChangeLogEventV1} {pre post : List PathNode}
    {p : PathNode} (hpath : event.path = pre ++ p :: post)
    (hpre : ∀ q ∈ pre, ∃ x, S (.clItem (event.id.bytes, (q.index : ℤ))) = some x ∧ (event.seq : ℤ) ≤ x.1) :
    Represents E ver
      (put tie S ⟨.clItem (event.id.bytes, (p.index : ℤ)), ((event.seq : ℤ), nodeRow event p.index p)⟩)
      (Database.upsertClItem (event.id.bytes, (p.index : ℤ))
        (clItem event (event.path.length - 1) pre.length p) db) := by
  have hstep := h.upsertClItem event (event.path.length - 1) pre.length p
  by_cases hfirst : ∀ q ∈ pre, q.index ≠ p.index
  · rwa [nodeRow_of_first hpath hfirst]
  · -- the node has been written already, and neither row changes it
    simp only [not_forall, not_not] at hfirst
    obtain ⟨q, hq, hidx⟩ := hfirst
    obtain ⟨x, hx, hle⟩ := hpre q hq
    rw [hidx] at hx
    rw [put_of_stale tie hx _ rfl hle] at hstep ⊢
    exact hstep

/-- **An action is its cell writes**, once the actions in front of it have been made. -/
theorem Represents.action (h : Represents E ver S db) {i : Ingest}
    (hseq : ∀ cl, i.ix.treeUpdate = some cl → 1 ≤ cl.seq)
    (hver : ∀ id v, assetOf E i.ix = some id → leafVersion i.ix = some v → v = ver id)
    {done rest : List Action} {a : Action} (hactions : actionsOf E i = done ++ a :: rest) (known : Bool)
    (hdone : ∀ b ∈ done, b.tolerated = false → ∀ w ∈ b.cells, ∃ x, S w.1 = some x ∧ w.2.1 ≤ x.1) :
    Represents E ver (a.cells.foldl (put tie) S) (a.apply E known db) := by
  cases hplan : plan E i.ix i.bundle with
  | ignore => exact absurd hactions (by simp [actionsOf, hplan])
  | refuse => exact absurd hactions (by simp [actionsOf, hplan])
  | record change =>
    have hof := plan_ofInstruction hplan
    rw [actionsOf_eq hplan] at hactions
    cases a with
    | node event level p =>
      obtain ⟨pre, post, hpath, rfl, rfl, rfl⟩ :=
        node_split (fun a ha => not_node_of_mem_afterPath ha) hactions.symm
      rw [Nat.zero_add]
      refine h.node hpath fun q hq => ?_
      obtain ⟨k, hk⟩ := mem_nodes hq
      exact hdone _ hk rfl _ List.mem_cons_self
    | audit event tx ix => exact h.upsertClAudit
    | known event => exact h
    | backfill event slot => exact h.insertBackfillItem _
    | commit writes =>
      have hmem : .commit writes ∈ nodes change.event 0 change.event.path ++ afterPath change i := by
        rw [hactions]
        exact List.mem_append_right _ List.mem_cons_self
      have hbody : change.body = .ok writes := body_of_commit_mem hmem
      have hn : (change.event.seq : ℤ) ≠ 0 := by
        have := hseq _ hof.event
        omega
      exact h.writes hn (hof.fits writes hbody) fun id' l n' hmem =>
        hver _ _ hof.asset (hof.version writes hbody id' l n' hmem)

end

/-! ### Runs -/

/-- What is known of a task: the actions it has made are in the writes `W`, but for the audit row where that was
only tried. -/
structure Task.Made (E : Env) (is : List Ingest) (W : List (Write Cell.Value)) (t : Task) : Prop where
  mem : t.ingest ∈ is
  made : ∃ done, actionsOf E t.ingest = done ++ t.todo ∧
    ∀ a ∈ done, (t.clean = true ∨ a.tolerated = false) → ∀ w ∈ a.cells, w ∈ W

/-- The tables are what some writes of the delivery leave, those of the tasks and of the applied instructions
among them. -/
structure Inv (E : Env) (ver : Bytes → Version) (is : List Ingest) (W : List (Write Cell.Value)) (s : Running) :
    Prop where
  represents : Represents E ver (W.foldl (put tie) fun _ => none) s.db
  writes : ∀ w ∈ W, ∃ i ∈ is, w ∈ ingestCells E i
  tasks : ∀ t ∈ s.tasks, t.Made E is W
  applied : ∀ i ∈ s.applied, ∀ w ∈ ingestCells E i, w ∈ W

theorem Task.Made.mono {E : Env} {is : List Ingest} {W W' : List (Write Cell.Value)} {t : Task}
    (h : t.Made E is W) (hW : ∀ w ∈ W, w ∈ W') : t.Made E is W' := by
  obtain ⟨done, hactions, hmade⟩ := h.made
  exact ⟨h.mem, done, hactions, fun a ha hclean w hw => hW w (hmade a ha hclean w hw)⟩

theorem Inv.drop {E : Env} {ver : Bytes → Version} {is : List Ingest} {W : List (Write Cell.Value)} {s : Running}
    (h : Inv E ver is W s) {tasks : List Task} (htasks : ∀ t ∈ tasks, t ∈ s.tasks) :
    Inv E ver is W { s with tasks } :=
  ⟨h.represents, h.writes, fun t ht => h.tasks t (htasks t ht), h.applied⟩

section

variable {E : Env} {ver : Bytes → Version} {is : List Ingest} (hdelivery : Delivery E is)
  (hver : ∀ i ∈ is, ∀ id v, assetOf E i.ix = some id → leafVersion i.ix = some v → v = ver id)
include hdelivery hver

/-- One step adds writes of the delivery. -/
theorem Inv.step {W : List (Write Cell.Value)} {s s' : Running} (h : Inv E ver is W s) (hstep : Step E is s s') :
    ∃ W', Inv E ver is W' s' := by
  cases hstep with
  | start i hi =>
    refine ⟨W, h.represents, h.writes, fun t ht => ?_, h.applied⟩
    rcases List.mem_cons.mp ht with rfl | ht
    · exact ⟨hi, [], rfl, fun a ha => absurd ha List.not_mem_nil⟩
    · exact h.tasks t ht
  | drop before after t htasks =>
    refine ⟨W, h.drop fun t' ht' => ?_⟩
    rw [htasks]
    exact (List.mem_append.mp ht').elim (List.mem_append_left _)
      fun ht' => List.mem_append_right _ (List.mem_cons_of_mem _ ht')
  | finish before after t htasks htodo =>
    have ht : t.Made E is W := h.tasks t (htasks ▸ List.mem_append_right _ List.mem_cons_self)
    have hrest : Inv E ver is W { s with tasks := before ++ after } := h.drop fun t' ht' => by
      rw [htasks]
      exact (List.mem_append.mp ht').elim (List.mem_append_left _)
        fun ht' => List.mem_append_right _ (List.mem_cons_of_mem _ ht')
    refine ⟨W, hrest.represents, hrest.writes, hrest.tasks, fun i hi w hw => ?_⟩
    split at hi
    · rename_i hclean
      rcases List.mem_cons.mp hi with rfl | hi
      · obtain ⟨done, hactions, hmade⟩ := ht.made
        rw [htodo, List.append_nil] at hactions
        rw [← actionsOf_cells (hdelivery.succeeds _ ht.mem), hactions] at hw
        obtain ⟨a, ha, hw⟩ := List.mem_flatMap.mp hw
        exact hmade a ha (Or.inl hclean) w hw
      · exact h.applied i hi w hw
    · exact h.applied i hi w hw
  | advance before after t t' db htasks hadvance =>
    have ht : t.Made E is W := h.tasks t (htasks ▸ List.mem_append_right _ List.mem_cons_self)
    have hothers : ∀ u ∈ before ++ after, u.Made E is W := by
      intro u hu
      refine h.tasks u ?_
      rw [htasks]
      exact (List.mem_append.mp hu).elim (List.mem_append_left _)
        fun hu => List.mem_append_right _ (List.mem_cons_of_mem _ hu)
    have hcases : ∀ {u}, u ∈ before ++ t' :: after → u = t' ∨ u ∈ before ++ after := by
      intro u hu
      rcases List.mem_append.mp hu with hu | hu
      · exact Or.inr (List.mem_append_left _ hu)
      · exact (List.mem_cons.mp hu).imp_right (List.mem_append_right _)
    obtain ⟨hmem, done, hactions, hmade⟩ := ht
    cases hadvance with
    | act db i a rest known clean =>
      have hnew : ∀ w ∈ a.cells, w ∈ ingestCells E i := by
        intro w hw
        rw [← actionsOf_cells (hdelivery.succeeds i hmem), hactions]
        exact List.mem_flatMap.mpr ⟨a, List.mem_append_right _ List.mem_cons_self, hw⟩
      refine ⟨W ++ a.cells, ?_, fun w hw => ?_, fun u hu => ?_, fun j hj w hw => ?_⟩
      · rw [List.foldl_append]
        refine h.represents.action (hdelivery.seq_pos i hmem) (hver i hmem) hactions known fun b hb htol w hw => ?_
        exact le_foldl_put tie (hmade b hb (Or.inr htol) w hw) _
      · exact (List.mem_append.mp hw).elim (h.writes w) fun hw => ⟨i, hmem, hnew w hw⟩
      · rcases hcases hu with rfl | hu
        · refine ⟨hmem, done ++ [a], by simp [hactions], fun b hb hclean w hw => ?_⟩
          rcases List.mem_append.mp hb with hb | hb
          · exact List.mem_append_left _ (hmade b hb hclean w hw)
          · obtain rfl := List.mem_singleton.mp hb
            exact List.mem_append_right _ hw
        · exact (hothers u hu).mono fun w hw => List.mem_append_left _ hw
      · exact List.mem_append_left _ (h.applied j hj w hw)
    | tolerate db i a rest known clean htol =>
      refine ⟨W, h.represents, h.writes, fun u hu => ?_, h.applied⟩
      rcases hcases hu with rfl | hu
      · refine ⟨hmem, done ++ [a], by simp [hactions], fun b hb hclean w hw => ?_⟩
        have hkept : b.tolerated = false := hclean.resolve_left Bool.false_ne_true
        rcases List.mem_append.mp hb with hb | hb
        · exact hmade b hb (Or.inr hkept) w hw
        · obtain rfl := List.mem_singleton.mp hb
          exact absurd (htol.symm.trans hkept) (by decide)
      · exact hothers u hu

/-- A run keeps the tables in step with the writes that have been made. -/
theorem Reachable.inv {s : Running} (h : Reachable E is s) : ∃ W, Inv E ver is W s := by
  induction h with
  | refl =>
    exact ⟨[], Represents.empty E ver, fun w hw => absurd hw List.not_mem_nil,
      fun t ht => absurd ht List.not_mem_nil, fun i hi => absurd hi List.not_mem_nil⟩
  | tail _ hstep ih =>
    obtain ⟨W, hinv⟩ := ih
    exact hinv.step hdelivery hver hstep

end

theorem SameRows.symm {db db' : Database} (h : SameRows db db') : SameRows db' db where
  clItems k := (h.clItems k).symm
  clAuditsV2 k := (h.clAuditsV2 k).symm
  assetData id := (h.assetData id).symm
  assetCreators k := (h.assetCreators k).symm
  assetGrouping k := (h.assetGrouping k).symm
  assetAuthority id := (h.assetAuthority id).symm
  asset id := (h.asset id).symm

theorem SameRows.trans {db db' db'' : Database} (h : SameRows db db') (h' : SameRows db' db'') :
    SameRows db db'' where
  clItems k := (h.clItems k).trans (h'.clItems k)
  clAuditsV2 k := (h.clAuditsV2 k).trans (h'.clAuditsV2 k)
  assetData id := (h.assetData id).trans (h'.assetData id)
  assetCreators k := (h.assetCreators k).trans (h'.assetCreators k)
  assetGrouping k := (h.assetGrouping k).trans (h'.assetGrouping k)
  assetAuthority id := (h.assetAuthority id).trans (h'.assetAuthority id)
  asset id := (h.asset id).trans (h'.asset id)

/-- Where the writes are those of the delivery, the rows are those of handling it one instruction after the
other. -/
theorem Inv.sameRows {E : Env} {ver : Bytes → Version} {is : List Ingest} {W : List (Write Cell.Value)}
    {s : Running} (hinv : Inv E ver is W s) (h : Delivery E is) (hstamp : OneChangePerStamp E is)
    (hver : ∀ i ∈ is, ∀ id v, assetOf E i.ix = some id → leafVersion i.ix = some v → v = ver id)
    (happlied : ∀ i ∈ is, i ∈ s.applied) : SameRows s.db (tablesAfter E is) := by
  have hsequential := ingestAll_represents h.succeeds h.seq_pos hver
  rw [run_eq_foldl] at hsequential
  have hmem : ∀ w, w ∈ is.flatMap (ingestCells E) ↔ w ∈ W := by
    intro w
    rw [List.mem_flatMap]
    constructor
    · rintro ⟨i, hi, hw⟩
      exact hinv.applied i (happlied i hi) w hw
    · exact hinv.writes w
  rw [foldl_put_congr tie hmem (h.consistent hstamp)] at hsequential
  exact hinv.represents.sameRows hsequential

/-- **Concurrent ingestion converges.**  Where every instruction of a delivery has had a task that ran to its end
and had no statement fail, the rows are those of handling the delivery one instruction after the other without
failures: whatever the order of the statements of different tasks, however often an instruction was begun, and
whichever of its tasks were dropped half way. -/
theorem concurrent_converges {E : Env} {is : List Ingest} (h : Delivery E is) (hstamp : OneChangePerStamp E is)
    {s : Running} (hreach : Reachable E is s) (happlied : ∀ i ∈ is, i ∈ s.applied) :
    SameRows s.db (tablesAfter E is) := by
  obtain ⟨ver, hver⟩ := h.exists_version
  obtain ⟨W, hinv⟩ := hreach.inv h hver
  exact hinv.sameRows h hstamp hver happlied

/-! ### A run with a task that is dropped -/

/-- The tables after some statements of one task that all succeed. -/
def runActions (E : Env) : Bool → Database → List Action → Database
  | _, db, [] => db
  | known, db, a :: rest => runActions E (a.learn known db) (a.apply E known db) rest

/-- A task can be run to its end, whatever else is under way. -/
theorem Running.completes {E : Env} {is : List Ingest} {s : Running} {t : Task} {tasks : List Task}
    (htasks : s.tasks = t :: tasks) (hclean : t.clean = true) :
    ∃ s', Relation.ReflTransGen (Step E is) s s' ∧ s'.tasks = tasks ∧ s'.applied = t.ingest :: s.applied ∧
      s'.db = runActions E t.known s.db t.todo := by
  obtain ⟨i, todo, known, clean⟩ := t
  induction todo generalizing s known with
  | nil =>
    refine ⟨_, .single (.finish s [] tasks _ htasks rfl), rfl, ?_, rfl⟩
    exact if_pos hclean
  | cons a todo ih =>
    have hstep : Step E is s _ := .advance s [] tasks _ _ _ htasks (.act s.db i a todo known clean)
    obtain ⟨s', hrun, htasks', happlied, hdb⟩ := ih (s := { s with
      db := a.apply E known s.db, tasks := ⟨i, todo, a.learn known s.db, clean⟩ :: tasks }) _ rfl hclean
    exact ⟨s', hrun.head hstep, htasks', happlied, hdb⟩

/-- An instruction can be handled at any time. -/
theorem Running.handles {E : Env} {is : List Ingest} (s : Running) {i : Ingest} (hi : i ∈ is) :
    ∃ s', Relation.ReflTransGen (Step E is) s s' ∧ s'.tasks = s.tasks ∧ s'.applied = i :: s.applied ∧
      s'.db = runActions E false s.db (actionsOf E i) := by
  have hbegun : ({ s with tasks := Task.start E i :: s.tasks } : Running).tasks = Task.start E i :: s.tasks := rfl
  obtain ⟨s', hrun, htasks, happlied, hdb⟩ := Running.completes (E := E) hbegun rfl
  exact ⟨s', hrun.head (.start s i hi), htasks, happlied, hdb⟩

theorem oneChangePerStamp_of_transfers :
    OneChangePerStamp Env.sample [sampleTransfer 1 1 10, sampleTransfer 1 2 11] := by
  intro i hi j hj id cl cl' _ _ hcl hcl' hseq
  simp only [List.mem_cons, List.not_mem_nil, or_false] at hi hj
  rcases hi with rfl | rfl <;> rcases hj with rfl | rfl
  · rfl
  · cases hcl
    cases hcl'
    simp at hseq
  · cases hcl
    cases hcl'
    simp at hseq
  · rfl

theorem delivery_of_two_transfers : Delivery Env.sample [sampleTransfer 1 1 10, sampleTransfer 1 2 11] := by
  refine delivery_of_two (sampleTransfer_succeeds 1 1 10) (sampleTransfer_succeeds 1 2 11) ?_ ?_
    ⟨rfl, rfl⟩ (.inl rfl)
  · simp [sampleTransfer]
  · simp [sampleTransfer]

/-- Two changes of one tree; a first task of the second has been dropped after its node. -/
theorem dropped_and_repeated : ∃ s, Reachable Env.sample [sampleTransfer 1 1 10, sampleTransfer 1 2 11] s ∧
    SameRows s.db (tablesAfter Env.sample [sampleTransfer 1 1 10, sampleTransfer 1 2 11]) := by
  set is := [sampleTransfer 1 1 10, sampleTransfer 1 2 11] with his
  have hfirst : sampleTransfer 1 1 10 ∈ is := List.mem_cons_self
  have hsecond : sampleTransfer 1 2 11 ∈ is := List.mem_cons_of_mem _ List.mem_cons_self
  obtain ⟨a, rest, hactions⟩ : ∃ a rest, actionsOf Env.sample (sampleTransfer 1 2 11) = a :: rest := ⟨_, _, rfl⟩
  have hbegun : Reachable Env.sample is _ := .single (.start {} _ hsecond)
  have hhalf : Reachable Env.sample is _ := hbegun.tail (.advance _ [] [] (Task.start Env.sample _) _ _ rfl
    (by rw [Task.start, hactions]; exact .act ..))
  have hdropped : Reachable Env.sample is _ := hhalf.tail (.drop _ [] [] _ rfl)
  obtain ⟨s₁, h₁, -, happlied₁, -⟩ := Running.handles (E := Env.sample) _ hsecond
  obtain ⟨s₂, h₂, -, happlied₂, -⟩ := Running.handles (E := Env.sample) s₁ hfirst
  have hreach : Reachable Env.sample is s₂ := (hdropped.trans h₁).trans h₂
  refine ⟨s₂, hreach, concurrent_converges delivery_of_two_transfers oneChangePerStamp_of_transfers hreach ?_⟩
  intro i hi
  rw [happlied₂, happlied₁]
  rcases List.mem_cons.mp hi with rfl | hi
  · exact List.mem_cons_self
  · obtain rfl := List.mem_singleton.mp hi
    exact List.mem_cons_of_mem _ List.mem_cons_self

end DasIndexer.Bubblegum
