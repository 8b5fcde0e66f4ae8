import Mathlib.Tactic.Common
import Mathlib.Data.List.Basic

/-!
# Statements, transactions and faults

A handler talks to the database through statements, each of which can fail, and groups some of them
in a transaction that is rolled back when it is dropped without a commit.  `Session ε σ α` is such a
computation over a database state `σ` with errors `ε`: it reads a fault plan that says which of the
numbered attempts fail, and it threads a `World` that counts the attempts made so far.

Three things of a real connection are kept: a statement that fails changes nothing; an error inside
a transaction undoes the transaction's statements and no others; a statement sent on the outer
connection while a transaction is open (`executeOutside`) is not undone with it.

`Runs x f` is the rule by which the rest of the development runs handlers when nothing fails: from
every world, `x` succeeds with the value and the database of `f`.  `Counted K n x` is the rule by which
it runs them when something does: `x` makes `n` attempts, fails exactly when one of them does, and keeps
`K`.  `Keeps P x` is the rule for what must survive any failure: from a database with `P` every run of
`x` ends in one.  The rules of all three follow the syntax of a handler.
-/

namespace Sql

/-- The text of a database error. -/
abbrev DbErr := String

/-- Which attempts fail, and with what error. -/
abbrev Faults := ℕ → Option DbErr

/-- The plan in which nothing fails. -/
def noFaults : Faults := fun _ => none

@[simp] theorem noFaults_apply (n : ℕ) : noFaults n = none := rfl

/-- The state of a connection: the database as it sees it, the database outside each open
transaction (innermost first), and the number of attempts made. -/
@[ext] structure World (σ : Type) where
  db : σ
  outer : List σ
  tick : ℕ

namespace World

variable {σ : Type}

/-- A fresh connection to `db`. -/
def init (db : σ) : World σ := ⟨db, [], 0⟩

/-- Count one attempt. -/
def next (w : World σ) : World σ := { w with tick := w.tick + 1 }

@[simp] theorem next_db (w : World σ) : w.next.db = w.db := rfl
@[simp] theorem next_outer (w : World σ) : w.next.outer = w.outer := rfl
@[simp] theorem next_tick (w : World σ) : w.next.tick = w.tick + 1 := rfl

/-- `P` holds of the database as the connection sees it and of those outside its open transactions. -/
def All (P : σ → Prop) (w : World σ) : Prop := P w.db ∧ ∀ db ∈ w.outer, P db

end World

/-- A computation with statements: reads the fault plan, threads the world, may end in an error. -/
structure Session (ε σ α : Type) where
  run : Faults → World σ → Except ε α × World σ

namespace Session

variable {ε σ α β : Type}

/-- Continue after success; an error skips the rest and keeps the world it was raised in. -/
def andThen (x : Session ε σ α) (f : α → Session ε σ β) : Session ε σ β where
  run F w :=
    match x.run F w with
    | (.error e, w') => (.error e, w')
    | (.ok a, w') => (f a).run F w'

instance : Monad (Session ε σ) where
  pure a := ⟨fun _ w => (.ok a, w)⟩
  bind := andThen

/-- `return Err(e)`. -/
def throw (e : ε) : Session ε σ α := ⟨fun _ w => (.error e, w)⟩

/-- One statement.  It fails when the plan says so, and then nothing has changed. -/
def execute (wrap : DbErr → ε) (stmt : σ → α × σ) : Session ε σ α where
  run F w :=
    match F w.tick with
    | some e => (.error (wrap e), w.next)
    | none => (.ok (stmt w.db).1, { w.next with db := (stmt w.db).2 })

/-- One statement sent on the outer connection while transactions are open here. -/
def executeOutside (wrap : DbErr → ε) (stmt : σ → σ) : Session ε σ Unit where
  run F w :=
    match F w.tick with
    | some e => (.error (wrap e), w.next)
    | none => (.ok (), ⟨stmt w.db, w.outer.map stmt, w.tick + 1⟩)

/-- A step that touches no table but can fail. -/
def fallible (wrap : DbErr → ε) : Session ε σ Unit := execute wrap fun db => ((), db)

/-- A `SELECT`. -/
def select (wrap : DbErr → ε) (q : σ → α) : Session ε σ α := execute wrap fun db => (q db, db)

/-- A write whose affected rows nobody asks for. -/
def write (wrap : DbErr → ε) (f : σ → σ) : Session ε σ Unit := execute wrap fun db => ((), f db)

/-- A statement that the database refuses in any case: it is an attempt, and nothing has changed. -/
def refused (wrap : DbErr → ε) (e : DbErr) : Session ε σ α :=
  ⟨fun F w => (.error (wrap ((F w.tick).getD e)), w.next)⟩

/-- A write of a value that is checked when the statement is run. -/
def writeChecked (wrap : DbErr → ε) (v : Except DbErr α) (f : α → σ → σ) : Session ε σ Unit :=
  match v with
  | .ok a => write wrap (f a)
  | .error e => refused wrap e

/-- A statement whose failure is logged and swallowed. -/
def tolerate (x : Session ε σ Unit) : Session ε σ Unit := ⟨fun F w => (.ok (), (x.run F w).2)⟩

/-- A statement whose failure is swallowed, and then nothing is returned. -/
def ok (x : Session ε σ α) : Session ε σ (Option α) :=
  ⟨fun F w => (.ok (x.run F w).1.toOption, (x.run F w).2)⟩

/-- What a transaction leaves when it is dropped: the database outside it. -/
def rollback (w : World σ) (fallback : σ) : World σ :=
  match w.outer with
  | [] => { w with db := fallback }
  | db :: rest => ⟨db, rest, w.tick⟩

/-- What a transaction leaves when it commits. -/
def commit (w : World σ) : World σ := { w with outer := w.outer.tail }

/-- `BEGIN`, the body, `COMMIT`; any error on the way drops the transaction. -/
def transaction (wrap : DbErr → ε) (body : Session ε σ α) : Session ε σ α where
  run F w :=
    match F w.tick with
    | some e => (.error (wrap e), w.next)
    | none =>
      match body.run F ⟨w.db, w.db :: w.outer, w.tick + 1⟩ with
      | (.error e, w') => (.error e, rollback w' w.db)
      | (.ok a, w') =>
        match F w'.tick with
        | some e => (.error (wrap e), rollback w'.next w.db)
        | none => (.ok a, (commit w').next)

theorem run_bind (x : Session ε σ α) (f : α → Session ε σ β) (F : Faults) (w : World σ) :
    (x >>= f).run F w =
      match x.run F w with
      | (.error e, w') => (.error e, w')
      | (.ok a, w') => (f a).run F w' := rfl

theorem run_bind_ok {x : Session ε σ α} {F : Faults} {w w' : World σ} {a : α}
    (h : x.run F w = (.ok a, w')) (f : α → Session ε σ β) :
    (x >>= f).run F w = (f a).run F w' := by
  rw [run_bind, h]

theorem run_bind_error {x : Session ε σ α} {F : Faults} {w w' : World σ} {e : ε}
    (h : x.run F w = (.error e, w')) (f : α → Session ε σ β) :
    (x >>= f).run F w = (.error e, w') := by
  rw [run_bind, h]

/-- Where a write comes first, it fails and changes nothing, or the rest goes on from what it wrote. -/
theorem run_write_bind (wrap : DbErr → ε) (f : σ → σ) (k : Unit → Session ε σ β) (F : Faults)
    (w : World σ) :
    (write wrap f >>= k).run F w =
      match F w.tick with
      | some e => (.error (wrap e), w.next)
      | none => (k ()).run F { w.next with db := f w.db } := by
  rw [run_bind]
  simp only [write, execute]
  cases F w.tick <;> rfl

/-- Where the first part fails, what every failure leaves is what that one leaves. -/
theorem forall_error_bind_iff {x : Session ε σ α} {F : Faults} {w w' : World σ} {e : ε}
    (h : x.run F w = (.error e, w')) (f : α → Session ε σ β) (P : σ → Prop) :
    (∀ e' w'', (x >>= f).run F w = (.error e', w'') → P w''.db) ↔ P w'.db := by
  rw [run_bind_error h f]
  constructor
  · intro hall
    exact hall e w' rfl
  · intro hP e' w'' heq
    obtain ⟨_, rfl⟩ := Prod.mk.inj heq
    exact hP

/-- What a transaction leaves: `BEGIN` failed, or the body was dropped, before or at `COMMIT`, or it was
committed. -/
theorem transaction_leaves (wrap : DbErr → ε) (body : Session ε σ α) (F : Faults) (w : World σ) :
    ((transaction wrap body).run F w).2 = w.next ∨
    ∃ w', w' = (body.run F ⟨w.db, w.db :: w.outer, w.tick + 1⟩).2 ∧
      (((transaction wrap body).run F w).2 = rollback w' w.db ∨
        ((transaction wrap body).run F w).2 = rollback w'.next w.db ∨
        ((transaction wrap body).run F w).2 = (commit w').next) := by
  simp only [transaction]
  cases F w.tick with
  | some e => exact Or.inl rfl
  | none =>
    refine Or.inr ⟨_, rfl, ?_⟩
    rcases body.run F ⟨w.db, w.db :: w.outer, w.tick + 1⟩ with ⟨_ | a, w'⟩
    · exact Or.inl rfl
    · simp only
      cases F w'.tick with
      | some e => exact Or.inr (Or.inl rfl)
      | none => exact Or.inr (Or.inr rfl)

theorem eq_of_run {x y : Session ε σ α} (h : ∀ F w, x.run F w = y.run F w) : x = y := by
  cases x
  cases y
  congr 1
  funext F w
  exact h F w

instance : LawfulMonad (Session ε σ) := LawfulMonad.mk' _
  (by
    intro α x
    apply eq_of_run
    intro F w
    show (x >>= fun a => Pure.pure (id a)).run F w = x.run F w
    rw [run_bind]
    rcases x.run F w with ⟨_ | a, w'⟩ <;> rfl)
  (fun _ _ => rfl)
  (by
    intro α β γ x f g
    apply eq_of_run
    intro F w
    simp only [run_bind]
    rcases x.run F w with ⟨_ | a, w'⟩ <;> rfl)

/-! ### Running without faults -/

/-- Without faults `x` succeeds from every world, with the value and the database that `f` gives. -/
def Runs (x : Session ε σ α) (f : σ → α × σ) : Prop :=
  ∀ w : World σ, (x.run noFaults w).1 = .ok (f w.db).1 ∧ (x.run noFaults w).2.db = (f w.db).2

theorem Runs.congr {x : Session ε σ α} {f g : σ → α × σ} (h : Runs x f) (hfg : ∀ db, f db = g db) :
    Runs x g := by
  intro w
  rw [← hfg w.db]
  exact h w

theorem Runs.pure (a : α) : Runs (Pure.pure a : Session ε σ α) (fun db => (a, db)) :=
  fun _ => ⟨rfl, rfl⟩

theorem Runs.bind {x : Session ε σ α} {f : σ → α × σ} {k : α → Session ε σ β}
    {g : α → σ → β × σ} (hx : Runs x f) (hk : ∀ a, Runs (k a) (g a)) :
    Runs (x >>= k) (fun db => g (f db).1 (f db).2) := by
  intro w
  obtain ⟨h1, h2⟩ := hx w
  rw [run_bind]
  rcases hxw : x.run noFaults w with ⟨r, w'⟩
  rw [hxw] at h1 h2
  have hr : r = .ok (f w.db).1 := h1
  have hdb : w'.db = (f w.db).2 := h2
  subst hr
  simp only [← hdb]
  exact hk _ w'

theorem Runs.execute (wrap : DbErr → ε) (stmt : σ → α × σ) :
    Runs (Session.execute wrap stmt) stmt := fun _ => ⟨rfl, rfl⟩

theorem Runs.select (wrap : DbErr → ε) (q : σ → α) :
    Runs (Session.select wrap q) (fun db => (q db, db)) := fun _ => ⟨rfl, rfl⟩

theorem Runs.write (wrap : DbErr → ε) (f : σ → σ) :
    Runs (Session.write wrap f) (fun db => ((), f db)) := fun _ => ⟨rfl, rfl⟩

theorem Runs.writeChecked (wrap : DbErr → ε) {v : Except DbErr α} {a : α} (h : v = .ok a)
    (f : α → σ → σ) : Runs (Session.writeChecked wrap v f) (fun db => ((), f a db)) := by
  rw [h]
  exact Runs.write wrap (f a)

theorem Runs.executeOutside (wrap : DbErr → ε) (f : σ → σ) :
    Runs (Session.executeOutside wrap f) (fun db => ((), f db)) := fun _ => ⟨rfl, rfl⟩

theorem Runs.fallible (wrap : DbErr → ε) :
    Runs (Session.fallible wrap : Session ε σ Unit) (fun db => ((), db)) := fun _ => ⟨rfl, rfl⟩

theorem Runs.ok {x : Session ε σ α} {f : σ → α × σ} (h : Runs x f) :
    Runs (Session.ok x) (fun db => (some (f db).1, (f db).2)) := by
  intro w
  obtain ⟨hvalue, hdb⟩ := h w
  refine ⟨?_, hdb⟩
  show Except.ok (x.run noFaults w).1.toOption = _
  rw [hvalue]
  rfl

theorem Runs.tolerate {x : Session ε σ Unit} {f : σ → Unit × σ} (h : Runs x f) :
    Runs (Session.tolerate x) f := fun w => ⟨rfl, (h w).2⟩

/-- A transaction whose body succeeds has the effect of its body. -/
theorem Runs.transaction (wrap : DbErr → ε) {body : Session ε σ α} {f : σ → α × σ}
    (h : Runs body f) : Runs (Session.transaction wrap body) f := by
  intro w
  obtain ⟨h1, h2⟩ := h ⟨w.db, w.db :: w.outer, w.tick + 1⟩
  rcases hb : body.run noFaults ⟨w.db, w.db :: w.outer, w.tick + 1⟩ with ⟨r, w'⟩
  rw [hb] at h1 h2
  have hr : r = .ok (f w.db).1 := h1
  subst hr
  have hrun : (Session.transaction wrap body).run noFaults w
      = (.ok (f w.db).1, (commit w').next) := by
    simp only [Session.transaction, noFaults_apply, hb]
  rw [hrun]
  exact ⟨rfl, h2⟩

/-- The database after a computation in which nothing fails. -/
def after (x : Session ε σ α) (db : σ) : σ := (x.run noFaults (World.init db)).2.db

theorem Runs.after_eq {x : Session ε σ α} {f : σ → α × σ} (h : Runs x f) (db : σ) :
    after x db = (f db).2 := (h (World.init db)).2

/-- The database after computations that run one after the other. -/
def afterAll {ι : Type} (x : ι → Session ε σ α) (is : List ι) (db : σ) : σ :=
  is.foldl (fun db i => after (x i) db) db

@[simp] theorem afterAll_nil {ι : Type} (x : ι → Session ε σ α) (db : σ) : afterAll x [] db = db := rfl

theorem afterAll_cons {ι : Type} (x : ι → Session ε σ α) (i : ι) (is : List ι) (db : σ) :
    afterAll x (i :: is) db = afterAll x is (after (x i) db) := rfl

theorem afterAll_append {ι : Type} (x : ι → Session ε σ α) (is js : List ι) (db : σ) :
    afterAll x (is ++ js) db = afterAll x js (afterAll x is db) := List.foldl_append

/-- Without faults `x` leaves the database that `f` gives, whether it succeeds or not. -/
def Leaves (x : Session ε σ α) (f : σ → σ) : Prop := ∀ w : World σ, (x.run noFaults w).2.db = f w.db

theorem Runs.leaves {x : Session ε σ α} {f : σ → α × σ} (h : Runs x f) : Leaves x fun db => (f db).2 :=
  fun w => (h w).2

/-- The bind rule where only the second part may fail. -/
theorem Runs.bind_leaves {x : Session ε σ α} {f : σ → α × σ} {k : α → Session ε σ β} {g : α → σ → σ}
    (hx : Runs x f) (hk : ∀ a, Leaves (k a) (g a)) : Leaves (x >>= k) fun db => g (f db).1 (f db).2 := by
  intro w
  obtain ⟨hvalue, hdb⟩ := hx w
  rcases hrun : x.run noFaults w with ⟨r, w'⟩
  rw [hrun] at hvalue hdb
  obtain rfl : r = .ok (f w.db).1 := hvalue
  have hdb : w'.db = (f w.db).2 := hdb
  rw [run_bind_ok hrun, hk, hdb]

theorem Leaves.after_eq {x : Session ε σ α} {f : σ → σ} (h : Leaves x f) (db : σ) : after x db = f db :=
  h (World.init db)

theorem Leaves.afterAll_eq {ι : Type} {x : ι → Session ε σ α} {f : ι → σ → σ} (h : ∀ i, Leaves (x i) (f i))
    (is : List ι) (db : σ) : afterAll x is db = is.foldl (fun db i => f i db) db := by
  induction is generalizing db with
  | nil => rfl
  | cons i is ih => rw [afterAll_cons, ih, (h i).after_eq, List.foldl_cons]

theorem afterAll_eq {ι : Type} {x : ι → Session ε σ α} {v : ι → α} {f : ι → σ → σ}
    (h : ∀ i, Runs (x i) fun db => (v i, f i db)) (is : List ι) (db : σ) :
    afterAll x is db = is.foldl (fun db i => f i db) db := Leaves.afterAll_eq (fun i => (h i).leaves) is db

/-! ### What is returned whatever fails -/

/-- Where `x` succeeds, in whatever world, it returns `a`. -/
def Returns (x : Session ε σ α) (a : α) : Prop := ∀ F w b w', x.run F w = (.ok b, w') → b = a

theorem Returns.pure (a : α) : Returns (Pure.pure a : Session ε σ α) a := by
  intro F w b w' h
  cases h
  rfl

theorem Returns.bind {x : Session ε σ α} {k : α → Session ε σ β} {b : β} (h : ∀ a, Returns (k a) b) :
    Returns (x >>= k) b := by
  intro F w c w' hrun
  rw [run_bind] at hrun
  split at hrun
  · cases hrun
  · exact h _ _ _ c w' hrun

/-- Whichever attempts fail, `x` does not succeed. -/
def Fails (x : Session ε σ α) : Prop := ∀ F w a w', x.run F w ≠ (.ok a, w')

theorem Fails.writeChecked (wrap : DbErr → ε) {v : Except DbErr α} {e : DbErr} (h : v = .error e)
    (f : α → σ → σ) : Fails (Session.writeChecked wrap v f) := by
  intro F w a w' hrun
  rw [h] at hrun
  cases (Prod.mk.inj hrun).1

theorem Fails.bind {x : Session ε σ α} (h : Fails x) (k : α → Session ε σ β) : Fails (x >>= k) := by
  intro F w b w' hrun
  rw [run_bind] at hrun
  split at hrun
  · cases (Prod.mk.inj hrun).1
  · rename_i hx
    exact h F w _ _ hx

theorem Fails.bind_right (x : Session ε σ α) {k : α → Session ε σ β} (h : ∀ a, Fails (k a)) :
    Fails (x >>= k) := by
  intro F w b w' hrun
  rw [run_bind] at hrun
  split at hrun
  · cases (Prod.mk.inj hrun).1
  · exact h _ F _ _ _ hrun

theorem Fails.transaction (wrap : DbErr → ε) {body : Session ε σ α} (h : Fails body) :
    Fails (Session.transaction wrap body) := by
  intro F w a w' hrun
  simp only [Session.transaction] at hrun
  split at hrun
  · cases (Prod.mk.inj hrun).1
  · split at hrun
    · cases (Prod.mk.inj hrun).1
    · rename_i hbody
      exact h F _ _ _ hbody

/-- The value and the effect of the first part, where the second keeps the database. -/
theorem Runs.of_bind {x : Session ε σ α} {k : α → Session ε σ β} {f : σ → σ} {b : σ → β} {a : α}
    (h : Runs (x >>= k) fun db => (b db, f db)) (hreturns : Returns x a)
    (hk : Runs (k a) fun db => (b db, db)) : Runs x fun db => (a, f db) := by
  intro w
  obtain ⟨hvalue, hdb⟩ := h w
  rw [run_bind] at hvalue hdb
  rcases hrun : x.run noFaults w with ⟨e | c, w'⟩
  · rw [hrun] at hvalue
    cases hvalue
  · obtain rfl := hreturns noFaults w c w' hrun
    rw [hrun] at hdb
    exact ⟨rfl, (hk w').2.symm.trans hdb⟩

/-! ### Keeping an invariant whatever fails -/

/-- Whichever attempts fail, `x` keeps `P`. -/
def Keeps (P : σ → Prop) (x : Session ε σ α) : Prop := ∀ F w, w.All P → ((x.run F w).2).All P

namespace Keeps

variable {P : σ → Prop}

theorem pure (a : α) : Keeps P (Pure.pure a : Session ε σ α) := fun _ _ h => h

theorem throw (e : ε) : Keeps P (Session.throw e : Session ε σ α) := fun _ _ h => h

theorem execute (wrap : DbErr → ε) {stmt : σ → α × σ} (h : ∀ db, P db → P (stmt db).2) :
    Keeps P (Session.execute wrap stmt) := by
  intro F w hw
  simp only [Session.execute]
  split
  · exact hw
  · exact ⟨h w.db hw.1, hw.2⟩

theorem write (wrap : DbErr → ε) {f : σ → σ} (h : ∀ db, P db → P (f db)) :
    Keeps P (Session.write wrap f) := execute wrap h

theorem writeChecked (wrap : DbErr → ε) {v : Except DbErr α} {f : α → σ → σ}
    (h : ∀ a db, v = .ok a → P db → P (f a db)) : Keeps P (Session.writeChecked wrap v f) := by
  cases v with
  | ok a => exact write wrap fun db => h a db rfl
  | error e => exact fun _ _ hw => hw

theorem bind {x : Session ε σ α} {k : α → Session ε σ β} (hx : Keeps P x) (hk : ∀ a, Keeps P (k a)) :
    Keeps P (x >>= k) := by
  intro F w hw
  have hall := hx F w hw
  rw [run_bind]
  rcases hrun : x.run F w with ⟨_ | a, w'⟩
  · rw [hrun] at hall
    exact hall
  · rw [hrun] at hall
    exact hk a F w' hall

theorem tolerate {x : Session ε σ Unit} (h : Keeps P x) : Keeps P (Session.tolerate x) := h

/-- What is left of a dropped transaction is a database that was there before. -/
theorem rollback {w : World σ} {db : σ} (hw : w.All P) (hdb : P db) : (Session.rollback w db).All P := by
  obtain ⟨d, outer, tick⟩ := w
  cases outer with
  | nil => exact ⟨hdb, hw.2⟩
  | cons o rest =>
    exact ⟨hw.2 o List.mem_cons_self, fun db' hdb' => hw.2 db' (List.mem_cons_of_mem _ hdb')⟩

theorem transaction (wrap : DbErr → ε) {body : Session ε σ α} (h : Keeps P body) :
    Keeps P (Session.transaction wrap body) := by
  intro F w hw
  have hopen : (⟨w.db, w.db :: w.outer, w.tick + 1⟩ : World σ).All P := by
    refine ⟨hw.1, fun db hdb => ?_⟩
    rcases List.mem_cons.mp hdb with rfl | hdb
    · exact hw.1
    · exact hw.2 db hdb
  have hbody := h F ⟨w.db, w.db :: w.outer, w.tick + 1⟩ hopen
  rcases transaction_leaves wrap body F w with hbegin | ⟨w', rfl, hbody' | hcommit | hdone⟩
  · rw [hbegin]
    exact hw
  · rw [hbody']
    exact rollback hbody hw.1
  · rw [hcommit]
    exact rollback (w := World.next _) hbody hw.1
  · rw [hdone]
    exact ⟨hbody.1, fun db hdb => hbody.2 db (List.mem_of_mem_tail hdb)⟩

/-- A run from a fresh connection to a database with `P` leaves one. -/
theorem run_init {x : Session ε σ α} (h : Keeps P x) (F : Faults) {db : σ} (hdb : P db) :
    P (x.run F (World.init db)).2.db :=
  (h F (World.init db) ⟨hdb, by simp [World.init]⟩).1

end Keeps

/-! ### Counting attempts -/

/-- `x` makes `n` attempts and fails exactly when the plan fails one of them; either way it keeps the
part `K` of the database, and it closes every transaction that it opens. -/
structure Counted {κ : Type} (K : σ → κ) (n : ℕ) (x : Session ε σ α) : Prop where
  ok : ∀ F w, (∀ t, w.tick ≤ t → t < w.tick + n → F t = none) →
    ∃ a w', x.run F w = (.ok a, w') ∧ w'.tick = w.tick + n
  error : ∀ F w, (∃ t, w.tick ≤ t ∧ t < w.tick + n ∧ F t ≠ none) →
    ∃ e w', x.run F w = (.error e, w')
  keeps : ∀ F w, K (x.run F w).2.db = K w.db
  outer : ∀ F w, (x.run F w).2.outer = w.outer

namespace Counted

variable {κ : Type} {K : σ → κ}

theorem fails_iff {x : Session ε σ α} {n : ℕ} (h : Counted K n x) (F : Faults) (w : World σ) :
    (∃ e w', x.run F w = (.error e, w')) ↔
      ¬ ∀ t, w.tick ≤ t → t < w.tick + n → F t = none := by
  constructor
  · intro ⟨e, w', herr⟩ hnone
    obtain ⟨_, _, hok, _⟩ := h.ok F w hnone
    rw [herr] at hok
    exact absurd (Prod.mk.inj hok).1 (by simp)
  · intro hsome
    refine h.error F w ?_
    by_contra hne
    refine hsome fun t h1 h2 => ?_
    by_contra hF
    exact hne ⟨t, h1, h2, hF⟩

/-- A run that ends well met no fault and made all its attempts. -/
theorem of_ok {x : Session ε σ α} {n : ℕ} (h : Counted K n x) {F : Faults} {w w' : World σ} {a : α}
    (hrun : x.run F w = (.ok a, w')) :
    (∀ t, w.tick ≤ t → t < w.tick + n → F t = none) ∧ w'.tick = w.tick + n := by
  have hnone : ∀ t, w.tick ≤ t → t < w.tick + n → F t = none := by
    by_contra hsome
    obtain ⟨e, w'', herr⟩ := (h.fails_iff F w).mpr hsome
    rw [hrun] at herr
    exact absurd (Prod.mk.inj herr).1 (by simp)
  obtain ⟨_, w'', hok, htick⟩ := h.ok F w hnone
  rw [hrun] at hok
  obtain ⟨_, rfl⟩ := Prod.mk.inj hok
  exact ⟨hnone, htick⟩

theorem pure (a : α) : Counted K 0 (Pure.pure a : Session ε σ α) where
  ok := fun _ w _ => ⟨a, w, rfl, rfl⟩
  error := fun F w ⟨t, h1, h2, _⟩ => absurd h2 (by omega)
  keeps := fun _ _ => rfl
  outer := fun _ _ => rfl

theorem execute (wrap : DbErr → ε) (stmt : σ → α × σ) (h : ∀ db, K (stmt db).2 = K db) :
    Counted K 1 (Session.execute wrap stmt) where
  ok := by
    intro F w hF
    have h0 : F w.tick = none := hF w.tick (Nat.le_refl _) (by omega)
    exact ⟨(stmt w.db).1, { w.next with db := (stmt w.db).2 }, by simp only [Session.execute, h0], rfl⟩
  error := by
    intro F w ⟨t, h1, h2, ht⟩
    have heq : t = w.tick := by omega
    subst heq
    obtain ⟨e, he⟩ := Option.ne_none_iff_exists'.mp ht
    exact ⟨wrap e, w.next, by simp only [Session.execute, he]⟩
  keeps := by
    intro F w
    simp only [Session.execute]
    split
    · rfl
    · exact h w.db
  outer := by
    intro F w
    simp only [Session.execute]
    split <;> rfl

theorem bind {x : Session ε σ α} {k : α → Session ε σ β} {n m : ℕ} (hx : Counted K n x)
    (hk : ∀ a, Counted K m (k a)) : Counted K (n + m) (x >>= k) where
  ok := by
    intro F w hF
    obtain ⟨a, w', hrun, htick⟩ := hx.ok F w fun t h1 h2 => hF t h1 (by omega)
    obtain ⟨b, w'', hrun', htick'⟩ := (hk a).ok F w' fun t h1 h2 => hF t (by omega) (by omega)
    refine ⟨b, w'', ?_, by omega⟩
    rw [run_bind_ok hrun, hrun']
  error := by
    intro F w ⟨t, h1, h2, ht⟩
    rcases hxw : x.run F w with ⟨e | a, w'⟩
    · exact ⟨e, w', run_bind_error hxw k⟩
    · obtain ⟨hnone, htick⟩ := hx.of_ok hxw
      have hlate : w.tick + n ≤ t := by
        by_contra hlt
        exact ht (hnone t h1 (by omega))
      rw [run_bind_ok hxw]
      exact (hk a).error F w' ⟨t, by omega, by omega, ht⟩
  keeps := by
    intro F w
    have hkeep := hx.keeps F w
    rw [run_bind]
    rcases hxw : x.run F w with ⟨_ | a, w'⟩
    · rw [hxw] at hkeep
      exact hkeep
    · rw [hxw] at hkeep
      exact ((hk a).keeps F w').trans hkeep
  outer := by
    intro F w
    have hout := hx.outer F w
    rw [run_bind]
    rcases hxw : x.run F w with ⟨_ | a, w'⟩
    · rw [hxw] at hout
      exact hout
    · rw [hxw] at hout
      exact ((hk a).outer F w').trans hout

/-- A transaction adds its `BEGIN` and its `COMMIT` to the attempts of its body. -/
theorem transaction (wrap : DbErr → ε) {body : Session ε σ α} {n : ℕ} (h : Counted K n body) :
    Counted K (n + 2) (Session.transaction wrap body) where
  ok := by
    intro F w hF
    obtain ⟨a, w', hrun, htick⟩ := h.ok F ⟨w.db, w.db :: w.outer, w.tick + 1⟩ fun t h1 h2 =>
      hF t (by simp only at h1; omega) (by simp only at h2; omega)
    simp only at htick
    have hbegin : F w.tick = none := hF w.tick (Nat.le_refl _) (by omega)
    have hcommit : F w'.tick = none := hF w'.tick (by omega) (by omega)
    refine ⟨a, (commit w').next, ?_, ?_⟩
    · simp only [Session.transaction, hbegin, hrun, hcommit]
    · show w'.tick + 1 = w.tick + (n + 2)
      omega
  error := by
    intro F w ⟨t, h1, h2, ht⟩
    cases hbegin : F w.tick with
    | some e => exact ⟨wrap e, w.next, by simp only [Session.transaction, hbegin]⟩
    | none =>
      rcases hrun : body.run F ⟨w.db, w.db :: w.outer, w.tick + 1⟩ with ⟨e | a, w'⟩
      · exact ⟨e, rollback w' w.db, by simp only [Session.transaction, hbegin, hrun]⟩
      · -- the body met no fault, so it can only be that of the commit
        obtain ⟨hbody, htick⟩ := h.of_ok hrun
        simp only at hbody htick
        have hne : t ≠ w.tick := fun heq => ht (heq ▸ hbegin)
        have hlast : t = w'.tick := by
          by_contra hne'
          exact ht (hbody t (by omega) (by omega))
        obtain ⟨e, he⟩ := Option.ne_none_iff_exists'.mp ht
        rw [hlast] at he
        exact ⟨wrap e, rollback w'.next w.db, by simp only [Session.transaction, hbegin, hrun, he]⟩
  keeps := by
    intro F w
    have hkeep := h.keeps F ⟨w.db, w.db :: w.outer, w.tick + 1⟩
    have hout := h.outer F ⟨w.db, w.db :: w.outer, w.tick + 1⟩
    rcases transaction_leaves wrap body F w with hbegin | ⟨w', rfl, hbody | hcommit | hdone⟩
    · rw [hbegin]
      rfl
    · rw [hbody, rollback, hout]
    · rw [hcommit, rollback, World.next_outer, hout]
    · rw [hdone]
      exact hkeep
  outer := by
    intro F w
    have hout := h.outer F ⟨w.db, w.db :: w.outer, w.tick + 1⟩
    rcases transaction_leaves wrap body F w with hbegin | ⟨w', rfl, hbody | hcommit | hdone⟩
    · rw [hbegin]
      rfl
    · rw [hbody, rollback, hout]
    · rw [hcommit, rollback, World.next_outer, hout]
    · rw [hdone]
      show (commit _).outer = w.outer
      rw [commit, hout]
      rfl

end Counted

end Session

end Sql
