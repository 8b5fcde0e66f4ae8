import Mathlib.Tactic.Common

/-!
# Computations that ask a store

A computation of several statements, each of which is answered by the store as it is at that moment, or fails.  The
store may change from one statement to the next.  `Query.along` follows a computation along what its statements have
met; **`Query.run`** is the case of a store that does not change and of statements that do not fail, where the
statements may be read as one (`run_bind`, `run_query`, `run_attempt`).
-/

namespace Queries

/-- A computation: its result, or a statement with what follows its answer or its failure. -/
inductive Query (σ ε α : Type) where
  | done (res : Except ε α)
  | ask (answer : σ → Query σ ε α) (failed : ε → Query σ ε α)

namespace Query

variable {σ ε α β : Type}

/-- The first error ends a computation. -/
def bind : Query σ ε α → (α → Query σ ε β) → Query σ ε β
  | .done (.ok a), f => f a
  | .done (.error e), _ => .done (.error e)
  | .ask answer failed, f => .ask (fun s => (answer s).bind f) fun e => (failed e).bind f

instance : Monad (Query σ ε) where
  pure a := .done (.ok a)
  bind := bind

def ofExcept (res : Except ε α) : Query σ ε α := .done res

def throw (e : ε) : Query σ ε α := ofExcept (.error e)

/-- One statement. -/
def query (read : σ → α) : Query σ ε α := .ask (fun s => .done (.ok (read s))) fun e => .done (.error e)

/-- A computation whose error does not count. -/
def attempt : Query σ ε α → Query σ ε (Option α)
  | .done res => .done (.ok res.toOption)
  | .ask answer failed => .ask (fun s => (answer s).attempt) fun e => (failed e).attempt

/-! ### A store that does not change -/

/-- The result where all statements are answered by one store. -/
def run (s : σ) : Query σ ε α → Except ε α
  | .done res => res
  | .ask answer _ => (answer s).run s

@[simp] theorem run_pure (s : σ) (a : α) : (pure a : Query σ ε α).run s = .ok a := rfl

@[simp] theorem run_ofExcept (s : σ) (res : Except ε α) : (ofExcept res : Query σ ε α).run s = res := rfl

@[simp] theorem run_throw (s : σ) (e : ε) : (throw e : Query σ ε α).run s = .error e := rfl

@[simp] theorem run_query (s : σ) (read : σ → α) : (query read : Query σ ε α).run s = .ok (read s) := rfl

@[simp] theorem run_bind (s : σ) (q : Query σ ε α) (f : α → Query σ ε β) :
    (q >>= f).run s = (q.run s).bind fun a => (f a).run s := by
  show (q.bind f).run s = _
  induction q with
  | done res =>
    cases res with
    | ok a => rfl
    | error e => rfl
  | ask answer failed ih _ => exact ih s

@[simp] theorem run_attempt (s : σ) (q : Query σ ε α) : q.attempt.run s = .ok (q.run s).toOption := by
  induction q with
  | done res => rfl
  | ask answer failed ih _ => exact ih s

/-! ### A store that changes -/

/-- The result of a computation whose statements have met these stores and failures, one after the other. -/
def along : Query σ ε α → List (Except ε σ) → Option (Except ε α)
  | .done res, [] => some res
  | .done _, _ :: _ => none
  | .ask _ _, [] => none
  | .ask answer _, .ok s :: met => (answer s).along met
  | .ask _ failed, .error e :: met => (failed e).along met

/-- What a statement meets: the computation goes on from there. -/
def meet (answer : σ → Query σ ε α) (failed : ε → Query σ ε α) : Except ε σ → Query σ ε α
  | .ok s => answer s
  | .error e => failed e

theorem along_ask (answer : σ → Query σ ε α) (failed : ε → Query σ ε α) (x : Except ε σ) (met : List (Except ε σ)) :
    (ask answer failed).along (x :: met) = (meet answer failed x).along met := by
  cases x with
  | ok s => rfl
  | error e => rfl

/-- Where a computation has got, having met some stores and failures. -/
def After (q : Query σ ε α) (met : List (Except ε σ)) (rest : Query σ ε α) : Prop :=
  ∀ more, q.along (met ++ more) = rest.along more

theorem After.start (q : Query σ ε α) : q.After [] q := fun _ => rfl

theorem After.meet {q : Query σ ε α} {met : List (Except ε σ)} {answer : σ → Query σ ε α} {failed : ε → Query σ ε α}
    (h : q.After met (ask answer failed)) (x : Except ε σ) : q.After (met ++ [x]) (Query.meet answer failed x) := by
  intro more
  rw [List.append_assoc, List.singleton_append, h, along_ask]

theorem After.along_eq {q : Query σ ε α} {met : List (Except ε σ)} {res : Except ε α} (h : q.After met (done res)) :
    q.along met = some res := by
  have hend := h []
  rwa [List.append_nil] at hend

/-- If no statement has failed and all have met one store, the result is that of `run`. -/
theorem along_eq_run {q : Query σ ε α} {s : σ} {met : List (Except ε σ)} (hmet : ∀ x ∈ met, x = .ok s)
    {res : Except ε α} (h : q.along met = some res) : res = q.run s := by
  induction q generalizing met with
  | done res' =>
    cases met with
    | nil => exact (Option.some.inj h).symm
    | cons => cases h
  | ask answer failed ih _ =>
    cases met with
    | nil => cases h
    | cons x met =>
      obtain rfl := hmet x List.mem_cons_self
      exact ih s (fun y hy => hmet y (List.mem_cons_of_mem _ hy)) h

end Query

end Queries
