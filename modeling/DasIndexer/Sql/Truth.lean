import Mathlib.Data.Int.Order.Basic
import Mathlib.Tactic.Common

/-!
# Three-valued truth of SQL conditions

A `WHERE` clause evaluates to true, false or unknown: a comparison with `NULL` is unknown, `AND` and
`OR` follow Kleene's tables, and a row is taken only when the clause is true.  This file fixes that
reading once.  A nullable column is an `Option`; a column that is `NOT NULL` enters a comparison as
`some`.

The `holds_*` lemmas are the simp set: they push `holds` through a clause down to arithmetic, so that
a proof about a guard never unfolds the connectives.
-/

namespace Sql

/-- The value of a condition: `none` is SQL's unknown. -/
abbrev Truth := Option Bool

/-- A row is selected when the condition is true, not when it is merely not false. -/
def holds (t : Truth) : Bool := t == some true

/-- Kleene conjunction. -/
def and : Truth → Truth → Truth
  | some false, _ => some false
  | _, some false => some false
  | some true, some true => some true
  | _, _ => none

/-- Kleene disjunction. -/
def or : Truth → Truth → Truth
  | some true, _ => some true
  | _, some true => some true
  | some false, some false => some false
  | _, _ => none

/-- Kleene negation. -/
def neg : Truth → Truth := Option.map Bool.not

/-- The conjunction of some conditions. -/
def allOf (ts : List Truth) : Truth := ts.foldr and (some true)

/-- The disjunction of some conditions. -/
def anyOf (ts : List Truth) : Truth := ts.foldr or (some false)

/-- `a >= b`. -/
def ge (a b : Option ℤ) : Truth := a.bind fun x => b.map fun y => decide (x ≥ y)

/-- `a > b`. -/
def gt (a b : Option ℤ) : Truth := a.bind fun x => b.map fun y => decide (x > y)

/-- `a != b`. -/
def ne (a b : Option ℤ) : Truth := a.bind fun x => b.map fun y => decide (x ≠ y)

/-- `a = b`. -/
def eq {α : Type} [DecidableEq α] (a b : Option α) : Truth :=
  a.bind fun x => b.map fun y => decide (x = y)

/-- `a IS NULL`, which is never unknown. -/
def isNull {α : Type} (a : Option α) : Truth := some a.isNone

/-- `a IS DISTINCT FROM b`, which is never unknown. -/
def isDistinct {α : Type} [DecidableEq α] (a b : α) : Truth := some (decide (a ≠ b))

@[simp] theorem holds_some (b : Bool) : holds (some b) = b := by
  cases b <;> rfl

@[simp] theorem holds_none : holds none = false := rfl

@[simp] theorem holds_and (a b : Truth) : holds (and a b) = (holds a && holds b) := by
  rcases a with _ | _ | _ <;> rcases b with _ | _ | _ <;> rfl

@[simp] theorem holds_or (a b : Truth) : holds (or a b) = (holds a || holds b) := by
  rcases a with _ | _ | _ <;> rcases b with _ | _ | _ <;> rfl

theorem holds_allOf (ts : List Truth) : holds (allOf ts) = true ↔ ∀ t ∈ ts, holds t = true := by
  induction ts with
  | nil => simp [allOf]
  | cons t ts ih =>
    show holds (and t (allOf ts)) = true ↔ _
    rw [holds_and, Bool.and_eq_true, ih, List.forall_mem_cons]

theorem holds_anyOf (ts : List Truth) : holds (anyOf ts) = true ↔ ∃ t ∈ ts, holds t = true := by
  induction ts with
  | nil => simp [anyOf]
  | cons t ts ih =>
    show holds (or t (anyOf ts)) = true ↔ _
    rw [holds_or, Bool.or_eq_true, ih]
    simp only [List.mem_cons, exists_eq_or_imp]

theorem holds_neg (t : Truth) : holds (neg t) = true ↔ t = some false := by
  rcases t with _ | _ | _ <;> simp [neg]

theorem and_eq_false {a b : Truth} : and a b = some false ↔ a = some false ∨ b = some false := by
  rcases a with _ | _ | _ <;> rcases b with _ | _ | _ <;> simp [and]

theorem or_eq_false {a b : Truth} : or a b = some false ↔ a = some false ∧ b = some false := by
  rcases a with _ | _ | _ <;> rcases b with _ | _ | _ <;> simp [or]

/-- A conjunction is false where one condition is. -/
theorem allOf_eq_false (ts : List Truth) : allOf ts = some false ↔ ∃ t ∈ ts, t = some false := by
  induction ts with
  | nil => simp [allOf]
  | cons t ts ih =>
    show and t (allOf ts) = some false ↔ _
    rw [and_eq_false, ih]
    simp only [List.mem_cons, exists_eq_or_imp]

/-- A disjunction is false where all conditions are. -/
theorem anyOf_eq_false (ts : List Truth) : anyOf ts = some false ↔ ∀ t ∈ ts, t = some false := by
  induction ts with
  | nil => simp [anyOf]
  | cons t ts ih =>
    show or t (anyOf ts) = some false ↔ _
    rw [or_eq_false, ih, List.forall_mem_cons]

@[simp] theorem holds_ge_some (x y : ℤ) : holds (ge (some x) (some y)) = decide (y ≤ x) := by
  simp [ge]

@[simp] theorem holds_ge_null (a : Option ℤ) : holds (ge a none) = false := by
  cases a <;> rfl

@[simp] theorem holds_gt_some (x y : ℤ) : holds (gt (some x) (some y)) = decide (y < x) := by
  simp [gt]

@[simp] theorem holds_gt_null (a : Option ℤ) : holds (gt a none) = false := by
  cases a <;> rfl

@[simp] theorem holds_ne_some (x y : ℤ) : holds (ne (some x) (some y)) = decide (x ≠ y) := by
  simp [ne]

@[simp] theorem holds_ne_null (b : Option ℤ) : holds (ne none b) = false := rfl

/-- An equality holds only between values. -/
theorem holds_eq_iff {α : Type} [DecidableEq α] (a b : Option α) :
    holds (eq a b) = true ↔ ∃ x, a = some x ∧ b = some x := by
  cases a with
  | none => simp [eq]
  | some x =>
    cases b with
    | none => simp [eq]
    | some y => simp [eq, eq_comm]

/-- Equality with a given value. -/
theorem holds_eq_some {α : Type} [DecidableEq α] (a : Option α) (x : α) :
    holds (eq a (some x)) = true ↔ a = some x := by
  rw [holds_eq_iff]
  simp

@[simp] theorem holds_isNull {α : Type} (a : Option α) : holds (isNull a) = a.isNone := by
  simp [isNull]

@[simp] theorem holds_isDistinct {α : Type} [DecidableEq α] (a b : α) :
    holds (isDistinct a b) = decide (a ≠ b) := by
  simp [isDistinct]

/-- The guard that most writers share: the incoming stamp is not older, or there is none yet. -/
theorem holds_ge_or_null (x : ℤ) (b : Option ℤ) :
    holds (or (ge (some x) b) (isNull b)) = true ↔ ∀ y, b = some y → y ≤ x := by
  cases b <;> simp

end Sql
