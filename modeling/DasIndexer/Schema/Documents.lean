import DasIndexer.Schema.Values
import Mathlib.Algebra.BigOperators.Group.Multiset.Basic

/-!
# JSON documents as trees

A statement about a whole document is a test of its objects that holds everywhere, or a count over its scalars
and objects.  Both are defined once, with what they say of an object and of an array, and one induction goes
over all of a document.
-/

namespace DasIndexer.Json

/-! ### Tests and counts -/

section Trees

variable {M : Type} [AddCommMonoid M]

mutual

/-- Some test holds of every object of a document. -/
def Everywhere (p : List (String × Json) → Prop) : Json → Prop
  | .obj fields => p fields ∧ EverywhereFields p fields
  | .arr values => EverywhereValues p values
  | _ => True

def EverywhereFields (p : List (String × Json) → Prop) : List (String × Json) → Prop
  | [] => True
  | (_, value) :: fields => Everywhere p value ∧ EverywhereFields p fields

def EverywhereValues (p : List (String × Json) → Prop) : List Json → Prop
  | [] => True
  | value :: values => Everywhere p value ∧ EverywhereValues p values

end

mutual

/-- What the scalars and the objects of a document count together. -/
def total (scalar : Json → M) (object : List (String × Json) → M) : Json → M
  | .obj fields => object fields + totalFields scalar object fields
  | .arr values => totalValues scalar object values
  | v => scalar v

def totalFields (scalar : Json → M) (object : List (String × Json) → M) : List (String × Json) → M
  | [] => 0
  | (_, value) :: fields => total scalar object value + totalFields scalar object fields

def totalValues (scalar : Json → M) (object : List (String × Json) → M) : List Json → M
  | [] => 0
  | value :: values => total scalar object value + totalValues scalar object values

end

theorem everywhereFields_iff (p : List (String × Json) → Prop) (fields : List (String × Json)) :
    EverywhereFields p fields ↔ ∀ f ∈ fields, Everywhere p f.2 := by
  induction fields with
  | nil => simp [EverywhereFields]
  | cons f fields ih => simp only [EverywhereFields, ih, List.forall_mem_cons]

theorem everywhereValues_iff (p : List (String × Json) → Prop) (values : List Json) :
    EverywhereValues p values ↔ ∀ v ∈ values, Everywhere p v := by
  induction values with
  | nil => simp [EverywhereValues]
  | cons v values ih => simp only [EverywhereValues, ih, List.forall_mem_cons]

theorem everywhere_obj (p : List (String × Json) → Prop) (fields : List (String × Json)) :
    Everywhere p (.obj fields) ↔ p fields ∧ ∀ f ∈ fields, Everywhere p f.2 := by
  rw [Everywhere, everywhereFields_iff]

theorem everywhere_arr (p : List (String × Json) → Prop) (values : List Json) :
    Everywhere p (.arr values) ↔ ∀ v ∈ values, Everywhere p v := by
  rw [Everywhere, everywhereValues_iff]

theorem totalFields_eq (scalar : Json → M) (object : List (String × Json) → M) (fields : List (String × Json)) :
    totalFields scalar object fields = (fields.map fun f => total scalar object f.2).sum := by
  induction fields with
  | nil => rfl
  | cons f fields ih => rw [totalFields, ih, List.map_cons, List.sum_cons]

theorem totalValues_eq (scalar : Json → M) (object : List (String × Json) → M) (values : List Json) :
    totalValues scalar object values = (values.map (total scalar object)).sum := by
  induction values with
  | nil => rfl
  | cons v values ih => rw [totalValues, ih, List.map_cons, List.sum_cons]

theorem total_obj (scalar : Json → M) (object : List (String × Json) → M) (fields : List (String × Json)) :
    total scalar object (.obj fields) = object fields + (fields.map fun f => total scalar object f.2).sum := by
  rw [total, totalFields_eq]

theorem total_arr (scalar : Json → M) (object : List (String × Json) → M) (values : List Json) :
    total scalar object (.arr values) = (values.map (total scalar object)).sum := by
  rw [total, totalValues_eq]

end Trees

/-! ### Induction -/

section Induction

variable {motive : Json → Prop}

mutual

/-- Induction over a document, with the values of an object and of an array at hand. -/
theorem document_induction
    (scalar : ∀ v, (∀ fields, v ≠ .obj fields) → (∀ values, v ≠ .arr values) → motive v)
    (obj : ∀ fields : List (String × Json), (∀ f ∈ fields, motive f.2) → motive (.obj fields))
    (arr : ∀ values : List Json, (∀ v ∈ values, motive v) → motive (.arr values)) : ∀ v, motive v
  | .obj fields => obj fields (document_induction_fields scalar obj arr fields)
  | .arr values => arr values (document_induction_values scalar obj arr values)
  | .null => scalar _ nofun nofun
  | .bool _ => scalar _ nofun nofun
  | .num _ => scalar _ nofun nofun
  | .str _ => scalar _ nofun nofun

theorem document_induction_fields
    (scalar : ∀ v, (∀ fields, v ≠ .obj fields) → (∀ values, v ≠ .arr values) → motive v)
    (obj : ∀ fields : List (String × Json), (∀ f ∈ fields, motive f.2) → motive (.obj fields))
    (arr : ∀ values : List Json, (∀ v ∈ values, motive v) → motive (.arr values)) :
    ∀ fields : List (String × Json), ∀ f ∈ fields, motive f.2
  | [], _, hf => nomatch hf
  | (_, value) :: fields, f, hf =>
    (List.mem_cons.mp hf).elim (fun heq => heq ▸ document_induction scalar obj arr value)
      (document_induction_fields scalar obj arr fields f)

theorem document_induction_values
    (scalar : ∀ v, (∀ fields, v ≠ .obj fields) → (∀ values, v ≠ .arr values) → motive v)
    (obj : ∀ fields : List (String × Json), (∀ f ∈ fields, motive f.2) → motive (.obj fields))
    (arr : ∀ values : List Json, (∀ v ∈ values, motive v) → motive (.arr values)) :
    ∀ values : List Json, ∀ v ∈ values, motive v
  | [], _, hv => nomatch hv
  | value :: values, v, hv =>
    (List.mem_cons.mp hv).elim (fun heq => heq ▸ document_induction scalar obj arr value)
      (document_induction_values scalar obj arr values v)

end

end Induction

end DasIndexer.Json
