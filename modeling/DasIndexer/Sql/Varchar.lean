import Mathlib.Data.List.Basic
import Mathlib.Tactic.Common

/-!
# Bounded text

A `varchar(n)` column holds at most `n` characters, and so does a value of type `Varchar n`.  A longer text
that is assigned to such a column is an error, unless everything past the bound is a space; then it is cut
off there (`Varchar.assign`).
-/

namespace Sql

/-- A value of a `varchar(n)` column. -/
abbrev Varchar (n : ℕ) := { s : String // s.length ≤ n }

namespace Varchar

variable {n : ℕ} {s : String}

def empty : Varchar n := ⟨"", Nat.zero_le n⟩

/-- There are only spaces past the bound. -/
def Fits (n : ℕ) (s : String) : Prop := (s.toList.drop n).all (· == ' ') = true

instance decidableFits (n : ℕ) (s : String) : Decidable (Fits n s) := inferInstanceAs (Decidable (_ = true))

theorem fits_of_le (h : s.length ≤ n) : Fits n s := by
  rw [Fits, List.drop_of_length_le (by rwa [String.length_toList])]
  rfl

/-- The part of a text that a column keeps. -/
def cut (n : ℕ) (s : String) : Varchar n :=
  ⟨String.ofList (s.toList.take n), by rw [String.length_ofList, List.length_take]; exact Nat.min_le_left _ _⟩

theorem cut_of_le (h : s.length ≤ n) : cut n s = ⟨s, h⟩ := by
  apply Subtype.ext
  show String.ofList (s.toList.take n) = s
  rw [List.take_of_length_le (by rwa [String.length_toList]), String.ofList_toList]

/-- The assignment of a text to a column. -/
def assign (n : ℕ) (s : String) : Except String (Varchar n) :=
  if Fits n s then .ok (cut n s)
  else .error ("value too long for type character varying(" ++ toString n ++ ")")

theorem assign_of_fits (h : Fits n s) : assign n s = .ok (cut n s) := if_pos h

theorem assign_of_not_fits (h : ¬ Fits n s) : ∃ e, assign n s = .error e := ⟨_, if_neg h⟩

/-- A text too long for its column, with nothing to cut off. -/
theorem not_fits_replicate {c : Char} (hc : c ≠ ' ') {m : ℕ} (h : n < m) :
    ¬ Fits n (String.ofList (List.replicate m c)) := by
  rw [Fits, String.toList_ofList, List.drop_replicate, List.all_eq_true]
  intro hall
  have hspace := hall c (List.mem_replicate.mpr ⟨by omega, rfl⟩)
  exact hc (by simpa using hspace)

/-- What a column does not keep of a text is spaces. -/
theorem Fits.exists_toList_eq (h : Fits n s) :
    ∃ spaces : List Char, (∀ c ∈ spaces, c = ' ') ∧ s.toList = (cut n s).1.toList ++ spaces := by
  refine ⟨s.toList.drop n, fun c hc => ?_, ?_⟩
  · exact eq_of_beq (List.all_eq_true.mp h c hc)
  · rw [cut, String.toList_ofList, List.take_append_drop]

/-- A text is kept as it is where it is not longer than the column. -/
theorem cut_eq_self_iff : (cut n s).1 = s ↔ s.length ≤ n := by
  constructor
  · intro h
    rw [← h]
    exact (cut n s).2
  · intro h
    rw [cut_of_le h]

-- the characters of a text are not for definitional unfolding
attribute [irreducible] Fits cut decidableFits

/-- A change of a text that makes none longer. -/
def map (f : String → String) (hf : ∀ s, (f s).length ≤ s.length) (v : Varchar n) : Varchar n :=
  ⟨f v.1, Nat.le_trans (hf v.1) v.2⟩

end Varchar

end Sql
