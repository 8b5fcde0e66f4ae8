import Mathlib.Data.List.Basic
import Mathlib.Tactic.Common

/-!
# Pages after the last row

A list is read in pages of at most `limit` rows, the next of which begins after the last row of the one before,
whatever became of that row.  `Left` says which rows are still to be read, and **`Serves.page`** and **`Left.behind`**
are what a loop needs to know of a page: it is the beginning of what is left, and what is left after it is the rest.
-/

namespace NextPages

variable {α κ : Type} (ask : Option κ → List α) (key : α → κ) (limit : ℕ) (rows : List α)

/-- What is asked for after a row is the rows behind it. -/
structure Serves : Prop where
  first : ask none = rows.take limit
  below : ∀ newer t older, rows = newer ++ t :: older → ask (some (key t)) = older.take limit

/-- The rows that are still to be read after `before`. -/
inductive Left : Option κ → List α → Prop
  | all : Left none rows
  | below (newer : List α) (t : α) (older : List α) : rows = newer ++ t :: older → Left (some (key t)) older

/-- The key to ask for rows after: that of the last row, or the one before it if there is none. -/
def lastKey (before : Option κ) (page : List α) : Option κ := (page.getLast?.map key).or before

variable {ask key limit rows} {before : Option κ} {rest : List α}

theorem Serves.page (hserves : Serves ask key limit rows) (h : Left key rows before rest) :
    ask before = rest.take limit := by
  cases h with
  | all => exact hserves.first
  | below newer t older hrows => exact hserves.below newer t _ hrows

@[simp] theorem lastKey_nil (before : Option κ) : lastKey key before [] = before := rfl

theorem lastKey_concat (before : Option κ) (page : List α) (t : α) :
    lastKey key before (page ++ [t]) = some (key t) := by
  rw [lastKey, List.getLast?_concat]
  rfl

theorem lastKey_cons (before : Option κ) (t : α) (page : List α) :
    lastKey key before (t :: page) = lastKey key (some (key t)) page := by
  rcases List.eq_nil_or_concat page with rfl | ⟨front, u, rfl⟩
  · rfl
  · rw [List.concat_eq_append, ← List.cons_append, lastKey_concat, lastKey_concat]

theorem Left.append (h : Left key rows before rest) : ∃ newer, rows = newer ++ rest := by
  cases h with
  | all => exact ⟨[], rfl⟩
  | below newer t _ hrows => exact ⟨newer ++ [t], by rw [hrows, List.append_cons]⟩

/-- What is left after a page. -/
theorem Left.behind (h : Left key rows before rest) (limit : ℕ) :
    Left key rows (lastKey key before (rest.take limit)) (rest.drop limit) := by
  rcases List.eq_nil_or_concat (rest.take limit) with hnil | ⟨page, t, hpage⟩
  · rw [hnil, lastKey_nil]
    rcases List.take_eq_nil_iff.mp hnil with rfl | rfl
    · exact h
    · rw [List.drop_nil]
      exact h
  · obtain ⟨newer, hrows⟩ := h.append
    rw [List.concat_eq_append] at hpage
    have hsplit : rest = page ++ t :: rest.drop limit := by
      rw [List.append_cons, ← hpage, List.take_append_drop]
    rw [hpage, lastKey_concat]
    refine .below (newer ++ page) t _ ?_
    rw [hrows, List.append_assoc, ← hsplit]

/-- A page that is not full is the last one. -/
theorem drop_of_short (h : (rest.take limit).length < limit) : rest.drop limit = [] := by
  rw [List.length_take] at h
  exact List.drop_of_length_le (by omega)

/-- A full page takes something off. -/
theorem drop_length_lt (hlimit : 0 < limit) (h : rest ≠ []) : (rest.drop limit).length < rest.length := by
  have hpos := List.length_pos_of_ne_nil h
  rw [List.length_drop]
  omega

end NextPages
