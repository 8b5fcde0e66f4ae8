import Mathlib.Data.List.Basic
import Mathlib.Tactic.Common

/-!
# Pages by offset

A table is read page by page: each page is what stands from an offset on, and the next one begins where the
page size says that this one ends.  Rows that are removed meanwhile move the rows behind them to the front, past
the offset, so that no page has them.

**`Reading.Inv`** is what reading a page, removing rows and inserting a row all keep: of the rows that were
there at the start, no more stand unread in front of the offset than rows have been removed.
**`missed_at_end`**: these are all that the reader misses.
-/

namespace OffsetPages

variable {α : Type} [DecidableEq α]

/-- A table that is being read, with the rows that have been read and those that have been removed. -/
structure Reading (α : Type) where
  rows : List α
  offset : ℕ := 0
  read : List α := []
  gone : List α := []

namespace Reading

/-- The page at the offset. -/
def page (limit : ℕ) (r : Reading α) : List α := (r.rows.drop r.offset).take limit

/-- Reading a page. -/
def next (limit : ℕ) (r : Reading α) : Reading α :=
  { r with offset := r.offset + limit, read := r.read ++ r.page limit }

/-- Removing rows. -/
def remove (p : α → Bool) (r : Reading α) : Reading α :=
  { r with rows := r.rows.filter fun x => !p x, gone := r.gone ++ r.rows.filter p }

/-- Inserting a row. -/
def insert (i : ℕ) (x : α) (r : Reading α) : Reading α :=
  { r with rows := r.rows.take i ++ x :: r.rows.drop i }

/-- A row that has been there from the start and has not been read. -/
def unread (old : List α) (r : Reading α) (x : α) : Bool :=
  decide (x ∈ old) && decide (x ∉ r.read) && decide (x ∉ r.gone)

/-- Such rows in front of the offset. -/
def missed (old : List α) (r : Reading α) : List α := (r.rows.take r.offset).filter (r.unread old)

/-- No more of the old rows are missed than rows have been removed. -/
structure Inv (old : List α) (r : Reading α) : Prop where
  old_mem : ∀ x ∈ old, x ∈ r.rows ∨ x ∈ r.gone
  read_mem : ∀ x ∈ r.read, x ∈ r.rows ∨ x ∈ r.gone
  missed_le : (r.missed old).length ≤ r.gone.length

end Reading

open Reading

/-! ### Lists -/

omit [DecidableEq α] in
theorem countP_take_succ_le (q : α → Bool) (n : ℕ) (l : List α) :
    (l.take (n + 1)).countP q ≤ (l.take n).countP q + 1 := by
  induction l generalizing n with
  | nil => simp
  | cons a l ih =>
    cases n with
    | zero =>
      rw [List.take_succ_cons, List.take_zero, List.countP_singleton]
      split <;> simp
    | succ n =>
      rw [List.take_succ_cons, List.take_succ_cons, List.countP_cons, List.countP_cons]
      have := ih n
      omega

omit [DecidableEq α] in
/-- Each element that is taken out of a list lets one of those behind it move up. -/
theorem countP_take_filter_le (p q : α → Bool) (n : ℕ) (l : List α) :
    ((l.filter fun x => !p x).take n).countP q ≤ (l.take n).countP q + (l.filter p).length := by
  induction l generalizing n with
  | nil => simp
  | cons a l ih =>
    cases n with
    | zero => simp
    | succ n =>
      cases ha : p a with
      | false =>
        rw [List.filter_cons_of_pos (by simp [ha]), List.filter_cons_of_neg (by simp [ha]), List.take_succ_cons,
          List.take_succ_cons, List.countP_cons, List.countP_cons]
        have := ih n
        omega
      | true =>
        rw [List.filter_cons_of_neg (by simp [ha]), List.filter_cons_of_pos ha, List.take_succ_cons,
          List.countP_cons, List.length_cons]
        have := ih (n + 1)
        have := countP_take_succ_le q n l
        omega

omit [DecidableEq α] in
/-- An element that does not count moves the others back. -/
theorem countP_take_insert_le {q : α → Bool} {x : α} (hx : q x = false) (n i : ℕ) (l : List α) :
    ((l.take i ++ x :: l.drop i).take n).countP q ≤ (l.take n).countP q := by
  induction l generalizing n i with
  | nil => cases n <;> simp [hx]
  | cons a l ih =>
    cases n with
    | zero => simp
    | succ n =>
      cases i with
      | zero =>
        rw [List.take_zero, List.drop_zero, List.nil_append, List.take_succ_cons,
          List.countP_cons_of_neg (by simp [hx])]
        exact List.Sublist.countP_le (List.take_sublist_take_left (Nat.le_succ n))
      | succ i =>
        rw [List.take_succ_cons, List.drop_succ_cons, List.cons_append, List.take_succ_cons, List.take_succ_cons,
          List.countP_cons, List.countP_cons]
        have := ih n i
        omega

/-! ### What the steps keep -/

section Steps

variable {old : List α} {r : Reading α}

theorem Reading.length_missed : (r.missed old).length = (r.rows.take r.offset).countP (r.unread old) :=
  List.countP_eq_length_filter.symm

theorem Reading.unread_iff {x : α} : r.unread old x = true ↔ x ∈ old ∧ x ∉ r.read ∧ x ∉ r.gone := by
  simp only [unread, Bool.and_eq_true, decide_eq_true_eq, and_assoc]

omit [DecidableEq α] in
theorem Reading.mem_rows_of_mem_page {limit : ℕ} {x : α} (h : x ∈ r.page limit) : x ∈ r.rows :=
  List.mem_of_mem_drop (List.mem_of_mem_take h)

omit [DecidableEq α] in
/-- A row that is removed is among those that are gone. -/
theorem Reading.mem_remove (p : α → Bool) {x : α} (hx : x ∈ r.rows ∨ x ∈ r.gone) :
    x ∈ (r.remove p).rows ∨ x ∈ (r.remove p).gone := by
  rcases hx with hx | hx
  · cases hp : p x with
    | true => exact Or.inr (List.mem_append_right _ (List.mem_filter.mpr ⟨hx, hp⟩))
    | false => exact Or.inl (List.mem_filter.mpr ⟨hx, by simp [hp]⟩)
  · exact Or.inr (List.mem_append_left _ hx)

omit [DecidableEq α] in
theorem Reading.mem_insert (i : ℕ) (y : α) {x : α} (hx : x ∈ r.rows ∨ x ∈ r.gone) :
    x ∈ (r.insert i y).rows ∨ x ∈ (r.insert i y).gone := by
  refine hx.imp_left fun hx => List.mem_append.mpr ?_
  rw [← List.take_append_drop i r.rows] at hx
  exact (List.mem_append.mp hx).imp_right (List.mem_cons_of_mem y)

/-- Before anything has been read nothing is missed. -/
theorem Reading.Inv.start (rows : List α) : Inv rows { rows := rows } where
  old_mem _ hx := Or.inl hx
  read_mem _ hx := absurd hx List.not_mem_nil
  missed_le := Nat.zero_le _

theorem Reading.Inv.next (h : Inv old r) (limit : ℕ) : Inv old (r.next limit) where
  old_mem := h.old_mem
  read_mem := by
    intro x hx
    rcases List.mem_append.mp hx with hx | hx
    · exact h.read_mem x hx
    · exact Or.inl (r.mem_rows_of_mem_page hx)
  missed_le := by
    refine Nat.le_trans ?_ h.missed_le
    rw [length_missed, length_missed]
    show ((r.rows.take (r.offset + limit)).countP _) ≤ _
    rw [List.take_add, List.countP_append]
    have hpage : ((r.rows.drop r.offset).take limit).countP ((r.next limit).unread old) = 0 := by
      rw [List.countP_eq_zero]
      intro x hx hunread
      exact (unread_iff.mp hunread).2.1 (List.mem_append_right _ hx)
    rw [hpage, Nat.add_zero]
    refine List.countP_mono_left fun x _ hunread => ?_
    obtain ⟨hold, hread, hgone⟩ := unread_iff.mp hunread
    exact unread_iff.mpr ⟨hold, fun hx => hread (List.mem_append_left _ hx), hgone⟩

theorem Reading.Inv.remove (h : Inv old r) (p : α → Bool) : Inv old (r.remove p) := by
  refine ⟨fun x hx => mem_remove p (h.old_mem x hx), fun x hx => mem_remove p (h.read_mem x hx), ?_⟩
  have hfewer : ((r.remove p).rows.take r.offset).countP ((r.remove p).unread old)
      ≤ ((r.remove p).rows.take r.offset).countP (r.unread old) := by
    refine List.countP_mono_left fun x _ hunread => ?_
    obtain ⟨hold, hread, hgone⟩ := unread_iff.mp hunread
    exact unread_iff.mpr ⟨hold, hread, fun hx => hgone (List.mem_append_left _ hx)⟩
  have hmoved := countP_take_filter_le p (r.unread old) r.offset r.rows
  have hbefore := h.missed_le
  rw [length_missed] at hbefore ⊢
  show _ ≤ (r.gone ++ r.rows.filter p).length
  rw [List.length_append]
  exact Nat.le_trans hfewer (Nat.le_trans hmoved (Nat.add_le_add_right hbefore _))

/-- A new row is none of the old ones that have stayed. -/
theorem Reading.Inv.insert (h : Inv old r) (i : ℕ) {x : α} (hx : x ∉ r.rows) : Inv old (r.insert i x) := by
  have hcounts : r.unread old x = false := by
    refine Bool.eq_false_iff.mpr fun hunread => ?_
    obtain ⟨hold, -, hgone⟩ := unread_iff.mp hunread
    exact (h.old_mem x hold).elim hx hgone
  refine ⟨fun y hy => mem_insert i x (h.old_mem y hy), fun y hy => mem_insert i x (h.read_mem y hy), ?_⟩
  refine Nat.le_trans ?_ h.missed_le
  rw [length_missed, length_missed]
  exact countP_take_insert_le hcounts r.offset i r.rows

/-- **When a page is empty, every old row has been read, removed or missed.** -/
theorem Reading.Inv.missed_at_end (h : Inv old r) {limit : ℕ} (hlimit : 0 < limit) (hpage : r.page limit = [])
    {x : α} (hx : x ∈ old) : x ∈ r.read ∨ x ∈ r.gone ∨ x ∈ r.missed old := by
  by_cases hread : x ∈ r.read
  · exact Or.inl hread
  by_cases hgone : x ∈ r.gone
  · exact Or.inr (Or.inl hgone)
  have hrows : x ∈ r.rows := (h.old_mem x hx).resolve_right hgone
  have hall : r.rows.take r.offset = r.rows := by
    rcases List.take_eq_nil_iff.mp hpage with hzero | hdrop
    · exact absurd hzero (Nat.ne_of_gt hlimit)
    · exact List.take_of_length_le (List.drop_eq_nil_iff.mp hdrop)
  refine Or.inr (Or.inr (List.mem_filter.mpr ⟨?_, unread_iff.mpr ⟨hx, hread, hgone⟩⟩))
  rwa [hall]

end Steps

end OffsetPages
