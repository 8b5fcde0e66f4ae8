import DasIndexer.Lib.LastWriter
import DasIndexer.Sql.Table

/-!
# Guarded upserts as last-writer cells

A row whose stamp stands in one of its columns, and which is rewritten as a whole by an upsert that
compares stamps, is a last-writer cell: the row under the key afterwards is what the cell holds after the
write.  `row_map_snd` is the one-key statement, with the comparison left to the caller; the three
corollaries are the comparisons in use, `>=` over a nullable stamp, strict `>`, and `DO NOTHING`.
-/

namespace StampedUpsert

open Sql LastWriter

variable {R : Type}

/-- The guard takes the write exactly when the cell does, and the assignment writes the whole row. -/
theorem row_map_snd (tie : Bool) (u : Upsert R) (o : Option (ℤ × R)) (w : ℤ × R)
    (hnew : u.new = w.2)
    (hguard : ∀ x, o = some x →
      (holds (u.guard x.2) = true ↔ x.1 < w.1 ∨ (tie = true ∧ x.1 = w.1)))
    (hset : ∀ x, o = some x → u.set x.2 = w.2) :
    some (u.row (o.map Prod.snd)) = (newer tie o w).map Prod.snd := by
  cases o with
  | none =>
    rw [newer_none]
    simp [hnew]
  | some x =>
    rw [Option.map_some, Upsert.row_some, newer_some]
    by_cases hx : x.1 < w.1 ∨ (tie = true ∧ x.1 = w.1)
    · rw [if_pos ((hguard x rfl).mpr hx), if_pos hx, hset x rfl]
      rfl
    · rw [if_neg fun h => hx ((hguard x rfl).mp h), if_neg hx]
      rfl

/-- The stamp is a nullable column that is never zero, and an equal stamp is taken. -/
theorem row_of_notOlder (u : Upsert R) (o : Option (ℤ × R)) (w : ℤ × R) (hnew : u.new = w.2)
    (hguard : ∀ x, o = some x → (holds (u.guard x.2) = true ↔ x.1 ≤ w.1))
    (hset : ∀ x, o = some x → u.set x.2 = w.2) :
    some (u.row (o.map Prod.snd)) = (newer true o w).map Prod.snd :=
  row_map_snd true u o w hnew (fun x hx => by rw [hguard x hx, le_iff_lt_or_eq]; simp) hset

/-- An equal stamp is not taken. -/
theorem row_of_strict (u : Upsert R) (o : Option (ℤ × R)) (w : ℤ × R) (hnew : u.new = w.2)
    (hguard : ∀ x, o = some x → (holds (u.guard x.2) = true ↔ x.1 < w.1))
    (hset : ∀ x, o = some x → u.set x.2 = w.2) :
    some (u.row (o.map Prod.snd)) = (newer false o w).map Prod.snd :=
  row_map_snd false u o w hnew (fun x hx => by rw [hguard x hx]; simp) hset

/-- The first write of a cell stays: all stamps are equal and an equal stamp is not taken. -/
theorem row_of_doNothing (row : R) (o : Option (ℤ × R)) (n : ℤ)
    (hn : ∀ x, o = some x → x.1 = n) :
    some ((Upsert.doNothing row).row (o.map Prod.snd)) = (newer false o (n, row)).map Prod.snd := by
  cases o with
  | none => rfl
  | some x =>
    have hx : ¬ x.1 < n := by
      rw [hn x rfl]
      exact lt_irrefl n
    rw [newer_false_some, if_neg hx]
    rfl

end StampedUpsert
