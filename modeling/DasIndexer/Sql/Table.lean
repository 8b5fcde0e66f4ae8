import DasIndexer.Sql.Truth
import Mathlib.Data.List.AList

/-!
# Keyed tables and guarded upserts

A table is an association list without repeated keys, the key being the columns of its unique index.
The one write the rest of the development is made of is the guarded upsert

`INSERT … ON CONFLICT (key) DO UPDATE SET … WHERE guard`,

given here as a value (`Upsert`): the proposed row, the guard on the stored row, and the assignment.
`lookup_upsert` is its whole meaning: it rewrites the row under its own key to `Upsert.row` and leaves
every other key alone.  `DO NOTHING` is the upsert whose guard is never true, and a multi-row insert
is the fold of its rows.
-/

namespace Sql

/-- A table with unique key `K` and rows `R`. -/
abbrev Table (K R : Type) := AList (fun _ : K => R)

/-- `INSERT new ON CONFLICT DO UPDATE SET set WHERE guard`, for one key. -/
structure Upsert (R : Type) where
  /-- The proposed row, column defaults included. -/
  new : R
  /-- The `WHERE` clause, on the stored row. -/
  guard : R → Truth
  /-- The assignments, applied to the stored row. -/
  set : R → R

namespace Upsert

variable {R : Type}

/-- The row that stands under the key afterwards. -/
def row (u : Upsert R) : Option R → R
  | none => u.new
  | some old => if holds (u.guard old) then u.set old else old

/-- Whether the statement reports an affected row. -/
def affects (u : Upsert R) : Option R → Bool
  | none => true
  | some old => holds (u.guard old)

/-- `ON CONFLICT DO NOTHING`. -/
def doNothing (new : R) : Upsert R := ⟨new, fun _ => some false, id⟩

@[simp] theorem row_none (u : Upsert R) : u.row none = u.new := rfl

theorem row_some (u : Upsert R) (old : R) :
    u.row (some old) = if holds (u.guard old) then u.set old else old := rfl

/-- An upsert over a stored row assigns or does nothing. -/
theorem row_some_cases (u : Upsert R) (old : R) :
    u.row (some old) = old ∨ u.row (some old) = u.set old := by
  rw [row_some]
  split
  · exact Or.inr rfl
  · exact Or.inl rfl

@[simp] theorem row_doNothing_some (new old : R) : (doNothing new).row (some old) = old := rfl

end Upsert

section Tables

variable {K R : Type} [DecidableEq K]

/-- Run an upsert under a key. -/
def upsert (t : Table K R) (k : K) (u : Upsert R) : Table K R :=
  t.insert k (u.row (t.lookup k))

theorem lookup_upsert (t : Table K R) (k k' : K) (u : Upsert R) :
    (upsert t k u).lookup k' = if k' = k then some (u.row (t.lookup k)) else t.lookup k' := by
  by_cases h : k' = k
  · subst h
    simp [upsert]
  · rw [if_neg h, upsert, AList.lookup_insert_ne h]

@[simp] theorem lookup_upsert_self (t : Table K R) (k : K) (u : Upsert R) :
    (upsert t k u).lookup k = some (u.row (t.lookup k)) := by
  rw [lookup_upsert, if_pos rfl]

theorem lookup_upsert_ne (t : Table K R) {k k' : K} (u : Upsert R) (h : k' ≠ k) :
    (upsert t k u).lookup k' = t.lookup k' := by
  rw [lookup_upsert, if_neg h]

/-- A table with one row. -/
theorem lookup_singleton (k k' : K) (r : R) :
    (AList.singleton k r : Table K R).lookup k' = if k' = k then some r else none := by
  rw [← AList.insert_empty]
  by_cases h : k' = k
  · subst h
    rw [if_pos rfl, AList.lookup_insert]
  · rw [if_neg h, AList.lookup_insert_ne h, AList.lookup_empty]

/-- An upsert whose guard does not hold of the stored row changes nothing. -/
theorem lookup_upsert_of_blocked {t : Table K R} {k : K} {u : Upsert R} {r : R}
    (h : t.lookup k = some r) (hguard : holds (u.guard r) = false) (k' : K) :
    (upsert t k u).lookup k' = t.lookup k' := by
  rw [lookup_upsert]
  split
  · rename_i hk
    rw [hk, h, Upsert.row_some, hguard]
    rfl
  · rfl

/-- The rows of a table with their keys, as a `SELECT` scans them. -/
def scan (t : Table K R) : List (K × R) := t.entries.map fun e => (e.1, e.2)

theorem mem_scan (t : Table K R) (k : K) (r : R) : (k, r) ∈ scan t ↔ t.lookup k = some r := by
  constructor
  · intro h
    obtain ⟨⟨k', r'⟩, he, heq⟩ := List.mem_map.mp h
    obtain ⟨rfl, rfl⟩ := Prod.mk.inj heq
    exact AList.mem_lookup_iff.mpr he
  · intro h
    exact List.mem_map.mpr ⟨⟨k, r⟩, AList.mem_lookup_iff.mp h, rfl⟩

/-- `UPDATE … SET f`, a row-wise assignment that may depend on the key. -/
def update (t : Table K R) (f : K → R → R) : Table K R :=
  ⟨t.entries.map fun e => ⟨e.1, f e.1 e.2⟩, by
    have h : (t.entries.map fun e => (⟨e.1, f e.1 e.2⟩ : Sigma fun _ : K => R)).keys
        = t.entries.keys := by
      simp [List.keys, List.map_map, Function.comp_def]
    rw [List.NodupKeys, h]
    exact t.nodupKeys⟩

theorem lookup_update (t : Table K R) (f : K → R → R) (k : K) :
    (update t f).lookup k = (t.lookup k).map (f k) := by
  cases h : t.lookup k with
  | none =>
    rw [Option.map_none, AList.lookup_eq_none]
    rw [AList.lookup_eq_none] at h
    intro hmem
    apply h
    rw [AList.mem_keys] at hmem ⊢
    simpa [update, AList.keys, List.keys, List.map_map, Function.comp_def] using hmem
  | some r =>
    rw [Option.map_some]
    refine AList.mem_lookup_iff.mpr (List.mem_map.mpr ⟨⟨k, r⟩, AList.mem_lookup_iff.mp h, rfl⟩)

/-- Run one upsert per proposed row, in order. -/
def upsertAll (t : Table K R) (rows : List (K × Upsert R)) : Table K R :=
  rows.foldl (fun t p => upsert t p.1 p.2) t

theorem lookup_upsertAll_of_not_mem (rows : List (K × Upsert R)) (t : Table K R) (k : K)
    (h : k ∉ rows.map Prod.fst) : (upsertAll t rows).lookup k = t.lookup k := by
  induction rows generalizing t with
  | nil => rfl
  | cons p rows ih =>
    rw [List.map_cons, List.mem_cons, not_or] at h
    show (upsertAll (upsert t p.1 p.2) rows).lookup k = t.lookup k
    rw [ih _ h.2, lookup_upsert_ne _ _ h.1]

end Tables

end Sql
