import DasIndexer.Sql.Table
import Mathlib.Data.List.Sort

/-!
# What a query returns

Facts about the rows of a table as a `SELECT` gives them: a scan meets every key once, a filter on the key
leaves at most the one row, and `ORDER BY` is stable, so that what is picked out of a sorted result by a
column it was sorted by stands there as it stood in the table.  Tables with the same rows are scanned in some
order each, which a sort by columns that tell the rows apart undoes.
-/

namespace Sql

section Scan

variable {K R : Type} [DecidableEq K]

omit [DecidableEq K] in
theorem nodup_keys_scan (t : Table K R) : ((scan t).map Prod.fst).Nodup := by
  have h : (scan t).map Prod.fst = t.keys := by
    simp [scan, AList.keys, List.keys, Function.comp_def]
  rw [h]
  exact t.keys_nodup

omit [DecidableEq K] in
theorem nodup_scan (t : Table K R) : (scan t).Nodup := List.Nodup.of_map _ (nodup_keys_scan t)

/-- The rows under one key. -/
theorem filter_scan_key (t : Table K R) (k : K) :
    ((scan t).filter fun e => decide (e.1 = k)) = (t.lookup k).toList.map fun r => (k, r) := by
  have hmem : ∀ e, e ∈ ((scan t).filter fun e => decide (e.1 = k)) ↔
      e ∈ (t.lookup k).toList.map fun r => (k, r) := by
    intro ⟨k', r⟩
    simp only [List.mem_filter, mem_scan, decide_eq_true_eq, List.mem_map, Option.mem_toList,
      Prod.mk.injEq]
    constructor
    · rintro ⟨hr, rfl⟩
      exact ⟨r, hr, rfl, rfl⟩
    · rintro ⟨r', hr', rfl, rfl⟩
      exact ⟨hr', rfl⟩
  have hnodup : ((t.lookup k).toList.map fun r => (k, r)).Nodup := by
    cases t.lookup k <;> simp
  have hperm := (List.perm_ext_iff_of_nodup ((nodup_scan t).filter _) hnodup).mpr hmem
  cases hk : t.lookup k with
  | none =>
    rw [hk] at hperm
    exact hperm.eq_nil
  | some r =>
    rw [hk] at hperm
    exact List.perm_singleton.mp hperm

/-- Tables whose rows agree up to a function have the same rows up to it, in some order. -/
theorem perm_scan_map {V : Type} {t t' : Table K R} (f : R → V) (h : ∀ k, (t.lookup k).map f = (t'.lookup k).map f) :
    ((scan t).map fun e => (e.1, f e.2)).Perm ((scan t').map fun e => (e.1, f e.2)) := by
  have hnodup : ∀ t : Table K R, ((scan t).map fun e => (e.1, f e.2)).Nodup := by
    intro t
    refine List.Nodup.of_map Prod.fst ?_
    rw [List.map_map]
    exact nodup_keys_scan t
  have hmem : ∀ (t : Table K R) (e : K × V),
      e ∈ ((scan t).map fun e => (e.1, f e.2)) ↔ (t.lookup e.1).map f = some e.2 := by
    intro t e
    rw [List.mem_map, Option.map_eq_some_iff]
    constructor
    · rintro ⟨⟨k, r⟩, hr, rfl⟩
      exact ⟨r, (mem_scan t k r).mp hr, rfl⟩
    · rintro ⟨r, hr, hf⟩
      exact ⟨(e.1, r), (mem_scan t e.1 r).mpr hr, Prod.ext rfl hf⟩
  exact (List.perm_ext_iff_of_nodup (hnodup t) (hnodup t')).mpr fun e => by rw [hmem, hmem, h]

theorem perm_scan {t t' : Table K R} (h : ∀ k, t.lookup k = t'.lookup k) : (scan t).Perm (scan t') := by
  have hid : ∀ t : Table K R, ((scan t).map fun e => (e.1, id e.2)) = scan t := fun t => List.map_id _
  rw [← hid t, ← hid t']
  exact perm_scan_map id fun k => by rw [h k]

end Scan

section Sorting

variable {α : Type} {r : α → α → Prop} [DecidableRel r]

/-- `ORDER BY` is stable: rows that already stand in order keep their places. -/
theorem filter_insertionSort [IsTrans α r] [Std.Total r] {p : α → Bool} {l : List α}
    (h : (l.filter p).Pairwise r) : (l.insertionSort r).filter p = l.filter p := by
  have hsub : (l.filter p).Sublist (l.insertionSort r) := List.sublist_insertionSort h List.filter_sublist
  have hfilter : ((l.filter p).filter p).Sublist ((l.insertionSort r).filter p) := hsub.filter p
  rw [List.filter_filter] at hfilter
  simp only [Bool.and_self] at hfilter
  refine (hfilter.eq_of_length ?_).symm
  exact ((List.perm_insertionSort r l).filter p).length_eq.symm

/-- Two orders of a list sort to the same, where rows of equal rank are equal. -/
theorem insertionSort_congr [Std.Total r] [IsTrans α r] {l l' : List α} (h : l.Perm l')
    (hrank : ∀ a ∈ l', ∀ b ∈ l', r a b → r b a → a = b) : l.insertionSort r = l'.insertionSort r := by
  have hsame := (List.perm_insertionSort r l).trans (h.trans (List.perm_insertionSort r l').symm)
  refine List.Perm.eq_of_pairwise (fun a b ha hb => hrank a ?_ b ?_) (List.pairwise_insertionSort r l)
    (List.pairwise_insertionSort r l') hsame
  · exact (List.perm_insertionSort r l').mem_iff.mp (hsame.mem_iff.mp ha)
  · exact (List.perm_insertionSort r l').mem_iff.mp hb

end Sorting

/-- A list with at most one element has one order. -/
theorem eq_of_perm_of_forall_eq {α : Type} {l l' : List α} (h : l.Perm l') (hone : ∀ a ∈ l, ∀ b ∈ l, a = b) :
    l = l' := by
  have hsorted : ∀ l : List α, l.Pairwise fun _ _ => True := fun l => List.pairwise_of_forall fun _ _ => trivial
  exact List.Perm.eq_of_pairwise (fun a b ha hb _ _ => hone a ha b (h.mem_iff.mpr hb)) (hsorted l) (hsorted l') h

end Sql
