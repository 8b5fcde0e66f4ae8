import DasIndexer.Sql.Table
import Mathlib.Data.Finset.Max

/-!
# Tables of newest rows

A table that is written only by upserts that propose a whole row, and that replace a stored row unless it
is newer, holds under each key a newest row among those proposed for it.  `Latest` says so without saying
in which order they came: every stored row was proposed, and no proposed row is newer than the one stored
under its key.  It holds of the empty table and is kept by every such upsert (`Latest.upsert`), so that it
holds after any run; what a run stores is then read off the rows it proposed.

A list that is kept by position, one row for each element, is written so as well.  A shorter list does not
remove the rows of a longer one, but the rows with the newest stamp are still those of the newest list
(`stored_list_iff`).
-/

namespace LatestRows

open Sql

variable {K R : Type} [DecidableEq K]

/-- An upsert that proposes a whole row and gives way only to a newer one, among stored rows with `P`. -/
structure Stamped (stamp : R → ℤ) (P : R → Prop) (u : Upsert R) (row : R) : Prop where
  new : u.new = row
  set : ∀ r, P r → u.set r = row
  guard : ∀ r, P r → (holds (u.guard r) = true ↔ stamp r ≤ stamp row)
  valid : P row

/-- Every stored row was proposed, and no proposed row is newer than the stored one. -/
structure Latest (stamp : R → ℤ) (P : R → Prop) (t : Table K R) (ws : List (K × R)) : Prop where
  proposed : ∀ k r, t.lookup k = some r → (k, r) ∈ ws
  newest : ∀ k w, (k, w) ∈ ws → ∃ r, t.lookup k = some r ∧ stamp w ≤ stamp r
  valid : ∀ e ∈ ws, P e.2

variable {stamp : R → ℤ} {P : R → Prop} {t : Table K R} {ws : List (K × R)}

theorem Latest.empty : Latest stamp P (∅ : Table K R) [] where
  proposed k r h := absurd h (by simp)
  newest k w h := absurd h (by simp)
  valid e h := absurd h (by simp)

/-- **One upsert.** -/
theorem Latest.upsert (h : Latest stamp P t ws) (k : K) {u : Upsert R} {row : R}
    (hu : Stamped stamp P u row) : Latest stamp P (upsert t k u) (ws ++ [(k, row)]) := by
  -- the row under the key is the proposed one, or a stored one that is newer
  have hrow : u.row (t.lookup k) = row ∧ (∀ r, t.lookup k = some r → stamp r ≤ stamp row) ∨
      t.lookup k = some (u.row (t.lookup k)) ∧ stamp row ≤ stamp (u.row (t.lookup k)) := by
    cases hr : t.lookup k with
    | none => exact Or.inl ⟨hu.new, fun r hr' => absurd hr' (by simp)⟩
    | some r =>
      have hvalid : P r := h.valid _ (h.proposed k r hr)
      rw [Upsert.row_some]
      by_cases hguard : holds (u.guard r) = true
      · rw [if_pos hguard]
        refine Or.inl ⟨hu.set r hvalid, fun r' hr' => ?_⟩
        obtain rfl := Option.some.inj hr'
        exact (hu.guard r hvalid).mp hguard
      · rw [if_neg hguard]
        refine Or.inr ⟨rfl, le_of_lt (not_le.mp fun hle => hguard ((hu.guard r hvalid).mpr hle))⟩
  refine ⟨?_, ?_, ?_⟩
  · intro k' r hr
    rw [lookup_upsert] at hr
    split at hr
    · rename_i hk
      obtain rfl := Option.some.inj hr
      rcases hrow with ⟨heq, _⟩ | ⟨hold, _⟩
      · rw [hk, heq]
        exact List.mem_append_right _ (List.mem_singleton.mpr rfl)
      · rw [hk]
        exact List.mem_append_left _ (h.proposed k _ hold)
    · exact List.mem_append_left _ (h.proposed k' r hr)
  · intro k' w hw
    rw [lookup_upsert]
    by_cases hk : k' = k
    · subst hk
      refine ⟨u.row (t.lookup k'), if_pos rfl, ?_⟩
      rcases List.mem_append.mp hw with hold | hnew
      · obtain ⟨r, hr, hle⟩ := h.newest k' w hold
        rcases hrow with ⟨heq, holder⟩ | ⟨hstored, _⟩
        · rw [heq]
          exact le_trans hle (holder r hr)
        · have hsame : r = u.row (t.lookup k') := Option.some.inj (hr.symm.trans hstored)
          rw [← hsame]
          exact hle
      · obtain ⟨_, rfl⟩ := Prod.mk.inj (List.mem_singleton.mp hnew)
        rcases hrow with ⟨heq, _⟩ | ⟨_, hle⟩
        · rw [heq]
        · exact hle
    · rw [if_neg hk]
      rcases List.mem_append.mp hw with hold | hnew
      · exact h.newest k' w hold
      · exact absurd (Prod.mk.inj (List.mem_singleton.mp hnew)).1 hk
  · intro e he
    rcases List.mem_append.mp he with hold | hnew
    · exact h.valid e hold
    · rw [List.mem_singleton.mp hnew]
      exact hu.valid

/-- The rows of one insert. -/
theorem Latest.upsertAll {us : List (K × Upsert R)} {row : K × Upsert R → R}
    (h : Latest stamp P t ws) (hus : ∀ u ∈ us, Stamped stamp P u.2 (row u)) :
    Latest stamp P (upsertAll t us) (ws ++ us.map fun u => (u.1, row u)) := by
  induction us generalizing t ws with
  | nil => simpa [Sql.upsertAll] using h
  | cons u us ih =>
    have hfirst := h.upsert u.1 (hus u List.mem_cons_self)
    have hrest := ih hfirst fun u' hu' => hus u' (List.mem_cons_of_mem _ hu')
    rw [List.append_assoc, List.singleton_append] at hrest
    exact hrest

/-- Among the elements with a property, one is newest. -/
theorem exists_newest_of {U : Type} (st : U → ℕ) (p : U → Prop) {us : List U} {v : U} (hv : v ∈ us)
    (hp : p v) : ∃ u ∈ us, p u ∧ ∀ w ∈ us, p w → st w ≤ st u := by
  classical
  have hmem : ∀ w, w ∈ us.filter (fun w => decide (p w)) ↔ w ∈ us ∧ p w := by
    intro w
    simp
  have hne : ((us.filter fun w => decide (p w)) : Multiset U) ≠ 0 := by
    intro hnil
    rw [Multiset.coe_eq_zero] at hnil
    have hv' := (hmem v).mpr ⟨hv, hp⟩
    rw [hnil] at hv'
    exact absurd hv' (by simp)
  obtain ⟨u, hu, hmax⟩ := Multiset.exists_max_image st hne
  obtain ⟨hu', hpu⟩ := (hmem u).mp hu
  exact ⟨u, hu', hpu, fun w hw hpw => hmax w ((hmem w).mpr ⟨hw, hpw⟩)⟩

/-! ### Lists by position -/

section Lists

variable {A U : Type}

/-- The rows of a list, under their positions. -/
def listed (a : A) (rows : List R) : List ((A × ℤ) × R) := rows.zipIdx.map fun e => ((a, (e.2 : ℤ)), e.1)

theorem mem_listed {a a' : A} {rows : List R} {pos : ℤ} {r : R} :
    ((a', pos), r) ∈ listed a rows ↔ a' = a ∧ ∃ i : ℕ, pos = i ∧ rows[i]? = some r := by
  simp only [listed, List.mem_map, Prod.exists, Prod.mk.injEq, List.mem_zipIdx_iff_getElem?]
  constructor
  · rintro ⟨r', i, hr', ⟨rfl, rfl⟩, rfl⟩
    exact ⟨rfl, i, rfl, hr'⟩
  · rintro ⟨rfl, i, rfl, hr⟩
    exact ⟨r, i, hr, ⟨rfl, rfl⟩, rfl⟩

/-- The positions go up. -/
theorem pairwise_listed (a : A) (rows : List R) :
    (listed a rows).Pairwise fun x y => x.1.2 < y.1.2 := by
  have hindices : (rows.zipIdx.map Prod.snd).Pairwise (· < ·) := by
    rw [List.zipIdx_map_snd]
    exact List.pairwise_lt_range'
  rw [List.pairwise_map] at hindices
  rw [listed, List.pairwise_map]
  exact hindices.imp fun h => Int.ofNat_lt.mpr h

theorem nodup_listed (a : A) (rows : List R) : (listed a rows).Nodup :=
  (pairwise_listed a rows).imp fun h heq => by
    rw [heq] at h
    exact lt_irrefl _ h

theorem map_listed {B : Type} (f : R → B) (a : A) (rows : List R) :
    (listed a rows).map (fun e => f e.2) = rows.map f := by
  have hfst : rows.zipIdx.map Prod.fst = rows := List.zipIdx_map_fst 0 rows
  calc (listed a rows).map (fun e => f e.2)
      = (rows.zipIdx.map Prod.fst).map f := by
        rw [listed, List.map_map, List.map_map]
        rfl
    _ = rows.map f := by rw [hfst]

variable [DecidableEq A] {a : A} {rows : U → List R} {us : List U} {t : Table (A × ℤ) R}
  (ht : Latest stamp P t (us.flatMap fun u => listed a (rows u)))

include ht

/-- A stored row is an element of one of the lists, at its position. -/
theorem exists_of_stored {pos : ℤ} {r : R} (h : t.lookup (a, pos) = some r) :
    ∃ v ∈ us, ∃ i : ℕ, pos = i ∧ (rows v)[i]? = some r := by
  obtain ⟨v, hv, hmem⟩ := List.mem_flatMap.mp (ht.proposed _ r h)
  exact ⟨v, hv, (mem_listed.mp hmem).2⟩

/-- **The newest list.**  The stored rows that have the newest stamp are its elements, each at its
position. -/
theorem stored_list_iff {st : U → ℤ} (hst : ∀ v ∈ us, ∀ r ∈ rows v, stamp r = st v) {u : U} (hu : u ∈ us)
    (hmax : ∀ v ∈ us, st v ≤ st u) (huniq : ∀ v ∈ us, st v = st u → v = u) {pos : ℤ} {r : R} :
    t.lookup (a, pos) = some r ∧ stamp r = st u ↔ ∃ i : ℕ, pos = i ∧ (rows u)[i]? = some r := by
  have hfrom : ∀ {r}, t.lookup (a, pos) = some r → stamp r = st u →
      ∃ i : ℕ, pos = i ∧ (rows u)[i]? = some r := by
    intro r hr hstamp
    obtain ⟨v, hv, i, hpos, hi⟩ := exists_of_stored ht hr
    have hsame : v = u := huniq v hv ((hst v hv r (List.mem_of_getElem? hi)).symm.trans hstamp)
    exact ⟨i, hpos, hsame ▸ hi⟩
  constructor
  · intro ⟨hr, hstamp⟩
    exact hfrom hr hstamp
  · rintro ⟨i, rfl, hi⟩
    have hstamp : stamp r = st u := hst u hu r (List.mem_of_getElem? hi)
    refine ⟨?_, hstamp⟩
    have hproposed : ((a, (i : ℤ)), r) ∈ us.flatMap fun u => listed a (rows u) :=
      List.mem_flatMap.mpr ⟨u, hu, mem_listed.mpr ⟨rfl, i, rfl, hi⟩⟩
    obtain ⟨r', hr', hle⟩ := ht.newest _ r hproposed
    obtain ⟨v, hv, j, _, hj⟩ := exists_of_stored ht hr'
    have hstamp' : stamp r' = st u := by
      refine le_antisymm ?_ (hstamp ▸ hle)
      rw [hst v hv r' (List.mem_of_getElem? hj)]
      exact hmax v hv
    obtain ⟨k, hk, hget⟩ := hfrom hr' hstamp'
    have hki : k = i := by omega
    rw [hki, hi] at hget
    rw [hr', Option.some.inj hget]

end Lists

end LatestRows
