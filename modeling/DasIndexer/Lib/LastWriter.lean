import Mathlib.Data.Int.Order.Basic
import Mathlib.Data.List.Basic
import Mathlib.Logic.Function.Basic
import Mathlib.Tactic.Common

/-!
# Last-writer-wins stores

A cell holds a stamped value, and a write replaces it unless the cell's stamp is newer.  On a tie of
stamps a cell either takes the write or keeps what it has, and which of the two is a property of the
cell.  `foldl_newer_congr` is the convergence theorem of one cell: when writes of equal stamp carry
the same value, the final content depends only on which writes were made, not on their order and not
on how often each was made.

A store is a family of cells, each with its own type of values, and `run_congr` is the theorem for a
family of operations, each a list of writes: the form in which a replicated table uses it.
-/

namespace LastWriter

variable {V : Type}

/-- One write to a cell; `tie` says whether a write of equal stamp is taken. -/
def newer (tie : Bool) (o : Option (ℤ × V)) (w : ℤ × V) : Option (ℤ × V) :=
  match o with
  | none => some w
  | some old => if old.1 < w.1 ∨ (tie = true ∧ old.1 = w.1) then some w else some old

@[simp] theorem newer_none (tie : Bool) (w : ℤ × V) : newer tie none w = some w := rfl

theorem newer_some (tie : Bool) (old w : ℤ × V) :
    newer tie (some old) w =
      if old.1 < w.1 ∨ (tie = true ∧ old.1 = w.1) then some w else some old := rfl

/-- A cell that takes ties takes every write that is not older. -/
theorem newer_true_some (old w : ℤ × V) :
    newer true (some old) w = if old.1 ≤ w.1 then some w else some old := by
  rw [newer_some]
  simp only [true_and, le_iff_lt_or_eq]

theorem newer_true_of_le {o : Option (ℤ × V)} {w : ℤ × V} (h : ∀ x, o = some x → x.1 ≤ w.1) :
    newer true o w = some w := by
  cases o with
  | none => rfl
  | some old => rw [newer_true_some, if_pos (h old rfl)]

theorem newer_true_of_not_le {o : Option (ℤ × V)} {w : ℤ × V}
    (h : ¬ ∀ x, o = some x → x.1 ≤ w.1) : newer true o w = o := by
  cases o with
  | none => exact absurd (fun _ hx => by cases hx) h
  | some old =>
    have hlt : ¬ old.1 ≤ w.1 := fun hle => h fun x hx => Option.some.inj hx ▸ hle
    rw [newer_true_some, if_neg hlt]

/-- A cell that keeps ties takes only strictly newer writes. -/
theorem newer_false_some (old w : ℤ × V) :
    newer false (some old) w = if old.1 < w.1 then some w else some old := by
  rw [newer_some]
  simp

/-- What one write leaves: itself or what was there, and nothing below either. -/
theorem newer_spec (tie : Bool) (o : Option (ℤ × V)) (w : ℤ × V) :
    ∃ x, newer tie o w = some x ∧ (x = w ∨ o = some x) ∧ w.1 ≤ x.1 ∧ ∀ y, o = some y → y.1 ≤ x.1 := by
  cases o with
  | none => exact ⟨w, newer_none tie w, Or.inl rfl, le_rfl, fun y hy => by cases hy⟩
  | some old =>
    rw [newer_some]
    split
    · rename_i hnew
      have hle : old.1 ≤ w.1 := by
        rcases hnew with hlt | ⟨_, heq⟩
        · exact le_of_lt hlt
        · exact le_of_eq heq
      exact ⟨w, rfl, Or.inl rfl, le_rfl, fun y hy => Option.some.inj hy ▸ hle⟩
    · rename_i hkeep
      have hle : w.1 ≤ old.1 := not_lt.mp fun hlt => hkeep (Or.inl hlt)
      exact ⟨old, rfl, Or.inr rfl, hle, fun y hy => Option.some.inj hy ▸ le_rfl⟩

/-- After some writes the cell holds one of them, or what it held before, and nothing among them is
newer. -/
theorem foldl_newer_spec (tie : Bool) (ws : List (ℤ × V)) (o : Option (ℤ × V)) (r : ℤ × V)
    (h : ws.foldl (newer tie) o = some r) :
    (r ∈ ws ∨ o = some r) ∧ (∀ x ∈ ws, x.1 ≤ r.1) ∧ ∀ y, o = some y → y.1 ≤ r.1 := by
  induction ws generalizing o with
  | nil =>
    have ho : o = some r := h
    refine ⟨Or.inr ho, by simp, ?_⟩
    intro y hy
    rw [ho] at hy
    rw [Option.some.inj hy]
  | cons w ws ih =>
    obtain ⟨x, hx, hfrom, hw, hold⟩ := newer_spec tie o w
    obtain ⟨hin, hmax, hkept⟩ := ih (newer tie o w) h
    have hxr : x.1 ≤ r.1 := hkept x hx
    refine ⟨?_, ?_, fun y hy => le_trans (hold y hy) hxr⟩
    · rcases hin with hin | hin
      · exact Or.inl (List.mem_cons_of_mem _ hin)
      · obtain rfl : x = r := Option.some.inj (hx.symm.trans hin)
        rcases hfrom with rfl | hfrom
        · exact Or.inl List.mem_cons_self
        · exact Or.inr hfrom
    · intro y hy
      rcases List.mem_cons.mp hy with rfl | hy
      · exact le_trans hw hxr
      · exact hmax y hy

/-- A write leaves the cell filled. -/
theorem newer_isSome (tie : Bool) (o : Option (ℤ × V)) (w : ℤ × V) : (newer tie o w).isSome := by
  cases o with
  | none => rfl
  | some old =>
    rw [newer_some]
    split <;> rfl

theorem foldl_newer_isSome (tie : Bool) (ws : List (ℤ × V)) (o : Option (ℤ × V))
    (h : o.isSome ∨ ws ≠ []) : (ws.foldl (newer tie) o).isSome := by
  induction ws generalizing o with
  | nil => simpa using h
  | cons w ws ih => exact ih (newer tie o w) (Or.inl (newer_isSome tie o w))

/-- A write is taken, or the cell stays as it is. -/
theorem newer_cases (tie : Bool) (o : Option (ℤ × V)) (w : ℤ × V) :
    newer tie o w = some w ∨ newer tie o w = o := by
  cases o with
  | none => exact Or.inl rfl
  | some old =>
    rw [newer_some]
    split
    · exact Or.inl rfl
    · exact Or.inr rfl

/-- Writes of equal stamp carry equal values. -/
def Consistent (ws : List (ℤ × V)) : Prop := ∀ x ∈ ws, ∀ y ∈ ws, x.1 = y.1 → x = y

/-- The newest of a consistent list of writes is what the cell ends with. -/
theorem foldl_newer_eq (tie : Bool) {ws : List (ℤ × V)} (hcons : Consistent ws) {m : ℤ × V}
    (hm : m ∈ ws) (hmax : ∀ x ∈ ws, x.1 ≤ m.1) : ws.foldl (newer tie) none = some m := by
  have hne : ws ≠ [] := List.ne_nil_of_mem hm
  obtain ⟨r, hr⟩ := Option.isSome_iff_exists.mp (foldl_newer_isSome tie ws none (Or.inr hne))
  obtain ⟨hin, hrmax, _⟩ := foldl_newer_spec tie ws none r hr
  have hrin : r ∈ ws := by
    rcases hin with hin | hin
    · exact hin
    · exact absurd hin (by simp)
  have heq : r.1 = m.1 := le_antisymm (hmax r hrin) (hrmax m hm)
  rw [hr, hcons r hrin m hm heq]

/-- A cell that is newer than every write stays as it is. -/
theorem foldl_newer_of_lt (tie : Bool) {ws : List (ℤ × V)} {x : ℤ × V} (h : ∀ w ∈ ws, w.1 < x.1) :
    ws.foldl (newer tie) (some x) = some x := by
  obtain ⟨r, hr⟩ := Option.isSome_iff_exists.mp (foldl_newer_isSome tie ws (some x) (Or.inl rfl))
  obtain ⟨hin, _, hold⟩ := foldl_newer_spec tie ws (some x) r hr
  rcases hin with hin | hin
  · exact absurd (h r hin) (not_lt.mpr (hold x rfl))
  · rw [hr, hin]

/-- A cell that takes ties ends with the newest write, unless it held something newer before. -/
theorem foldl_newer_true_eq {ws : List (ℤ × V)} (hcons : Consistent ws) {m : ℤ × V} (hm : m ∈ ws)
    (hmax : ∀ x ∈ ws, x.1 ≤ m.1) {o : Option (ℤ × V)} (ho : ∀ x, o = some x → x.1 ≤ m.1) :
    ws.foldl (newer true) o = some m := by
  induction ws generalizing o with
  | nil => exact absurd hm List.not_mem_nil
  | cons w ws ih =>
    have hcons' : Consistent ws := fun x hx y hy =>
      hcons x (List.mem_cons_of_mem _ hx) y (List.mem_cons_of_mem _ hy)
    have hmax' : ∀ x ∈ ws, x.1 ≤ m.1 := fun x hx => hmax x (List.mem_cons_of_mem _ hx)
    have hw : w.1 ≤ m.1 := hmax w List.mem_cons_self
    by_cases hmem : m ∈ ws
    · rw [List.foldl_cons]
      apply ih hcons' hmem hmax'
      intro x hx
      rcases newer_cases true o w with heq | heq
      · rw [heq] at hx
        rw [← Option.some.inj hx]
        exact hw
      · rw [heq] at hx
        exact ho x hx
    · obtain rfl : m = w := (List.mem_cons.mp hm).resolve_right hmem
      rw [List.foldl_cons, newer_true_of_le ho]
      apply foldl_newer_of_lt
      intro x hx
      refine lt_of_le_of_ne (hmax' x hx) fun heq => hmem ?_
      rw [← hcons x (List.mem_cons_of_mem _ hx) m List.mem_cons_self heq]
      exact hx

/-- **Cell convergence.**  The final content of a cell depends only on which writes it received. -/
theorem foldl_newer_congr (tie : Bool) {ws ws' : List (ℤ × V)} (hcons : Consistent ws)
    (hmem : ∀ x, x ∈ ws ↔ x ∈ ws') : ws.foldl (newer tie) none = ws'.foldl (newer tie) none := by
  have hcons' : Consistent ws' := fun x hx y hy => hcons x ((hmem x).mpr hx) y ((hmem y).mpr hy)
  cases hr : ws.foldl (newer tie) none with
  | none =>
    have hnil : ws = [] := by
      by_contra hne
      have := foldl_newer_isSome tie ws none (Or.inr hne)
      rw [hr] at this
      exact absurd this (by simp)
    have hnil' : ws' = [] := List.eq_nil_iff_forall_not_mem.mpr fun x hx => by
      have := (hmem x).mpr hx
      rw [hnil] at this
      exact absurd this (by simp)
    rw [hnil']
    rfl
  | some r =>
    obtain ⟨hin, hmax, _⟩ := foldl_newer_spec tie ws none r hr
    have hrin : r ∈ ws := by
      rcases hin with hin | hin
      · exact hin
      · exact absurd hin (by simp)
    exact (foldl_newer_eq tie hcons' ((hmem r).mp hrin) fun x hx => hmax x ((hmem x).mpr hx)).symm

/-! ### Stores -/

section Stores

variable {C I : Type} {W : C → Type}

/-- A store: what each cell holds. -/
abbrev Store (W : C → Type) := (c : C) → Option (ℤ × W c)

/-- A write: a cell, a stamp and a value of the cell's type. -/
abbrev Write (W : C → Type) := (c : C) × (ℤ × W c)

variable [DecidableEq C] (tie : C → Bool)

/-- One write. -/
def put (s : Store W) (w : Write W) : Store W :=
  Function.update s w.1 (newer (tie w.1) (s w.1) w.2)

@[simp] theorem put_self (s : Store W) (c : C) (x : ℤ × W c) :
    put tie s ⟨c, x⟩ c = newer (tie c) (s c) x := by
  simp [put]

theorem put_ne (s : Store W) (w : Write W) {c : C} (h : c ≠ w.1) : put tie s w c = s c := by
  simp [put, Function.update_of_ne h]

/-- What a write leaves in a cell was there or is the write. -/
theorem put_forall {P : (c : C) → ℤ × W c → Prop} {s : Store W} {w : Write W}
    (hs : ∀ c x, s c = some x → P c x) (hw : P w.1 w.2) :
    ∀ c x, put tie s w c = some x → P c x := by
  obtain ⟨c', y⟩ := w
  intro c x h
  by_cases hc : c = c'
  · subst hc
    rw [put_self] at h
    rcases newer_cases (tie c) (s c) y with heq | heq
    · rw [heq] at h
      obtain rfl := Option.some.inj h
      exact hw
    · rw [heq] at h
      exact hs c x h
  · rw [put_ne tie s _ hc] at h
    exact hs c x h

/-- A write leaves its cell with a stamp that is not older. -/
theorem put_self_le (s : Store W) (c : C) (x : ℤ × W c) :
    ∃ y, put tie s ⟨c, x⟩ c = some y ∧ x.1 ≤ y.1 := by
  obtain ⟨y, hy⟩ := Option.isSome_iff_exists.mp (newer_isSome (tie c) (s c) x)
  have hspec := foldl_newer_spec (tie c) [x] (s c) y hy
  exact ⟨y, by rw [put_self, hy], hspec.2.1 x List.mem_cons_self⟩

/-- Stamps never decrease. -/
theorem put_le {s : Store W} {c : C} {x : ℤ × W c} (h : s c = some x) (w : Write W) :
    ∃ y, put tie s w c = some y ∧ x.1 ≤ y.1 := by
  obtain ⟨c', z⟩ := w
  by_cases hc : c = c'
  · subst hc
    obtain ⟨y, hy⟩ := Option.isSome_iff_exists.mp (newer_isSome (tie c) (s c) z)
    have hspec := foldl_newer_spec (tie c) [z] (s c) y hy
    exact ⟨y, by rw [put_self, hy], hspec.2.2 x h⟩
  · exact ⟨x, by rw [put_ne tie s _ hc, h], le_refl _⟩

/-- A write that is not newer leaves a cell that keeps ties alone. -/
theorem put_of_stale {s : Store W} {c : C} {x : ℤ × W c} (h : s c = some x) (w : ℤ × W c)
    (htie : tie c = false) (hle : w.1 ≤ x.1) : put tie s ⟨c, w⟩ = s := by
  funext c'
  by_cases hc : c' = c
  · subst hc
    rw [put_self, h, htie, newer_false_some, if_neg (not_lt.mpr hle)]
  · exact put_ne tie s _ hc

/-- The writes of a list that go to cell `c`. -/
def writesTo (c : C) (ws : List (Write W)) : List (ℤ × W c) :=
  ws.filterMap fun w => if h : w.1 = c then some (h ▸ w.2) else none

theorem mem_writesTo (c : C) (ws : List (Write W)) (x : ℤ × W c) :
    x ∈ writesTo c ws ↔ (⟨c, x⟩ : Write W) ∈ ws := by
  simp only [writesTo, List.mem_filterMap]
  constructor
  · intro ⟨⟨c', x'⟩, hmem, h⟩
    split at h
    · rename_i hc
      have hc' : c' = c := hc
      subst hc'
      rw [← Option.some.inj h]
      exact hmem
    · exact absurd h (by simp)
  · intro hmem
    exact ⟨⟨c, x⟩, hmem, by simp⟩

/-- A cell sees only its own writes. -/
theorem foldl_put_apply (ws : List (Write W)) (s : Store W) (c : C) :
    ws.foldl (put tie) s c = (writesTo c ws).foldl (newer (tie c)) (s c) := by
  induction ws generalizing s with
  | nil => rfl
  | cons w ws ih =>
    obtain ⟨c', x⟩ := w
    rw [List.foldl_cons, ih]
    by_cases hc : c' = c
    · subst hc
      simp [writesTo]
    · rw [put_ne tie s _ (Ne.symm hc)]
      simp [writesTo, hc]

/-- After some writes no cell is older than one of them to it. -/
theorem le_foldl_put {ws : List (Write W)} {c : C} {x : ℤ × W c} (h : (⟨c, x⟩ : Write W) ∈ ws) (s : Store W) :
    ∃ y, ws.foldl (put tie) s c = some y ∧ x.1 ≤ y.1 := by
  have hmem : x ∈ writesTo c ws := (mem_writesTo c ws x).mpr h
  rw [foldl_put_apply]
  obtain ⟨y, hy⟩ := Option.isSome_iff_exists.mp
    (foldl_newer_isSome (tie c) (writesTo c ws) (s c) (Or.inr (List.ne_nil_of_mem hmem)))
  exact ⟨y, hy, (foldl_newer_spec (tie c) _ _ y hy).2.1 x hmem⟩

/-- Writes that agree wherever their stamps do leave a store that depends only on which they are. -/
theorem foldl_put_congr {ws ws' : List (Write W)} (hmem : ∀ w, w ∈ ws ↔ w ∈ ws')
    (hcons : ∀ c, Consistent (writesTo c ws)) :
    ws.foldl (put tie) (fun _ => none) = ws'.foldl (put tie) (fun _ => none) := by
  funext c
  rw [foldl_put_apply, foldl_put_apply]
  refine foldl_newer_congr _ (hcons c) fun x => ?_
  rw [mem_writesTo, mem_writesTo]
  exact hmem _

/-- A store run: each operation performs its writes in order. -/
def run (ops : I → List (Write W)) (s : Store W) (is : List I) : Store W :=
  is.foldl (fun s i => (ops i).foldl (put tie) s) s

theorem run_eq_foldl (ops : I → List (Write W)) (s : Store W) (is : List I) :
    run tie ops s is = (is.flatMap ops).foldl (put tie) s := by
  induction is generalizing s with
  | nil => rfl
  | cons i is ih =>
    rw [List.flatMap_cons, List.foldl_append]
    exact ih _

/-- **Store convergence.**  If the writes that the operations of `is` make to one cell agree whenever
their stamps do, then every list with the same operations leaves the same store. -/
theorem run_congr (ops : I → List (Write W)) {is js : List I} (hmem : ∀ i, i ∈ is ↔ i ∈ js)
    (hcons : ∀ c, Consistent (writesTo c (is.flatMap ops))) :
    run tie ops (fun _ => none) is = run tie ops (fun _ => none) js := by
  funext c
  rw [run_eq_foldl, run_eq_foldl, foldl_put_apply, foldl_put_apply]
  apply foldl_newer_congr _ (hcons c)
  intro x
  rw [mem_writesTo, mem_writesTo, List.mem_flatMap, List.mem_flatMap]
  constructor
  · intro ⟨i, hi, hx⟩
    exact ⟨i, (hmem i).mp hi, hx⟩
  · intro ⟨i, hi, hx⟩
    exact ⟨i, (hmem i).mpr hi, hx⟩

end Stores

end LastWriter
