import Mathlib.Data.Int.Order.Basic
import Mathlib.Data.List.Basic
import Mathlib.Tactic.Common

/-!
# Cells that are rewritten only on a change

A cell holds a stamped value, and a write is taken when the cell is empty, or when the write is newer
and also carries another value.  A write that confirms the value leaves the old stamp in place, so
that, unlike a last-writer cell, the cell can be overtaken later by a write that is older than the one
that confirmed it.

**`settles_iff`** says for which writes this does no harm: the cell ends with the value `a` in every
order and under every repetition exactly when each write of another value is older than every write of
`a`.
-/

namespace ChangedOnly

variable {V : Type} [DecidableEq V]

/-- One write to a cell. -/
def change (o : Option (ℤ × V)) (w : ℤ × V) : Option (ℤ × V) :=
  match o with
  | none => some w
  | some old => if old.1 < w.1 ∧ old.2 ≠ w.2 then some w else some old

@[simp] theorem change_none (w : ℤ × V) : change none w = some w := rfl

theorem change_of_newer {old w : ℤ × V} (hlt : old.1 < w.1) (hne : old.2 ≠ w.2) :
    change (some old) w = some w := if_pos ⟨hlt, hne⟩

theorem change_of_same {old w : ℤ × V} (h : old.2 = w.2) : change (some old) w = some old :=
  if_neg fun hnew => hnew.2 h

theorem change_of_not_newer {old w : ℤ × V} (h : w.1 ≤ old.1) : change (some old) w = some old :=
  if_neg fun hnew => absurd hnew.1 (not_lt.mpr h)

/-- Whether a write is taken. -/
def takes (o : Option (ℤ × V)) (w : ℤ × V) : Bool :=
  match o with
  | none => true
  | some old => decide (old.1 < w.1 ∧ old.2 ≠ w.2)

theorem change_eq_ite (o : Option (ℤ × V)) (w : ℤ × V) :
    change o w = if takes o w then some w else o := by
  cases o with
  | none => rfl
  | some old => simp only [change, takes, decide_eq_true_eq]

/-- A write is taken, or the cell stays as it is. -/
theorem change_cases (o : Option (ℤ × V)) (w : ℤ × V) : change o w = some w ∨ change o w = o := by
  cases o with
  | none => exact Or.inl rfl
  | some old =>
    by_cases hnew : old.1 < w.1 ∧ old.2 ≠ w.2
    · exact Or.inl (if_pos hnew)
    · exact Or.inr (if_neg hnew)

/-- What the cell holds was written, or was there. -/
theorem foldl_change_mem {r : ℤ × V} (ws : List (ℤ × V)) (o : Option (ℤ × V))
    (h : ws.foldl change o = some r) : r ∈ ws ∨ o = some r := by
  induction ws generalizing o with
  | nil => exact Or.inr h
  | cons w ws ih =>
    rcases ih (change o w) h with hin | heq
    · exact Or.inl (List.mem_cons_of_mem _ hin)
    · rcases change_cases o w with hw | hw
      · rw [hw] at heq
        rw [Option.some.inj heq]
        exact Or.inl List.mem_cons_self
      · rw [hw] at heq
        exact Or.inr heq

/-- A write that is newer than the cell leaves its value there. -/
theorem change_snd_of_newer {o : Option (ℤ × V)} {w : ℤ × V} (h : ∀ old, o = some old → old.1 < w.1) :
    (change o w).map Prod.snd = some w.2 := by
  cases o with
  | none => rfl
  | some old =>
    by_cases hold : old.2 = w.2
    · rw [change_of_same hold, Option.map_some, hold]
    · rw [change_of_newer (h old rfl) hold, Option.map_some]

/-- The value stays while no newer write carries another. -/
theorem foldl_change_keeps {a : V} {t : ℤ} (ws : List (ℤ × V)) (h : ∀ w ∈ ws, w.2 ≠ a → w.1 ≤ t) :
    ws.foldl change (some (t, a)) = some (t, a) := by
  induction ws with
  | nil => rfl
  | cons w ws ih =>
    have hkeep : change (some (t, a)) w = some (t, a) := by
      by_cases hw : w.2 = a
      · exact change_of_same hw.symm
      · exact change_of_not_newer (h w List.mem_cons_self hw)
    rw [List.foldl_cons, hkeep]
    exact ih fun x hx => h x (List.mem_cons_of_mem _ hx)

/-- The value is not `a` while nobody writes `a`. -/
theorem foldl_change_ne {a : V} (ws : List (ℤ × V)) (h : ∀ w ∈ ws, w.2 ≠ a) (o : Option (ℤ × V))
    (ho : o.map Prod.snd ≠ some a) : (ws.foldl change o).map Prod.snd ≠ some a := by
  induction ws generalizing o with
  | nil => exact ho
  | cons w ws ih =>
    refine ih (fun x hx => h x (List.mem_cons_of_mem _ hx)) (change o w) ?_
    rcases change_cases o w with heq | heq
    · rw [heq]
      exact fun hw => h w List.mem_cons_self (Option.some.inj hw)
    · rw [heq]
      exact ho

/-- The value `a` is overtaken by a newer write of another, when `a` itself is not written again. -/
theorem foldl_change_overtaken {a : V} {t : ℤ} (ws : List (ℤ × V)) (h : ∀ w ∈ ws, w.2 ≠ a)
    (hnewer : ∃ w ∈ ws, t < w.1) : (ws.foldl change (some (t, a))).map Prod.snd ≠ some a := by
  induction ws with
  | nil => simp at hnewer
  | cons w ws ih =>
    have hw : w.2 ≠ a := h w List.mem_cons_self
    have hws : ∀ x ∈ ws, x.2 ≠ a := fun x hx => h x (List.mem_cons_of_mem _ hx)
    rw [List.foldl_cons]
    by_cases hlt : t < w.1
    · rw [change_of_newer hlt hw.symm]
      exact foldl_change_ne ws hws _ fun heq => hw (Option.some.inj heq)
    · rw [change_of_not_newer (not_lt.mp hlt)]
      apply ih hws
      obtain ⟨y, hy, hty⟩ := hnewer
      rcases List.mem_cons.mp hy with rfl | hy
      · exact absurd hty hlt
      · exact ⟨y, hy, hty⟩

/-- Each write of another value is older than every write of `a`. -/
def Settled (a : V) (ws : List (ℤ × V)) : Prop := ∀ x ∈ ws, ∀ y ∈ ws, x.2 = a → y.2 ≠ a → y.1 < x.1

/-- The cell does not stand in the way of `a`: it holds `a` and nothing that comes is newer, or some
write of `a` will replace what it holds. -/
def Ready (a : V) (ws : List (ℤ × V)) (o : Option (ℤ × V)) : Prop :=
  (∀ t, o = some (t, a) → ∀ w ∈ ws, w.2 ≠ a → w.1 ≤ t)
    ∧ (o.map Prod.snd ≠ some a → ∃ w ∈ ws, w.2 = a ∧ ∀ old, o = some old → old.1 < w.1)

omit [DecidableEq V] in
/-- A write that is taken leaves the cell ready for settled writes. -/
theorem Ready.taken {a : V} {w : ℤ × V} {ws : List (ℤ × V)} (hset : Settled a (w :: ws))
    (hmem : w.2 ≠ a → ∃ x ∈ ws, x.2 = a) : Ready a ws (some w) := by
  constructor
  · intro t ht x hx hxa
    obtain rfl := Option.some.inj ht
    exact le_of_lt (hset _ List.mem_cons_self x (List.mem_cons_of_mem _ hx) rfl hxa)
  · intro hne
    have hw : w.2 ≠ a := fun h => hne (congrArg some h)
    obtain ⟨x, hx, hxa⟩ := hmem hw
    refine ⟨x, hx, hxa, ?_⟩
    intro old hold
    obtain rfl := Option.some.inj hold
    exact hset x (List.mem_cons_of_mem _ hx) w List.mem_cons_self hxa hw

/-- One of the settled writes keeps the cell ready for the rest. -/
theorem Ready.change {a : V} {w : ℤ × V} {ws : List (ℤ × V)} {o : Option (ℤ × V)}
    (hset : Settled a (w :: ws)) (hready : Ready a (w :: ws) o) : Ready a ws (change o w) := by
  by_cases ho : o.map Prod.snd = some a
  · -- the cell holds `a`, and `w` cannot change it
    obtain ⟨⟨t, b⟩, rfl, hb⟩ := Option.map_eq_some_iff.mp ho
    have hb' : b = a := hb
    subst hb'
    have hkeep : ChangedOnly.change (some (t, b)) w = some (t, b) := by
      by_cases hw : w.2 = b
      · exact change_of_same hw.symm
      · exact change_of_not_newer (hready.1 t rfl w List.mem_cons_self hw)
    rw [hkeep]
    exact ⟨fun t' ht' x hx => hready.1 t' ht' x (List.mem_cons_of_mem _ hx), fun h => absurd ho h⟩
  · obtain ⟨x, hx, hxa, hold⟩ := hready.2 ho
    rcases change_cases o w with heq | heq
    · rw [heq]
      refine Ready.taken hset fun hw => ?_
      rcases List.mem_cons.mp hx with rfl | hx
      · exact absurd hxa hw
      · exact ⟨x, hx, hxa⟩
    · rw [heq]
      refine ⟨fun t ht => absurd (by rw [ht]; rfl) ho, fun _ => ?_⟩
      rcases List.mem_cons.mp hx with rfl | hx
      · -- `x` itself would have been taken
        cases o with
        | none => cases heq
        | some old =>
          have hne : old.2 ≠ x.2 := fun h => ho (congrArg some (h.trans hxa))
          rw [change_of_newer (hold old rfl) hne] at heq
          obtain rfl := Option.some.inj heq
          exact absurd rfl hne
      · exact ⟨x, hx, hxa, hold⟩

/-- Settled writes end in `a`, in any order. -/
theorem foldl_change_settled {a : V} (ws : List (ℤ × V)) (hset : Settled a ws) (o : Option (ℤ × V))
    (hready : Ready a ws o) : (ws.foldl change o).map Prod.snd = some a := by
  induction ws generalizing o with
  | nil =>
    by_contra ho
    obtain ⟨w, hw, _⟩ := hready.2 ho
    simp at hw
  | cons w ws ih =>
    have hset' : Settled a ws := fun x hx y hy =>
      hset x (List.mem_cons_of_mem _ hx) y (List.mem_cons_of_mem _ hy)
    exact ih hset' (change o w) (hready.change hset)

omit [DecidableEq V] in
/-- An empty cell is ready once `a` is written. -/
theorem ready_none {a : V} {ws : List (ℤ × V)} (h : ∃ w ∈ ws, w.2 = a) : Ready a ws none := by
  obtain ⟨w, hw, hwa⟩ := h
  exact ⟨fun t ht => (by cases ht), fun _ => ⟨w, hw, hwa, fun old hold => by cases hold⟩⟩

/-- A write of `a`, then all writes of `a`, then all others: if one of these is newer, `a` is lost. -/
theorem foldl_change_lost {a : V} (x : ℤ × V) (hx : x.2 = a) (as bs : List (ℤ × V))
    (has : ∀ w ∈ as, w.2 = a) (hbs : ∀ w ∈ bs, w.2 ≠ a) (hnewer : ∃ w ∈ bs, x.1 < w.1) :
    ((x :: as ++ bs).foldl change none).map Prod.snd ≠ some a := by
  obtain ⟨t, v⟩ := x
  have hv : v = a := hx
  subst hv
  have hcell : ((t, v) :: as).foldl change none = some (t, v) := by
    rw [List.foldl_cons, change_none]
    exact foldl_change_keeps as fun w hw hne => absurd (has w hw) hne
  rw [List.foldl_append, hcell]
  exact foldl_change_overtaken bs hbs hnewer

/-- If a write of another value is newer than one of `a`, there is an order in which `a` is lost. -/
theorem exists_perm_lost {ι : Type} (w : ι → ℤ × V) {us : List ι} {a : V} {x y : ι} (hx : x ∈ us)
    (hy : y ∈ us) (hxa : (w x).2 = a) (hya : (w y).2 ≠ a) (hlt : (w x).1 < (w y).1) :
    ∃ vs : List ι, vs.Perm us ∧ ((vs.map w).foldl change none).map Prod.snd ≠ some a := by
  have hxin : x ∈ us.filter fun i => decide ((w i).2 = a) :=
    List.mem_filter.mpr ⟨hx, decide_eq_true hxa⟩
  obtain ⟨as, as', has⟩ := List.append_of_mem hxin
  have hperm : (x :: (as ++ as')).Perm (us.filter fun i => decide ((w i).2 = a)) := by
    rw [has]
    exact List.perm_middle.symm
  refine ⟨x :: (as ++ as') ++ us.filter fun i => !decide ((w i).2 = a),
    (hperm.append_right _).trans (List.filter_append_perm _ us), ?_⟩
  rw [List.map_append, List.map_cons]
  refine foldl_change_lost (w x) hxa _ _ ?_ ?_ ⟨w y, ?_, hlt⟩
  · intro z hz
    obtain ⟨i, hi, rfl⟩ := List.mem_map.mp hz
    have hin := hperm.subset (List.mem_cons_of_mem x hi)
    exact of_decide_eq_true (List.mem_filter.mp hin).2
  · intro z hz
    obtain ⟨i, hi, rfl⟩ := List.mem_map.mp hz
    simpa using (List.mem_filter.mp hi).2
  · exact List.mem_map_of_mem (List.mem_filter.mpr ⟨hy, by simpa using hya⟩)

/-- **When a cell settles.**  Let the writes `w i` of the operations `us` have distinct stamps, one of
them of the value `a`.  The cell ends with `a` in every order and under every repetition exactly when
each write of another value is older than every write of `a`. -/
theorem settles_iff {ι : Type} (w : ι → ℤ × V) {us : List ι}
    (hstamps : ∀ x ∈ us, ∀ y ∈ us, (w x).1 = (w y).1 → x = y) {a : V} (ha : ∃ x ∈ us, (w x).2 = a) :
    (∀ vs : List ι, (∀ x, x ∈ vs ↔ x ∈ us) → ((vs.map w).foldl change none).map Prod.snd = some a)
      ↔ ∀ x ∈ us, ∀ y ∈ us, (w x).2 = a → (w y).2 ≠ a → (w y).1 < (w x).1 := by
  constructor
  · intro h x hx y hy hxa hya
    by_contra hlt
    have hne : (w x).1 ≠ (w y).1 := by
      intro heq
      rw [hstamps x hx y hy heq] at hxa
      exact hya hxa
    have hnewer : (w x).1 < (w y).1 := lt_of_le_of_ne (not_lt.mp hlt) hne
    obtain ⟨vs, hperm, hlost⟩ := exists_perm_lost w hx hy hxa hya hnewer
    exact hlost (h vs fun i => hperm.mem_iff)
  · intro h vs hvs
    obtain ⟨x, hx, hxa⟩ := ha
    refine foldl_change_settled (vs.map w) ?_ none
      (ready_none ⟨w x, List.mem_map_of_mem ((hvs x).mpr hx), hxa⟩)
    intro p hp q hq
    obtain ⟨i, hi, rfl⟩ := List.mem_map.mp hp
    obtain ⟨j, hj, rfl⟩ := List.mem_map.mp hq
    exact h i ((hvs i).mp hi) j ((hvs j).mp hj)

/-- **When a cell settles that only some of the operations write.**  It ends with `a` in every order exactly
when one of these writes `a`, and each write of another value is older than every write of `a`. -/
theorem settles_among_iff {ι : Type} (w : ι → ℤ × V) (p : ι → Prop) [DecidablePred p] {us : List ι}
    (hstamps : ∀ x ∈ us, ∀ y ∈ us, (w x).1 = (w y).1 → x = y) (a : V) :
    (∀ vs : List ι, (∀ x, x ∈ vs ↔ x ∈ us) →
        (((vs.filter fun x => decide (p x)).map w).foldl change none).map Prod.snd = some a)
      ↔ (∃ x ∈ us, p x ∧ (w x).2 = a) ∧
        ∀ x ∈ us, ∀ y ∈ us, p x → p y → (w x).2 = a → (w y).2 ≠ a → (w y).1 < (w x).1 := by
  have hmem : ∀ {x} {vs : List ι}, x ∈ vs.filter (fun x => decide (p x)) ↔ x ∈ vs ∧ p x := by
    simp
  have hamong := fun ha : ∃ x ∈ us.filter (fun x => decide (p x)), (w x).2 = a => settles_iff w
    (fun x hx y hy => hstamps x (hmem.mp hx).1 y (hmem.mp hy).1) ha
  constructor
  · intro h
    -- what the cell holds was written
    have hwritten : ∃ x ∈ us, p x ∧ (w x).2 = a := by
      obtain ⟨r, hr, hra⟩ := Option.map_eq_some_iff.mp (h us fun _ => Iff.rfl)
      rcases foldl_change_mem _ _ hr with hin | hnone
      · obtain ⟨x, hx, rfl⟩ := List.mem_map.mp hin
        exact ⟨x, (hmem.mp hx).1, (hmem.mp hx).2, hra⟩
      · cases hnone
    obtain ⟨x, hx, hpx, hxa⟩ := hwritten
    refine ⟨⟨x, hx, hpx, hxa⟩, ?_⟩
    have hsettled := (hamong ⟨x, hmem.mpr ⟨hx, hpx⟩, hxa⟩).mp fun vs hvs => by
      -- an order of those that write is one of all, the others at its end
      have hrest : ((vs ++ us.filter fun x => !decide (p x)).filter fun x => decide (p x)) = vs := by
        rw [List.filter_append, List.filter_filter, List.filter_eq_self.mpr, List.filter_eq_nil_iff.mpr,
          List.append_nil]
        · simp
        · intro x hx
          exact decide_eq_true (hmem.mp ((hvs x).mp hx)).2
      have hall := h (vs ++ us.filter fun x => !decide (p x)) fun x => by
        rw [List.mem_append, hvs, hmem, List.mem_filter]
        by_cases hx : p x <;> simp [hx]
      rwa [hrest] at hall
    exact fun x hx y hy hpx hpy => hsettled x (hmem.mpr ⟨hx, hpx⟩) y (hmem.mpr ⟨hy, hpy⟩)
  · rintro ⟨⟨x, hx, hpx, hxa⟩, hsettled⟩ vs hvs
    refine (hamong ⟨x, hmem.mpr ⟨hx, hpx⟩, hxa⟩).mpr ?_ _ fun y => ?_
    · exact fun x hx y hy =>
        hsettled x (hmem.mp hx).1 y (hmem.mp hy).1 (hmem.mp hx).2 (hmem.mp hy).2
    · rw [hmem, hmem, hvs]

end ChangedOnly
