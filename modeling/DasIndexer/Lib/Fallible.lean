import Mathlib.Data.List.Forall2
import Mathlib.Tactic.Common

/-!
# Passes that may fail

`Option` and `Except` computations, one after the other and over the elements of a list.  A pass over a list
succeeds where it does on every element (`mapM_ne_none_iff`, `mapM_ok`), and what it then returns stands
where the elements stand (`getElem?_of_mapM`, `forall₂_of_mapM`).
-/

namespace Fallible

variable {ε α β : Type}

/-! ### Partial functions -/

theorem getElem?_of_mapM {f : α → Option β} {xs : List α} {ys : List β}
    (h : xs.mapM f = some ys) (n : ℕ) : ys[n]? = xs[n]?.bind f := by
  induction xs generalizing ys n with
  | nil =>
    cases h
    simp
  | cons x xs ih =>
    rw [List.mapM_cons] at h
    obtain ⟨y, hy, h⟩ := Option.bind_eq_some_iff.mp h
    obtain ⟨zs, hzs, h⟩ := Option.bind_eq_some_iff.mp h
    cases h
    cases n with
    | zero => simp [hy]
    | succ n => simpa using ih hzs n

/-- Where a partial function has a value on every element, running it through a list drops none. -/
theorem mapM_eq_some_filterMap {f : α → Option β} {xs : List α}
    (h : ∀ x ∈ xs, ∃ y, f x = some y) : xs.mapM f = some (xs.filterMap f) := by
  induction xs with
  | nil => rfl
  | cons x xs ih =>
    obtain ⟨y, hy⟩ := h x List.mem_cons_self
    rw [List.mapM_cons, hy, ih fun z hz => h z (List.mem_cons_of_mem x hz),
      List.filterMap_cons_some hy]
    rfl

theorem mapM_eq_some_map {f : α → Option β} {g : α → β} {xs : List α}
    (h : ∀ x ∈ xs, f x = some (g x)) : xs.mapM f = some (xs.map g) := by
  rw [mapM_eq_some_filterMap fun x hx => ⟨g x, h x hx⟩, List.filterMap_congr h, List.filterMap_eq_map']

theorem mapM_ne_none_iff {f : α → Option β} {xs : List α} :
    xs.mapM f ≠ none ↔ ∀ x ∈ xs, f x ≠ none := by
  constructor
  · intro h x hx hnone
    obtain ⟨ys, hys⟩ := Option.ne_none_iff_exists'.mp h
    induction xs generalizing ys with
    | nil => cases hx
    | cons y xs ih =>
      rw [List.mapM_cons] at hys
      obtain ⟨z, hz, hys⟩ := Option.bind_eq_some_iff.mp hys
      obtain ⟨zs, hzs, _⟩ := Option.bind_eq_some_iff.mp hys
      rcases List.mem_cons.mp hx with rfl | hx
      · rw [hnone] at hz
        cases hz
      · exact ih (Option.ne_none_iff_exists'.mpr ⟨zs, hzs⟩) hx zs hzs
  · intro h hnone
    rw [mapM_eq_some_filterMap fun x hx => Option.ne_none_iff_exists'.mp (h x hx)] at hnone
    cases hnone

theorem mapM_append_some {f : α → Option β} {l l' : List α} {m m' : List β}
    (h : l.mapM f = some m) (h' : l'.mapM f = some m') : (l ++ l').mapM f = some (m ++ m') := by
  rw [List.mapM_append, h, h']
  rfl

/-! ### Errors -/

theorem bind_eq_ok {x : Except ε α} {f : α → Except ε β} {b : β} (h : x >>= f = .ok b) :
    ∃ a, x = .ok a ∧ f a = .ok b := by
  cases x with
  | error e => cases h
  | ok a => exact ⟨a, rfl, h⟩

/-- Where a fallible pass over a list succeeds, it does so on every element, at its position. -/
theorem forall₂_of_mapM {f : α → Except ε β} {xs : List α} {ys : List β}
    (h : xs.mapM f = .ok ys) : List.Forall₂ (fun x y => f x = .ok y) xs ys := by
  induction xs generalizing ys with
  | nil =>
    cases h
    exact List.Forall₂.nil
  | cons x xs ih =>
    rw [List.mapM_cons] at h
    obtain ⟨y, hy, h⟩ := bind_eq_ok h
    obtain ⟨zs, hzs, h⟩ := bind_eq_ok h
    cases h
    exact List.Forall₂.cons hy (ih hzs)

theorem mapM_ok {f : α → Except ε β} (l : List α) (h : ∀ x ∈ l, ∃ y, f x = .ok y) :
    ∃ ys, l.mapM f = .ok ys ∧ ∀ y, y ∈ ys ↔ ∃ x ∈ l, f x = .ok y := by
  induction l with
  | nil => exact ⟨[], rfl, by simp⟩
  | cons x l ih =>
    obtain ⟨y, hy⟩ := h x List.mem_cons_self
    obtain ⟨ys, hys, hmem⟩ := ih fun x' hx' => h x' (List.mem_cons_of_mem _ hx')
    refine ⟨y :: ys, by rw [List.mapM_cons, hy, hys]; rfl, ?_⟩
    intro y'
    rw [List.mem_cons, hmem]
    constructor
    · rintro (rfl | ⟨x', hx', hy'⟩)
      · exact ⟨x, List.mem_cons_self, hy⟩
      · exact ⟨x', List.mem_cons_of_mem _ hx', hy'⟩
    · intro ⟨x', hx', hy'⟩
      rcases List.mem_cons.mp hx' with rfl | hx'
      · rw [hy] at hy'
        exact Or.inl (Except.ok.inj hy').symm
      · exact Or.inr ⟨x', hx', hy'⟩

/-! ### Related lists -/

theorem exists_of_forall₂_left {R : α → β → Prop} {xs : List α} {ys : List β} {x : α}
    (h : List.Forall₂ R xs ys) (hx : x ∈ xs) : ∃ y ∈ ys, R x y := by
  induction h with
  | nil => cases hx
  | cons hxy _ ih =>
    rcases List.mem_cons.mp hx with rfl | hx
    · exact ⟨_, List.mem_cons_self, hxy⟩
    · obtain ⟨y, hy, hR⟩ := ih hx
      exact ⟨y, List.mem_cons_of_mem _ hy, hR⟩

theorem exists_of_forall₂_right {R : α → β → Prop} {xs : List α} {ys : List β} {y : β}
    (h : List.Forall₂ R xs ys) (hy : y ∈ ys) : ∃ x ∈ xs, R x y :=
  exists_of_forall₂_left h.flip hy

/-- Functions that agree on related elements. -/
theorem map_eq_of_forall₂ {γ δ : Type} {R : α → β → Prop} {l : List α} {l' : List β} (h : List.Forall₂ R l l')
    {f : α → γ} {g : β → δ} {c : γ → δ} (hfg : ∀ a b, R a b → g b = c (f a)) : l'.map g = (l.map f).map c := by
  induction h with
  | nil => rfl
  | cons hab _ ih => rw [List.map_cons, List.map_cons, List.map_cons, hfg _ _ hab, ih]

end Fallible
