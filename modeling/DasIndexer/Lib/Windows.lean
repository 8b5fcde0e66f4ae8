import Mathlib.Data.List.Basic
import Mathlib.Data.List.Nodup
import Mathlib.Data.List.TakeWhile
import Mathlib.Order.Lattice
import Mathlib.Tactic.Common

/-!
# Windows of a list

A list whose items have distinct keys is read in windows: the items that stand after one given key and before
another, both exclusive, either end open.  `mem_before` and `mem_after` say which items of an ordered list a
window holds; `window_before` says that a window whose upper end moves down to one of its items is what
stands before that item in it, which is how a long window is read page by page from its upper end.

`not_between_neighbours` and `exists_neighbours` are about the gaps of a list of stamped items: what two
neighbours have between them, and that every missing stamp in the middle lies between neighbours.
-/

namespace Windows

variable {α κ : Type} [DecidableEq κ] (key : α → κ)

/-- The items before a key. -/
def before (upper : Option κ) (l : List α) : List α :=
  match upper with
  | none => l
  | some k => l.takeWhile fun x => decide (key x ≠ k)

/-- The items after a key, none if the key is not there. -/
def after (lower : Option κ) (l : List α) : List α :=
  match lower with
  | none => l
  | some k => (l.dropWhile fun x => decide (key x ≠ k)).drop 1

/-- The items strictly between two keys. -/
def window (lower upper : Option κ) (l : List α) : List α := after key lower (before key upper l)

variable {key}

theorem before_append {pre post : List α} {x : α} (h : ∀ y ∈ pre, key y ≠ key x) :
    before key (some (key x)) (pre ++ x :: post) = pre := by
  have hpre : ∀ y ∈ pre, decide (key y ≠ key x) = true := fun y hy => decide_eq_true (h y hy)
  rw [before, List.takeWhile_append_of_pos hpre, List.takeWhile_cons_of_neg (by simp), List.append_nil]

theorem after_append {pre post : List α} {x : α} (h : ∀ y ∈ pre, key y ≠ key x) :
    after key (some (key x)) (pre ++ x :: post) = post := by
  have hpre : ∀ y ∈ pre, decide (key y ≠ key x) = true := fun y hy => decide_eq_true (h y hy)
  rw [after, List.dropWhile_append_of_pos hpre, List.dropWhile_cons_of_neg (by simp)]
  rfl

omit [DecidableEq κ] in
/-- An item splits a list with distinct keys in two, neither part with its key. -/
theorem split_of_mem {l : List α} (hkeys : (l.map key).Nodup) {x : α} (hx : x ∈ l) :
    ∃ pre post, l = pre ++ x :: post ∧ (∀ y ∈ pre, key y ≠ key x) ∧ ∀ y ∈ post, key y ≠ key x := by
  obtain ⟨pre, post, rfl⟩ := List.append_of_mem hx
  rw [List.map_append, List.map_cons] at hkeys
  obtain ⟨_, hpost, hdisjoint⟩ := List.nodup_append.mp hkeys
  refine ⟨pre, post, rfl, ?_, ?_⟩
  · intro y hy heq
    exact hdisjoint _ (List.mem_map_of_mem hy) _ List.mem_cons_self heq
  · intro y hy heq
    exact (List.nodup_cons.mp hpost).1 (heq ▸ List.mem_map_of_mem hy)

section Ordered

variable {r : α → α → Prop} {l : List α}

/-- The items before an item of an ordered list are those below it. -/
theorem mem_before (hkeys : (l.map key).Nodup) (hsorted : l.Pairwise r) (hasymm : ∀ x y, r x y → ¬ r y x)
    {b : α} (hb : b ∈ l) (x : α) : x ∈ before key (some (key b)) l ↔ x ∈ l ∧ r x b := by
  obtain ⟨pre, post, rfl, hpre, _⟩ := split_of_mem hkeys hb
  rw [before_append hpre]
  obtain ⟨_, hbelow, hcross⟩ := List.pairwise_append.mp hsorted
  constructor
  · intro hx
    exact ⟨List.mem_append_left _ hx, hcross x hx b List.mem_cons_self⟩
  · intro ⟨hx, hrel⟩
    rcases List.mem_append.mp hx with hx | hx
    · exact hx
    · rcases List.mem_cons.mp hx with rfl | hx
      · exact absurd hrel (hasymm x x hrel)
      · exact absurd ((List.pairwise_cons.mp hbelow).1 x hx) (hasymm x b hrel)

/-- The items after an item of an ordered list are those above it. -/
theorem mem_after (hkeys : (l.map key).Nodup) (hsorted : l.Pairwise r) (hasymm : ∀ x y, r x y → ¬ r y x)
    {b : α} (hb : b ∈ l) (x : α) : x ∈ after key (some (key b)) l ↔ x ∈ l ∧ r b x := by
  obtain ⟨pre, post, rfl, hpre, _⟩ := split_of_mem hkeys hb
  rw [after_append hpre]
  obtain ⟨_, hbelow, hcross⟩ := List.pairwise_append.mp hsorted
  constructor
  · intro hx
    exact ⟨List.mem_append_right _ (List.mem_cons_of_mem _ hx), (List.pairwise_cons.mp hbelow).1 x hx⟩
  · intro ⟨hx, hrel⟩
    rcases List.mem_append.mp hx with hx | hx
    · exact absurd (hcross x hx b List.mem_cons_self) (hasymm b x hrel)
    · rcases List.mem_cons.mp hx with rfl | hx
      · exact absurd hrel (hasymm x x hrel)
      · exact hx

/-- A key that is not there has nothing after it. -/
theorem after_of_not_mem {k : κ} (h : ∀ x ∈ l, key x ≠ k) : after key (some k) l = [] := by
  have hall : ∀ x ∈ l, decide (key x ≠ k) = true := fun x hx => decide_eq_true (h x hx)
  rw [after, List.dropWhile_eq_nil_iff.mpr hall]
  rfl

end Ordered

/-- Which items of an ordered list stand strictly between two of its items. -/
theorem mem_window {r : α → α → Prop} {l : List α} (hkeys : (l.map key).Nodup) (hsorted : l.Pairwise r)
    (hasymm : ∀ x y, r x y → ¬ r y x) (htrans : ∀ x y z, r x y → r y z → r x z) {a b : α} (ha : a ∈ l)
    (hb : b ∈ l) (x : α) : x ∈ window key (some (key a)) (some (key b)) l ↔ x ∈ l ∧ r a x ∧ r x b := by
  have hsub : (before key (some (key b)) l).Sublist l := List.takeWhile_sublist _
  have hmem := mem_before hkeys hsorted hasymm hb
  by_cases hab : r a b
  · have hlower : a ∈ before key (some (key b)) l := (hmem a).mpr ⟨ha, hab⟩
    rw [window, mem_after (hkeys.sublist (hsub.map key)) (hsorted.sublist hsub) hasymm hlower, hmem]
    constructor
    · intro ⟨⟨hx, hxb⟩, hax⟩
      exact ⟨hx, hax, hxb⟩
    · intro ⟨hx, hax, hxb⟩
      exact ⟨⟨hx, hxb⟩, hax⟩
  · have hnot : ∀ y ∈ before key (some (key b)) l, key y ≠ key a := by
      intro y hy heq
      obtain ⟨hyl, hyb⟩ := (hmem y).mp hy
      rw [List.inj_on_of_nodup_map hkeys hyl ha heq] at hyb
      exact hab hyb
    rw [window, after_of_not_mem hnot]
    constructor
    · intro hx
      exact absurd hx List.not_mem_nil
    · intro ⟨_, hax, hxb⟩
      exact absurd (htrans a x b hax hxb) hab

theorem before_sublist (upper : Option κ) (l : List α) : (before key upper l).Sublist l := by
  cases upper with
  | none => exact List.Sublist.refl l
  | some k => exact List.takeWhile_sublist _

theorem after_sublist (lower : Option κ) (l : List α) : (after key lower l).Sublist l := by
  cases lower with
  | none => exact List.Sublist.refl l
  | some k => exact (List.drop_sublist _ _).trans (List.dropWhile_sublist _)

theorem window_sublist (lower upper : Option κ) (l : List α) : (window key lower upper l).Sublist l :=
  (after_sublist lower _).trans (before_sublist upper l)

/-- Moving the upper end down to an item of a prefix. -/
theorem before_before {l : List α} (hkeys : (l.map key).Nodup) {upper : Option κ} {x : α}
    (hx : x ∈ before key upper l) :
    before key (some (key x)) l = before key (some (key x)) (before key upper l) := by
  have hprefix : ∃ rest, l = before key upper l ++ rest := by
    cases upper with
    | none => exact ⟨[], (List.append_nil l).symm⟩
    | some k => exact ⟨_, List.takeWhile_append_dropWhile.symm⟩
  obtain ⟨rest, hl⟩ := hprefix
  have hkeys' : ((before key upper l).map key).Nodup := hkeys.sublist ((before_sublist upper l).map key)
  obtain ⟨pre, post, hsplit, hpre, _⟩ := split_of_mem hkeys' hx
  rw [hsplit, List.append_assoc, List.cons_append] at hl
  rw [hsplit, before_append hpre, hl, before_append hpre]

/-- Cutting a list above an item and below another key can be done in either order. -/
theorem after_before {l : List α} (hkeys : (l.map key).Nodup) {lower : Option κ} {x : α}
    (hx : x ∈ after key lower l) :
    after key lower (before key (some (key x)) l) = before key (some (key x)) (after key lower l) := by
  cases lower with
  | none => rfl
  | some k =>
    by_cases hk : ∃ y ∈ l, key y = k
    · obtain ⟨y, hy, rfl⟩ := hk
      obtain ⟨pre, post, rfl, hpre, hpost⟩ := split_of_mem hkeys hy
      rw [after_append hpre] at hx ⊢
      obtain ⟨pre', post', rfl, hpre', _⟩ := split_of_mem
        (hkeys.sublist (((List.sublist_cons_self y post).trans (List.sublist_append_right _ _)).map key)) hx
      have hne : ∀ z ∈ pre ++ y :: pre', key z ≠ key x := by
        intro z hz heq
        have hsub : (key x) ∉ ((pre ++ y :: pre').map key) := by
          have hall := hkeys
          rw [show pre ++ y :: (pre' ++ x :: post') = (pre ++ y :: pre') ++ x :: post' by simp,
            List.map_append, List.map_cons] at hall
          exact fun hmem => (List.nodup_append.mp hall).2.2 _ hmem _ List.mem_cons_self rfl
        exact hsub (heq ▸ List.mem_map_of_mem hz)
      rw [before_append hpre', show pre ++ y :: (pre' ++ x :: post') = (pre ++ y :: pre') ++ x :: post' by simp,
        before_append hne, after_append hpre]
    · have hnone : ∀ y ∈ l, key y ≠ k := fun y hy heq => hk ⟨y, hy, heq⟩
      rw [after_of_not_mem hnone] at hx
      exact absurd hx List.not_mem_nil

/-- **A window that ends at one of its items** is what stands before that item in it. -/
theorem window_before {l : List α} (hkeys : (l.map key).Nodup) {lower upper : Option κ} {x : α}
    (hx : x ∈ window key lower upper l) :
    window key lower (some (key x)) l = before key (some (key x)) (window key lower upper l) := by
  have hmem : x ∈ before key upper l := (after_sublist lower _).subset hx
  have hkeys' : ((before key upper l).map key).Nodup := hkeys.sublist ((before_sublist upper l).map key)
  rw [window, before_before hkeys hmem, after_before hkeys' hx]
  rfl

/-! ### Neighbours -/

section Neighbours

variable {β : Type} [LinearOrder β] {stamp : α → β} {l : List α}

/-- Nothing stands between neighbours of an ordered list. -/
theorem not_between_neighbours (hsorted : l.Pairwise fun x y => stamp x ≤ stamp y) {x y : α}
    (h : (x, y) ∈ l.zip l.tail) : x ∈ l ∧ y ∈ l ∧ ∀ z ∈ l, stamp z ≤ stamp x ∨ stamp y ≤ stamp z := by
  induction l with
  | nil => exact absurd h List.not_mem_nil
  | cons a l ih =>
    obtain ⟨hfirst, hrest⟩ := List.pairwise_cons.mp hsorted
    cases l with
    | nil => exact absurd h List.not_mem_nil
    | cons b l =>
      rcases List.mem_cons.mp h with heq | hmem
      · obtain ⟨rfl, rfl⟩ := Prod.mk.inj heq
        refine ⟨List.mem_cons_self, List.mem_cons_of_mem _ List.mem_cons_self, ?_⟩
        intro z hz
        rcases List.mem_cons.mp hz with rfl | hz
        · exact Or.inl (le_refl _)
        · rcases List.mem_cons.mp hz with rfl | hz
          · exact Or.inr (le_refl _)
          · exact Or.inr ((List.pairwise_cons.mp hrest).1 z hz)
      · obtain ⟨hx, hy, hnone⟩ := ih hrest hmem
        refine ⟨List.mem_cons_of_mem _ hx, List.mem_cons_of_mem _ hy, ?_⟩
        intro z hz
        rcases List.mem_cons.mp hz with rfl | hz
        · exact Or.inl (hfirst x hx)
        · exact hnone z hz

/-- A value that is missing from the middle of an ordered list has neighbours. -/
theorem exists_neighbours (hsorted : l.Pairwise fun x y => stamp x ≤ stamp y) {m : β} (hmissing : ∀ z ∈ l, stamp z ≠ m)
    (hbelow : ∃ x ∈ l, stamp x < m) (habove : ∃ y ∈ l, m < stamp y) :
    ∃ x y, (x, y) ∈ l.zip l.tail ∧ stamp x < m ∧ m < stamp y := by
  induction l with
  | nil =>
    obtain ⟨x, hx, _⟩ := hbelow
    exact absurd hx List.not_mem_nil
  | cons a l ih =>
    obtain ⟨hfirst, hrest⟩ := List.pairwise_cons.mp hsorted
    have ha : stamp a < m := by
      obtain ⟨x, hx, hlt⟩ := hbelow
      rcases List.mem_cons.mp hx with rfl | hx
      · exact hlt
      · exact lt_of_le_of_lt (hfirst x hx) hlt
    obtain ⟨y, hy, hlt⟩ := habove
    have hyl : y ∈ l := (List.mem_cons.mp hy).resolve_left (by rintro rfl; exact lt_asymm ha hlt)
    cases l with
    | nil => exact absurd hyl List.not_mem_nil
    | cons b l =>
      by_cases hb : m < stamp b
      · exact ⟨a, b, List.mem_cons_self, ha, hb⟩
      · have hne := hmissing b (List.mem_cons_of_mem _ List.mem_cons_self)
        obtain ⟨x, z, hmem, hx, hz⟩ := ih hrest (fun z hz => hmissing z (List.mem_cons_of_mem _ hz))
          ⟨b, List.mem_cons_self, lt_of_le_of_ne (not_lt.mp hb) hne⟩ ⟨y, hyl, hlt⟩
        exact ⟨x, z, List.mem_cons_of_mem _ hmem, hx, hz⟩

omit [LinearOrder β] in
/-- Neighbours are related in the order of the list. -/
theorem rel_of_neighbours {r : α → α → Prop} (hpairs : l.Pairwise r) {x y : α} (h : (x, y) ∈ l.zip l.tail) :
    r x y := by
  induction l with
  | nil => exact absurd h List.not_mem_nil
  | cons a l ih =>
    obtain ⟨hfirst, hrest⟩ := List.pairwise_cons.mp hpairs
    cases l with
    | nil => exact absurd h List.not_mem_nil
    | cons b l =>
      rcases List.mem_cons.mp h with heq | hmem
      · obtain ⟨rfl, rfl⟩ := Prod.mk.inj heq
        exact hfirst _ List.mem_cons_self
      · exact ih hrest hmem

/-- An ordered list whose neighbours differ is strictly ordered. -/
theorem pairwise_lt_of_neighbours_ne (hsorted : l.Pairwise fun x y => stamp x ≤ stamp y)
    (hne : ∀ p ∈ l.zip l.tail, stamp p.2 ≠ stamp p.1) : l.Pairwise fun x y => stamp x < stamp y := by
  induction l with
  | nil => exact List.Pairwise.nil
  | cons a l ih =>
    obtain ⟨hfirst, hrest⟩ := List.pairwise_cons.mp hsorted
    cases l with
    | nil => exact List.pairwise_singleton _ a
    | cons b l =>
      have htail := ih hrest fun p hp => hne p (List.mem_cons_of_mem _ hp)
      have hab : stamp a < stamp b :=
        lt_of_le_of_ne (hfirst b List.mem_cons_self) (hne (a, b) List.mem_cons_self).symm
      refine List.pairwise_cons.mpr ⟨fun y hy => ?_, htail⟩
      rcases List.mem_cons.mp hy with rfl | hy
      · exact hab
      · exact lt_trans hab ((List.pairwise_cons.mp htail).1 y hy)

/-- Of two pairs of neighbours, the later begins where the earlier ends or above. -/
theorem pairwise_neighbours (hsorted : l.Pairwise fun x y => stamp x ≤ stamp y) :
    (l.zip l.tail).Pairwise fun p q => stamp p.2 ≤ stamp q.1 := by
  induction l with
  | nil => exact List.Pairwise.nil
  | cons a l ih =>
    have hrest := (List.pairwise_cons.mp hsorted).2
    cases l with
    | nil => exact List.Pairwise.nil
    | cons b l =>
      refine List.pairwise_cons.mpr ⟨fun q hq => ?_, ih hrest⟩
      obtain ⟨hmem, -⟩ := not_between_neighbours hrest hq
      rcases List.mem_cons.mp hmem with heq | hmem
      · rw [heq]
      · exact (List.pairwise_cons.mp hrest).1 _ hmem

end Neighbours

end Windows
