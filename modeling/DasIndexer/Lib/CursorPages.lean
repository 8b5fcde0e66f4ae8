import Mathlib.Data.List.Basic
import Mathlib.Data.List.Nodup
import Mathlib.Order.RelClasses
import Mathlib.Tactic.Common

/-!
# Reading a list in pages

An ordered list of rows is read in pages.  A page is made of the next `limit` rows, and shows the keys of some
of them; the next page begins after the last key that was shown, and a page that shows nothing is the last one.
Which rows are shown may depend on the page: `shows page k`.

**`mem_pages_iff`** says when all that is wanted has been shown at the end: exactly when the rows are
`PagedOut`, a page at a time.  **`pagedOut_iff`** is for pages that show a row or not whatever stands beside
it: exactly when no stretch of `limit` rows that are not shown stands before one that is.
-/

namespace CursorPages

variable {α κ : Type} (key : α → κ) (lt : κ → κ → Prop) [DecidableRel lt] (items : List α → List κ)
  (limit : ℕ)

/-- The rows after a key. -/
def after (c : κ) (rows : List α) : List α := rows.filter fun x => decide (lt c (key x))

/-- Read page after page; nothing where the fuel does not suffice. -/
def pages : ℕ → List α → Option (List κ)
  | 0, _ => none
  | fuel + 1, rows =>
    match (items (rows.take limit)).getLast? with
    | none => some []
    | some c => (pages fuel (after key lt c rows)).map (items (rows.take limit) ++ ·)

/-- A page is made of keys of its rows, in their order and each once. -/
structure Assembles : Prop where
  mem : ∀ page k, k ∈ items page → ∃ x ∈ page, key x = k
  sorted : ∀ page : List α, (page.Pairwise fun x y => ¬ lt (key y) (key x)) → (items page).Pairwise lt

/-- Every page but the last shows something, and the rows that it passes over are not wanted. -/
inductive PagedOut (shows : List α → κ → Prop) (wanted : κ → Prop) : List α → Prop
  | done {rows : List α} : (∀ x ∈ rows, ¬ wanted (key x)) → PagedOut shows wanted rows
  | page {rows : List α} {c : κ} : shows (rows.take limit) c → (∀ k, shows (rows.take limit) k → ¬ lt c k) →
      (∀ x ∈ rows, wanted (key x) → ¬ lt c (key x) → shows (rows.take limit) (key x)) →
      PagedOut shows wanted (after key lt c rows) → PagedOut shows wanted rows

variable {key lt items limit}

theorem mem_after {c : κ} {rows : List α} {x : α} : x ∈ after key lt c rows ↔ x ∈ rows ∧ lt c (key x) := by
  rw [after, List.mem_filter, decide_eq_true_eq]

/-- What is after a key and after one above it. -/
theorem after_after [IsTrans κ lt] {c c' : κ} (h : lt c c') (rows : List α) :
    after key lt c' (after key lt c rows) = after key lt c' rows := by
  rw [after, after, List.filter_filter]
  refine List.filter_congr fun x _ => ?_
  by_cases hx : lt c' (key x)
  · rw [decide_eq_true hx, decide_eq_true (trans_of lt h hx)]
    rfl
  · rw [decide_eq_false hx, Bool.false_and]

theorem sorted_after {rows : List α} (hsorted : rows.Pairwise fun x y => ¬ lt (key y) (key x)) (c : κ) :
    (after key lt c rows).Pairwise fun x y => ¬ lt (key y) (key x) :=
  hsorted.sublist List.filter_sublist

variable [IsStrictTotalOrder κ lt]

omit [DecidableRel lt] in
/-- The last key of a page stands above the others. -/
theorem Assembles.not_lt (h : Assembles key lt items) {page : List α} {c : κ}
    (hsorted : page.Pairwise fun x y => ¬ lt (key y) (key x)) (hc : (items page).getLast? = some c) {k : κ}
    (hk : k ∈ items page) : ¬ lt c k := by
  intro hlt
  have hitems := h.sorted page hsorted
  obtain ⟨front, hfront⟩ := List.getLast?_eq_some_iff.mp hc
  rw [hfront] at hk hitems
  rcases List.mem_append.mp hk with hk | hk
  · have hkc : lt k c := (List.pairwise_append.mp hitems).2.2 k hk c (List.mem_singleton_self c)
    exact irrefl_of lt c (trans_of lt hlt hkc)
  · exact irrefl_of lt c (List.mem_singleton.mp hk ▸ hlt)

omit [DecidableRel lt] in
/-- A key that nothing shown is above is the last one. -/
theorem Assembles.getLast?_eq_some (h : Assembles key lt items) {page : List α} {c : κ}
    (hsorted : page.Pairwise fun x y => ¬ lt (key y) (key x)) (hc : c ∈ items page)
    (hmax : ∀ k ∈ items page, ¬ lt c k) : (items page).getLast? = some c := by
  cases hlast : (items page).getLast? with
  | none =>
    rw [List.getLast?_eq_none_iff.mp hlast] at hc
    exact absurd hc List.not_mem_nil
  | some c' =>
    have hle : ¬ lt c' c := h.not_lt hsorted hlast hc
    have hge : ¬ lt c c' := hmax c' (List.mem_of_getLast? hlast)
    rw [((trichotomous_of lt c c').resolve_left hge).resolve_right hle]

section Loop

variable (hshows : Assembles key lt items)
include hshows

theorem after_length_lt {rows : List α} {c : κ}
    (hc : (items (rows.take limit)).getLast? = some c) : (after key lt c rows).length < rows.length := by
  obtain ⟨x, hx, rfl⟩ := hshows.mem _ c (List.mem_of_getLast? hc)
  refine List.length_filter_lt_length_iff_exists.mpr ⟨x, List.mem_of_mem_take hx, ?_⟩
  rw [decide_eq_true_eq]
  exact irrefl_of lt (key x)

/-- The loop ends. -/
theorem pages_isSome (limit : ℕ) {fuel : ℕ} {rows : List α} (hfuel : rows.length < fuel) :
    ∃ out, pages key lt items limit fuel rows = some out := by
  induction fuel generalizing rows with
  | zero => omega
  | succ fuel ih =>
    cases hc : (items (rows.take limit)).getLast? with
    | none => exact ⟨[], by rw [pages, hc]⟩
    | some c =>
      have hlt := after_length_lt hshows hc
      have hfuel' : (after key lt c rows).length < fuel := by omega
      obtain ⟨out, hout⟩ := ih hfuel'
      exact ⟨items (rows.take limit) ++ out, by rw [pages, hc]; simp only [hout, Option.map_some]⟩

/-- What the loop shows: keys of the rows, each once. -/
theorem pages_sorted {fuel : ℕ} {rows : List α} {out : List κ}
    (hsorted : rows.Pairwise fun x y => ¬ lt (key y) (key x))
    (hout : pages key lt items limit fuel rows = some out) :
    out.Pairwise lt ∧ ∀ k ∈ out, ∃ x ∈ rows, key x = k := by
  induction fuel generalizing rows out with
  | zero => cases hout
  | succ fuel ih =>
    rw [pages] at hout
    split at hout
    · obtain rfl := Option.some.inj hout
      exact ⟨List.Pairwise.nil, fun k hk => absurd hk List.not_mem_nil⟩
    · rename_i c hc
      obtain ⟨rest, hrest, rfl⟩ := Option.map_eq_some_iff.mp hout
      obtain ⟨hrestSorted, hrestMem⟩ := ih (sorted_after hsorted c) hrest
      have hpage : (rows.take limit).Pairwise fun x y => ¬ lt (key y) (key x) :=
        hsorted.sublist (List.take_sublist _ _)
      constructor
      · refine List.pairwise_append.mpr ⟨hshows.sorted _ hpage, hrestSorted, ?_⟩
        intro a ha b hb
        obtain ⟨x, hx, rfl⟩ := hrestMem b hb
        have hcx := (mem_after.mp hx).2
        rcases trichotomous_of lt a c with hac | rfl | hca
        · exact trans_of lt hac hcx
        · exact hcx
        · exact absurd hca (hshows.not_lt hpage hc ha)
      · intro k hk
        rcases List.mem_append.mp hk with hk | hk
        · obtain ⟨x, hx, hkey⟩ := hshows.mem _ k hk
          exact ⟨x, List.mem_of_mem_take hx, hkey⟩
        · obtain ⟨x, hx, hkey⟩ := hrestMem k hk
          exact ⟨x, (mem_after.mp hx).1, hkey⟩

theorem pages_nodup {fuel : ℕ} {rows : List α} {out : List κ}
    (hsorted : rows.Pairwise fun x y => ¬ lt (key y) (key x))
    (hout : pages key lt items limit fuel rows = some out) : out.Nodup := by
  refine List.Pairwise.imp ?_ (pages_sorted hshows hsorted hout).1
  intro a b hlt heq
  exact irrefl_of lt b (heq ▸ hlt)

section Pages

variable {all : List α} {shows : List α → κ → Prop}
  (hitems : ∀ page, page ⊆ all → ∀ k, k ∈ items page ↔ shows page k)
include hitems

/-- **All that is wanted has been shown at the end** exactly when the rows are paged out. -/
theorem mem_pages_iff {wanted : κ → Prop} {fuel : ℕ} {rows : List α} {out : List κ} (hrows : rows ⊆ all)
    (hsorted : rows.Pairwise fun x y => ¬ lt (key y) (key x))
    (hout : pages key lt items limit fuel rows = some out) :
    (∀ x ∈ rows, wanted (key x) → key x ∈ out) ↔ PagedOut key lt limit shows wanted rows := by
  have hafter : ∀ {rows : List α}, rows ⊆ all → ∀ c, after key lt c rows ⊆ all :=
    fun hrows c x hx => hrows (mem_after.mp hx).1
  have hpage : ∀ {rows : List α}, rows ⊆ all → rows.take limit ⊆ all :=
    fun hrows x hx => hrows (List.mem_of_mem_take hx)
  constructor
  · intro hall
    induction fuel generalizing rows out with
    | zero => cases hout
    | succ fuel ih =>
      rw [pages] at hout
      split at hout
      · obtain rfl := Option.some.inj hout
        exact .done fun x hx hwanted => List.not_mem_nil (hall x hx hwanted)
      · rename_i c hc
        obtain ⟨rest, hrest, rfl⟩ := Option.map_eq_some_iff.mp hout
        have hrestMem := (pages_sorted hshows (sorted_after hsorted c) hrest).2
        have hmax : ∀ k ∈ items (rows.take limit), ¬ lt c k :=
          fun k hk => hshows.not_lt (hsorted.sublist (List.take_sublist _ _)) hc hk
        have hmem := hitems _ (hpage hrows)
        refine .page ((hmem c).mp (List.mem_of_getLast? hc)) (fun k hk => hmax k ((hmem k).mpr hk)) ?_
          (ih (hafter hrows c) (sorted_after hsorted c) hrest ?_)
        · intro x hx hwanted hnot
          refine (hmem _).mp ((List.mem_append.mp (hall x hx hwanted)).resolve_right fun hin => ?_)
          obtain ⟨y, hy, hkey⟩ := hrestMem _ hin
          exact hnot (hkey ▸ (mem_after.mp hy).2)
        · intro x hx hwanted
          obtain ⟨hx, hcx⟩ := mem_after.mp hx
          exact (List.mem_append.mp (hall x hx hwanted)).resolve_left fun hin => hmax _ hin hcx
  · intro hpaged
    induction hpaged generalizing fuel out with
    | done hnone => exact fun x hx hwanted => absurd hwanted (hnone x hx)
    | @page rows c hshown hmax hpassed _ ih =>
      intro x hx hwanted
      cases fuel with
      | zero => cases hout
      | succ fuel =>
        have hmem := hitems _ (hpage hrows)
        have hc : (items (rows.take limit)).getLast? = some c :=
          hshows.getLast?_eq_some (hsorted.sublist (List.take_sublist _ _)) ((hmem c).mpr hshown)
            fun k hk => hmax k ((hmem k).mp hk)
        rw [pages, hc] at hout
        obtain ⟨rest, hrest, rfl⟩ := Option.map_eq_some_iff.mp hout
        by_cases hcx : lt c (key x)
        · exact List.mem_append_right _
            (ih (hafter hrows c) (sorted_after hsorted c) hrest x (mem_after.mpr ⟨hx, hcx⟩) hwanted)
        · exact List.mem_append_left _ ((hmem _).mpr (hpassed x hx hwanted hcx))

end Pages

end Loop

/-! ### Rows that are shown or not -/

section Keep

variable {keep : κ → Prop}

/-- No stretch of `limit` rows that are not shown stands before one that is. -/
def NoStretch (key : α → κ) (limit : ℕ) (keep : κ → Prop) (rows : List α) : Prop :=
  ∀ pre mid post, rows = pre ++ (mid ++ post) → mid.length = limit → (∀ x ∈ mid, ¬ keep (key x)) →
    ∀ x ∈ post, ¬ keep (key x)

/-- What is after a key is the end of an ordered list. -/
theorem exists_append_after {rows : List α} (hsorted : rows.Pairwise fun x y => ¬ lt (key y) (key x)) (c : κ) :
    ∃ front, rows = front ++ after key lt c rows := by
  induction rows with
  | nil => exact ⟨[], rfl⟩
  | cons x rows ih =>
    obtain ⟨hfirst, hrest⟩ := List.pairwise_cons.mp hsorted
    by_cases hx : lt c (key x)
    · have hall : ∀ y ∈ x :: rows, decide (lt c (key y)) = true := by
        intro y hy
        rw [decide_eq_true_eq]
        rcases List.mem_cons.mp hy with rfl | hy
        · exact hx
        · rcases trichotomous_of lt (key x) (key y) with hxy | hxy | hyx
          · exact trans_of lt hx hxy
          · exact hxy ▸ hx
          · exact absurd hyx (hfirst y hy)
      exact ⟨[], by rw [after, List.filter_eq_self.mpr hall, List.nil_append]⟩
    · obtain ⟨front, hfront⟩ := ih hrest
      refine ⟨x :: front, ?_⟩
      rw [after, List.filter_cons_of_neg (by simpa using hx), List.cons_append]
      exact congrArg (x :: ·) hfront

omit [DecidableRel lt] in
theorem exists_last_kept {page : List α} (hsorted : page.Pairwise fun x y => ¬ lt (key y) (key x))
    (keep : κ → Prop) : (∀ x ∈ page, ¬ keep (key x))
      ∨ ∃ y ∈ page, keep (key y) ∧ ∀ x ∈ page, keep (key x) → ¬ lt (key y) (key x) := by
  induction page with
  | nil => exact Or.inl fun x hx => absurd hx List.not_mem_nil
  | cons z page ih =>
    obtain ⟨hfirst, hrest⟩ := List.pairwise_cons.mp hsorted
    rcases ih hrest with hnone | ⟨y, hy, hkeepy, hmax⟩
    · by_cases hz : keep (key z)
      · refine Or.inr ⟨z, List.mem_cons_self, hz, ?_⟩
        intro x hx hkeepx
        rcases List.mem_cons.mp hx with rfl | hx
        · exact irrefl_of lt (key x)
        · exact absurd hkeepx (hnone x hx)
      · refine Or.inl fun x hx => ?_
        rcases List.mem_cons.mp hx with rfl | hx
        · exact hz
        · exact hnone x hx
    · refine Or.inr ⟨y, List.mem_cons_of_mem _ hy, hkeepy, ?_⟩
      intro x hx hkeepx
      rcases List.mem_cons.mp hx with rfl | hx
      · exact hfirst y hy
      · exact hmax x hx hkeepx

variable {all : List α} {shows : List α → κ → Prop}
  (hkeep : ∀ page, page ⊆ all → ∀ k, shows page k ↔ keep k ∧ ∃ x ∈ page, key x = k)
include hkeep

theorem noStretch_of_pagedOut (hlimit : 1 ≤ limit) {rows : List α} (hrows : rows ⊆ all)
    (hsorted : rows.Pairwise fun x y => ¬ lt (key y) (key x))
    (h : PagedOut key lt limit shows keep rows) : NoStretch key limit keep rows := by
  induction h with
  | done hnone =>
    rintro pre mid post rfl _ _ x hx
    exact hnone x (List.mem_append_right _ (List.mem_append_right _ hx))
  | @page rows c hshown _ _ _ ih =>
    rintro pre mid post rfl hmid hnot
    -- the row at which the next page begins is shown, and stands in the first `limit` rows: before the stretch
    obtain ⟨hkeepc, y, hy, rfl⟩ :=
      (hkeep _ (fun x hx => hrows (List.mem_of_mem_take hx)) c).mp hshown
    have hpre : y ∈ pre := by
      rw [← List.append_assoc, List.take_append_of_le_length (by rw [List.length_append]; omega)] at hy
      exact (List.mem_append.mp (List.mem_of_mem_take hy)).resolve_right fun hmem => hnot y hmem hkeepc
    obtain ⟨_, hback, hcross⟩ := List.pairwise_append.mp hsorted
    have habove : ∀ x ∈ mid, lt (key y) (key x) := by
      intro x hx
      rcases trichotomous_of lt (key y) (key x) with hlt | heq | hgt
      · exact hlt
      · exact absurd (heq ▸ hkeepc) (hnot x hx)
      · exact absurd hgt (hcross y hpre x (List.mem_append_left _ hx))
    have habove' : ∀ x ∈ mid ++ post, decide (lt (key y) (key x)) = true := by
      obtain ⟨m, hm⟩ := List.exists_mem_of_length_pos (l := mid) (by omega)
      intro x hx
      rw [decide_eq_true_eq]
      rcases List.mem_append.mp hx with hx | hx
      · exact habove x hx
      · have hmx : ¬ lt (key x) (key m) := (List.pairwise_append.mp hback).2.2 m hm x hx
        rcases trichotomous_of lt (key m) (key x) with hlt | heq | hgt
        · exact trans_of lt (habove m hm) hlt
        · exact heq ▸ habove m hm
        · exact absurd hgt hmx
    refine ih (fun x hx => hrows (mem_after.mp hx).1) (sorted_after hsorted _) (after key lt (key y) pre) mid post
      ?_ hmid hnot
    rw [after, List.filter_append, List.filter_eq_self.mpr habove']
    rfl

theorem pagedOut_of_noStretch {rows : List α} (hrows : rows ⊆ all)
    (hsorted : rows.Pairwise fun x y => ¬ lt (key y) (key x)) (h : NoStretch key limit keep rows) :
    PagedOut key lt limit shows keep rows := by
  induction hn : rows.length using Nat.strongRecOn generalizing rows with
  | _ n ih =>
    subst hn
    have hmem := hkeep (rows.take limit) fun x hx => hrows (List.mem_of_mem_take hx)
    have hpage : (rows.take limit).Pairwise fun x y => ¬ lt (key y) (key x) :=
      hsorted.sublist (List.take_sublist _ _)
    -- the last row of the page that is shown, if there is one
    rcases exists_last_kept hpage keep with hnone | ⟨y, hy, hkeepy, hmax⟩
    · refine .done fun x hx => ?_
      rw [← List.take_append_drop limit rows] at hx
      rcases List.mem_append.mp hx with hx | hx
      · exact hnone x hx
      · have hlen : (rows.take limit).length = limit := by
          have hpos := List.length_pos_of_mem hx
          rw [List.length_drop] at hpos
          rw [List.length_take]
          omega
        exact h [] (rows.take limit) (rows.drop limit) (by rw [List.nil_append, List.take_append_drop]) hlen
          hnone x hx
    · have hlt : (after key lt (key y) rows).length < rows.length := by
        refine List.length_filter_lt_length_iff_exists.mpr ⟨y, List.mem_of_mem_take hy, ?_⟩
        rw [decide_eq_true_eq]
        exact irrefl_of lt (key y)
      refine .page ((hmem _).mpr ⟨hkeepy, y, hy, rfl⟩) ?_ ?_
        (ih _ hlt (fun x hx => hrows (mem_after.mp hx).1) (sorted_after hsorted _) ?_ rfl)
      · intro k hk
        obtain ⟨hkeepk, x, hx, rfl⟩ := (hmem k).mp hk
        exact hmax x hx hkeepk
      · intro x hx hk hnot
        rcases trichotomous_of lt (key y) (key x) with hyx | heq | hxy
        · exact absurd hyx hnot
        · exact heq ▸ (hmem _).mpr ⟨hkeepy, y, hy, rfl⟩
        · -- what is below a row of the page is in the page
          have hsplit := hsorted
          rw [← List.take_append_drop limit rows] at hx hsplit
          have hin : x ∈ rows.take limit := (List.mem_append.mp hx).resolve_right fun hdrop =>
            (List.pairwise_append.mp hsplit).2.2 y hy x hdrop hxy
          exact (hmem _).mpr ⟨hk, x, hin, rfl⟩
      · obtain ⟨front, hfront⟩ := exists_append_after hsorted (key y)
        intro pre mid post heq
        refine h (front ++ pre) mid post ?_
        rw [List.append_assoc, ← heq]
        exact hfront

/-- **Where a row is shown or not whatever stands beside it**, the rows are paged out exactly when no stretch of
hidden rows fills a page before a row that is shown. -/
theorem pagedOut_iff (hlimit : 1 ≤ limit) {rows : List α} (hrows : rows ⊆ all)
    (hsorted : rows.Pairwise fun x y => ¬ lt (key y) (key x)) :
    PagedOut key lt limit shows keep rows ↔ NoStretch key limit keep rows :=
  ⟨noStretch_of_pagedOut hkeep hlimit hrows hsorted, pagedOut_of_noStretch hkeep hrows hsorted⟩

end Keep

end CursorPages
