import Mathlib.Data.List.Basic
import Mathlib.Logic.Function.Basic
import Mathlib.Tactic.Common
import Mathlib.Tactic.Ring

/-!
# Perfect binary hash trees

A tree of depth `d` over leaves `0 .. 2 ^ d - 1`, with nodes named by their level above the leaves and
their position on it.  The heap number of the node at level `l` and position `p` is `2 ^ (d - l) + p`:
the root is 1, the leaves start at `2 ^ d`, and halving a number is going up one level.

Three facts carry the rest: a node depends only on the leaves below it (`node_congr`), a subtree whose
leaves are all empty is the empty subtree of its height (`node_eq_empty`), and folding a leaf with the
siblings on its way up gives the root (`climb_siblings`).
-/

namespace HeapTree

variable {α : Type} (H : α → α → α)

/-- The node at a level and a position. -/
def node (leaf : ℕ → α) : ℕ → ℕ → α
  | 0, p => leaf p
  | l + 1, p => H (node leaf l (2 * p)) (node leaf l (2 * p + 1))

/-- The root of an untouched subtree of a height. -/
def empty (z : α) : ℕ → α
  | 0 => z
  | l + 1 => H (empty z l) (empty z l)

/-- The other child of the same parent. -/
def sibling (p : ℕ) : ℕ := if p % 2 = 0 then p + 1 else p - 1

/-- Fold a node with the siblings above it; the low bit of the index says on which side it stands. -/
def climb : ℕ → α → List α → α
  | _, x, [] => x
  | i, x, s :: ss => climb (i / 2) (if i % 2 = 0 then H x s else H s x) ss

/-! ### Nodes and their leaves -/

/-- A node depends only on the leaves below it. -/
theorem node_congr {f g : ℕ → α} (l p : ℕ) (h : ∀ q, q / 2 ^ l = p → f q = g q) :
    node H f l p = node H g l p := by
  induction l generalizing p with
  | zero => exact h p (by simp)
  | succ l ih =>
    have hbelow : ∀ c, c / 2 = p → node H f l c = node H g l c := by
      intro c hc
      apply ih
      intro q hq
      apply h
      rw [pow_succ, ← Nat.div_div_eq_div_mul, hq, hc]
    simp only [node]
    rw [hbelow (2 * p) (by omega), hbelow (2 * p + 1) (by omega)]

theorem node_const (z : α) (l p : ℕ) : node H (fun _ => z) l p = empty H z l := by
  induction l generalizing p with
  | zero => rfl
  | succ l ih => simp only [node, empty, ih]

/-- A subtree with empty leaves is the empty subtree. -/
theorem node_eq_empty {f : ℕ → α} {z : α} (l p : ℕ) (h : ∀ q, q / 2 ^ l = p → f q = z) :
    node H f l p = empty H z l := by
  rw [node_congr H l p h, node_const]

/-- A node and its sibling make their parent. -/
theorem join_sibling (f : ℕ → α) (l p : ℕ) :
    (if p % 2 = 0 then H (node H f l p) (node H f l (sibling p))
      else H (node H f l (sibling p)) (node H f l p)) = node H f (l + 1) (p / 2) := by
  rw [node]
  by_cases hp : p % 2 = 0
  · rw [if_pos hp, sibling, if_pos hp, show p + 1 = 2 * (p / 2) + 1 from by omega,
      show p = 2 * (p / 2) from by omega, show 2 * (2 * (p / 2) / 2) = 2 * (p / 2) from by omega]
  · rw [if_neg hp, sibling, if_neg hp, show p - 1 = 2 * (p / 2) from by omega]
    congr 2
    omega

/-- The siblings on the way up from a node, level by level. -/
def siblingsAbove (f : ℕ → α) (l p m : ℕ) : List α :=
  (List.range m).map fun t => node H f (l + t) (sibling (p / 2 ^ t))

/-- **Climbing reaches the root.** -/
theorem climb_siblings (f : ℕ → α) (l p m : ℕ) :
    climb H (2 ^ m + p) (node H f l p) (siblingsAbove H f l p m) = node H f (l + m) (p / 2 ^ m) := by
  induction m generalizing l p with
  | zero => simp [siblingsAbove, climb]
  | succ m ih =>
    have hlist : siblingsAbove H f l p (m + 1)
        = node H f l (sibling p) :: siblingsAbove H f (l + 1) (p / 2) m := by
      rw [siblingsAbove, List.range_succ_eq_map, List.map_cons, List.map_map]
      congr 1
      · simp
      · apply List.map_congr_left
        intro t _
        simp only [Function.comp_def]
        rw [show l + (t + 1) = l + 1 + t from by omega, Nat.div_div_eq_div_mul, ← pow_succ']
    have hhalf : (2 ^ (m + 1) + p) / 2 = 2 ^ m + p / 2 := by
      rw [pow_succ]
      omega
    have hbit : (2 ^ (m + 1) + p) % 2 = p % 2 := by
      rw [pow_succ]
      omega
    rw [hlist, climb, hhalf, hbit, join_sibling, ih,
      show l + 1 + m = l + (m + 1) from by omega, Nat.div_div_eq_div_mul, ← pow_succ']

/-! ### Heap numbers -/

/-- A heap number determines the level and the position. -/
theorem index_inj {a b p q : ℕ} (hp : p < 2 ^ a) (hq : q < 2 ^ b) (h : 2 ^ a + p = 2 ^ b + q) :
    a = b ∧ p = q := by
  have hab : a = b := by
    rcases Nat.lt_trichotomy a b with hlt | heq | hgt
    · have hpow : 2 ^ (a + 1) ≤ 2 ^ b := Nat.pow_le_pow_right (by omega) hlt
      rw [pow_succ] at hpow
      omega
    · exact heq
    · have hpow : 2 ^ (b + 1) ≤ 2 ^ a := Nat.pow_le_pow_right (by omega) hgt
      rw [pow_succ] at hpow
      omega
  subst hab
  exact ⟨rfl, by omega⟩

/-- Going up `l` levels from a leaf. -/
theorem index_div {d l : ℕ} (h : l ≤ d) (j : ℕ) : (2 ^ d + j) / 2 ^ l = 2 ^ (d - l) + j / 2 ^ l := by
  have hpow : 2 ^ d = 2 ^ l * 2 ^ (d - l) := by
    rw [← pow_add]
    congr 1
    omega
  rw [hpow, Nat.mul_add_div (Nat.two_pow_pos l)]

theorem position_lt {d l j : ℕ} (hl : l ≤ d) (hj : j < 2 ^ d) : j / 2 ^ l < 2 ^ (d - l) := by
  rw [Nat.div_lt_iff_lt_mul (Nat.two_pow_pos l), ← pow_add]
  rwa [show d - l + l = d from by omega]

theorem sibling_lt {a p : ℕ} (ha : 0 < a) (hp : p < 2 ^ a) : sibling p < 2 ^ a := by
  obtain ⟨b, rfl⟩ : ∃ b, a = b + 1 := ⟨a - 1, by omega⟩
  rw [pow_succ] at hp ⊢
  unfold sibling
  split <;> omega

/-! ### A history of leaf writes -/

/-- The leaves after some writes. -/
def leaves (z : α) (ws : List (ℕ × α)) : ℕ → α :=
  ws.foldl (fun f w => Function.update f w.1 w.2) fun _ => z

theorem leaves_append (z : α) (ws vs : List (ℕ × α)) (q : ℕ) (h : ∀ v ∈ vs, v.1 ≠ q) :
    leaves z (ws ++ vs) q = leaves z ws q := by
  have hfold : ∀ f : ℕ → α, vs.foldl (fun f w => Function.update f w.1 w.2) f q = f q := by
    induction vs with
    | nil => exact fun _ => rfl
    | cons v vs ih =>
      intro f
      rw [List.foldl_cons, ih fun v' hv' => h v' (List.mem_cons_of_mem _ hv')]
      exact Function.update_of_ne (Ne.symm (h v List.mem_cons_self)) _ _
  rw [leaves, List.foldl_append, hfold]
  rfl

/-- A subtree that no write touches is empty. -/
theorem node_leaves_eq_empty {z : α} {ws : List (ℕ × α)} {l p : ℕ}
    (h : ∀ w ∈ ws, w.1 / 2 ^ l ≠ p) : node H (leaves z ws) l p = empty H z l := by
  apply node_eq_empty
  intro q hq
  refine leaves_append z [] ws q fun w hw heq => h w hw ?_
  rw [heq, hq]

/-- A node is as it was at any time after which no write touches its subtree. -/
theorem node_leaves_take {z : α} {ws : List (ℕ × α)} {l p k : ℕ}
    (h : ∀ w ∈ ws.drop k, w.1 / 2 ^ l ≠ p) :
    node H (leaves z (ws.take k)) l p = node H (leaves z ws) l p := by
  apply node_congr
  intro q hq
  have happ := leaves_append z (ws.take k) (ws.drop k) q fun w hw heq => h w hw (by rw [heq, hq])
  rw [List.take_append_drop] at happ
  exact happ.symm

end HeapTree
