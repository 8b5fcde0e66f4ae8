import DasIndexer.Dapi.ChangeLogs
import Mathlib.Data.Nat.Bitwise

/-!
# The indexes of a proof

`get_required_nodes_for_proof` walks from a node to the root by halving, and at each step writes down the other
child of the same parent.  `requiredNodesLoop` is the loop with its vector and with the overflow checks of 64-bit
arithmetic; none of them fails, up to the largest index, and the outcome is the list that proofs are served from
(`requiredNodesLoop_eq`).

Seen from the binary digits of the index, that list is `index >> k` with its lowest digit flipped, level by
level, and then 1: **`required_nodes_spec`**.
-/

namespace DasIndexer.Dapi

/-! ### Siblings by their digits -/

/-- The nodes on the way from a node to the root. -/
def IsAncestor (a n : ℕ) : Prop := ∃ j, a = n >>> j

theorem xor_one (m : ℕ) : m ^^^ 1 = if m % 2 = 0 then m + 1 else m - 1 := by
  by_cases heven : m % 2 = 0
  · rw [if_pos heven, Nat.xor_one_of_even (Nat.even_iff.mpr heven)]
  · rw [if_neg heven, Nat.xor_one_of_odd (Nat.odd_iff.mpr (by omega))]

theorem log2_of_two_le {m : ℕ} (h : 2 ≤ m) : m.log2 = (m / 2).log2 + 1 := by
  rw [Nat.log2_def, if_pos h]

/-- A node and its sibling are on one level. -/
theorem log2_xor_one {m : ℕ} (h : 2 ≤ m) : (m ^^^ 1).log2 = m.log2 := by
  have hsibling : 2 ≤ m ^^^ 1 := by
    rw [xor_one]
    split <;> omega
  have hhalf : (m ^^^ 1) / 2 = m / 2 := by
    rw [Nat.xor_div_two]
    simp
  rw [log2_of_two_le hsibling, log2_of_two_le h, hhalf]

/-- Each step up is one level. -/
theorem log2_shiftRight {n k : ℕ} (h : k ≤ n.log2) : (n >>> k).log2 = n.log2 - k := by
  induction k with
  | zero => rfl
  | succ k ih =>
    have hlevel := ih (by omega)
    have htwo : 2 ≤ n >>> k := by
      by_contra hlt
      have hzero : (n >>> k).log2 = 0 := by rw [Nat.log2_def, if_neg hlt]
      omega
    rw [Nat.shiftRight_succ]
    have hstep := log2_of_two_le htwo
    omega

theorem two_le_shiftRight {n k : ℕ} (h : k < n.log2) : 2 ≤ n >>> k := by
  by_contra hlt
  have hlevel := log2_shiftRight (le_of_lt h)
  rw [Nat.log2_def, if_neg hlt] at hlevel
  omega

/-- The sibling of a node on the way up is on another way. -/
theorem sibling_not_ancestor {n k : ℕ} (h : k < n.log2) : ¬ IsAncestor (n >>> k ^^^ 1) n := by
  rintro ⟨j, hj⟩
  have htwo := two_le_shiftRight h
  have hlevel := log2_xor_one htwo
  rw [log2_shiftRight (le_of_lt h), hj] at hlevel
  by_cases hle : j ≤ n.log2
  · rw [log2_shiftRight hle] at hlevel
    have hjk : j = k := by omega
    rw [hjk, xor_one] at hj
    split at hj <;> omega
  · have hzero : n >>> j = 0 := by
      rw [Nat.shiftRight_eq_div_pow]
      refine Nat.div_eq_of_lt (lt_of_lt_of_le Nat.lt_log2_self ?_)
      exact Nat.pow_le_pow_right two_pos (by omega)
    rw [hzero, xor_one] at hj
    split at hj <;> omega

/-- The siblings of the nodes on the way up, bottom-up. -/
def siblings (n : ℕ) : List ℕ := (List.range n.log2).map fun k => n >>> k ^^^ 1

theorem siblings_succ {n : ℕ} (h : 2 ≤ n) : siblings n = (n ^^^ 1) :: siblings (n / 2) := by
  have hrest : ∀ k, n >>> (k + 1) = (n / 2) >>> k := Nat.shiftRight_succ_inside n
  rw [siblings, log2_of_two_le h, List.range_succ_eq_map, List.map_cons, List.map_map]
  simp only [Function.comp_def, Nat.succ_eq_add_one, hrest]
  rfl

theorem length_siblings (n : ℕ) : (siblings n).length = n.log2 := by
  rw [siblings, List.length_map, List.length_range]

theorem getElem?_siblings {n k : ℕ} (h : k < n.log2) : (siblings n)[k]? = some (n >>> k ^^^ 1) := by
  rw [siblings, List.getElem?_map, List.getElem?_range h]
  rfl

/-- One sibling is on each level, and none on the level of the root. -/
theorem nodup_siblings_root (n : ℕ) : (siblings n ++ [1]).Nodup := by
  have hlevels : (siblings n ++ [1]).map Nat.log2 = (List.range n.log2).map (fun k => n.log2 - k) ++ [0] := by
    rw [siblings, List.map_append, List.map_map]
    refine congrArg₂ _ (List.map_congr_left fun k hk => ?_) rfl
    have hk' : k < n.log2 := List.mem_range.mp hk
    show (n >>> k ^^^ 1).log2 = n.log2 - k
    rw [log2_xor_one (two_le_shiftRight hk'), log2_shiftRight (le_of_lt hk')]
  refine List.Nodup.of_map Nat.log2 ?_
  rw [hlevels, List.nodup_append]
  refine ⟨?_, List.nodup_singleton 0, ?_⟩
  · refine List.Nodup.map_on (fun a ha b hb hab => ?_) List.nodup_range
    have ha' := List.mem_range.mp ha
    have hb' := List.mem_range.mp hb
    omega
  · intro level hlevel root hroot
    obtain ⟨k, hk, rfl⟩ := List.mem_map.mp hlevel
    obtain rfl := List.mem_singleton.mp hroot
    have hk' := List.mem_range.mp hk
    omega

/-! ### The loop -/

/-- A 64-bit sum or difference; a build with overflow checks panics for the others. -/
def checked (n : ℤ) : Option ℤ := if -2 ^ 63 ≤ n ∧ n < 2 ^ 63 then some n else none

theorem shiftRight_one (n : ℤ) : n >>> (1 : ℕ) = n / 2 := by
  rw [Int.shiftRight_eq_div_pow]
  rfl

/-- The loop of `get_required_nodes_for_proof`, with the vector `indexes`. -/
def requiredNodesLoop (indexes : List ℤ) (idx : ℤ) : Option (List ℤ) :=
  if 1 < idx then
    (if idx % 2 = 0 then checked (idx + 1) else checked (idx - 1)).bind fun index =>
      requiredNodesLoop (indexes ++ [index]) (idx >>> (1 : ℕ))
  else some (indexes ++ [1])
termination_by idx.toNat
decreasing_by
  rw [shiftRight_one]
  omega

/-- No step overflows, and the vector is what proofs are served from. -/
theorem requiredNodesLoop_eq (idx : ℤ) (indexes : List ℤ) (h : idx < 2 ^ 63) :
    requiredNodesLoop indexes idx = some (indexes ++ getRequiredNodesForProof idx) := by
  induction idx using getRequiredNodesForProof.induct generalizing indexes with
  | case1 idx hlt ih =>
    have hchecked : (if idx % 2 = 0 then checked (idx + 1) else checked (idx - 1))
        = some (if idx % 2 = 0 then idx + 1 else idx - 1) := by
      -- an even index is not the largest one
      split
      · exact if_pos ⟨by omega, by omega⟩
      · exact if_pos ⟨by omega, by omega⟩
    rw [requiredNodesLoop, if_pos hlt, hchecked, Option.bind_some, shiftRight_one, ih _ (by omega),
      getRequiredNodesForProof_of_lt hlt, List.append_assoc]
    rfl
  | case2 idx hle =>
    rw [requiredNodesLoop, if_neg hle, getRequiredNodesForProof, if_neg hle]

/-- The required nodes of an index by its digits. -/
theorem getRequiredNodesForProof_digits {n : ℕ} (h : 1 ≤ n) :
    getRequiredNodesForProof n = (siblings n ++ [1]).map Nat.cast := by
  induction n using Nat.strong_induction_on with
  | _ n ih =>
    by_cases hone : n = 1
    · subst hone
      exact getRequiredNodesForProof_one
    · have hlt : 1 < (n : ℤ) := by omega
      have hhalf : (n : ℤ) / 2 = ((n / 2 : ℕ) : ℤ) := by omega
      have hfirst : (if (n : ℤ) % 2 = 0 then (n : ℤ) + 1 else (n : ℤ) - 1) = ((n ^^^ 1 : ℕ) : ℤ) := by
        rw [xor_one]
        split <;> split <;> omega
      rw [getRequiredNodesForProof_of_lt hlt, hhalf, ih (n / 2) (by omega) (by omega), hfirst,
        siblings_succ (by omega : 2 ≤ n)]
      rfl

/-- **The required nodes of an index**: the loop ends without an overflow, with the sibling of every node on
the way up, on its level, and the root; they are all different, and only the root is on the way up itself. -/
theorem required_nodes_spec (index : ℤ) (hpos : 1 ≤ index) (hi64 : index < 2 ^ 63) :
    let n := index.toNat
    ∃ nodes : List ℕ, requiredNodesLoop [] index = some (nodes.map Nat.cast) ∧
      nodes.length = n.log2 + 1 ∧
      (∀ k < n.log2, nodes[k]? = some (n >>> k ^^^ 1) ∧ (n >>> k ^^^ 1).log2 = (n >>> k).log2) ∧
      nodes.getLast? = some 1 ∧ nodes.Nodup ∧
      (∀ k < n.log2, ∀ a, nodes[k]? = some a → ¬ IsAncestor a n) := by
  intro n
  have hn : index = (n : ℤ) := (Int.toNat_of_nonneg (by omega)).symm
  have hone : 1 ≤ n := by omega
  have hget : ∀ k < n.log2, (siblings n ++ [1])[k]? = some (n >>> k ^^^ 1) := by
    intro k hk
    rw [List.getElem?_append_left (by rw [length_siblings]; exact hk), getElem?_siblings hk]
  refine ⟨siblings n ++ [1], ?_, ?_, ?_, List.getLast?_concat, nodup_siblings_root n, ?_⟩
  · rw [requiredNodesLoop_eq index [] hi64, hn, getRequiredNodesForProof_digits hone, List.nil_append]
  · rw [List.length_append, length_siblings, List.length_singleton]
  · exact fun k hk => ⟨hget k hk, log2_xor_one (two_le_shiftRight hk)⟩
  · intro k hk a ha
    rw [hget k hk, Option.some.injEq] at ha
    rw [← ha]
    exact sibling_not_ancestor hk

/-- The largest index. -/
theorem largest_index_spec :
    ∃ nodes : List ℕ, requiredNodesLoop [] (2 ^ 63 - 1) = some (nodes.map Nat.cast) ∧
      nodes.length = (2 ^ 63 - 1 : ℤ).toNat.log2 + 1 := by
  obtain ⟨nodes, hnodes, hlength, _⟩ := required_nodes_spec (2 ^ 63 - 1) (by norm_num) (by norm_num)
  exact ⟨nodes, hnodes, hlength⟩

end DasIndexer.Dapi
