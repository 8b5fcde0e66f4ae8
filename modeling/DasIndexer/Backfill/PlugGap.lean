import Mathlib.Data.List.Basic
import Mathlib.Tactic.Common
import Mathlib.Algebra.Order.Ring.Int

/-!
# The slots that a gap is asked for by

`plug_gap` cuts the slots of a gap into ranges of at most 500000 for `getBlocks`.  Each range begins where the
one before it ends and is clamped at the end of the gap, but how many there are is the length of the gap
divided by 500000 and rounded to the nearest: where less than half a range is left over, the rest is never
asked for (`tail_is_dropped`).  **`plugs_whole_gap_iff`** has the exact lengths.

Slots are `i64`, whose arithmetic wraps in a release build, so that the last clamp and the rounding fail as
well at the far end of the type.
-/

namespace DasIndexer.Backfill

/-! ### The ranges -/

/-- The value of an `i64` operation. -/
def i64 (n : ℤ) : ℤ := Int.bmod n (2 ^ 64)

/-- `x as u64`. -/
def asU64 (n : ℤ) : ℕ := (n % 2 ^ 64).toNat

/-- The number of iterations for a gap of this length. -/
def numIter (diff : ℤ) : ℤ :=
  let n := (i64 (diff + 250000)).tdiv 500000
  if n = 0 then 1 else n

/-- The loop of `plug_gap`: the ranges that it asks for, given the iterations left and the next range. -/
def slotRanges (currSlot : ℤ) : ℕ → ℤ → ℤ → List (ℕ × ℕ)
  | 0, _, _ => []
  | n + 1, startSlot, endSlot =>
    (asU64 startSlot, asU64 endSlot) :: slotRanges currSlot n endSlot (min (i64 (endSlot + 500000)) currSlot)

/-- The ranges that `plug_gap` passes to `get_blocks`. -/
def plugGap (prevSlot currSlot : ℤ) : List (ℕ × ℕ) :=
  let diff := i64 (currSlot - prevSlot)
  slotRanges currSlot (numIter diff).toNat prevSlot (i64 (prevSlot + min 500000 diff))

/-- A slot is in one of the ranges. -/
def Asked (ranges : List (ℕ × ℕ)) (slot : ℕ) : Prop := ∃ r ∈ ranges, r.1 ≤ slot ∧ slot ≤ r.2

/-- The ranges are together the slots of the gap, and none of them is too long. -/
def PlugsWholeGap (prevSlot currSlot : ℤ) : Prop :=
  (∀ slot : ℕ, Asked (plugGap prevSlot currSlot) slot ↔ prevSlot ≤ slot ∧ slot ≤ currSlot) ∧
    ∀ r ∈ plugGap prevSlot currSlot, r.2 ≤ r.1 + 500000

/-! ### Arithmetic of the machine -/

theorem i64_eq_self {n : ℤ} (h : 0 ≤ n) (hn : n < 2 ^ 63) : i64 n = n := by
  simp only [i64, Int.bmod, Nat.cast_pow, Nat.cast_ofNat]
  split <;> omega

/-- Past the greatest value the result is negative. -/
theorem i64_eq_sub {n : ℤ} (h : 2 ^ 63 ≤ n) (hn : n < 2 ^ 64) : i64 n = n - 2 ^ 64 := by
  simp only [i64, Int.bmod, Nat.cast_pow, Nat.cast_ofNat]
  split <;> omega

theorem asU64_eq {n : ℤ} (h : 0 ≤ n) (hn : n < 2 ^ 64) : (asU64 n : ℤ) = n := by
  unfold asU64
  omega

theorem asU64_sub {n : ℤ} (h : 2 ^ 63 ≤ n) (hn : n < 2 ^ 64) : (asU64 (n - 2 ^ 64) : ℤ) = n := by
  unfold asU64
  omega

/-- Rounding to the nearest, but at least one. -/
theorem numIter_eq {diff : ℤ} (h : 0 ≤ diff) (hn : diff + 250000 < 2 ^ 63) :
    numIter diff = max 1 ((diff + 250000) / 500000) := by
  simp only [numIter]
  rw [i64_eq_self (by omega) hn, Int.tdiv_eq_ediv_of_nonneg (by omega)]
  split <;> omega

/-- A gap that is too long for the rounding is not asked for at all. -/
theorem numIter_neg {diff : ℤ} (h : diff < 2 ^ 63) (hn : 2 ^ 63 ≤ diff + 250000) : numIter diff < 0 := by
  have hneg : (diff + 250000 - 2 ^ 64).tdiv 500000 < 0 := by
    rw [show diff + 250000 - 2 ^ 64 = -(2 ^ 64 - (diff + 250000)) by omega, Int.neg_tdiv,
      Int.tdiv_eq_ediv_of_nonneg (by omega)]
    omega
  simp only [numIter]
  rw [i64_eq_sub hn (by omega)]
  split <;> omega

/-! ### What a number of ranges covers -/

/-- A few ranges from `start` on, all of them below the end of the type: they are consecutive, and the last
ends after `n` times 500000 slots or at the end of the gap. -/
theorem slotRanges_covers {curr : ℤ} (hcurr : curr < 2 ^ 63) (n : ℕ) {start : ℤ} (h0 : 0 ≤ start)
    (hstart : start ≤ curr) (hfits : n = 0 ∨ start + 500000 * (n + 1) < 2 ^ 63) :
    (∀ slot : ℕ, Asked (slotRanges curr (n + 1) start (min (start + 500000) curr)) slot
        ↔ start ≤ slot ∧ slot ≤ min (start + 500000 * (n + 1)) curr) ∧
      ∀ r ∈ slotRanges curr (n + 1) start (min (start + 500000) curr), r.2 ≤ r.1 + 500000 := by
  induction n generalizing start with
  | zero =>
    have hs := asU64_eq h0 (by omega)
    have he := asU64_eq (n := min (start + 500000) curr) (by omega) (by omega)
    refine ⟨fun slot => ?_, fun r hr => ?_⟩
    · rw [slotRanges, slotRanges, Asked, List.exists_mem_cons_iff]
      simp only [List.not_mem_nil, false_and, exists_false, or_false]
      push_cast
      omega
    · rw [slotRanges, slotRanges, List.mem_singleton] at hr
      subst hr
      show asU64 _ ≤ asU64 _ + 500000
      omega
  | succ n ih =>
    have hfits' : start + 500000 * (n + 1 + 1) < 2 ^ 63 := by
      rcases hfits with hzero | hlt
      · cases hzero
      · push_cast at hlt
        exact hlt
    have hs := asU64_eq h0 (by omega)
    have he := asU64_eq (n := min (start + 500000) curr) (by omega) (by omega)
    have hnext := i64_eq_self (n := min (start + 500000) curr + 500000) (by omega) (by omega)
    obtain ⟨hcovers, hshort⟩ := @ih (min (start + 500000) curr) (by omega) (by omega) (Or.inr (by omega))
    rw [slotRanges, hnext]
    refine ⟨fun slot => ?_, fun r hr => ?_⟩
    · rw [Asked, List.exists_mem_cons_iff]
      change _ ∨ Asked _ slot ↔ _
      rw [hcovers slot]
      push_cast
      omega
    · rcases List.mem_cons.mp hr with rfl | hr
      · show asU64 _ ≤ asU64 _ + 500000
        omega
      · exact hshort r hr

/-- Where the last range would end past the greatest slot, the addition wraps and the clamp takes the negative
sum: the range goes past the gap. -/
theorem slotRanges_wraps {curr : ℤ} (hcurr : curr < 2 ^ 63) (n : ℕ) {start : ℤ} (h0 : 0 ≤ start)
    (hstart : start + 500000 * (n + 1) ≤ curr) (hwraps : 2 ^ 63 ≤ start + 500000 * (n + 2)) :
    ∃ slot : ℕ, Asked (slotRanges curr (n + 2) start (min (start + 500000) curr)) slot ∧ curr < slot := by
  induction n generalizing start with
  | zero =>
    have hs := asU64_eq (n := start + 500000) (by omega) (by omega)
    have he := asU64_sub (n := start + 500000 + 500000) (by omega) (by omega)
    refine ⟨asU64 (start + 500000 + 500000 - 2 ^ 64), ?_, by omega⟩
    rw [min_eq_left (by omega), slotRanges, slotRanges, i64_eq_sub (by omega) (by omega), min_eq_left (by omega)]
    refine ⟨_, List.mem_cons_of_mem _ List.mem_cons_self, ?_, le_rfl⟩
    show asU64 _ ≤ asU64 _
    omega
  | succ n ih =>
    push_cast at hstart hwraps
    have hnext := i64_eq_self (n := start + 500000 + 500000) (by omega) (by omega)
    obtain ⟨slot, ⟨r, hr, hin⟩, hlt⟩ := @ih (start + 500000) (by omega) (by omega) (by omega)
    refine ⟨slot, ⟨r, ?_, hin⟩, hlt⟩
    rw [min_eq_left (show start + 500000 ≤ curr by omega), slotRanges, hnext]
    exact List.mem_cons_of_mem _ hr

/-! ### The lengths that are asked for whole -/

/-- The iterations of a gap that is not too long for the rounding. -/
theorem plugGap_eq {prev curr : ℤ} (h0 : 0 ≤ prev) (hle : prev ≤ curr) (hcurr : curr < 2 ^ 63)
    (hfits : curr - prev + 250000 < 2 ^ 63) :
    plugGap prev curr = slotRanges curr (max 1 ((curr - prev + 250000) / 500000)).toNat prev
      (min (prev + 500000) curr) := by
  have hdiff := i64_eq_self (n := curr - prev) (by omega) (by omega)
  have hend := i64_eq_self (n := prev + min 500000 (curr - prev)) (by omega) (by omega)
  simp only [plugGap]
  rw [hdiff, hend, numIter_eq (by omega) hfits]
  congr 1
  omega

/-- **Which gaps are asked for whole.**  Those of less than a range, and of the longer ones those where nothing
is left over after the last whole range, or at least half of one and the range that it is rounded up to ends
before the greatest slot. -/
theorem plugs_whole_gap_iff {prev curr : ℤ} (h0 : 0 ≤ prev) (hle : prev ≤ curr) (hcurr : curr < 2 ^ 63) :
    PlugsWholeGap prev curr ↔ curr - prev < 500000 ∨ (curr - prev + 250000 < 2 ^ 63 ∧
      ((curr - prev) % 500000 = 0 ∨
        (250000 ≤ (curr - prev) % 500000 ∧ curr + 500000 - (curr - prev) % 500000 < 2 ^ 63))) := by
  rcases lt_or_ge (curr - prev + 250000) (2 ^ 63) with hfits | hlong
  · obtain ⟨n, hn⟩ : ∃ n : ℕ, max 1 ((curr - prev + 250000) / 500000) = n + 1 :=
      ⟨(max 1 ((curr - prev + 250000) / 500000) - 1).toNat, by omega⟩
    have hranges := plugGap_eq h0 hle hcurr hfits
    rw [hn, show ((n : ℤ) + 1).toNat = n + 1 by omega] at hranges
    by_cases hends : n = 0 ∨ prev + 500000 * (n + 1) < 2 ^ 63
    · -- no addition wraps: the ranges end at the gap's end or where the iterations do
      obtain ⟨hcovers, hshort⟩ := slotRanges_covers hcurr n h0 hle hends
      rw [← hranges] at hcovers hshort
      constructor
      · intro hwhole
        have hlast := ((hcovers curr.toNat).mp ((hwhole.1 curr.toNat).mpr (by omega))).2
        omega
      · intro hlength
        refine ⟨fun slot => ?_, hshort⟩
        rw [hcovers slot]
        omega
    · obtain ⟨m, rfl⟩ : ∃ m, n = m + 1 := ⟨n - 1, by omega⟩
      push_cast at hn hends
      obtain ⟨slot, hasked, hpast⟩ := slotRanges_wraps hcurr m h0 (by omega) (by omega)
      rw [← hranges] at hasked
      constructor
      · intro hwhole
        have hin := (hwhole.1 slot).mp hasked
        omega
      · omega
  · -- the rounding wraps: there is no iteration
    have hdiff := i64_eq_self (n := curr - prev) (by omega) (by omega)
    have hnone : plugGap prev curr = [] := by
      have hneg : numIter (curr - prev) < 0 := numIter_neg (by omega) hlong
      simp only [plugGap]
      rw [hdiff, show (numIter (curr - prev)).toNat = 0 by omega]
      rfl
    constructor
    · intro hwhole
      obtain ⟨r, hr, -⟩ := (hwhole.1 prev.toNat).mpr (by omega)
      rw [hnone] at hr
      exact absurd hr List.not_mem_nil
    · omega

/-- A gap of three ranges and a half. -/
theorem rounded_up_is_whole :
    (0 : ℤ) ≤ 100 ∧ (100 : ℤ) ≤ 1750100 ∧ (1750100 : ℤ) < 2 ^ 63 ∧ PlugsWholeGap 100 1750100 :=
  ⟨by decide, by decide, by decide, (plugs_whole_gap_iff (by decide) (by decide) (by decide)).mpr (by decide)⟩

/-- Of a gap of 600000 slots the last 100000 are not asked for. -/
theorem tail_is_dropped : ¬ ∀ prev curr : ℤ, 0 ≤ prev → prev ≤ curr → curr < 2 ^ 63 → PlugsWholeGap prev curr := by
  intro hall
  obtain ⟨r, hr, -, hend⟩ := ((hall 0 600000 (by decide) (by decide) (by decide)).1 600000).mpr (by decide)
  have hranges : plugGap 0 600000 = [(0, 500000)] := by decide
  rw [hranges, List.mem_singleton] at hr
  subst hr
  exact absurd hend (by decide)

end DasIndexer.Backfill
