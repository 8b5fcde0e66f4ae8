import DasIndexer.Backfill.PlugGap
import DasIndexer.Lib.Windows
import DasIndexer.Schema.Tables
import Mathlib.Data.List.Dedup
import Mathlib.Data.List.Sort

/-!
# The gaps of a tree in `backfill_items`

`get_missing_data` looks at the rows of a tree from the highest sequence number on that has been backfilled:
distinct pairs of sequence number and slot, in the order of the sequence numbers.  Where two neighbours differ
by more than one there is a gap, and where they agree the table contradicts itself.

The difference is computed in `i64`.  It wraps where two neighbours are 2^63 or more apart, which takes a
negative sequence number, and their gap is not seen (`wide_gap_is_missed`).  **`gaps_exact_iff`**: otherwise the
gaps are exactly what is missing.
-/

namespace DasIndexer.BackfillItems

open Backfill (i64)

/-! ### The rows -/

/-- A row of `backfill_items` with its key; the column `seq` is a `BIGINT`. -/
structure Model extends BackfillItemRow where
  id : ℤ
  seq_mem : -2 ^ 63 ≤ seq ∧ seq < 2 ^ 63

structure SimpleBackfillItem where
  seq : ℤ
  slot : ℤ
deriving DecidableEq

structure GapInfo where
  prev : SimpleBackfillItem
  curr : SimpleBackfillItem
deriving DecidableEq

/-- The columns that `get_missing_data` selects. -/
def Model.simple (r : Model) : SimpleBackfillItem := ⟨r.seq, r.slot⟩

/-- The first query of `get_missing_data`: the highest sequence number that has been backfilled. -/
def startSeq (tree : Bytes) (items : List Model) : ℤ :=
  ((((items.filter fun r => decide (r.tree = tree) && r.backfilled).map (·.seq)).insertionSort (· ≥ ·)).take
    1).getLast?.getD 0

/-- The second query of `get_missing_data`. -/
def rowsSince (tree : Bytes) (start : ℤ) (items : List Model) : List SimpleBackfillItem :=
  (((items.filter fun r => decide (start ≤ r.seq) && decide (r.tree = tree)).map Model.simple).dedup).insertionSort
    fun x y => x.seq ≤ y.seq

/-- The loop of `get_missing_data` over pairs of subsequent rows. -/
def gapsOf : List (SimpleBackfillItem × SimpleBackfillItem) → Except String (List GapInfo)
  | [] => .ok []
  | (prev, curr) :: pairs =>
    if curr.seq = prev.seq then
      .error s!"Error in DB, identical sequence numbers with different slots: {prev.slot}, {curr.slot}"
    else do
      let gaps ← gapsOf pairs
      if i64 (curr.seq - prev.seq) > 1 then .ok (⟨prev, curr⟩ :: gaps) else .ok gaps

/-- `get_missing_data`. -/
def getMissingData (tree : Bytes) (items : List Model) : Except String (Option ℤ × List GapInfo) := do
  let rows := rowsSince tree (startSeq tree items) items
  let gaps ← gapsOf (rows.zip rows.tail)
  .ok (rows.getLast?.map (·.seq), gaps)

/-! ### What is missing -/

/-- The sequence numbers and slots of the rows of a tree from its highest backfilled sequence number on, or
from zero where none has been backfilled. -/
def since (tree : Bytes) (items : List Model) : Set SimpleBackfillItem :=
  {x | ∃ r ∈ items, r.tree = tree ∧ r.simple = x ∧
    (∀ b ∈ items, b.tree = tree → b.backfilled = true → b.seq ≤ r.seq) ∧
    ((∀ b ∈ items, b.tree = tree → b.backfilled = false) → 0 ≤ r.seq)}

/-- A change in two slots. -/
def Conflict (S : Set SimpleBackfillItem) : Prop := ∃ x ∈ S, ∃ y ∈ S, x.seq = y.seq ∧ x.slot ≠ y.slot

/-- A number in the middle that is not that of a row. -/
def Missing (S : Set SimpleBackfillItem) (n : ℤ) : Prop :=
  (∃ x ∈ S, x.seq < n) ∧ (∃ y ∈ S, n < y.seq) ∧ ∀ z ∈ S, z.seq ≠ n

/-- A number strictly between the bounds of a gap. -/
def GapInfo.Inside (g : GapInfo) (n : ℤ) : Prop := g.prev.seq < n ∧ n < g.curr.seq

/-- The gaps of a set of rows. -/
structure AreGaps (S : Set SimpleBackfillItem) (gaps : List GapInfo) : Prop where
  disjoint : gaps.Pairwise fun g h => ∀ n, ¬ (g.Inside n ∧ h.Inside n)
  nonempty : ∀ g ∈ gaps, ∃ n, g.Inside n
  exact : ∀ n, (∃ g ∈ gaps, g.Inside n) ↔ Missing S n
  bounds : ∀ g ∈ gaps, g.prev ∈ S ∧ g.curr ∈ S

/-- The highest sequence number, if there is one. -/
def IsMaxSeq (S : Set SimpleBackfillItem) : Option ℤ → Prop
  | none => S = ∅
  | some m => (∃ x ∈ S, x.seq = m) ∧ ∀ x ∈ S, x.seq ≤ m

/-- What `get_missing_data` should return. -/
def Exact (S : Set SimpleBackfillItem) : Except String (Option ℤ × List GapInfo) → Prop
  | .error _ => Conflict S
  | .ok (maxSeq, gaps) => ¬ Conflict S ∧ IsMaxSeq S maxSeq ∧ AreGaps S gaps

/-- No two neighbours are so far apart that their difference wraps. -/
def NoWideGap (S : Set SimpleBackfillItem) : Prop :=
  ∀ x ∈ S, ∀ y ∈ S, x.seq + 2 ^ 63 ≤ y.seq → ∃ z ∈ S, x.seq < z.seq ∧ z.seq < y.seq

/-! ### What the queries return -/

section Queries

variable {tree : Bytes} {items : List Model}

theorem mem_backfilled {n : ℤ} :
    n ∈ (items.filter fun r => decide (r.tree = tree) && r.backfilled).map (·.seq)
      ↔ ∃ b ∈ items, b.tree = tree ∧ b.backfilled = true ∧ b.seq = n := by
  simp only [List.mem_map, List.mem_filter, Bool.and_eq_true, decide_eq_true_eq]
  constructor
  · intro ⟨b, ⟨hb, htree, hbackfilled⟩, hseq⟩
    exact ⟨b, hb, htree, hbackfilled, hseq⟩
  · intro ⟨b, hb, htree, hbackfilled, hseq⟩
    exact ⟨b, ⟨hb, htree, hbackfilled⟩, hseq⟩

/-- What is not below the start: what is not below any backfilled row, nor below zero if there is none. -/
theorem startSeq_le_iff {n : ℤ} :
    startSeq tree items ≤ n ↔ (∀ b ∈ items, b.tree = tree → b.backfilled = true → b.seq ≤ n) ∧
      ((∀ b ∈ items, b.tree = tree → b.backfilled = false) → 0 ≤ n) := by
  set seqs := (items.filter fun r => decide (r.tree = tree) && r.backfilled).map (·.seq) with hseqs
  have hsorted : (seqs.insertionSort (· ≥ ·)).Pairwise (· ≥ ·) := List.pairwise_insertionSort _ _
  have hmem : ∀ m, m ∈ seqs.insertionSort (· ≥ ·) ↔ ∃ b ∈ items, b.tree = tree ∧ b.backfilled = true ∧ b.seq = m :=
    fun m => (List.mem_insertionSort _).trans mem_backfilled
  have hstart : startSeq tree items = ((seqs.insertionSort (· ≥ ·)).take 1).getLast?.getD 0 := rfl
  rw [hstart]
  cases hlist : seqs.insertionSort (· ≥ ·) with
  | nil =>
    have hnone : ∀ b ∈ items, b.tree = tree → b.backfilled = false := by
      intro b hb htree
      refine Bool.eq_false_iff.mpr fun hbackfilled => ?_
      have hin := (hmem b.seq).mpr ⟨b, hb, htree, hbackfilled, rfl⟩
      rw [hlist] at hin
      exact List.not_mem_nil hin
    show 0 ≤ n ↔ _
    constructor
    · intro hn
      refine ⟨fun b hb htree hbackfilled => ?_, fun _ => hn⟩
      rw [hnone b hb htree] at hbackfilled
      cases hbackfilled
    · intro hboth
      exact hboth.2 hnone
  | cons m l =>
    rw [hlist] at hsorted hmem
    obtain ⟨b₀, hb₀, htree₀, hbackfilled₀, hseq₀⟩ := (hmem m).mp List.mem_cons_self
    show m ≤ n ↔ _
    constructor
    · intro hn
      refine ⟨fun b hb htree hbackfilled => ?_, fun hnone => ?_⟩
      · rcases List.mem_cons.mp ((hmem b.seq).mpr ⟨b, hb, htree, hbackfilled, rfl⟩) with heq | hin
        · exact heq.trans_le hn
        · exact le_trans ((List.pairwise_cons.mp hsorted).1 _ hin) hn
      · rw [hnone b₀ hb₀ htree₀] at hbackfilled₀
        cases hbackfilled₀
    · intro hboth
      exact hseq₀ ▸ hboth.1 b₀ hb₀ htree₀ hbackfilled₀

/-- The two queries together return the rows to look at. -/
theorem mem_rowsSince {x : SimpleBackfillItem} :
    x ∈ rowsSince tree (startSeq tree items) items ↔ x ∈ since tree items := by
  rw [rowsSince, List.mem_insertionSort, List.mem_dedup, List.mem_map]
  constructor
  · intro ⟨r, hr, hx⟩
    obtain ⟨hmem, hboth⟩ := List.mem_filter.mp hr
    simp only [Bool.and_eq_true, decide_eq_true_eq] at hboth
    exact ⟨r, hmem, hboth.2, hx, startSeq_le_iff.mp hboth.1⟩
  · intro ⟨r, hmem, htree, hx, hstart⟩
    refine ⟨r, List.mem_filter.mpr ⟨hmem, ?_⟩, hx⟩
    simp only [Bool.and_eq_true, decide_eq_true_eq]
    exact ⟨startSeq_le_iff.mpr hstart, htree⟩

theorem pairwise_rowsSince (start : ℤ) :
    (rowsSince tree start items).Pairwise fun x y => x.seq ≤ y.seq := by
  have htotal : Std.Total fun x y : SimpleBackfillItem => x.seq ≤ y.seq := ⟨fun x y => Int.le_total x.seq y.seq⟩
  have htrans : IsTrans SimpleBackfillItem fun x y => x.seq ≤ y.seq := ⟨fun _ _ _ => Int.le_trans⟩
  exact List.pairwise_insertionSort _ _

theorem nodup_rowsSince (start : ℤ) : (rowsSince tree start items).Nodup :=
  (List.perm_insertionSort _ _).nodup_iff.mpr (List.nodup_dedup _)

theorem seq_mem_of_mem_since {x : SimpleBackfillItem} (h : x ∈ since tree items) :
    -2 ^ 63 ≤ x.seq ∧ x.seq < 2 ^ 63 := by
  obtain ⟨r, -, -, rfl, -⟩ := h
  exact r.seq_mem

end Queries

/-! ### What the loop returns -/

/-- Neighbours of one sequence number end the loop. -/
theorem gapsOf_error {pairs : List (SimpleBackfillItem × SimpleBackfillItem)}
    (h : ∃ p ∈ pairs, p.2.seq = p.1.seq) : ∃ message, gapsOf pairs = .error message := by
  induction pairs with
  | nil =>
    obtain ⟨p, hp, -⟩ := h
    exact absurd hp List.not_mem_nil
  | cons p pairs ih =>
    obtain ⟨prev, curr⟩ := p
    by_cases heq : curr.seq = prev.seq
    · exact ⟨_, if_pos heq⟩
    · obtain ⟨q, hq, hqeq⟩ := h
      have hin : q ∈ pairs := (List.mem_cons.mp hq).resolve_left fun hfirst => heq (by rw [hfirst] at hqeq; exact hqeq)
      obtain ⟨message, herror⟩ := ih ⟨q, hin, hqeq⟩
      refine ⟨message, ?_⟩
      rw [gapsOf, if_neg heq, herror]
      rfl

/-- Over neighbours of different sequence numbers it keeps the pairs whose difference exceeds one. -/
theorem gapsOf_ok {pairs : List (SimpleBackfillItem × SimpleBackfillItem)}
    (h : ∀ p ∈ pairs, p.2.seq ≠ p.1.seq) :
    gapsOf pairs = .ok ((pairs.filter fun p => decide (i64 (p.2.seq - p.1.seq) > 1)).map fun p => ⟨p.1, p.2⟩) := by
  induction pairs with
  | nil => rfl
  | cons p pairs ih =>
    obtain ⟨prev, curr⟩ := p
    have htail := ih fun q hq => h q (List.mem_cons_of_mem _ hq)
    rw [gapsOf, if_neg (h (prev, curr) List.mem_cons_self), htail]
    by_cases hgap : i64 (curr.seq - prev.seq) > 1
    · rw [List.filter_cons_of_pos (by exact decide_eq_true hgap)]
      exact if_pos hgap
    · rw [List.filter_cons_of_neg (by exact fun hpos => hgap (of_decide_eq_true hpos))]
      exact if_neg hgap

/-! ### Exactness -/

/-- A difference in the order of the rows: it exceeds one unless it wraps. -/
theorem one_lt_i64_iff {d : ℤ} (h : 0 ≤ d) (hd : d < 2 ^ 64) : i64 d > 1 ↔ 1 < d ∧ d < 2 ^ 63 := by
  rcases lt_or_ge d (2 ^ 63) with hlt | hge
  · rw [Backfill.i64_eq_self h hlt]
    omega
  · rw [Backfill.i64_eq_sub hge hd]
    omega

section Exactness

variable {l : List SimpleBackfillItem}

/-- The gaps of a list in order. -/
def neighbourGaps (l : List SimpleBackfillItem) : List GapInfo :=
  ((l.zip l.tail).filter fun p => decide (i64 (p.2.seq - p.1.seq) > 1)).map fun p => ⟨p.1, p.2⟩

theorem mem_neighbourGaps {g : GapInfo} :
    g ∈ neighbourGaps l ↔ (g.prev, g.curr) ∈ l.zip l.tail ∧ i64 (g.curr.seq - g.prev.seq) > 1 := by
  rw [neighbourGaps, List.mem_map]
  constructor
  · rintro ⟨p, hp, rfl⟩
    obtain ⟨hmem, hgap⟩ := List.mem_filter.mp hp
    exact ⟨hmem, of_decide_eq_true hgap⟩
  · intro ⟨hmem, hgap⟩
    exact ⟨_, List.mem_filter.mpr ⟨hmem, decide_eq_true hgap⟩, rfl⟩

variable (hsorted : l.Pairwise fun x y => x.seq < y.seq) (hrange : ∀ x ∈ l, -2 ^ 63 ≤ x.seq ∧ x.seq < 2 ^ 63)
include hsorted hrange

/-- A gap lies between neighbours that are more than one and less than 2^63 apart. -/
theorem of_mem_neighbourGaps {g : GapInfo} (hg : g ∈ neighbourGaps l) :
    g.prev ∈ l ∧ g.curr ∈ l ∧ (∀ z ∈ l, z.seq ≤ g.prev.seq ∨ g.curr.seq ≤ z.seq) ∧
      g.prev.seq + 1 < g.curr.seq ∧ g.curr.seq < g.prev.seq + 2 ^ 63 := by
  obtain ⟨hzip, hgap⟩ := mem_neighbourGaps.mp hg
  obtain ⟨hprev, hcurr, hnone⟩ := Windows.not_between_neighbours (hsorted.imp le_of_lt) hzip
  have hlt : g.prev.seq < g.curr.seq := Windows.rel_of_neighbours hsorted hzip
  have hp := hrange _ hprev
  have hc := hrange _ hcurr
  have hd := (one_lt_i64_iff (by omega) (by omega)).mp hgap
  exact ⟨hprev, hcurr, hnone, by omega, by omega⟩

omit hrange in
theorem neighbourGaps_disjoint : (neighbourGaps l).Pairwise fun g h => ∀ n, ¬ (g.Inside n ∧ h.Inside n) := by
  have hpairs := Windows.pairwise_neighbours (hsorted.imp le_of_lt)
  refine List.pairwise_map.mpr ((hpairs.sublist List.filter_sublist).imp fun {p q} hle n hboth => ?_)
  obtain ⟨⟨-, hbelow⟩, habove, -⟩ := hboth
  have hp : n < p.2.seq := hbelow
  have hq : q.1.seq < n := habove
  omega

/-- What is inside a gap is missing. -/
theorem missing_of_inside {g : GapInfo} (hg : g ∈ neighbourGaps l) {n : ℤ} (hn : g.Inside n) :
    Missing {x | x ∈ l} n := by
  obtain ⟨hprev, hcurr, hnone, -⟩ := of_mem_neighbourGaps hsorted hrange hg
  refine ⟨⟨g.prev, hprev, hn.1⟩, ⟨g.curr, hcurr, hn.2⟩, fun z hz heq => ?_⟩
  have hside := hnone z hz
  have hprev_lt := hn.1
  have hlt_curr := hn.2
  omega

/-- **What is missing is inside a gap**, for every missing number exactly when no neighbours are too far
apart. -/
theorem inside_of_missing_iff :
    (∀ n, Missing {x | x ∈ l} n → ∃ g ∈ neighbourGaps l, g.Inside n) ↔ NoWideGap {x | x ∈ l} := by
  constructor
  · intro hall x hx y hy hwide
    by_contra hnone
    have hside : ∀ z ∈ l, z.seq ≤ x.seq ∨ y.seq ≤ z.seq := by
      intro z hz
      by_contra hboth
      exact hnone ⟨z, hz, by omega, by omega⟩
    have hmissing : Missing {x | x ∈ l} (x.seq + 1) := by
      refine ⟨⟨x, hx, by omega⟩, ⟨y, hy, by omega⟩, fun z hz heq => ?_⟩
      have hz := hside z hz
      omega
    obtain ⟨g, hg, habove, hbelow⟩ := hall (x.seq + 1) hmissing
    obtain ⟨hprev, hcurr, hneighbours, -, hnarrow⟩ := of_mem_neighbourGaps hsorted hrange hg
    -- the gap ends at the far neighbour or above, and it begins at the near one or below
    have hp := hneighbours x hx
    have hc := hside g.curr hcurr
    omega
  · intro hnarrow n ⟨hbelow, habove, hfree⟩
    obtain ⟨x, y, hzip, hx, hy⟩ := Windows.exists_neighbours (hsorted.imp le_of_lt) hfree hbelow habove
    obtain ⟨hxl, hyl, hnone⟩ := Windows.not_between_neighbours (hsorted.imp le_of_lt) hzip
    have hclose : y.seq < x.seq + 2 ^ 63 := by
      by_contra hwide
      obtain ⟨z, hz, hlow, hhigh⟩ := hnarrow x hxl y hyl (by omega)
      have hside := hnone z hz
      omega
    have hxr := hrange x hxl
    have hyr := hrange y hyl
    have hgap : i64 (y.seq - x.seq) > 1 := (one_lt_i64_iff (by omega) (by omega)).mpr ⟨by omega, by omega⟩
    exact ⟨⟨x, y⟩, mem_neighbourGaps.mpr ⟨hzip, hgap⟩, hx, hy⟩

/-- The gaps between neighbours are those of the list exactly when no neighbours are too far apart. -/
theorem areGaps_neighbourGaps_iff : AreGaps {x | x ∈ l} (neighbourGaps l) ↔ NoWideGap {x | x ∈ l} := by
  rw [← inside_of_missing_iff hsorted hrange]
  constructor
  · intro hgaps n hmissing
    exact (hgaps.exact n).mpr hmissing
  · intro hall
    refine ⟨neighbourGaps_disjoint hsorted, fun g hg => ?_, fun n => ⟨?_, hall n⟩, fun g hg => ?_⟩
    · obtain ⟨-, -, -, hwide, -⟩ := of_mem_neighbourGaps hsorted hrange hg
      exact ⟨g.prev.seq + 1, by omega, hwide⟩
    · intro ⟨g, hg, hinside⟩
      exact missing_of_inside hsorted hrange hg hinside
    · obtain ⟨hprev, hcurr, -⟩ := of_mem_neighbourGaps hsorted hrange hg
      exact ⟨hprev, hcurr⟩

omit hrange in
theorem isMaxSeq_getLast : IsMaxSeq {x | x ∈ l} (l.getLast?.map (·.seq)) := by
  rcases List.eq_nil_or_concat' l with rfl | ⟨l', x, rfl⟩
  · exact Set.eq_empty_of_forall_notMem fun x hx => List.not_mem_nil hx
  · rw [List.getLast?_append_cons]
    refine ⟨⟨x, List.mem_append_right _ (List.mem_singleton_self x), rfl⟩, fun y hy => ?_⟩
    rcases List.mem_append.mp hy with hy | hy
    · exact le_of_lt ((List.pairwise_append.mp hsorted).2.2 y hy x (List.mem_singleton_self x))
    · rw [List.mem_singleton.mp hy]
      exact le_refl _

end Exactness

/-- **When gap detection is exact**: where the rows conflict, so that it fails, or no two neighbours are 2^63 or
more apart. -/
theorem gaps_exact_iff (tree : Bytes) (items : List Model) :
    Exact (since tree items) (getMissingData tree items) ↔
      Conflict (since tree items) ∨ NoWideGap (since tree items) := by
  set l := rowsSince tree (startSeq tree items) items with hl
  have hS : since tree items = {x | x ∈ l} := Set.ext fun x => mem_rowsSince.symm
  have hsorted : l.Pairwise fun x y => x.seq ≤ y.seq := pairwise_rowsSince _
  have hnodup : l.Nodup := nodup_rowsSince _
  have hdata : getMissingData tree items
      = (gapsOf (l.zip l.tail)).bind fun gaps => .ok (l.getLast?.map (·.seq), gaps) := rfl
  by_cases hsame : ∃ p ∈ l.zip l.tail, p.2.seq = p.1.seq
  · have hconflict : Conflict (since tree items) := by
      obtain ⟨p, hp, heq⟩ := hsame
      obtain ⟨hprev, hcurr, -⟩ := Windows.not_between_neighbours hsorted hp
      refine ⟨p.1, mem_rowsSince.mp hprev, p.2, mem_rowsSince.mp hcurr, heq.symm, fun hslot => ?_⟩
      have hdistinct := Windows.rel_of_neighbours hnodup hp
      exact hdistinct (SimpleBackfillItem.mk.injEq .. ▸ ⟨heq.symm, hslot⟩)
    obtain ⟨message, herror⟩ := gapsOf_error hsame
    rw [hdata, herror]
    exact ⟨Or.inl, fun _ => hconflict⟩
  · have hne : ∀ p ∈ l.zip l.tail, p.2.seq ≠ p.1.seq := fun p hp heq => hsame ⟨p, hp, heq⟩
    have hstrict := Windows.pairwise_lt_of_neighbours_ne hsorted hne
    have hnone : ¬ Conflict (since tree items) := by
      rw [hS]
      intro ⟨x, hx, y, hy, hseq, hslot⟩
      have hseqs : (l.map (·.seq)).Nodup := List.pairwise_map.mpr (hstrict.imp fun hlt => ne_of_lt hlt)
      exact hslot (by rw [List.inj_on_of_nodup_map hseqs hx hy hseq])
    have hrange : ∀ x ∈ l, -2 ^ 63 ≤ x.seq ∧ x.seq < 2 ^ 63 := fun x hx => seq_mem_of_mem_since (mem_rowsSince.mp hx)
    have hgaps := areGaps_neighbourGaps_iff hstrict hrange
    rw [← hS] at hgaps
    rw [hdata, gapsOf_ok hne]
    show ¬ Conflict _ ∧ IsMaxSeq _ (l.getLast?.map (·.seq)) ∧ AreGaps _ (neighbourGaps l) ↔ _
    rw [hgaps, hS]
    constructor
    · intro hexact
      exact Or.inr hexact.2.2
    · intro hor
      rw [hS] at hnone
      exact ⟨hnone, isMaxSeq_getLast hstrict, hor.resolve_left hnone⟩

/-- A backfilled row of the sequence number -1 and one of the greatest: nothing is reported as missing. -/
theorem wide_gap_is_missed : ¬ ∀ tree items, Exact (since tree items) (getMissingData tree items) := by
  intro hall
  set first : Model := ⟨⟨[], -1, 10, false, true, false, false⟩, 1, by decide⟩
  set last : Model := ⟨⟨[], 9223372036854775807, 20, false, false, false, false⟩, 2, by decide⟩
  have hdata : getMissingData [] [first, last] = .ok (some 9223372036854775807, []) := by decide
  have hexact := hall [] [first, last]
  rw [hdata] at hexact
  have hsince : ∀ x ∈ since [] [first, last], x.seq = -1 ∨ x.seq = 9223372036854775807 := by
    rintro x ⟨r, hr, -, rfl, -⟩
    rcases List.mem_cons.mp hr with rfl | hr
    · exact Or.inl rfl
    · rw [List.mem_singleton.mp hr]
      exact Or.inr rfl
  have hmissing : Missing (since [] [first, last]) 0 := by
    refine ⟨⟨first.simple, ⟨first, List.mem_cons_self, rfl, rfl, by decide, by decide⟩, by decide⟩,
      ⟨last.simple, ⟨last, List.mem_cons_of_mem _ List.mem_cons_self, rfl, rfl, by decide, by decide⟩, by decide⟩,
      fun z hz heq => ?_⟩
    have hz := hsince z hz
    omega
  obtain ⟨g, hg, -⟩ := (hexact.2.2.exact 0).mpr hmissing
  exact absurd hg List.not_mem_nil

end DasIndexer.BackfillItems
