import DasIndexer.Lib.GuardedRuns
import DasIndexer.Lib.Windows
import Mathlib.Data.List.Dedup
import Mathlib.Data.List.Sort

/-!
# The legacy backfiller

The ingester leaves one row in `backfill_items` for every change of a tree it has stored.  The backfiller
looks at these rows for sequence numbers that are missing, asks for the transactions of each gap, and cleans
up: it keeps the row of the highest sequence number it has read, deletes the others, and marks what is left as
backfilled.  The rows are all that is known of a gap, so that a gap is forgotten when its rows go.

The statements of a round are separate, and the ingester goes on inserting between them.  A row that arrives
after the rows were read opens a gap that the round does not know, and the clean-up deletes it
(`arrival_is_forgotten`).  The ingester's own two statements are separate as well: it looks whether the tree has
rows, and inserts one that asks for a backfill from the start if there were none; a clean-up in between deletes
the rows that it saw.  **`never_forgets`** says what keeps every gap in sight over every interleaving: what
arrives above the sequence numbers that a round has read is without gaps by the time of each statement of its
clean-up, the gaps are read only where no row asks for a backfill from the start, and a row that does not ask for
one meets other rows or leaves nothing missing below it.
-/

namespace DasIndexer.Backfill

open GuardedRuns

/-! ### The rows of a tree -/

/-- A row of `backfill_items`, the tree being fixed. -/
structure BackfillItem where
  id : ℕ
  seq : ℕ
  slot : ℕ
  forceChk : Bool
  backfilled : Bool
  failed : Bool
  locked : Bool

structure SimpleBackfillItem where
  seq : ℕ
  slot : ℕ
deriving DecidableEq

structure GapInfo where
  prev : SimpleBackfillItem
  curr : SimpleBackfillItem

/-- A row to be inserted. -/
structure ActiveModel where
  seq : ℕ
  slot : ℕ
  forceChk : Bool
deriving DecidableEq

/-- What `insert_change_log` is to insert into `backfill_items`, by the rows that it has looked at. -/
def insertChangeLog (seq slot : ℕ) (rows : List BackfillItem) : ActiveModel :=
  ⟨seq, slot, rows.isEmpty && decide (1 < seq)⟩

/-- The row that is inserted. -/
def ActiveModel.row (item : ActiveModel) (id : ℕ) : BackfillItem :=
  ⟨id, item.seq, item.slot, item.forceChk, false, false, false⟩

/-- The first query of `get_missing_data`: the highest sequence number that has been backfilled. -/
def startSeq (rows : List BackfillItem) : ℕ :=
  ((((rows.filter (·.backfilled)).map (·.seq)).insertionSort (· ≥ ·)).take 1).getLast?.getD 0

/-- The second query of `get_missing_data`. -/
def rowsSince (start : ℕ) (rows : List BackfillItem) : List SimpleBackfillItem :=
  (((rows.filter fun r => decide (start ≤ r.seq)).map fun r => ⟨r.seq, r.slot⟩).dedup).insertionSort
    fun x y => x.seq ≤ y.seq

/-- The loop of `get_missing_data` over pairs of subsequent rows. -/
def gapsOf : List (SimpleBackfillItem × SimpleBackfillItem) → Except String (List GapInfo)
  | [] => .ok []
  | (prev, curr) :: pairs =>
    if curr.seq = prev.seq then
      .error s!"Error in DB, identical sequence numbers with different slots: {prev.slot}, {curr.slot}"
    else do
      let gaps ← gapsOf pairs
      if curr.seq - prev.seq > 1 then .ok (⟨prev, curr⟩ :: gaps) else .ok gaps

/-- `get_missing_data` after its first query. -/
def missingSince (start : ℕ) (rows : List BackfillItem) : Except String (Option ℕ × List GapInfo) := do
  let items := rowsSince start rows
  let gaps ← gapsOf (items.zip items.tail)
  .ok (items.getLast?.map (·.seq), gaps)

/-- `get_missing_data`. -/
def getMissingData (rows : List BackfillItem) : Except String (Option ℕ × List GapInfo) :=
  missingSince (startSeq rows) rows

/-! ### The backfiller at work -/

/-- The statements of `delete_extra_rows_and_mark_as_backfilled`, by the one that comes next. -/
inductive CleanUp where
  | delete
  | selectDuplicates
  | deleteById (ids : List ℕ)
  | markBackfilled
  | clearForceChk
  | unlock
deriving DecidableEq

/-- A round that is about to clean up: the `max_seq` it keeps, and the highest sequence number it has looked
at. -/
structure Round where
  maxSeq : ℕ
  known : ℕ
deriving DecidableEq

inductive Worker where
  | idle
  | picked (fromSeq1 : Bool)
  /-- `get_missing_data` between its queries. -/
  | started (start : ℕ)
  /-- `fetch_and_plug_gaps`, with the gaps that it has not asked for yet. -/
  | plugging (maxSeq : Option ℕ) (gaps : List GapInfo)
  /-- `backfill_tree_from_seq_1`, which has found the slots up to a sequence number. -/
  | crawling (chainSeq : ℕ)
  | cleaning (round : Round) (next : CleanUp)

/-- One tree: its rows, those that are about to be inserted, what has been ingested, and what has been asked for,
as open intervals. -/
structure State where
  rows : List BackfillItem
  inserting : List ActiveModel
  nextId : ℕ
  ingested : List ℕ
  requested : List (ℕ × ℕ)
  worker : Worker

inductive Action where
  /-- `insert_change_log` looks whether the tree has rows. -/
  | look (seq slot : ℕ)
  | insert (item : ActiveModel)
  | pick
  | readStart
  | readRows
  | plugGap
  | plugged
  /-- The tree is `ahead` changes further on chain than what has been ingested. -/
  | findSlots (ahead : ℕ)
  | crawled
  | cleanUp
  | retry
  | giveUp (marked : Bool)

namespace State

/-- `mark_tree_as_failed`. -/
def markTreeAsFailed (s : State) : State :=
  { s with rows := s.rows.map fun r => { r with failed := true } }

/-- `get_trees_to_backfill`, for one tree. -/
def getTreesToBackfill (s : State) : Option State :=
  let open' := s.rows.filter fun r => !r.failed && !r.locked
  let lock := s.rows.map fun r => { r with locked := true }
  if open'.any (·.forceChk) then some { s with rows := lock, worker := .picked true }
  else if 1 < open'.length then some { s with rows := lock, worker := .picked false }
  else none

/-- The `INSERT` of `insert_change_log`, which ends the ingestion of a change. -/
def insert (s : State) (item : ActiveModel) : State :=
  { s with
    rows := s.rows ++ [item.row s.nextId], inserting := s.inserting.erase item, nextId := s.nextId + 1,
    ingested := item.seq :: s.ingested }

/-- One statement of the clean-up. -/
def cleanUp (s : State) (round : Round) : CleanUp → State
  | .delete =>
    { s with
      rows := s.rows.filter fun r => decide (r.seq = round.maxSeq), worker := .cleaning round .selectDuplicates }
  | .selectDuplicates =>
    -- the source filters by `ne` here as well
    let items := s.rows.filter fun r => decide (r.seq ≠ round.maxSeq)
    { s with
      worker := .cleaning round
        (if 1 < items.length then .deleteById ((items.drop 1).map (·.id)) else .markBackfilled) }
  | .deleteById [] => { s with worker := .cleaning round .markBackfilled }
  | .deleteById (id :: ids) =>
    { s with
      rows := s.rows.filter fun r => decide (r.id ≠ id), worker := .cleaning round (.deleteById ids) }
  | .markBackfilled =>
    { s with
      rows := s.rows.map fun r => { r with backfilled := true }, worker := .cleaning round .clearForceChk }
  | .clearForceChk =>
    { s with rows := s.rows.map fun r => { r with forceChk := false }, worker := .cleaning round .unlock }
  | .unlock => { s with rows := s.rows.map fun r => { r with locked := false }, worker := .idle }

/-- One step of the ingester or of the backfiller; `none` where the action is not possible. -/
def step (s : State) : Action → Option State
  | .look seq slot => some { s with inserting := s.inserting ++ [insertChangeLog seq slot s.rows] }
  | .insert item =>
    if item ∈ s.inserting then some (s.insert item) else none
  | .pick =>
    match s.worker with
    | .idle => s.getTreesToBackfill
    | _ => none
  | .readStart =>
    match s.worker with
    | .picked false => some { s with worker := .started (startSeq s.rows) }
    | _ => none
  | .readRows =>
    match s.worker with
    | .started start =>
      match missingSince start s.rows with
      | .ok (maxSeq, gaps) => some { s with worker := .plugging maxSeq gaps }
      | .error _ => some { s with worker := .picked false }
    | _ => none
  | .plugGap =>
    match s.worker with
    | .plugging maxSeq (gap :: gaps) => some
        { s with requested := (gap.prev.seq, gap.curr.seq) :: s.requested, worker := .plugging maxSeq gaps }
    | _ => none
  | .plugged =>
    match s.worker with
    | .plugging (some maxSeq) [] => some { s with worker := .cleaning ⟨maxSeq, maxSeq⟩ .delete }
    | .plugging none [] => some { s.markTreeAsFailed with worker := .idle }
    | _ => none
  | .findSlots ahead =>
    match s.worker with
    | .picked true => some { s with worker := .crawling (s.ingested.foldr max 0 + ahead) }
    | _ => none
  | .crawled =>
    match s.worker with
    | .crawling chainSeq => some
        { s with requested := (0, chainSeq + 1) :: s.requested, worker := .cleaning ⟨0, chainSeq⟩ .delete }
    | _ => none
  | .cleanUp =>
    match s.worker with
    | .cleaning round next => some (s.cleanUp round next)
    | _ => none
  | .retry =>
    match s.worker with
    | .started _ | .plugging _ _ => some { s with worker := .picked false }
    | .crawling _ => some { s with worker := .picked true }
    | _ => none
  | .giveUp marked =>
    match s.worker with
    | .idle => none
    | _ => some { (if marked then s.markTreeAsFailed else s) with worker := .idle }

/-- A tree nothing is known of. -/
def init : State := ⟨[], [], 0, [], [], .idle⟩

/-! ### Gaps that are seen -/

/-- A sequence number is inside an interval that has been asked for. -/
def Requested (s : State) (n : ℕ) : Prop := ∃ p ∈ s.requested, p.1 < n ∧ n < p.2

/-- A sequence number below an ingested one that has neither been ingested nor asked for. -/
def Missing (s : State) (n : ℕ) : Prop :=
  1 ≤ n ∧ (∃ t ∈ s.ingested, n < t) ∧ n ∉ s.ingested ∧ ¬ s.Requested n

/-- The rows show that a sequence number is missing. -/
def Reveals (rows : List BackfillItem) (n : ℕ) : Prop :=
  (∃ r ∈ rows, r.forceChk = true)
    ∨ ∃ maxSeq gaps, getMissingData rows = .ok (maxSeq, gaps) ∧ ∃ g ∈ gaps, g.prev.seq < n ∧ n < g.curr.seq

/-- Nothing that is missing is forgotten. -/
def Remembers (s : State) : Prop := ∀ n, s.Missing n → Reveals s.rows n

/-- A statement of the clean-up that changes what the rows show. -/
def writes : CleanUp → Bool
  | .delete | .deleteById (_ :: _) | .markBackfilled | .clearForceChk => true
  | .selectDuplicates | .deleteById [] | .unlock => false

/-- A change has one slot, and where the rows have gone that its insert has looked at, it leaves nothing missing
below it; a gap round does not read rows of which one asks for a backfill from the start; and where the clean-up
writes, what is above the sequence numbers its round has looked at has no gap that has not been asked for. -/
def Safe (s : State) : Action → Prop
  | .insert item => (∀ r ∈ s.rows, r.seq = item.seq → r.slot = item.slot) ∧
      (s.rows = [] → item.forceChk = false → ∀ n, 1 ≤ n → n < item.seq → n ∈ s.ingested ∨ s.Requested n)
  | .readRows => ∀ r ∈ s.rows, r.forceChk = false
  | .cleanUp => ∀ round next, s.worker = .cleaning round next → writes next = true →
      ∀ n, round.known < n → (∃ t ∈ s.ingested, n < t) → n ∈ s.ingested ∨ s.Requested n
  | _ => True

end State

/-! ### What the queries return -/

/-- The sequence number to start from is that of a row, or zero. -/
theorem startSeq_mem (rows : List BackfillItem) : startSeq rows = 0 ∨ ∃ r ∈ rows, r.seq = startSeq rows := by
  unfold startSeq
  cases hlast : ((((rows.filter (·.backfilled)).map (·.seq)).insertionSort (· ≥ ·)).take 1).getLast? with
  | none => exact Or.inl rfl
  | some n =>
    right
    have hmem := List.mem_of_mem_take (List.mem_of_getLast? hlast)
    rw [List.mem_insertionSort] at hmem
    obtain ⟨r, hr, rfl⟩ := List.mem_map.mp hmem
    exact ⟨r, List.mem_of_mem_filter hr, rfl⟩

/-- Some row is read. -/
theorem exists_startSeq_le {rows : List BackfillItem} (hne : rows ≠ []) : ∃ x ∈ rows, startSeq rows ≤ x.seq := by
  rcases startSeq_mem rows with hzero | ⟨r, hr, heq⟩
  · obtain ⟨r, hr⟩ := List.exists_mem_of_ne_nil _ hne
    exact ⟨r, hr, hzero ▸ Nat.zero_le _⟩
  · exact ⟨r, hr, heq.ge⟩

/-- A row that has not been backfilled does not move the start. -/
theorem startSeq_append {rows : List BackfillItem} {r : BackfillItem} (h : r.backfilled = false) :
    startSeq (rows ++ [r]) = startSeq rows := by
  unfold startSeq
  rw [List.filter_append, List.filter_cons_of_neg (by simp [h]), List.filter_nil, List.append_nil]

/-- Neither does an assignment to other columns. -/
theorem startSeq_map {f : BackfillItem → BackfillItem} (hseq : ∀ r, (f r).seq = r.seq)
    (hbackfilled : ∀ r, (f r).backfilled = r.backfilled) (rows : List BackfillItem) :
    startSeq (rows.map f) = startSeq rows := by
  have hfilter : (fun r : BackfillItem => r.backfilled) ∘ f = fun r => r.backfilled := funext hbackfilled
  have hmap : (fun r : BackfillItem => r.seq) ∘ f = fun r => r.seq := funext hseq
  unfold startSeq
  rw [List.filter_map, List.map_map, hfilter, hmap]

theorem mem_rowsSince {start : ℕ} {rows : List BackfillItem} {x : SimpleBackfillItem} :
    x ∈ rowsSince start rows ↔ ∃ r ∈ rows, start ≤ r.seq ∧ ⟨r.seq, r.slot⟩ = x := by
  rw [rowsSince, List.mem_insertionSort, List.mem_dedup, List.mem_map]
  constructor
  · intro ⟨r, hr, hx⟩
    obtain ⟨hmem, hstart⟩ := List.mem_filter.mp hr
    exact ⟨r, hmem, of_decide_eq_true hstart, hx⟩
  · intro ⟨r, hmem, hstart, hx⟩
    exact ⟨r, List.mem_filter.mpr ⟨hmem, decide_eq_true hstart⟩, hx⟩

theorem pairwise_rowsSince (start : ℕ) (rows : List BackfillItem) :
    (rowsSince start rows).Pairwise fun x y => x.seq ≤ y.seq := by
  have htotal : Std.Total fun x y : SimpleBackfillItem => x.seq ≤ y.seq := ⟨fun x y => Nat.le_total x.seq y.seq⟩
  have htrans : IsTrans SimpleBackfillItem fun x y => x.seq ≤ y.seq := ⟨fun _ _ _ => Nat.le_trans⟩
  exact List.pairwise_insertionSort _ _

theorem nodup_rowsSince (start : ℕ) (rows : List BackfillItem) : (rowsSince start rows).Nodup :=
  (List.perm_insertionSort _ _).nodup_iff.mpr (List.nodup_dedup _)

/-- Over pairs of different sequence numbers the loop ends, and it keeps every pair with something between. -/
theorem gapsOf_ok {pairs : List (SimpleBackfillItem × SimpleBackfillItem)}
    (h : ∀ prev curr, (prev, curr) ∈ pairs → curr.seq ≠ prev.seq) : ∃ gaps, gapsOf pairs = .ok gaps
      ∧ ∀ prev curr, (prev, curr) ∈ pairs → 1 < curr.seq - prev.seq → ⟨prev, curr⟩ ∈ gaps := by
  induction pairs with
  | nil => exact ⟨[], rfl, fun _ _ hmem => absurd hmem List.not_mem_nil⟩
  | cons p pairs ih =>
    obtain ⟨a, b⟩ := p
    obtain ⟨gaps, hgaps, hkept⟩ := ih fun prev curr hmem => h prev curr (List.mem_cons_of_mem _ hmem)
    have hne := h a b List.mem_cons_self
    by_cases hgap : b.seq - a.seq > 1
    · refine ⟨⟨a, b⟩ :: gaps, ?_, ?_⟩
      · rw [gapsOf, if_neg hne, hgaps]
        exact if_pos hgap
      · intro prev curr hmem hlt
        rcases List.mem_cons.mp hmem with heq | hmem
        · obtain ⟨rfl, rfl⟩ := Prod.mk.inj heq
          exact List.mem_cons_self
        · exact List.mem_cons_of_mem _ (hkept prev curr hmem hlt)
    · refine ⟨gaps, ?_, ?_⟩
      · rw [gapsOf, if_neg hne, hgaps]
        exact if_neg hgap
      · intro prev curr hmem hlt
        rcases List.mem_cons.mp hmem with heq | hmem
        · obtain ⟨rfl, rfl⟩ := Prod.mk.inj heq
          exact absurd hlt hgap
        · exact hkept prev curr hmem hlt

/-- A change has one slot. -/
def OneSlot (rows : List BackfillItem) : Prop := ∀ r ∈ rows, ∀ r' ∈ rows, r.seq = r'.seq → r.slot = r'.slot

theorem OneSlot.append {rows : List BackfillItem} (h : OneSlot rows) {row : BackfillItem}
    (hslot : ∀ r ∈ rows, r.seq = row.seq → r.slot = row.slot) : OneSlot (rows ++ [row]) := by
  intro r hr r' hr' heq
  rcases List.mem_append.mp hr with hr | hr
  · rcases List.mem_append.mp hr' with hr' | hr'
    · exact h r hr r' hr' heq
    · rw [List.mem_singleton.mp hr'] at heq ⊢
      exact hslot r hr heq
  · rw [List.mem_singleton.mp hr] at heq ⊢
    rcases List.mem_append.mp hr' with hr' | hr'
    · exact (hslot r' hr' heq.symm).symm
    · rw [List.mem_singleton.mp hr']

/-- **What the second query and the loop return**: the gaps hold every number between two rows that is not
itself that of a row. -/
theorem missingSince_ok {rows : List BackfillItem} (hslot : OneSlot rows) (start : ℕ) :
    ∃ gaps, missingSince start rows = .ok ((rowsSince start rows).getLast?.map (·.seq), gaps)
      ∧ ∀ n, (∀ r ∈ rows, r.seq ≠ n) → (∃ x ∈ rows, start ≤ x.seq ∧ x.seq < n) → (∃ y ∈ rows, n < y.seq) →
        ∃ g ∈ gaps, g.prev.seq < n ∧ n < g.curr.seq := by
  set items := rowsSince start rows with hitems
  have hne : ∀ prev curr, (prev, curr) ∈ items.zip items.tail → curr.seq ≠ prev.seq := by
    intro prev curr hzip hseq
    obtain ⟨hp, hc, -⟩ := Windows.not_between_neighbours (pairwise_rowsSince start rows) hzip
    obtain ⟨r, hr, -, rfl⟩ := mem_rowsSince.mp hp
    obtain ⟨r', hr', -, rfl⟩ := mem_rowsSince.mp hc
    have hsame : r.slot = r'.slot := hslot r hr r' hr' hseq.symm
    have hdistinct := Windows.rel_of_neighbours (nodup_rowsSince start rows) hzip
    exact hdistinct (SimpleBackfillItem.mk.injEq .. ▸ ⟨hseq.symm, hsame⟩)
  obtain ⟨gaps, hgaps, hkept⟩ := gapsOf_ok hne
  refine ⟨gaps, ?_, ?_⟩
  · show (gapsOf (items.zip items.tail)).bind (fun gaps => .ok (items.getLast?.map (·.seq), gaps)) = _
    rw [hgaps]
    rfl
  · intro n hfree ⟨x, hx, hstart, hxn⟩ ⟨y, hy, hny⟩
    have hmissing : ∀ z ∈ items, z.seq ≠ n := by
      intro z hz
      obtain ⟨r, hr, -, rfl⟩ := mem_rowsSince.mp hz
      exact hfree r hr
    obtain ⟨a, b, hzip, ha, hb⟩ := Windows.exists_neighbours (pairwise_rowsSince start rows) hmissing
      ⟨_, mem_rowsSince.mpr ⟨x, hx, hstart, rfl⟩, hxn⟩
      ⟨_, mem_rowsSince.mpr ⟨y, hy, by omega, rfl⟩, hny⟩
    exact ⟨⟨a, b⟩, hkept a b hzip (by omega), ha, hb⟩

/-! ### The invariant -/

namespace State

/-- The rows are those of ingested changes, and one of them asks for a backfill from the start unless they
enclose whatever is missing. -/
structure Kept (s : State) : Prop where
  ingested : ∀ r ∈ s.rows, r.seq ∈ s.ingested
  oneSlot : OneSlot s.rows
  enclosed : (∃ r ∈ s.rows, r.forceChk = true) ∨ ∀ n, s.Missing n →
    (∃ x ∈ s.rows, startSeq s.rows ≤ x.seq ∧ x.seq < n) ∧ ∃ y ∈ s.rows, n < y.seq

/-- What a round that has got so far relies on. -/
def Relies (s : State) : Worker → Prop
  | .started start => start = startSeq s.rows
  | .plugging (some maxSeq) gaps => ∀ n, 1 ≤ n → n ≤ maxSeq →
      n ∈ s.ingested ∨ s.Requested n ∨ ∃ g ∈ gaps, g.prev.seq < n ∧ n < g.curr.seq
  | .cleaning round _ => ∀ n, 1 ≤ n → n ≤ round.known → n ∈ s.ingested ∨ s.Requested n
  | _ => True

variable {s s' : State}

theorem Kept.remembers (h : s.Kept) : s.Remembers := by
  intro n hn
  rcases h.enclosed with hforce | hall
  · exact Or.inl hforce
  · obtain ⟨hbelow, habove⟩ := hall n hn
    obtain ⟨gaps, hok, hgaps⟩ := missingSince_ok h.oneSlot (startSeq s.rows)
    have hfree : ∀ r ∈ s.rows, r.seq ≠ n := fun r hr heq => hn.2.2.1 (heq ▸ h.ingested r hr)
    exact Or.inr ⟨_, gaps, hok, hgaps n hfree hbelow habove⟩

/-- Where nothing is missing, rows may go and be marked. -/
theorem Kept.of_caught_up (h : s.Kept) (hnone : ∀ n, ¬ s.Missing n) {rows : List BackfillItem}
    (hrows : ∀ r ∈ rows, ∃ r₀ ∈ s.rows, r.seq = r₀.seq ∧ r.slot = r₀.slot) (worker : Worker) :
    { s with rows, worker }.Kept := by
  constructor
  · intro r hr
    obtain ⟨r₀, hr₀, hseq, -⟩ := hrows r hr
    exact hseq ▸ h.ingested r₀ hr₀
  · intro r hr r' hr' heq
    obtain ⟨r₀, hr₀, hseq, hslot⟩ := hrows r hr
    obtain ⟨r₀', hr₀', hseq', hslot'⟩ := hrows r' hr'
    rw [hslot, hslot']
    exact h.oneSlot r₀ hr₀ r₀' hr₀' (by rw [← hseq, ← hseq', heq])
  · exact Or.inr fun n hn => absurd hn (hnone n)

/-- Locking, unlocking and marking as failed show nothing else. -/
theorem Kept.map (h : s.Kept) (f : BackfillItem → BackfillItem) (hseq : ∀ r, (f r).seq = r.seq)
    (hslot : ∀ r, (f r).slot = r.slot) (hforce : ∀ r, (f r).forceChk = r.forceChk)
    (hbackfilled : ∀ r, (f r).backfilled = r.backfilled) (worker : Worker) :
    { s with rows := s.rows.map f, worker }.Kept := by
  constructor
  · intro r hr
    obtain ⟨r₀, hr₀, rfl⟩ := List.mem_map.mp hr
    exact (hseq r₀).symm ▸ h.ingested r₀ hr₀
  · intro r hr r' hr' heq
    obtain ⟨r₀, hr₀, rfl⟩ := List.mem_map.mp hr
    obtain ⟨r₀', hr₀', rfl⟩ := List.mem_map.mp hr'
    rw [hseq, hseq] at heq
    rw [hslot, hslot]
    exact h.oneSlot r₀ hr₀ r₀' hr₀' heq
  · rcases h.enclosed with ⟨r, hr, hr'⟩ | hall
    · exact Or.inl ⟨f r, List.mem_map_of_mem hr, (hforce r).trans hr'⟩
    · refine Or.inr fun n hn => ?_
      obtain ⟨⟨x, hx, hstart, hxn⟩, y, hy, hny⟩ := hall n hn
      refine ⟨⟨f x, List.mem_map_of_mem hx, ?_, (hseq x).symm ▸ hxn⟩, f y, List.mem_map_of_mem hy,
        (hseq y).symm ▸ hny⟩
      rw [startSeq_map hseq hbackfilled, hseq]
      exact hstart

/-- Asking for more. -/
theorem Kept.request (h : s.Kept) (p : ℕ × ℕ) (worker : Worker) :
    { s with requested := p :: s.requested, worker }.Kept := by
  refine ⟨h.ingested, h.oneSlot, h.enclosed.imp_right fun hall n hn => hall n ?_⟩
  obtain ⟨hpos, hbelow, hnot, hreq⟩ := hn
  exact ⟨hpos, hbelow, hnot, fun ⟨q, hq, hin⟩ => hreq ⟨q, List.mem_cons_of_mem _ hq, hin⟩⟩

/-- A round that goes on without writing. -/
theorem Kept.worker (h : s.Kept) (worker : Worker) : { s with worker }.Kept :=
  ⟨h.ingested, h.oneSlot, h.enclosed⟩

/-- **An insert keeps every gap in sight**: what becomes missing lies above all rows and below the new one, and
where there are no rows, the new one asks for everything below it unless nothing is missing there. -/
theorem Kept.insert (h : s.Kept) {item : ActiveModel} (hsafe : s.Safe (.insert item)) : (s.insert item).Kept := by
  obtain ⟨hslot, hgone⟩ := hsafe
  set row := item.row s.nextId with hrow
  have hlast : row ∈ s.rows ++ [row] := List.mem_append_right _ (List.mem_singleton_self row)
  constructor
  · intro r hr
    rcases List.mem_append.mp hr with hr | hr
    · exact List.mem_cons_of_mem _ (h.ingested r hr)
    · rw [List.mem_singleton.mp hr]
      exact List.mem_cons_self
  · exact h.oneSlot.append hslot
  · rcases h.enclosed with ⟨r, hr, hforce⟩ | hall
    · exact Or.inl ⟨r, List.mem_append_left _ hr, hforce⟩
    -- what was missing before is enclosed as it was
    have hold : ∀ n, s.Missing n → (∃ x ∈ s.rows ++ [row], startSeq (s.rows ++ [row]) ≤ x.seq ∧ x.seq < n)
        ∧ ∃ y ∈ s.rows ++ [row], n < y.seq := by
      intro n hn
      obtain ⟨⟨x, hx, hstart, hxn⟩, y, hy, hny⟩ := hall n hn
      refine ⟨⟨x, List.mem_append_left _ hx, ?_, hxn⟩, y, List.mem_append_left _ hy, hny⟩
      rw [startSeq_append rfl]
      exact hstart
    by_cases hempty : s.rows = []
    · cases hforce : item.forceChk with
      | true => exact Or.inl ⟨row, hlast, hforce⟩
      | false =>
        refine Or.inr fun n ⟨hpos, ⟨t, ht, hnt⟩, hnot, hreq⟩ => ?_
        have hnot' : n ∉ s.ingested := fun hmem => hnot (List.mem_cons_of_mem _ hmem)
        rcases List.mem_cons.mp ht with rfl | ht
        · exact absurd (hgone hempty hforce n hpos hnt) (not_or_intro hnot' hreq)
        · exact hold n ⟨hpos, ⟨t, ht, hnt⟩, hnot', hreq⟩
    · refine Or.inr fun n ⟨hpos, ⟨t, ht, hnt⟩, hnot, hreq⟩ => ?_
      have hnot' : n ∉ s.ingested := fun hmem => hnot (List.mem_cons_of_mem _ hmem)
      by_cases hbelow : ∃ t ∈ s.ingested, n < t
      · exact hold n ⟨hpos, hbelow, hnot', hreq⟩
      · -- a row from which the gaps are read is below a number that was above all
        obtain ⟨x, hx, hstart⟩ := exists_startSeq_le hempty
        have hxn : x.seq < n := by
          have hle : ¬ n < x.seq := fun hlt => hbelow ⟨x.seq, h.ingested x hx, hlt⟩
          have hne : x.seq ≠ n := fun heq => hnot' (heq ▸ h.ingested x hx)
          omega
        have hseq : n < item.seq := by
          rcases List.mem_cons.mp ht with rfl | ht
          · exact hnt
          · exact absurd ⟨t, ht, hnt⟩ hbelow
        refine ⟨⟨x, List.mem_append_left _ hx, ?_, hxn⟩, row, hlast, hseq⟩
        exact (startSeq_append (r := row) rfl).trans_le hstart

theorem Requested.cons {n : ℕ} (h : s.Requested n) (p : ℕ × ℕ) (worker : Worker) :
    { s with requested := p :: s.requested, worker }.Requested n := by
  obtain ⟨q, hq, hin⟩ := h
  exact ⟨q, List.mem_cons_of_mem _ hq, hin⟩

/-- What a round relies on survives an insert. -/
theorem relies_insert {worker : Worker} (h : s.Relies worker) (item : ActiveModel) :
    (s.insert item).Relies worker := by
  cases worker with
  | idle => trivial
  | picked fromSeq1 => trivial
  | started start => exact h.trans (startSeq_append rfl).symm
  | plugging maxSeq gaps =>
    cases maxSeq with
    | none => trivial
    | some m => exact fun n hpos hle => (h n hpos hle).imp_left (List.mem_cons_of_mem _)
  | crawling chainSeq => trivial
  | cleaning round next => exact fun n hpos hle => (h n hpos hle).imp_left (List.mem_cons_of_mem _)

/-- What the loop of a gap round relies on when it begins. -/
theorem relies_readRows (h : s.Kept) (hforce : ∀ r ∈ s.rows, r.forceChk = false) {maxSeq : Option ℕ}
    {gaps : List GapInfo} (hread : missingSince (startSeq s.rows) s.rows = .ok (maxSeq, gaps)) :
    s.Relies (.plugging maxSeq gaps) := by
  obtain ⟨gaps', hok, hgaps⟩ := missingSince_ok h.oneSlot (startSeq s.rows)
  obtain ⟨hmax, rfl⟩ := Prod.mk.inj (Except.ok.inj (hread.symm.trans hok))
  have hall := h.enclosed.resolve_left fun ⟨r, hr, hr'⟩ => by simp [hforce r hr] at hr'
  cases maxSeq with
  | none => trivial
  | some m =>
    have hm : m ∈ s.ingested := by
      obtain ⟨x, hx, rfl⟩ := Option.map_eq_some_iff.mp hmax.symm
      obtain ⟨r, hr, -, rfl⟩ := mem_rowsSince.mp (List.mem_of_getLast? hx)
      exact h.ingested r hr
    intro n hpos hle
    by_cases hin : n ∈ s.ingested
    · exact Or.inl hin
    by_cases hreq : s.Requested n
    · exact Or.inr (Or.inl hreq)
    have hlt : n < m := lt_of_le_of_ne hle fun heq => hin (heq ▸ hm)
    obtain ⟨hbelow, habove⟩ := hall n ⟨hpos, ⟨m, hm, hlt⟩, hin, hreq⟩
    exact Or.inr (Or.inr (hgaps n (fun r hr heq => hin (heq ▸ h.ingested r hr)) hbelow habove))

/-- One statement of the clean-up. -/
theorem Kept.cleanUp (h : s.Kept) {round : Round} {next : CleanUp} (hrelies : s.Relies (.cleaning round next))
    (hsafe : writes next = true → ∀ n, round.known < n → (∃ t ∈ s.ingested, n < t) →
      n ∈ s.ingested ∨ s.Requested n) :
    (s.cleanUp round next).Kept ∧ (s.cleanUp round next).Relies (s.cleanUp round next).worker := by
  have hnone : writes next = true → ∀ n, ¬ s.Missing n := by
    intro hwrites n ⟨hpos, hbelow, hnot, hreq⟩
    rcases Nat.lt_or_ge round.known n with hlt | hle
    · exact (hsafe hwrites n hlt hbelow).elim hnot hreq
    · exact (hrelies n hpos hle).elim hnot hreq
  have hfilter : ∀ p : BackfillItem → Bool, ∀ r ∈ s.rows.filter p,
      ∃ r₀ ∈ s.rows, r.seq = r₀.seq ∧ r.slot = r₀.slot :=
    fun p r hr => ⟨r, List.mem_of_mem_filter hr, rfl, rfl⟩
  cases next with
  | delete => exact ⟨h.of_caught_up (hnone rfl) (hfilter _) _, hrelies⟩
  | selectDuplicates => exact ⟨h.worker _, hrelies⟩
  | deleteById ids =>
    cases ids with
    | nil => exact ⟨h.worker _, hrelies⟩
    | cons id ids => exact ⟨h.of_caught_up (hnone rfl) (hfilter _) _, hrelies⟩
  | markBackfilled =>
    refine ⟨h.of_caught_up (hnone rfl) ?_ _, hrelies⟩
    intro r hr
    obtain ⟨r₀, hr₀, rfl⟩ := List.mem_map.mp hr
    exact ⟨r₀, hr₀, rfl, rfl⟩
  | clearForceChk =>
    refine ⟨h.of_caught_up (hnone rfl) ?_ _, hrelies⟩
    intro r hr
    obtain ⟨r₀, hr₀, rfl⟩ := List.mem_map.mp hr
    exact ⟨r₀, hr₀, rfl, rfl⟩
  | unlock =>
    have hkept := h.map (fun r => { r with locked := false }) (fun _ => rfl) (fun _ => rfl) (fun _ => rfl)
      (fun _ => rfl) .idle
    exact ⟨hkept, trivial⟩

/-- What holds after every step of a run. -/
def Inv (s : State) : Prop := s.Kept ∧ s.Relies s.worker

theorem inv_init : init.Inv := by
  refine ⟨⟨?_, ?_, Or.inr ?_⟩, trivial⟩
  · intro r hr
    exact absurd hr List.not_mem_nil
  · intro r hr
    exact absurd hr List.not_mem_nil
  · intro n ⟨_, ⟨t, ht, _⟩, _⟩
    exact absurd ht List.not_mem_nil

theorem Kept.markTreeAsFailed (h : s.Kept) : s.markTreeAsFailed.Kept :=
  h.map (fun r => { r with failed := true }) (fun _ => rfl) (fun _ => rfl) (fun _ => rfl) (fun _ => rfl) _

/-- A tree is picked: its rows are locked. -/
theorem Inv.pick (h : s.Inv) (hstep : s.step .pick = some s') : s'.Inv := by
  have hlock := h.1.map (fun r => { r with locked := true }) (fun _ => rfl) (fun _ => rfl) (fun _ => rfl)
    (fun _ => rfl)
  simp only [State.step] at hstep
  split at hstep
  · unfold getTreesToBackfill at hstep
    dsimp only at hstep
    split at hstep
    · obtain rfl := Option.some.inj hstep
      exact ⟨hlock _, trivial⟩
    · split at hstep
      · obtain rfl := Option.some.inj hstep
        exact ⟨hlock _, trivial⟩
      · cases hstep
  · cases hstep

/-- The gaps are read, from the start that was read before. -/
theorem Inv.readRows (h : s.Inv) (hsafe : s.Safe .readRows) (hstep : s.step .readRows = some s') : s'.Inv := by
  obtain ⟨hkept, hrelies⟩ := h
  simp only [State.step] at hstep
  split at hstep
  · rename_i start hworker
    rw [hworker] at hrelies
    obtain rfl : start = startSeq s.rows := hrelies
    split at hstep
    · rename_i maxSeq gaps hread
      obtain rfl := Option.some.inj hstep
      exact ⟨hkept.worker _, relies_readRows hkept hsafe hread⟩
    · obtain rfl := Option.some.inj hstep
      exact ⟨hkept.worker _, trivial⟩
  · cases hstep

/-- A gap is asked for: what it reveals is now requested. -/
theorem Inv.plugGap (h : s.Inv) (hstep : s.step .plugGap = some s') : s'.Inv := by
  obtain ⟨hkept, hrelies⟩ := h
  simp only [State.step] at hstep
  split at hstep
  · rename_i maxSeq gap gaps hworker
    obtain rfl := Option.some.inj hstep
    refine ⟨hkept.request _ _, ?_⟩
    rw [hworker] at hrelies
    cases maxSeq with
    | none => trivial
    | some m =>
      intro n hpos hle
      rcases hrelies n hpos hle with hin | hreq | ⟨g, hg, hinside⟩
      · exact Or.inl hin
      · exact Or.inr (Or.inl (hreq.cons _ _))
      · rcases List.mem_cons.mp hg with rfl | hg
        · exact Or.inr (Or.inl ⟨_, List.mem_cons_self, hinside⟩)
        · exact Or.inr (Or.inr ⟨g, hg, hinside⟩)
  · cases hstep

/-- All gaps have been asked for, so that the clean-up may rely on it. -/
theorem Inv.plugged (h : s.Inv) (hstep : s.step .plugged = some s') : s'.Inv := by
  obtain ⟨hkept, hrelies⟩ := h
  simp only [State.step] at hstep
  split at hstep
  · rename_i maxSeq hworker
    obtain rfl := Option.some.inj hstep
    refine ⟨hkept.worker _, ?_⟩
    rw [hworker] at hrelies
    intro n hpos hle
    rcases hrelies n hpos hle with hin | hreq | ⟨g, hg, -⟩
    · exact Or.inl hin
    · exact Or.inr hreq
    · exact absurd hg List.not_mem_nil
  · obtain rfl := Option.some.inj hstep
    exact ⟨hkept.markTreeAsFailed.worker _, trivial⟩
  · cases hstep

/-- Safe steps keep the rows in sight. -/
theorem Inv.step (h : s.Inv) {a : Action} (hsafe : s.Safe a) (hstep : s.step a = some s') : s'.Inv := by
  cases a with
  | pick => exact h.pick hstep
  | readRows => exact h.readRows hsafe hstep
  | plugGap => exact h.plugGap hstep
  | plugged => exact h.plugged hstep
  | look seq slot =>
    obtain rfl := Option.some.inj hstep
    exact ⟨⟨h.1.ingested, h.1.oneSlot, h.1.enclosed⟩, h.2⟩
  | insert item =>
    obtain ⟨-, heq⟩ := Option.ite_none_right_eq_some.mp hstep
    obtain rfl := Option.some.inj heq
    exact ⟨h.1.insert hsafe, relies_insert h.2 item⟩
  | readStart =>
    simp only [State.step] at hstep
    split at hstep
    · obtain rfl := Option.some.inj hstep
      exact ⟨h.1.worker _, rfl⟩
    · cases hstep
  | findSlots ahead =>
    simp only [State.step] at hstep
    split at hstep
    · obtain rfl := Option.some.inj hstep
      exact ⟨h.1.worker _, trivial⟩
    · cases hstep
  | crawled =>
    simp only [State.step] at hstep
    split at hstep
    · obtain rfl := Option.some.inj hstep
      refine ⟨h.1.request _ _, ?_⟩
      intro n hpos hle
      exact Or.inr ⟨_, List.mem_cons_self, hpos, Nat.lt_succ_of_le hle⟩
    · cases hstep
  | cleanUp =>
    simp only [State.step] at hstep
    split at hstep
    · rename_i round next hworker
      obtain rfl := Option.some.inj hstep
      have hrelies := h.2
      rw [hworker] at hrelies
      exact h.1.cleanUp hrelies (hsafe round next hworker)
    · cases hstep
  | retry =>
    simp only [State.step] at hstep
    split at hstep
    · obtain rfl := Option.some.inj hstep
      exact ⟨h.1.worker _, trivial⟩
    · obtain rfl := Option.some.inj hstep
      exact ⟨h.1.worker _, trivial⟩
    · obtain rfl := Option.some.inj hstep
      exact ⟨h.1.worker _, trivial⟩
    · cases hstep
  | giveUp marked =>
    simp only [State.step] at hstep
    split at hstep
    · cases hstep
    · obtain rfl := Option.some.inj hstep
      cases marked with
      | true => exact ⟨h.1.markTreeAsFailed.worker _, trivial⟩
      | false => exact ⟨h.1.worker _, trivial⟩

end State

open State

/-- Over every interleaving of inserts with the rounds of the backfiller, in every state that is reached by safe
steps: a sequence number below an ingested one that has neither been ingested nor asked for is revealed. -/
theorem never_forgets (s : State) (as : List Action) (hrun : run State.step init as = some s)
    (hsafe : SafeRun State.step Safe init as) : s.Remembers := by
  have hinv : s.Inv := inv_of_run (fun _ _ _ h hsafe hstep => h.step hsafe hstep) inv_init hrun hsafe
  exact hinv.1.remembers

/-- A gap round during which the missing change arrives. -/
def quietRound : List Action :=
  [.look 1 10, .insert ⟨1, 10, false⟩, .look 3 30, .insert ⟨3, 30, false⟩, .pick, .readStart, .readRows, .plugGap,
    .look 2 20, .insert ⟨2, 20, false⟩, .plugged, .cleanUp]

theorem quiet_round_remembers : (run State.step init quietRound).isSome
    ∧ ∀ s, run State.step init quietRound = some s → s.Remembers := by
  refine ⟨rfl, fun s hrun => never_forgets s quietRound hrun ?_⟩
  refine .cons trivial rfl <| .cons ?_ rfl ?_
  · exact ⟨fun r hr => absurd hr List.not_mem_nil, fun _ _ n hpos (hlt : n < 1) => absurd hlt (by omega)⟩
  refine .cons trivial rfl <| .cons ⟨by decide, fun hrows => absurd hrows (List.cons_ne_nil _ _)⟩ rfl ?_
  refine .cons trivial rfl <| .cons trivial rfl <| .cons (by unfold Safe; decide) rfl <| .cons trivial rfl ?_
  refine .cons trivial rfl <| .cons ⟨by decide, fun hrows => absurd hrows (List.cons_ne_nil _ _)⟩ rfl ?_
  refine .cons trivial rfl <| .cons ?_ rfl trivial
  rintro round next ⟨⟩ _ n hknown ⟨t, ht, hnt⟩
  have hall : ∀ t ∈ [2, 3, 1], t ≤ 3 := by decide
  have hle : t ≤ 3 := hall t ht
  have hlt : 3 < n := hknown
  omega

/-- A row that arrives while the gaps are plugged opens a gap, and the clean-up deletes it; a row that asks for a
backfill from the start is deleted by a gap round, when the backfill has failed and two rows have arrived since;
and a row that does not ask for one, since its insert saw others, arrives when a backfill from the start has
deleted these. -/
theorem arrival_is_forgotten :
    (∃ s, run State.step init
        [.look 1 10, .insert ⟨1, 10, false⟩, .look 3 30, .insert ⟨3, 30, false⟩, .pick, .readStart, .readRows,
          .plugGap, .look 5 50, .insert ⟨5, 50, false⟩, .plugged, .cleanUp, .cleanUp, .cleanUp, .cleanUp,
          .cleanUp] = some s ∧ s.Missing 4 ∧ ¬ Reveals s.rows 4)
    ∧ (∃ s, run State.step init
        [.look 5 50, .insert ⟨5, 50, true⟩, .pick, .giveUp true, .look 6 60, .insert ⟨6, 60, false⟩, .look 7 70,
          .insert ⟨7, 70, false⟩, .pick, .readStart, .readRows, .plugged, .cleanUp, .cleanUp, .cleanUp, .cleanUp,
          .cleanUp] = some s ∧ s.Missing 4 ∧ ¬ Reveals s.rows 4)
    ∧ ∃ s, run State.step init
        [.look 5 50, .insert ⟨5, 50, true⟩, .pick, .findSlots 0, .look 7 70, .crawled, .cleanUp, .cleanUp, .cleanUp,
          .cleanUp, .cleanUp, .insert ⟨7, 70, false⟩] = some s ∧ s.Missing 6 ∧ ¬ Reveals s.rows 6 := by
  have hone : ∀ r : BackfillItem, r.forceChk = false → ∀ n, ¬ Reveals [r] n := by
    intro r hforce n hreveals
    rcases hreveals with ⟨r', hr', htrue⟩ | ⟨maxSeq, gaps, hok, g, hg, -⟩
    · rw [List.mem_singleton.mp hr', hforce] at htrue
      cases htrue
    · have hnone : ∃ maxSeq, getMissingData [r] = .ok (maxSeq, []) := by
        obtain ⟨id, seq, slot, forceChk, backfilled, failed, locked⟩ := r
        cases backfilled <;> exact ⟨some seq, by simp [getMissingData, missingSince, rowsSince, startSeq, gapsOf]; rfl⟩
      obtain ⟨_, hnone⟩ := hnone
      obtain ⟨-, rfl⟩ := Prod.mk.inj (Except.ok.inj (hok.symm.trans hnone))
      exact absurd hg List.not_mem_nil
  refine ⟨⟨_, rfl, ⟨by decide, ⟨5, by decide, by decide⟩, by decide, ?_⟩, hone _ rfl 4⟩,
    ⟨_, rfl, ⟨by decide, ⟨5, by decide, by decide⟩, by decide, ?_⟩, hone _ rfl 4⟩,
    ⟨_, rfl, ⟨by decide, ⟨7, by decide, by decide⟩, by decide, ?_⟩, hone _ rfl 6⟩⟩
  · rintro ⟨p, hp, hin⟩
    obtain rfl := List.mem_singleton.mp hp
    exact absurd hin (by decide)
  · rintro ⟨p, hp, -⟩
    exact absurd hp List.not_mem_nil
  · rintro ⟨p, hp, hin⟩
    obtain rfl := List.mem_singleton.mp hp
    exact absurd hin (by decide)

end DasIndexer.Backfill
