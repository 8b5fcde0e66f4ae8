import DasIndexer.Grpc.Reindex
import DasIndexer.Sql.Query

/-!
# The re-drive loop

Downloads that were given up, that found the queue full or that were lost with the process are still owed:
`asset_data.reindex` is true.  `redrive` wakes up from time to time and walks the owed rows in the order of their
ids, a batch at a time, and asks for a download of each.  It goes back to sleep in the middle, and goes on from
there, where the queue has little room or the query fails; a batch that is not full is the last one, and the next
walk begins at the front.  Meanwhile rows are written and downloads are stored.

**`sweep_misses_none`**: whatever happens meanwhile, a row that is owed from one begin to the next is asked for
on the way, and no id is asked for twice.  When `enqueue` returns, the row has exactly one live job, unless the
channel took no more; such a row is left to a later walk.
-/

namespace DasIndexer.Grpc.Metadata

open Sql

/-! ### The query -/

/-- `reindex = true AND metadata_url <> ''`. -/
def owed (r : AssetDataRow) : Bool := decide (r.reindex = some true ∧ r.metadataUrl.1 ≠ "")

/-- The owed rows after an id, in the order of their ids. -/
def owedAfter (t : Table Bytes AssetDataRow) (after : Bytes) : List (Bytes × AssetDataRow) :=
  ((scan t).filter fun e => owed e.2 && decide (after < e.1)).insertionSort fun a b => a.1 ≤ b.1

/-- The rows of a batch. -/
def owedRows (t : Table Bytes AssetDataRow) (after : Bytes) (batch : ℕ) : List (Bytes × String) :=
  ((owedAfter t after).take batch).map fun e => (e.1, e.2.metadataUrl.1)

/-! ### The loop -/

inductive Phase where
  | asleep
  | awake
  /-- the rows of a batch that are still to be asked for, and whether the batch was full -/
  | offering (rows : List (Bytes × String)) (full : Bool)
  /-- in `enqueue`, the id inserted and the job not yet sent -/
  | sending (id : Bytes) (uri : String) (rows : List (Bytes × String)) (full : Bool)

structure Redriving where
  downloader : State := {}
  after : Bytes := []
  phase : Phase := .asleep

/-- What `enqueue` came to. -/
inductive Outcome where
  | alreadyPending
  | queued
  | dropped

inductive RedriveEvent where
  | downloader (e : Event)
  | internal
  /-- `enqueue` has returned -/
  | offered (id : Bytes) (uri : String) (outcome : Outcome)
  | swept

/-- The job that the loop is sending is its own to send. -/
def Redriving.Sends (r : Redriving) (s : State) : Prop :=
  ∀ id uri rows full, r.phase = .sending id uri rows full → ⟨id, uri, 0⟩ ∈ s.enqueuing

/-- `tx.capacity()`, where `reserved` slots are taken by jobs that are just being sent. -/
def State.capacity (s : State) (shared : Shared) (reserved : ℕ) : ℕ :=
  max 1 shared.args.metadataQueue - s.queue.length - reserved

section Steps

variable (C : Crates) (shared : Shared) (batch : ℕ)

inductive RedriveStep : Redriving → RedriveEvent → Redriving → Prop
  | downloader (r : Redriving) (e : Event) (s : State) : Step C shared r.downloader e s → r.Sends s →
      RedriveStep r (.downloader e) { r with downloader := s }
  | wake (r : Redriving) : r.phase = .asleep → RedriveStep r .internal { r with phase := .awake }
  | lowRoom (r : Redriving) (reserved : ℕ) : r.phase = .awake →
      r.downloader.capacity shared reserved < shared.args.metadataQueue / 2 →
      RedriveStep r .internal { r with phase := .asleep }
  | queryFails (r : Redriving) (reserved : ℕ) : r.phase = .awake →
      shared.args.metadataQueue / 2 ≤ r.downloader.capacity shared reserved →
      RedriveStep r .internal { r with phase := .asleep }
  | query (r : Redriving) (reserved : ℕ) : r.phase = .awake →
      shared.args.metadataQueue / 2 ≤ r.downloader.capacity shared reserved →
      RedriveStep r .internal { r with
        phase := .offering (owedRows r.downloader.assetData r.after (max batch 1))
          (decide ((owedRows r.downloader.assetData r.after (max batch 1)).length = max batch 1)) }
  | alreadyPending (r : Redriving) (id : Bytes) (uri : String) (rows : List (Bytes × String)) (full : Bool) :
      r.phase = .offering ((id, uri) :: rows) full → id ∈ r.downloader.pending →
      RedriveStep r (.offered id uri .alreadyPending) { r with after := id, phase := .offering rows full }
  | offer (r : Redriving) (id : Bytes) (uri : String) (rows : List (Bytes × String)) (full : Bool) :
      r.phase = .offering ((id, uri) :: rows) full → id ∉ r.downloader.pending →
      RedriveStep r .internal
        { downloader := { r.downloader with
            pending := insert id r.downloader.pending
            enqueuing := ⟨id, uri, 0⟩ ::ₘ r.downloader.enqueuing }
          after := id
          phase := .sending id uri rows full }
  | queued (r : Redriving) (id : Bytes) (uri : String) (rows : List (Bytes × String)) (full : Bool)
      (others : Multiset Job) : r.phase = .sending id uri rows full →
      r.downloader.enqueuing = ⟨id, uri, 0⟩ ::ₘ others → r.downloader.HasRoom shared →
      RedriveStep r (.offered id uri .queued) { r with
        downloader := { r.downloader with enqueuing := others, queue := r.downloader.queue ++ [⟨id, uri, 0⟩] }
        phase := .offering rows full }
  /-- the channel is full or closed -/
  | dropped (r : Redriving) (id : Bytes) (uri : String) (rows : List (Bytes × String)) (full : Bool)
      (others : Multiset Job) : r.phase = .sending id uri rows full →
      r.downloader.enqueuing = ⟨id, uri, 0⟩ ::ₘ others →
      RedriveStep r (.offered id uri .dropped) { r with
        downloader := { r.downloader with enqueuing := others, pending := r.downloader.pending.erase id }
        phase := .offering rows full }
  | nextBatch (r : Redriving) : r.phase = .offering [] true →
      RedriveStep r .internal { r with phase := .awake }
  | swept (r : Redriving) : r.phase = .offering [] false →
      RedriveStep r .swept { r with after := [], phase := .asleep }

/-- A run from empty tables. -/
inductive RedriveRun : Redriving → Prop
  | init : RedriveRun {}
  | step {r r' : Redriving} {e : RedriveEvent} : RedriveRun r → RedriveStep C shared batch r e r' → RedriveRun r'

/-- The steps from one state to another, the newest first, each with the state that it leads to; `P` holds in
all states on the way. -/
inductive Through (P : Redriving → Prop) (r : Redriving) : List (RedriveEvent × Redriving) → Redriving → Prop
  | refl : P r → Through P r [] r
  | step {es : List (RedriveEvent × Redriving)} {e : RedriveEvent} {r₁ r₂ : Redriving} : Through P r es r₁ →
      RedriveStep C shared batch r₁ e r₂ → P r₂ → Through P r ((e, r₂) :: es) r₂

end Steps

/-! ### The downloader under the loop -/

/-- To the downloader the loop is one more caller of `enqueue`. -/
theorem RedriveStep.refines {C : Crates} {shared : Shared} {batch : ℕ} {r r' : Redriving} {e : RedriveEvent}
    (h : RedriveStep C shared batch r e r') :
    r'.downloader = r.downloader ∨ ∃ e, Step C shared r.downloader e r'.downloader := by
  cases h with
  | downloader e s hstep _ => exact .inr ⟨e, hstep⟩
  | offer id uri rows full _ hid => exact .inr ⟨.internal, Step.enqueue r.downloader id uri hid⟩
  | queued id uri rows full others _ hjob hroom =>
    exact .inr ⟨.internal, Step.trySend r.downloader ⟨id, uri, 0⟩ others hjob hroom⟩
  | dropped id uri rows full others _ hjob =>
    exact .inr ⟨.internal, Step.trySendFails r.downloader ⟨id, uri, 0⟩ others hjob⟩
  | _ => exact .inl rfl

theorem RedriveRun.run {C : Crates} {shared : Shared} {batch : ℕ} {r : Redriving}
    (h : RedriveRun C shared batch r) : ∃ es, Run C shared es r.downloader := by
  induction h with
  | init => exact ⟨[], .init⟩
  | step _ hstep ih =>
    obtain ⟨es, hrun⟩ := ih
    rcases hstep.refines with heq | ⟨e, hstep⟩
    · exact ⟨es, heq ▸ hrun⟩
    · exact ⟨e :: es, hrun.step hstep⟩

theorem Through.run {C : Crates} {shared : Shared} {batch : ℕ} {P : Redriving → Prop} {r r' : Redriving}
    {es : List (RedriveEvent × Redriving)} (h : Through C shared batch P r es r')
    (hrun : RedriveRun C shared batch r) : RedriveRun C shared batch r' := by
  induction h with
  | refl => exact hrun
  | step _ hstep _ ih => exact ih.step hstep

/-! ### What a query gives -/

theorem pairwise_owedAfter (t : Table Bytes AssetDataRow) (after : Bytes) :
    (owedAfter t after).Pairwise fun a b => a.1 < b.1 := by
  have htotal : Std.Total fun a b : Bytes × AssetDataRow => a.1 ≤ b.1 := ⟨fun a b => Std.Total.total a.1 b.1⟩
  have htrans : IsTrans (Bytes × AssetDataRow) fun a b => a.1 ≤ b.1 := ⟨fun _ _ _ => List.le_trans⟩
  have hle : (owedAfter t after).Pairwise fun a b => a.1 ≤ b.1 := List.pairwise_insertionSort _ _
  have hne : (owedAfter t after).Pairwise fun a b => a.1 ≠ b.1 := by
    have hkeys : (((scan t).filter fun e => owed e.2 && decide (after < e.1)).map Prod.fst).Nodup :=
      (nodup_keys_scan t).sublist (List.filter_sublist.map _)
    have hperm := (List.perm_insertionSort (fun a b : Bytes × AssetDataRow => a.1 ≤ b.1)
      ((scan t).filter fun e => owed e.2 && decide (after < e.1))).map Prod.fst
    exact List.pairwise_map.mp (hperm.nodup_iff.mpr hkeys)
  refine (hle.and hne).imp fun {a b} h => ?_
  by_contra hlt
  exact h.2 (List.le_antisymm h.1 (List.not_lt.mp hlt))

theorem mem_owedAfter {t : Table Bytes AssetDataRow} {after : Bytes} {e : Bytes × AssetDataRow} :
    e ∈ owedAfter t after ↔ t.lookup e.1 = some e.2 ∧ owed e.2 = true ∧ after < e.1 := by
  rw [owedAfter, List.mem_insertionSort, List.mem_filter, mem_scan, Bool.and_eq_true, decide_eq_true_eq]

/-- An owed row after the last one is in the batch, or the batch is full and the row comes after it. -/
theorem owed_of_query {t : Table Bytes AssetDataRow} {after id : Bytes} {row : AssetDataRow} {n : ℕ}
    (hlookup : t.lookup id = some row) (howed : owed row = true) (hafter : after < id) :
    id ∈ (owedRows t after n).map Prod.fst ∨
      (owedRows t after n).length = n ∧ ∀ x ∈ owedRows t after n, x.1 < id := by
  have hmem : (id, row) ∈ (owedAfter t after).take n ++ (owedAfter t after).drop n := by
    rw [List.take_append_drop]
    exact mem_owedAfter.mpr ⟨hlookup, howed, hafter⟩
  have hsorted := pairwise_owedAfter t after
  rw [← List.take_append_drop n (owedAfter t after)] at hsorted
  rcases List.mem_append.mp hmem with htake | hdrop
  · refine .inl (List.mem_map.mpr ⟨(id, row.metadataUrl.1), ?_, rfl⟩)
    exact List.mem_map.mpr ⟨(id, row), htake, rfl⟩
  · have hlong : n ≤ (owedAfter t after).length := by
      have := List.length_pos_of_mem hdrop
      rw [List.length_drop] at this
      omega
    refine .inr ⟨by rw [owedRows, List.length_map, List.length_take, Nat.min_eq_left hlong], fun x hx => ?_⟩
    obtain ⟨e, he, rfl⟩ := List.mem_map.mp hx
    exact (List.pairwise_append.mp hsorted).2.2 e he (id, row) hdrop

theorem pairwise_owedRows (t : Table Bytes AssetDataRow) (after : Bytes) (n : ℕ) :
    (owedRows t after n).Pairwise fun a b => a.1 < b.1 :=
  List.pairwise_map.mpr ((pairwise_owedAfter t after).sublist (List.take_sublist _ _))

theorem lt_of_mem_owedRows {t : Table Bytes AssetDataRow} {after : Bytes} {n : ℕ} {x : Bytes × String}
    (hx : x ∈ owedRows t after n) : after < x.1 := by
  obtain ⟨e, he, rfl⟩ := List.mem_map.mp hx
  exact (mem_owedAfter.mp (List.mem_of_mem_take he)).2.2

/-! ### Sweeps -/

/-- The row of an id is owed. -/
def Owed (id : Bytes) (r : Redriving) : Prop := ∃ row, r.downloader.assetData.lookup id = some row ∧ owed row = true

/-- The loop has not come to an id yet, or is sending its job. -/
def Ahead (id : Bytes) (r : Redriving) : Prop :=
  match r.phase with
  | .asleep | .awake => r.after < id
  | .offering rows full => id ∈ rows.map Prod.fst ∨ full = true ∧ r.after < id ∧ ∀ x ∈ rows, x.1 < id
  | .sending id' _ rows full =>
    id' = id ∨ id ∈ rows.map Prod.fst ∨ full = true ∧ r.after < id ∧ ∀ x ∈ rows, x.1 < id

/-- There is a job for an id when `enqueue` returns, or it was dropped. -/
def HasJob (id : Bytes) (outcome : Outcome) (s : State) : Prop :=
  match outcome with
  | .alreadyPending => id ∈ s.pending
  | .queued => ∃ job ∈ s.live, job.assetDataId = id
  | .dropped => True

/-- An id has been asked for. -/
def Asked (id : Bytes) (es : List (RedriveEvent × Redriving)) : Prop :=
  ∃ uri outcome r, (.offered id uri outcome, r) ∈ es ∧ HasJob id outcome r.downloader

/-- What is ahead in a batch and is not its first row is ahead in the rest, from that row on. -/
theorem ahead_of_cons {id id' after : Bytes} {uri : String} {rows : List (Bytes × String)} {full : Bool}
    (hid : id' ≠ id) (h : id ∈ ((id', uri) :: rows).map Prod.fst ∨
      full = true ∧ after < id ∧ ∀ x ∈ (id', uri) :: rows, x.1 < id) :
    id ∈ rows.map Prod.fst ∨ full = true ∧ id' < id ∧ ∀ x ∈ rows, x.1 < id := by
  rcases h with hmem | ⟨hfull, -, hbelow⟩
  · rw [List.map_cons, List.mem_cons] at hmem
    exact .inl (hmem.resolve_left fun heq => hid heq.symm)
  · obtain ⟨hfirst, hbelow⟩ := List.forall_mem_cons.mp hbelow
    exact .inr ⟨hfull, hfirst, hbelow⟩

/-- The loop does not pass an owed row. -/
theorem Ahead.step {C : Crates} {shared : Shared} {batch : ℕ} {id : Bytes} {r r' : Redriving} {e : RedriveEvent}
    (h : Ahead id r) (howed : Owed id r) (hstep : RedriveStep C shared batch r e r') :
    Ahead id r' ∨ ∃ uri outcome, e = .offered id uri outcome ∧ HasJob id outcome r'.downloader := by
  cases hstep with
  | downloader e s _ _ => exact .inl h
  | wake hphase =>
    rw [Ahead, hphase] at h
    exact .inl h
  | lowRoom reserved hphase _ =>
    rw [Ahead, hphase] at h
    exact .inl h
  | queryFails reserved hphase _ =>
    rw [Ahead, hphase] at h
    exact .inl h
  | query reserved hphase _ =>
    rw [Ahead, hphase] at h
    obtain ⟨row, hlookup, howed⟩ := howed
    rcases owed_of_query (n := max batch 1) hlookup howed h with hmem | ⟨hfull, hbelow⟩
    · exact .inl (.inl hmem)
    · exact .inl (.inr ⟨decide_eq_true hfull, h, hbelow⟩)
  | alreadyPending id' uri rows full hphase hpending =>
    rw [Ahead, hphase] at h
    by_cases hid : id' = id
    · subst hid
      exact .inr ⟨uri, _, rfl, hpending⟩
    · exact .inl (ahead_of_cons hid h)
  | offer id' uri rows full hphase _ =>
    rw [Ahead, hphase] at h
    by_cases hid : id' = id
    · exact .inl (.inl hid)
    · exact .inl (.inr (ahead_of_cons hid h))
  | queued id' uri rows full others hphase hjob _ =>
    rw [Ahead, hphase] at h
    rcases h with rfl | h
    · refine .inr ⟨uri, _, rfl, ⟨id', uri, 0⟩, ?_, rfl⟩
      simp [State.live]
    · exact .inl h
  | dropped id' uri rows full others hphase _ =>
    rw [Ahead, hphase] at h
    rcases h with rfl | h
    · exact .inr ⟨uri, _, rfl, trivial⟩
    · exact .inl h
  | nextBatch hphase =>
    rw [Ahead, hphase] at h
    rcases h with hmem | ⟨-, hafter, -⟩
    · exact absurd hmem List.not_mem_nil
    · exact .inl hafter
  | swept hphase =>
    rw [Ahead, hphase] at h
    rcases h with hmem | ⟨hfull, -⟩
    · exact absurd hmem List.not_mem_nil
    · cases hfull

theorem Through.asked {C : Crates} {shared : Shared} {batch : ℕ} {id : Bytes} {r r' : Redriving}
    {es : List (RedriveEvent × Redriving)} (h : Through C shared batch (Owed id) r es r') (hahead : Ahead id r) :
    Owed id r' ∧ (Ahead id r' ∨ Asked id es) := by
  induction h with
  | refl howed => exact ⟨howed, .inl hahead⟩
  | step _ hstep howed ih =>
    refine ⟨howed, ?_⟩
    obtain ⟨howed₁, hahead₁ | ⟨uri, outcome, s, hmem, hjob⟩⟩ := ih
    · rcases hahead₁.step howed₁ hstep with hahead₂ | ⟨uri, outcome, rfl, hjob⟩
      · exact .inl hahead₂
      · exact .inr ⟨uri, outcome, _, List.mem_cons_self, hjob⟩
    · exact .inr ⟨uri, outcome, s, List.mem_cons_of_mem _ hmem, hjob⟩

/-- The states on the way are reached. -/
theorem Through.reached {C : Crates} {shared : Shared} {batch : ℕ} {P : Redriving → Prop} {r r' : Redriving}
    {es : List (RedriveEvent × Redriving)} (h : Through C shared batch P r es r')
    (hrun : RedriveRun C shared batch r) {e : RedriveEvent} {s : Redriving} (hs : (e, s) ∈ es) :
    RedriveRun C shared batch s := by
  induction h with
  | refl => exact absurd hs List.not_mem_nil
  | step hthrough hstep _ ih =>
    rcases List.mem_cons.mp hs with heq | hs
    · obtain ⟨rfl, rfl⟩ := Prod.mk.inj heq
      exact (hthrough.run hrun).step hstep
    · exact ih hs

/-- The id that an event asks for. -/
def RedriveEvent.askedFor : RedriveEvent → Option Bytes
  | .offered id _ _ => some id
  | _ => none

/-- The ids that have been asked for, the latest first. -/
def askedFor (es : List (RedriveEvent × Redriving)) : List Bytes := es.filterMap fun p => p.1.askedFor

/-- The ids go up, and what is left of the batch goes on from there. -/
structure Ascending (es : List (RedriveEvent × Redriving)) (r : Redriving) : Prop where
  asked : (askedFor es).Pairwise fun a b => b < a
  after : ∀ a ∈ askedFor es, a ≤ r.after
  rows : ∀ rows full, (r.phase = .offering rows full ∨ ∃ id uri, r.phase = .sending id uri rows full) →
    (rows.Pairwise fun a b => a.1 < b.1) ∧ ∀ x ∈ rows, r.after < x.1
  sending : ∀ id uri rows full, r.phase = .sending id uri rows full →
    r.after = id ∧ ∀ a ∈ askedFor es, a < id

/-- The loop goes on without asking for anything. -/
theorem Ascending.quiet {es : List (RedriveEvent × Redriving)} {r r' : Redriving} (h : Ascending es r)
    {e : RedriveEvent} (he : e.askedFor = none) (hafter : r'.after = r.after)
    (hrows : ∀ rows full, r'.phase = .offering rows full →
      (rows.Pairwise fun a b => a.1 < b.1) ∧ ∀ x ∈ rows, r'.after < x.1)
    (hsending : ∀ id uri rows full, r'.phase ≠ .sending id uri rows full) : Ascending ((e, r') :: es) r' := by
  have hsame : askedFor ((e, r') :: es) = askedFor es := List.filterMap_cons_none he
  refine ⟨hsame ▸ h.asked, hsame ▸ hafter ▸ h.after, fun rows full hphase => ?_, fun id uri rows full hphase => ?_⟩
  · rcases hphase with hphase | ⟨id, uri, hphase⟩
    · exact hrows rows full hphase
    · exact absurd hphase (hsending id uri rows full)
  · exact absurd hphase (hsending id uri rows full)

/-- `enqueue` returns for the id that the loop has come to. -/
theorem Ascending.offered {es : List (RedriveEvent × Redriving)} {r r' : Redriving} (h : Ascending es r)
    {id : Bytes} {uri : String} {outcome : Outcome} {rows : List (Bytes × String)} {full : Bool}
    (hbelow : ∀ a ∈ askedFor es, a < id) (hsorted : rows.Pairwise fun a b => a.1 < b.1)
    (habove : ∀ x ∈ rows, id < x.1) (hafter : r'.after = id) (hphase : r'.phase = .offering rows full) :
    Ascending ((.offered id uri outcome, r') :: es) r' := by
  refine ⟨List.pairwise_cons.mpr ⟨hbelow, h.asked⟩, fun a ha => ?_, fun rows' full' heq => ?_,
    fun id' uri' rows' full' heq => ?_⟩
  · rw [hafter]
    rcases List.mem_cons.mp ha with rfl | ha
    · exact List.le_refl _
    · exact List.le_of_lt (hbelow a ha)
  · rw [hphase] at heq
    obtain heq | ⟨_, _, heq⟩ := heq
    · obtain ⟨rfl, -⟩ := Phase.offering.inj heq
      rw [hafter]
      exact ⟨hsorted, habove⟩
    · cases heq
  · rw [hphase] at heq
    cases heq

theorem Ascending.step {C : Crates} {shared : Shared} {batch : ℕ} {es : List (RedriveEvent × Redriving)}
    {r r' : Redriving} {e : RedriveEvent} (h : Ascending es r) (hstep : RedriveStep C shared batch r e r')
    (he : e ≠ .swept) : Ascending ((e, r') :: es) r' := by
  have hfirst : ∀ {id : Bytes} {uri : String} {rows : List (Bytes × String)} {full : Bool},
      r.phase = .offering ((id, uri) :: rows) full → (∀ a ∈ askedFor es, a < id) ∧
        (rows.Pairwise fun a b => a.1 < b.1) ∧ ∀ x ∈ rows, id < x.1 := by
    intro id uri rows full hphase
    obtain ⟨hsorted, habove⟩ := h.rows _ _ (.inl hphase)
    obtain ⟨hrest, hsorted⟩ := List.pairwise_cons.mp hsorted
    exact ⟨fun a ha => List.lt_of_le_of_lt (h.after a ha) (habove (id, uri) List.mem_cons_self), hsorted, hrest⟩
  cases hstep with
  | downloader e s _ _ => exact ⟨h.asked, h.after, h.rows, h.sending⟩
  | query reserved hphase _ =>
    refine h.quiet rfl rfl (fun rows full heq => ?_) fun _ _ _ _ heq => by cases heq
    obtain ⟨rfl, -⟩ := Phase.offering.inj heq
    exact ⟨pairwise_owedRows _ _ _, fun x hx => lt_of_mem_owedRows hx⟩
  | alreadyPending id uri rows full hphase _ =>
    obtain ⟨hbelow, hsorted, habove⟩ := hfirst hphase
    exact h.offered hbelow hsorted habove rfl rfl
  | offer id uri rows full hphase _ =>
    obtain ⟨hbelow, hsorted, habove⟩ := hfirst hphase
    refine ⟨h.asked, fun a ha => List.le_of_lt (hbelow a ha), fun rows' full' heq => ?_,
      fun id' uri' rows' full' heq => ?_⟩
    · obtain heq | ⟨_, _, heq⟩ := heq
      · cases heq
      · cases heq
        exact ⟨hsorted, habove⟩
    · cases heq
      exact ⟨rfl, hbelow⟩
  | queued id uri rows full others hphase _ _ | dropped id uri rows full others hphase _ =>
    obtain ⟨hafter, hbelow⟩ := h.sending id uri rows full hphase
    obtain ⟨hsorted, habove⟩ := h.rows rows full (.inr ⟨id, uri, hphase⟩)
    exact h.offered hbelow hsorted (hafter ▸ habove) hafter rfl
  | swept _ => exact absurd rfl he
  | _ => exact h.quiet rfl rfl (fun rows full heq => by cases heq) fun _ _ _ _ heq => by cases heq

theorem Through.ascending {C : Crates} {shared : Shared} {batch : ℕ} {P : Redriving → Prop} {r r' : Redriving}
    {es : List (RedriveEvent × Redriving)} (h : Through C shared batch P r es r') (hasleep : r.phase = .asleep)
    (hone : ∀ p ∈ es, p.1 ≠ .swept) : Ascending es r' := by
  induction h with
  | refl =>
    refine ⟨.nil, fun _ ha => absurd ha List.not_mem_nil, fun rows full heq => ?_, fun _ _ _ _ heq => ?_⟩
    · rw [hasleep] at heq
      obtain heq | ⟨_, _, heq⟩ := heq <;> cases heq
    · rw [hasleep] at heq
      cases heq
  | step _ hstep _ ih =>
    exact (ih fun p hp => hone p (List.mem_cons_of_mem _ hp)).step hstep (hone _ List.mem_cons_self)

/-- **A sweep misses no row that is owed all the way.**  Between one begin and the next such a row is asked for, and
when `enqueue` returns it has exactly one live job, unless the job was dropped; and the ids that are asked for go up,
so that none is asked for twice. -/
theorem sweep_misses_none {C : Crates} {shared : Shared} {batch : ℕ} {id : Bytes} {r r' r'' : Redriving}
    {es : List (RedriveEvent × Redriving)} (hrun : RedriveRun C shared batch r) (hasleep : r.phase = .asleep)
    (hafter : r.after = []) (hid : id ≠ []) (hsweep : Through C shared batch (Owed id) r es r')
    (hone : ∀ p ∈ es, p.1 ≠ .swept) (hend : RedriveStep C shared batch r' .swept r'') :
    (∃ uri outcome s, (.offered id uri outcome, s) ∈ es ∧
      (outcome ≠ .dropped → (s.downloader.live.filter fun job => id = job.assetDataId).card = 1)) ∧
    (askedFor es).Pairwise fun a b => b < a := by
  have hahead : Ahead id r := by
    rw [Ahead, hasleep]
    show r.after < id
    rw [hafter]
    cases id with
    | nil => exact absurd rfl hid
    | cons a as => exact List.nil_lt_cons a as
  obtain ⟨-, hahead' | ⟨uri, outcome, s, hmem, hjob⟩⟩ := hsweep.asked hahead
  · -- the end of the last batch is not ahead of anything
    cases hend with
    | swept hphase =>
      rw [Ahead, hphase] at hahead'
      rcases hahead' with hmem | ⟨hfull, -⟩
      · exact absurd hmem List.not_mem_nil
      · cases hfull
  · obtain ⟨events, hdownloads⟩ := (hsweep.reached hrun hmem).run
    obtain ⟨hlive, hone'⟩ := pending_exact C shared events _ hdownloads
    refine ⟨⟨uri, outcome, s, hmem, fun hkept => hone' id ?_⟩, (hsweep.ascending hasleep hone).asked⟩
    cases outcome with
    | alreadyPending => exact hjob
    | queued => exact (hlive id).mpr hjob
    | dropped => exact absurd rfl hkept

/-- One owed row, for which there is no job. -/
def oneOwed : Redriving := { downloader := { assetData := Sql.upsert ∅ sampleWrite.id sampleWrite.upsert } }

/-- The loop wakes up, finds it and asks for it. -/
theorem one_owed_is_asked_for :
    ∃ es r, Through sampleCrates sampleShared 2 (Owed sampleJob.assetDataId) oneOwed es r ∧
      (∃ uri outcome s, (.offered sampleJob.assetDataId uri outcome, s) ∈ es ∧
        (outcome ≠ .dropped →
          (s.downloader.live.filter fun job => sampleJob.assetDataId = job.assetDataId).card = 1)) ∧
      (askedFor es).Pairwise fun a b => b < a := by
  have howed : ∀ r : Redriving, r.downloader.assetData = oneOwed.downloader.assetData →
      Owed sampleJob.assetDataId r := by
    intro r hr
    refine ⟨sampleWrite.row, by rw [hr]; rfl, ?_⟩
    rw [owed, metadataUrl_sampleWrite]
    decide
  have hrun : RedriveRun sampleCrates sampleShared 2 oneOwed :=
    .step .init (.downloader _ _ _ (Step.write _ sampleWrite) fun _ _ _ _ h => by cases h)
  have hquery : owedRows oneOwed.downloader.assetData [] 2 = [(sampleJob.assetDataId, sampleJob.uri)] := by
    have hscan : scan oneOwed.downloader.assetData = [(sampleJob.assetDataId, sampleWrite.row)] := rfl
    have howed : owed sampleWrite.row = true := by
      rw [owed, metadataUrl_sampleWrite]
      decide
    have hafter : ([] : Bytes) < sampleJob.assetDataId := by decide
    rw [owedRows, owedAfter, hscan]
    simp [howed, hafter, metadataUrl_sampleWrite]
  have hqueried : Through sampleCrates sampleShared 2 (Owed sampleJob.assetDataId) oneOwed _ _ :=
    ((Through.refl (howed oneOwed rfl)).step (.wake _ rfl) (howed _ rfl)).step (.query _ 0 rfl (by decide))
      (howed _ rfl)
  have hphase : Phase.offering (owedRows oneOwed.downloader.assetData [] 2)
      (decide ((owedRows oneOwed.downloader.assetData [] 2).length = 2))
      = .offering [(sampleJob.assetDataId, sampleJob.uri)] false := by rw [hquery]; rfl
  have hsending := hqueried.step (.offer _ sampleJob.assetDataId sampleJob.uri [] false hphase (by decide))
    (howed _ rfl)
  have hasked := hsending.step (.queued _ sampleJob.assetDataId sampleJob.uri [] false 0 rfl rfl (by decide))
    (howed _ rfl)
  refine ⟨_, _, hasked, sweep_misses_none hrun rfl rfl (by decide) hasked ?_ (.swept _ rfl)⟩
  intro p hp
  simp only [List.mem_cons, List.not_mem_nil, or_false] at hp
  rcases hp with rfl | rfl | rfl | rfl <;> exact nofun

end DasIndexer.Grpc.Metadata
