import DasIndexer.Bubblegum.Db
import DasIndexer.Lib.GuardedRuns
import Mathlib.Logic.Relation

/-!
# Acknowledgements of the stream workers

`nft_ingester` reads account and transaction messages from Redis streams in a consumer group.  A worker receives
a batch, handles its messages side by side and sends the ids of those that `capture_result` lets go to the ack
worker; that one collects ids and acknowledges them every 100 ms.  It forgets them also when the acknowledgement
fails.  The first worker of an entry of the configuration asks for messages that have been delivered and not
acknowledged, the others for new ones.  A worker whose messenger does not start ends without a word, and so does the
ack worker.

**`acked_was_handled`**: in every run, with crashes and failed acknowledgements, a message that is gone from the
streams was handled with an outcome that lets it go, where the messenger has not dropped it itself.
**`drains_iff`**: a message can still be handled and acknowledged, wherever a run has got in which no messenger has
failed to start and with no help of a crash, exactly when its stream is configured with two workers or more and
handling the message may let it go.
-/

namespace DasIndexer.Ingester

open GuardedRuns

/-! ### Outcomes -/

/-- `capture_result`: whether a message is let go. -/
def captureResult : Except ProgramTransformerError Unit → Bool
  | .ok _ => true
  | .error .notImplemented => true
  -- errors that handling again cannot clear
  | .error (.deserializationError _) => true
  | .error (.parsingError _) => true
  | .error _ => false

/-- How `handle_account` or `handle_transaction` ends. -/
inductive Outcome where
  /-- `root_as_account_info` or `root_as_transaction_info` fails -/
  | undecodable
  /-- `try_into().ok()?` -/
  | unconvertible
  | panicked
  | captured (res : Except ProgramTransformerError Unit)
deriving DecidableEq

/-- Whether the task returns the id of its message. -/
def Outcome.returnsId : Outcome → Bool
  | .captured res => captureResult res
  | _ => false

/-- What may become of the data of a message.  Whether it is decoded and converted is up to the data; the result of
the program transformer is up to the tables as well. -/
structure Handling where
  decodes : Bytes → Bool
  converts : Bytes → Bool
  panics : Bytes → Bool
  results : Bytes → Except ProgramTransformerError Unit → Bool
  ends : ∀ data, panics data = true ∨ ∃ res, results data res = true

/-- Whether handling the data may end with an outcome. -/
def Handling.may (H : Handling) (data : Bytes) : Outcome → Bool
  | .undecodable => !H.decodes data
  | .unconvertible => H.decodes data && !H.converts data
  | .panicked => H.decodes data && H.panics data
  | .captured res => H.decodes data && H.converts data && H.results data res

/-- A task ends. -/
theorem Handling.exists_outcome (H : Handling) (data : Bytes) : ∃ outcome, H.may data outcome = true := by
  cases hdecodes : H.decodes data with
  | false => exact ⟨.undecodable, by simp [may, hdecodes]⟩
  | true =>
    cases hconverts : H.converts data with
    | false => exact ⟨.unconvertible, by simp [may, hdecodes, hconverts]⟩
    | true =>
      rcases H.ends data with hpanics | ⟨res, hres⟩
      · exact ⟨.panicked, by simp [may, hdecodes, hpanics]⟩
      · exact ⟨.captured res, by simp [may, hdecodes, hconverts, hres]⟩

/-! ### Workers -/

/-- A message of a stream. -/
structure Entry where
  stream : String
  id : String
  data : Bytes
deriving DecidableEq

inductive ConsumptionType where
  | new | redeliver
deriving DecidableEq

inductive WorkerType where
  | account | transaction
deriving DecidableEq

/-- `T::new(config).await` of a worker. -/
inductive Messenger where
  | starting | up | failed
deriving DecidableEq

/-- `account_worker` and `transaction_worker`: the messages that are being handled, and the tasks that have
ended and are not joined, with whether they return their id. -/
structure Worker where
  workerType : WorkerType
  streamKey : String
  consumptionType : ConsumptionType
  messenger : Messenger := .starting
  running : List Entry := []
  ended : List (Entry × Bool) := []

structure WorkerConfig where
  streamName : String
  workerType : WorkerType
  workerCount : ℕ

/-- The workers of an entry of the configuration: the first redelivers. -/
def WorkerConfig.workers (config : WorkerConfig) : List Worker :=
  (List.range config.workerCount).map fun i =>
    { workerType := config.workerType, streamKey := config.streamName
      consumptionType := if i = 0 then .redeliver else .new }

/-- The streams and the process: what has been added to the streams, what has not been delivered, what has been
delivered and not acknowledged and what the messenger has dropped; the workers, the messenger of the ack worker, the
channel to it and what it has collected; and the outcomes so far. -/
structure State where
  published : List Entry := []
  fresh : List Entry := []
  pending : List Entry := []
  dropped : List Entry := []
  workers : List Worker
  ackMessenger : Messenger := .starting
  channel : List Entry := []
  acks : List Entry := []
  outcomes : List (Entry × Outcome) := []

/-- `main` with a list of worker configurations. -/
def State.start (configs : List WorkerConfig) : State := { workers := configs.flatMap WorkerConfig.workers }

inductive Event where
  | publish (e : Entry)
  | start (i : ℕ) (ok : Bool)
  | startAck (ok : Bool)
  | recv (i : ℕ) (batch : List Entry)
  | handled (i : ℕ) (e : Entry) (outcome : Outcome)
  | join (i : ℕ) (e : Entry) (returnsId : Bool)
  | collect
  /-- the acknowledgement of what has been collected of a stream; one that fails may have removed some -/
  | ack (stream : String) (ok : Bool) (removed : List Entry)
  /-- the messenger gives a message up: it is past its retry limit, or its stream is trimmed -/
  | drop (e : Entry)
  /-- the process dies and is started again -/
  | crash
deriving DecidableEq

/-- The messages that a worker may be given. -/
def State.source (s : State) : ConsumptionType → List Entry
  | .new => s.fresh
  | .redeliver => s.pending

/-- The worker has joined all tasks of its last batch. -/
def Worker.idle (w : Worker) : Bool := w.running.isEmpty && w.ended.isEmpty

/-- Take entries out of a list. -/
def without (entries removed : List Entry) : List Entry := entries.filter fun e => decide (e ∉ removed)

def step (H : WorkerType → Handling) (s : State) : Event → Option State
  | .publish e =>
    -- an id is given once
    if ∃ p ∈ s.published, p.stream = e.stream ∧ p.id = e.id then none
    else some { s with published := s.published ++ [e], fresh := s.fresh ++ [e] }
  | .start i ok => do
    let w ← s.workers[i]?
    if w.messenger = .starting then
      some { s with workers := s.workers.set i { w with messenger := if ok then .up else .failed } }
    else none
  | .startAck ok =>
    -- the receiver of the channel goes with its task
    if s.ackMessenger = .starting then
      some { s with
        ackMessenger := if ok then .up else .failed
        channel := if ok then s.channel else [] }
    else none
  | .recv i batch => do
    let w ← s.workers[i]?
    if w.messenger = .up ∧ w.idle = true ∧
        ∀ e ∈ batch, e.stream = w.streamKey ∧ e ∈ s.source w.consumptionType then
      some { s with
        workers := s.workers.set i { w with running := batch }
        fresh := without s.fresh batch
        pending := s.pending ++ without batch s.pending }
    else none
  | .handled i e outcome => do
    let w ← s.workers[i]?
    if e ∈ w.running ∧ (H w.workerType).may e.data outcome = true then
      some { s with
        workers := s.workers.set i { w with
          running := w.running.erase e, ended := w.ended ++ [(e, outcome.returnsId)] }
        outcomes := s.outcomes ++ [(e, outcome)] }
    else none
  | .join i e returnsId => do
    let w ← s.workers[i]?
    if (e, returnsId) ∈ w.ended then
      some { s with
        workers := s.workers.set i { w with ended := w.ended.erase (e, returnsId) }
        channel := if returnsId = true ∧ s.ackMessenger ≠ .failed then s.channel ++ [e] else s.channel }
    else none
  | .collect =>
    match s.channel with
    | [] => none
    | e :: channel =>
      if s.ackMessenger = .up then some { s with channel, acks := s.acks ++ [e] } else none
  | .ack stream ok removed =>
    let msgs := s.acks.filter fun e => decide (e.stream = stream)
    let acks := s.acks.filter fun e => decide (e.stream ≠ stream)
    if s.ackMessenger = .up ∧ (ok = true ∨ ∀ e ∈ removed, e ∈ msgs) then
      some { s with acks, pending := without s.pending (if ok then msgs else removed) }
    else none
  | .drop e => some { s with
      fresh := without s.fresh [e], pending := without s.pending [e], dropped := s.dropped ++ [e] }
  | .crash =>
    some { s with
      workers := s.workers.map fun w => { w with messenger := .starting, running := [], ended := [] }
      ackMessenger := .starting
      channel := []
      acks := [] }

/-! ### What a step does -/

/-- The steps, by their outcome. -/
inductive Step (H : WorkerType → Handling) (s : State) : Event → State → Prop
  | publish {e} : Step H s (.publish e) { s with published := s.published ++ [e], fresh := s.fresh ++ [e] }
  | start {i w ok} (hw : s.workers[i]? = some w) :
    Step H s (.start i ok)
      { s with workers := s.workers.set i { w with messenger := if ok then .up else .failed } }
  | startAck {ok} : Step H s (.startAck ok) { s with
      ackMessenger := if ok then .up else .failed
      channel := if ok then s.channel else [] }
  | recv {i w batch} (hw : s.workers[i]? = some w) (hidle : w.idle = true)
      (hbatch : ∀ e ∈ batch, e.stream = w.streamKey ∧ e ∈ s.source w.consumptionType) :
    Step H s (.recv i batch) { s with
      workers := s.workers.set i { w with running := batch }
      fresh := without s.fresh batch
      pending := s.pending ++ without batch s.pending }
  | handled {i w e outcome} (hw : s.workers[i]? = some w) (he : e ∈ w.running)
      (hmay : (H w.workerType).may e.data outcome = true) :
    Step H s (.handled i e outcome) { s with
      workers := s.workers.set i { w with
        running := w.running.erase e, ended := w.ended ++ [(e, outcome.returnsId)] }
      outcomes := s.outcomes ++ [(e, outcome)] }
  | join {i w e returnsId} (hw : s.workers[i]? = some w) (he : (e, returnsId) ∈ w.ended) :
    Step H s (.join i e returnsId) { s with
      workers := s.workers.set i { w with ended := w.ended.erase (e, returnsId) }
      channel := if returnsId = true ∧ s.ackMessenger ≠ .failed then s.channel ++ [e] else s.channel }
  | collect {e channel} (hchannel : s.channel = e :: channel) :
    Step H s .collect { s with channel, acks := s.acks ++ [e] }
  | ack {stream ok removed leaving} (hleaving : leaving ⊆ s.acks) :
    Step H s (.ack stream ok removed) { s with
      acks := s.acks.filter fun e => decide (e.stream ≠ stream), pending := without s.pending leaving }
  | drop {e} : Step H s (.drop e) { s with
      fresh := without s.fresh [e], pending := without s.pending [e], dropped := s.dropped ++ [e] }
  | crash : Step H s .crash { s with
      workers := s.workers.map fun w => { w with messenger := .starting, running := [], ended := [] }
      ackMessenger := .starting
      channel := []
      acks := [] }

variable {H : WorkerType → Handling}

theorem step_cases {s s' : State} {event : Event} (h : step H s event = some s') : Step H s event s' := by
  cases event with
  | publish e =>
    obtain ⟨-, h⟩ := Option.ite_none_left_eq_some.mp h
    obtain rfl := Option.some.inj h
    exact .publish
  | start i ok =>
    obtain ⟨w, hw, h⟩ := Option.bind_eq_some_iff.mp h
    obtain ⟨-, h⟩ := Option.ite_none_right_eq_some.mp h
    obtain rfl := Option.some.inj h
    exact .start hw
  | startAck ok =>
    obtain ⟨-, h⟩ := Option.ite_none_right_eq_some.mp h
    obtain rfl := Option.some.inj h
    exact .startAck
  | recv i batch =>
    obtain ⟨w, hw, h⟩ := Option.bind_eq_some_iff.mp h
    obtain ⟨⟨-, hidle, hbatch⟩, h⟩ := Option.ite_none_right_eq_some.mp h
    obtain rfl := Option.some.inj h
    exact .recv hw hidle hbatch
  | handled i e outcome =>
    obtain ⟨w, hw, h⟩ := Option.bind_eq_some_iff.mp h
    obtain ⟨⟨he, hmay⟩, h⟩ := Option.ite_none_right_eq_some.mp h
    obtain rfl := Option.some.inj h
    exact .handled hw he hmay
  | join i e returnsId =>
    obtain ⟨w, hw, h⟩ := Option.bind_eq_some_iff.mp h
    obtain ⟨he, h⟩ := Option.ite_none_right_eq_some.mp h
    obtain rfl := Option.some.inj h
    exact .join hw he
  | collect =>
    cases hchannel : s.channel with
    | nil =>
      simp only [step, hchannel] at h
      cases h
    | cons e channel =>
      simp only [step, hchannel] at h
      obtain ⟨-, h⟩ := Option.ite_none_right_eq_some.mp h
      obtain rfl := Option.some.inj h
      exact .collect hchannel
  | ack stream ok removed =>
    obtain ⟨⟨-, hremoved⟩, h⟩ := Option.ite_none_right_eq_some.mp h
    obtain rfl := Option.some.inj h
    refine .ack ?_
    cases ok with
    | true => exact List.filter_subset_self _
    | false => exact fun e he => List.mem_of_mem_filter (hremoved.resolve_left Bool.false_ne_true e he)
  | drop e =>
    obtain rfl := Option.some.inj h
    exact .drop
  | crash =>
    obtain rfl := Option.some.inj h
    exact .crash

/-- The streams still have a message. -/
def Waiting (s : State) (e : Entry) : Prop := e ∈ s.fresh ∨ e ∈ s.pending

/-- A message has been handled with an outcome that lets it go. -/
def LetGo (s : State) (e : Entry) : Prop := ∃ outcome, (e, outcome) ∈ s.outcomes ∧ outcome.returnsId = true

theorem mem_without {e : Entry} {entries removed : List Entry} :
    e ∈ without entries removed ↔ e ∈ entries ∧ e ∉ removed := by
  simp [without]

/-! ### What has been acknowledged -/

theorem LetGo.mono {s s' : State} {e : Entry} (h : LetGo s e) (hout : s.outcomes ⊆ s'.outcomes) : LetGo s' e := by
  obtain ⟨outcome, hmem, hid⟩ := h
  exact ⟨outcome, hout hmem, hid⟩

/-- The ack worker and what is on its way to it know only messages that were let go. -/
structure Inv (s : State) : Prop where
  kept : ∀ e ∈ s.published, Waiting s e ∨ LetGo s e ∨ e ∈ s.dropped
  ended : ∀ w ∈ s.workers, ∀ e, (e, true) ∈ w.ended → LetGo s e
  channel : ∀ e ∈ s.channel, LetGo s e
  acks : ∀ e ∈ s.acks, LetGo s e

theorem Inv.start (configs : List WorkerConfig) : Inv (State.start configs) where
  kept _ he := by cases he
  ended w hw e he := by
    obtain ⟨config, -, hw⟩ := List.mem_flatMap.mp hw
    obtain ⟨i, -, rfl⟩ := List.mem_map.mp hw
    cases he
  channel _ he := by cases he
  acks _ he := by cases he

/-- A worker takes a batch: what is delivered is pending. -/
theorem waiting_recv {s : State} {e : Entry} (batch : List Entry) (h : Waiting s e) :
    e ∈ without s.fresh batch ∨ e ∈ s.pending ++ without batch s.pending := by
  by_cases hb : e ∈ batch <;> by_cases hp : e ∈ s.pending
  · exact .inr (List.mem_append_left _ hp)
  · exact .inr (List.mem_append_right _ (mem_without.mpr ⟨hb, hp⟩))
  · exact .inr (List.mem_append_left _ hp)
  · exact .inl (mem_without.mpr ⟨h.resolve_right hp, hb⟩)

/-- A task ends: its outcome says whether it returns the id of its message. -/
theorem Inv.handled {s : State} (h : Inv s) {i : ℕ} {w : Worker} (hw : s.workers[i]? = some w) (e : Entry)
    (outcome : Outcome) :
    Inv { s with
      workers := s.workers.set i { w with
        running := w.running.erase e, ended := w.ended ++ [(e, outcome.returnsId)] }
      outcomes := s.outcomes ++ [(e, outcome)] } := by
  have hout : s.outcomes ⊆ s.outcomes ++ [(e, outcome)] := List.subset_append_left _ _
  refine ⟨fun a ha => ?_, fun v hv a ha => ?_, fun a ha => (h.channel a ha).mono hout,
    fun a ha => (h.acks a ha).mono hout⟩
  · rcases h.kept a ha with hwait | hgo | hdrop
    · exact .inl hwait
    · exact .inr (.inl (hgo.mono hout))
    · exact .inr (.inr hdrop)
  · rcases List.mem_or_eq_of_mem_set hv with hv | rfl
    · exact (h.ended v hv a ha).mono hout
    rcases List.mem_append.mp ha with ha | ha
    · exact (h.ended w (List.mem_of_getElem? hw) a ha).mono hout
    · obtain ⟨rfl, hid⟩ := Prod.mk.inj (List.mem_singleton.mp ha)
      exact ⟨outcome, List.mem_append_right _ (List.mem_singleton_self _), hid.symm⟩

/-- A worker whose ended tasks are among those it had. -/
theorem Inv.ended_set {s : State} (h : Inv s) {i : ℕ} {w v : Worker} (hw : s.workers[i]? = some w)
    (hv : v.ended ⊆ w.ended) : ∀ u ∈ s.workers.set i v, ∀ e, (e, true) ∈ u.ended → LetGo s e := by
  intro u hu e he
  rcases List.mem_or_eq_of_mem_set hu with hu | rfl
  · exact h.ended u hu e he
  · exact h.ended w (List.mem_of_getElem? hw) e (hv he)

theorem Inv.step {s s' : State} (h : Inv s) {event : Event} (hstep : Step H s event s') : Inv s' := by
  cases hstep with
  | publish =>
    refine ⟨fun a ha => ?_, h.ended, h.channel, h.acks⟩
    rcases List.mem_append.mp ha with ha | ha
    · exact (h.kept a ha).imp_left (Or.imp_left fun hf => List.mem_append_left _ hf)
    · exact .inl (.inl (List.mem_append_right _ ha))
  | start hw => exact ⟨h.kept, h.ended_set hw (List.Subset.refl _), h.channel, h.acks⟩
  | startAck =>
    refine ⟨h.kept, h.ended, fun e he => ?_, h.acks⟩
    dsimp only at he
    split at he
    · exact h.channel e he
    · exact absurd he List.not_mem_nil
  | @recv i w batch hw hidle hbatch =>
    refine ⟨fun e he => (h.kept e he).imp_left (waiting_recv batch), ?_, h.channel, h.acks⟩
    exact h.ended_set hw (List.Subset.refl _)
  | handled hw he hmay => exact h.handled hw _ _
  | @join i w e returnsId hw he =>
    refine ⟨h.kept, h.ended_set hw List.erase_subset, fun a ha => ?_, h.acks⟩
    dsimp only at ha
    split at ha
    · rename_i hid
      obtain ⟨rfl, -⟩ := hid
      rcases List.mem_append.mp ha with ha | ha
      · exact h.channel a ha
      · exact List.mem_singleton.mp ha ▸ h.ended w (List.mem_of_getElem? hw) e he
    · exact h.channel a ha
  | @collect e channel hchannel =>
    refine ⟨h.kept, h.ended, fun a ha => h.channel a (hchannel ▸ List.mem_cons_of_mem e ha), fun a ha => ?_⟩
    rcases List.mem_append.mp ha with ha | ha
    · exact h.acks a ha
    · exact h.channel a (hchannel ▸ List.mem_singleton.mp ha ▸ List.mem_cons_self)
  | @ack stream ok removed leaving hleaving =>
    refine ⟨fun e he => ?_, h.ended, h.channel, fun e he => h.acks e (List.mem_of_mem_filter he)⟩
    rcases h.kept e he with (hf | hp) | hout
    · exact .inl (.inl hf)
    · by_cases hr : e ∈ leaving
      · exact .inr (.inl (h.acks e (hleaving hr)))
      · exact .inl (.inr (mem_without.mpr ⟨hp, hr⟩))
    · exact .inr hout
  | @drop e =>
    refine ⟨fun a ha => ?_, h.ended, h.channel, h.acks⟩
    by_cases hae : a = e
    · exact .inr (.inr (List.mem_append_right _ (List.mem_singleton.mpr hae)))
    have hne : a ∉ [e] := by simpa using hae
    rcases h.kept a ha with (hf | hp) | hgo | hdrop
    · exact .inl (.inl (mem_without.mpr ⟨hf, hne⟩))
    · exact .inl (.inr (mem_without.mpr ⟨hp, hne⟩))
    · exact .inr (.inl hgo)
    · exact .inr (.inr (List.mem_append_left _ hdrop))
  | crash =>
    refine ⟨h.kept, fun w hw e he => ?_, fun _ he => (by cases he), fun _ he => (by cases he)⟩
    obtain ⟨v, -, rfl⟩ := List.mem_map.mp hw
    cases he

/-- **A message that is gone from the streams was let go**, or the messenger has dropped it. -/
theorem acked_was_handled {configs : List WorkerConfig} {events : List Event} {s : State} {e : Entry}
    (hrun : run (step H) (State.start configs) events = some s) (he : e ∈ s.published) (hgone : ¬ Waiting s e)
    (hkept : e ∉ s.dropped) :
    ∃ res, captureResult res = true ∧ (e, Outcome.captured res) ∈ s.outcomes := by
  have h : Inv s := inv_of_any_run (fun _ _ _ hinv hstep => hinv.step (step_cases hstep)) (Inv.start configs) hrun
  obtain ⟨outcome, hmem, hid⟩ := ((h.kept e he).resolve_left hgone).resolve_right hkept
  cases outcome with
  | captured res => exact ⟨res, hid, hmem⟩
  | undecodable => cases hid
  | unconvertible => cases hid
  | panicked => cases hid

/-- Messages that are all decoded and converted. -/
def sampleHandling : Handling where
  decodes _ := true
  converts _ := true
  panics _ := false
  results _ _ := true
  ends _ := .inr ⟨.ok (), rfl⟩

/-- The database refuses an account the first time; the process dies and the account is delivered again. -/
def redelivery : List Event :=
  let e : Entry := ⟨"ACC", "1-0", []⟩
  [.publish e, .start 1 true, .recv 1 [e], .handled 1 e (.captured (.error (.databaseError "restart transaction"))),
    .crash, .startAck true, .start 0 true, .recv 0 [e], .handled 0 e (.captured (.ok ())), .join 0 e true, .collect,
    .ack "ACC" true []]

theorem redelivered_was_handled :
    ∃ s, run (step fun _ => sampleHandling) (State.start [⟨"ACC", .account, 2⟩]) redelivery = some s ∧
      ∃ res, captureResult res = true ∧ (⟨"ACC", "1-0", []⟩, Outcome.captured res) ∈ s.outcomes := by
  have hrun : run (step fun _ => sampleHandling) (State.start [⟨"ACC", .account, 2⟩]) redelivery = some _ := rfl
  refine ⟨_, hrun, acked_was_handled hrun (by decide) ?_ (by decide)⟩
  rintro (h | h) <;> cases h

/-! ### What can still be handled -/

/-- The messenger drops nothing, the process does not crash, and no messenger fails to start. -/
def Event.undisturbed : Event → Bool
  | .drop _ => false
  | .crash => false
  | .start _ ok => ok
  | .startAck ok => ok
  | _ => true

/-- A step of an undisturbed run. -/
def Continues (H : WorkerType → Handling) (s s' : State) : Prop :=
  ∃ event : Event, event.undisturbed = true ∧ step H s event = some s'

/-- What a worker keeps: its stream, what it asks for and how it handles that. -/
def Worker.kind (w : Worker) : String × ConsumptionType × WorkerType :=
  (w.streamKey, w.consumptionType, w.workerType)

def State.kinds (s : State) : List (String × ConsumptionType × WorkerType) := s.workers.map Worker.kind

theorem kinds_set {workers : List Worker} {i : ℕ} {w v : Worker} (hw : workers[i]? = some w)
    (hkind : v.kind = w.kind) : (workers.set i v).map Worker.kind = workers.map Worker.kind := by
  obtain ⟨hi, rfl⟩ := List.getElem?_eq_some_iff.mp hw
  rw [List.map_set, hkind, ← List.map_set, List.set_getElem_self]

theorem step_kinds {s s' : State} {event : Event} (hstep : Step H s event s') : s'.kinds = s.kinds := by
  cases hstep with
  | start hw => exact kinds_set hw rfl
  | recv hw hidle hbatch => exact kinds_set hw rfl
  | handled hw he hmay => exact kinds_set hw rfl
  | join hw he => exact kinds_set hw rfl
  | crash =>
    simp only [State.kinds, List.map_map]
    rfl
  | _ => rfl

theorem mem_kinds {configs : List WorkerConfig} {k : String} {c : ConsumptionType} {t : WorkerType} :
    (k, c, t) ∈ (State.start configs).kinds ↔ ∃ config ∈ configs, config.streamName = k ∧ config.workerType = t ∧
      ∃ i < config.workerCount, (if i = 0 then ConsumptionType.redeliver else .new) = c := by
  simp only [State.kinds, State.start, WorkerConfig.workers, List.map_flatMap, List.mem_flatMap, List.mem_map,
    List.mem_range, Worker.kind]
  constructor
  · rintro ⟨config, hconfig, -, ⟨i, hi, rfl⟩, hkind⟩
    simp only [Prod.mk.injEq] at hkind
    obtain ⟨rfl, rfl, rfl⟩ := hkind
    exact ⟨config, hconfig, rfl, rfl, i, hi, rfl⟩
  · rintro ⟨config, hconfig, rfl, rfl, i, hi, rfl⟩
    exact ⟨config, hconfig, _, ⟨i, hi, rfl⟩, rfl⟩

/-- No messenger of the process has failed to start. -/
structure Unfailed (s : State) : Prop where
  ack : s.ackMessenger ≠ .failed
  workers : ∀ w ∈ s.workers, w.messenger ≠ .failed

theorem Unfailed.set {s : State} (h : Unfailed s) {i : ℕ} {v : Worker} (hv : v.messenger ≠ .failed) :
    ∀ u ∈ s.workers.set i v, u.messenger ≠ .failed := by
  intro u hu
  rcases List.mem_or_eq_of_mem_set hu with hu | rfl
  · exact h.workers u hu
  · exact hv

theorem Unfailed.step {s s' : State} (h : Unfailed s) {event : Event} (hquiet : event.undisturbed = true)
    (hstep : Step H s event s') : Unfailed s' := by
  cases hstep with
  | start hw =>
    obtain rfl := hquiet
    exact ⟨h.ack, h.set fun hfailed => nomatch hfailed⟩
  | startAck =>
    obtain rfl := hquiet
    exact ⟨fun hfailed => (nomatch hfailed), h.workers⟩
  | @recv i w batch hw hidle hbatch =>
    refine ⟨h.ack, h.set ?_⟩
    exact h.workers w (List.mem_of_getElem? hw)
  | @handled i w e outcome hw he hmay =>
    refine ⟨h.ack, h.set ?_⟩
    exact h.workers w (List.mem_of_getElem? hw)
  | @join i w e returnsId hw he =>
    refine ⟨h.ack, h.set ?_⟩
    exact h.workers w (List.mem_of_getElem? hw)
  | crash => cases hquiet
  | _ => exact ⟨h.ack, h.workers⟩

/-- Where an undisturbed run can get. -/
theorem Continues.kept {s s' : State} (h : Relation.ReflTransGen (Continues H) s s') (hup : Unfailed s) :
    Unfailed s' ∧ s'.kinds = s.kinds := by
  induction h with
  | refl => exact ⟨hup, rfl⟩
  | tail _ hstep ih =>
    obtain ⟨event, hquiet, hstep⟩ := hstep
    exact ⟨ih.1.step hquiet (step_cases hstep), (step_kinds (step_cases hstep)).trans ih.2⟩

theorem step_handled {s : State} {i : ℕ} {w : Worker} {e : Entry} (hw : s.workers[i]? = some w)
    (he : e ∈ w.running) {outcome : Outcome} (hmay : (H w.workerType).may e.data outcome = true) :
    step H s (.handled i e outcome) = some { s with
      workers := s.workers.set i { w with
        running := w.running.erase e, ended := w.ended ++ [(e, outcome.returnsId)] }
      outcomes := s.outcomes ++ [(e, outcome)] } := by
  simp [step, hw, he, hmay]

theorem step_join {s : State} {i : ℕ} {w : Worker} {e : Entry} {returnsId : Bool} (hw : s.workers[i]? = some w)
    (he : (e, returnsId) ∈ w.ended) :
    step H s (.join i e returnsId) = some { s with
      workers := s.workers.set i { w with ended := w.ended.erase (e, returnsId) }
      channel := if returnsId = true ∧ s.ackMessenger ≠ .failed then s.channel ++ [e] else s.channel } := by
  simp [step, hw, he]

/-- A worker can finish its batch: its tasks end, and are joined. -/
theorem worker_finishes {i n : ℕ} {s : State} {w : Worker} (hw : s.workers[i]? = some w)
    (hn : 2 * w.running.length + w.ended.length = n) :
    ∃ s' v, Relation.ReflTransGen (Continues H) s s' ∧ s'.workers[i]? = some v ∧ v.idle = true ∧
      v.kind = w.kind ∧ s'.fresh = s.fresh ∧ s'.pending = s.pending := by
  induction n using Nat.strong_induction_on generalizing s w with
  | _ n ih =>
    have hi : i < s.workers.length := (List.getElem?_eq_some_iff.mp hw).1
    by_cases hidle : w.idle = true
    · exact ⟨s, w, .refl, hw, hidle, rfl, rfl, rfl⟩
    have hsome : (∃ e, e ∈ w.running) ∨ ∃ r, r ∈ w.ended := by
      simp only [Worker.idle, Bool.and_eq_true, List.isEmpty_iff, not_and_or] at hidle
      exact hidle.imp (List.exists_mem_of_ne_nil _) (List.exists_mem_of_ne_nil _)
    obtain ⟨s₁, v, hstep, hv, hlt, hkind, hfresh, hpending⟩ : ∃ s₁ v, Continues H s s₁ ∧
        s₁.workers[i]? = some v ∧ 2 * v.running.length + v.ended.length < n ∧ v.kind = w.kind ∧
        s₁.fresh = s.fresh ∧ s₁.pending = s.pending := by
      rcases hsome with ⟨e, he⟩ | ⟨⟨e, returnsId⟩, he⟩
      · obtain ⟨outcome, hmay⟩ := (H w.workerType).exists_outcome e.data
        refine ⟨_, _, ⟨_, rfl, step_handled hw he hmay⟩, List.getElem?_set_self hi, ?_, rfl, rfl, rfl⟩
        have := List.length_erase_of_mem he
        have := List.length_pos_of_mem he
        simp only [List.length_append, List.length_singleton]
        omega
      · refine ⟨_, _, ⟨_, rfl, step_join hw he⟩, List.getElem?_set_self hi, ?_, rfl, rfl, rfl⟩
        have := List.length_erase_of_mem he
        have := List.length_pos_of_mem he
        simp only
        omega
    obtain ⟨s', v', hrun, hv', hidle', hkind', hfresh', hpending'⟩ := ih _ hlt hv rfl
    exact ⟨s', v', .head hstep hrun, hv', hidle', hkind'.trans hkind, hfresh'.trans hfresh,
      hpending'.trans hpending⟩

/-- A worker can get ready for a batch: its messenger starts, if it has not yet. -/
theorem worker_ready {s : State} (hup : Unfailed s) {kind : String × ConsumptionType × WorkerType}
    (hkind : kind ∈ s.kinds) :
    ∃ (s' : State) (i : ℕ) (w : Worker), Relation.ReflTransGen (Continues H) s s' ∧ s'.workers[i]? = some w ∧
      w.idle = true ∧ w.messenger = .up ∧ w.kind = kind ∧ s'.fresh = s.fresh ∧ s'.pending = s.pending := by
  obtain ⟨w₀, hw₀, rfl⟩ := List.mem_map.mp hkind
  obtain ⟨i, hw₀⟩ := List.mem_iff_getElem?.mp hw₀
  obtain ⟨s₁, w, hrun, hw, hidle, hkind, hfresh, hpending⟩ := worker_finishes (H := H) hw₀ rfl
  have hi : i < s₁.workers.length := (List.getElem?_eq_some_iff.mp hw).1
  cases hmessenger : w.messenger with
  | up => exact ⟨s₁, i, w, hrun, hw, hidle, hmessenger, hkind, hfresh, hpending⟩
  | failed => exact absurd hmessenger ((Continues.kept hrun hup).1.workers w (List.mem_of_getElem? hw))
  | starting =>
    have hstart : step H s₁ (.start i true)
        = some { s₁ with workers := s₁.workers.set i { w with messenger := .up } } := by
      simp [step, hw, hmessenger]
    exact ⟨_, i, { w with messenger := .up }, hrun.tail ⟨_, rfl, hstart⟩, List.getElem?_set_self hi, hidle, rfl,
      hkind, hfresh, hpending⟩

/-- A worker of its stream can handle a message that it may be given, with any outcome that handling it may have. -/
theorem can_handle {s : State} (hup : Unfailed s) {e : Entry} {c : ConsumptionType} {t : WorkerType}
    (hkind : (e.stream, c, t) ∈ s.kinds) (he : e ∈ s.source c) {outcome : Outcome}
    (hmay : (H t).may e.data outcome = true) :
    ∃ s', Relation.ReflTransGen (Continues H) s s' ∧ (e, outcome) ∈ s'.outcomes ∧ e ∉ s'.fresh ∧ e ∈ s'.pending ∧
      (outcome.returnsId = true → e ∈ s'.channel) := by
  obtain ⟨s₀, i, w, hrun, hw, hidle, hmessenger, hkind', hfresh, hpending⟩ := worker_ready (H := H) hup hkind
  obtain ⟨hstream, hboth⟩ := Prod.mk.inj hkind'
  obtain ⟨hconsumption, htype⟩ := Prod.mk.inj hboth
  have hi : i < s₀.workers.length := (List.getElem?_eq_some_iff.mp hw).1
  have hack : s₀.ackMessenger ≠ .failed := (Continues.kept hrun hup).1.ack
  have hsource : e ∈ s₀.source w.consumptionType := by
    have hsame : s₀.source c = s.source c := by cases c <;> assumption
    rwa [hconsumption, hsame]
  have hended : w.ended = [] := by
    simp only [Worker.idle, Bool.and_eq_true, List.isEmpty_iff] at hidle
    exact hidle.2
  -- the worker receives the message alone, handles it and joins its task
  let s₁ : State := { s₀ with
    workers := s₀.workers.set i { w with running := [e] }
    fresh := without s₀.fresh [e]
    pending := s₀.pending ++ without [e] s₀.pending }
  have hrecv : step H s₀ (.recv i [e]) = some s₁ := by
    simp [step, hw, hidle, hmessenger, hstream, hsource, s₁]
  let s₂ : State := { s₁ with
    workers := s₁.workers.set i { w with running := [], ended := [(e, outcome.returnsId)] }
    outcomes := s₁.outcomes ++ [(e, outcome)] }
  have hhandled : step H s₁ (.handled i e outcome) = some s₂ := by
    simp [step, s₁, s₂, hi, hended, htype, hmay]
  let s₃ : State := { s₂ with
    workers := s₂.workers.set i { w with running := [], ended := [] }
    channel := if outcome.returnsId = true ∧ s₂.ackMessenger ≠ .failed then s₂.channel ++ [e] else s₂.channel }
  have hjoin : step H s₂ (.join i e outcome.returnsId) = some s₃ := by
    simp [step, s₁, s₂, s₃, hi]
  refine ⟨s₃, ((hrun.tail ⟨_, rfl, hrecv⟩).tail ⟨_, rfl, hhandled⟩).tail ⟨_, rfl, hjoin⟩, ?_, ?_, ?_, ?_⟩
  · exact List.mem_append_right _ (List.mem_singleton_self _)
  · exact fun hf => (mem_without.mp hf).2 (List.mem_singleton_self e)
  · by_cases hp : e ∈ s₀.pending
    · exact List.mem_append_left _ hp
    · exact List.mem_append_right _ (mem_without.mpr ⟨List.mem_singleton_self e, hp⟩)
  · intro hid
    show e ∈ if outcome.returnsId = true ∧ s₂.ackMessenger ≠ .failed then s₂.channel ++ [e] else s₂.channel
    rw [if_pos ⟨hid, hack⟩]
    exact List.mem_append_right _ (List.mem_singleton_self e)

/-- The ack worker can collect all that has been sent to it. -/
theorem channel_collected {channel : List Entry} {s : State} (hup : s.ackMessenger = .up)
    (hc : s.channel = channel) :
    ∃ s', Relation.ReflTransGen (Continues H) s s' ∧ s'.ackMessenger = .up ∧ channel ⊆ s'.acks ∧
      s.acks ⊆ s'.acks ∧ s'.fresh = s.fresh ∧ s'.outcomes = s.outcomes := by
  induction channel generalizing s with
  | nil => exact ⟨s, .refl, hup, List.nil_subset _, List.Subset.refl _, rfl, rfl⟩
  | cons e channel ih =>
    have hstep : Continues H s { s with channel, acks := s.acks ++ [e] } := ⟨.collect, rfl, by simp [step, hc, hup]⟩
    obtain ⟨s', hrun, hup', hchannel, hacks, hrest⟩ := ih (s := { s with channel, acks := s.acks ++ [e] }) hup rfl
    refine ⟨s', .head hstep hrun, hup', ?_, fun a ha => hacks (List.mem_append_left _ ha), hrest⟩
    exact List.cons_subset.mpr ⟨hacks (List.mem_append_right _ (List.mem_singleton_self e)), hchannel⟩

/-- The ack worker can acknowledge what has been sent to it. -/
theorem can_acknowledge {s : State} (hup : Unfailed s) {e : Entry} (he : e ∈ s.channel) (hfresh : e ∉ s.fresh)
    (hgo : LetGo s e) : ∃ s', Relation.ReflTransGen (Continues H) s s' ∧ LetGo s' e ∧ ¬ Waiting s' e := by
  obtain ⟨s₁, hrun₁, hup₁, hchannel₁, hfresh₁, hout₁⟩ : ∃ s₁, Relation.ReflTransGen (Continues H) s s₁ ∧
      s₁.ackMessenger = .up ∧ s₁.channel = s.channel ∧ s₁.fresh = s.fresh ∧ s₁.outcomes = s.outcomes := by
    cases hmessenger : s.ackMessenger with
    | up => exact ⟨s, .refl, hmessenger, rfl, rfl, rfl⟩
    | failed => exact absurd hmessenger hup.ack
    | starting =>
      have hstart : step H s (.startAck true) = some { s with ackMessenger := .up } := by simp [step, hmessenger]
      exact ⟨_, .single ⟨_, rfl, hstart⟩, rfl, rfl, rfl, rfl⟩
  obtain ⟨s₂, hrun₂, hup₂, hacks, -, hfresh₂, hout₂⟩ := channel_collected (H := H) hup₁ hchannel₁
  let s₃ : State := { s₂ with
    acks := s₂.acks.filter fun a => decide (a.stream ≠ e.stream)
    pending := without s₂.pending (s₂.acks.filter fun a => decide (a.stream = e.stream)) }
  have hack : step H s₂ (.ack e.stream true []) = some s₃ := by simp [step, hup₂, s₃]
  have hout : s₃.outcomes = s.outcomes := hout₂.trans hout₁
  refine ⟨s₃, (hrun₁.trans hrun₂).tail ⟨_, rfl, hack⟩, hgo.mono (hout ▸ List.Subset.refl _), ?_⟩
  · rintro (hf | hp)
    · exact hfresh (hfresh₁ ▸ hfresh₂ ▸ (show e ∈ s₂.fresh from hf))
    · exact (mem_without.mp hp).2 (List.mem_filter.mpr ⟨hacks he, decide_eq_true rfl⟩)

/-! ### What cannot be handled -/

/-- A message that no worker asks for. -/
structure Stuck (s : State) (e : Entry) : Prop where
  fresh : e ∈ s.fresh
  pending : e ∉ s.pending
  kinds : ∀ t, (e.stream, ConsumptionType.new, t) ∉ s.kinds

theorem Stuck.recv {s : State} {e : Entry} (h : Stuck s e) {i : ℕ} {w : Worker} (hw : s.workers[i]? = some w)
    {batch : List Entry} (hbatch : ∀ a ∈ batch, a.stream = w.streamKey ∧ a ∈ s.source w.consumptionType) :
    e ∉ batch := by
  intro he
  obtain ⟨hstream, hsource⟩ := hbatch e he
  cases htype : w.consumptionType with
  | new =>
    refine h.kinds w.workerType (List.mem_map.mpr ⟨w, List.mem_of_getElem? hw, ?_⟩)
    rw [Worker.kind, htype, hstream]
  | redeliver =>
    rw [htype] at hsource
    exact h.pending hsource

theorem Stuck.step {s s' : State} {e : Entry} (h : Stuck s e) (hstep : Continues H s s') : Stuck s' e := by
  obtain ⟨event, hquiet, hstep⟩ := hstep
  have hcases := step_cases hstep
  have hkinds : ∀ t, (e.stream, ConsumptionType.new, t) ∉ s'.kinds := step_kinds hcases ▸ h.kinds
  cases hcases with
  | publish => exact ⟨List.mem_append_left _ h.fresh, h.pending, hkinds⟩
  | recv hw hidle hbatch =>
    have he := h.recv hw hbatch
    refine ⟨mem_without.mpr ⟨h.fresh, he⟩, fun hp => ?_, hkinds⟩
    rcases List.mem_append.mp hp with hp | hp
    · exact h.pending hp
    · exact he (mem_without.mp hp).1
  | ack hleaving => exact ⟨h.fresh, fun hp => h.pending (mem_without.mp hp).1, hkinds⟩
  | drop => cases hquiet
  | crash => cases hquiet
  | _ => exact ⟨h.fresh, h.pending, hkinds⟩

/-- A message that no worker asks for stays where it is. -/
theorem Stuck.run {s s' : State} {e : Entry} (h : Stuck s e) (hrun : Relation.ReflTransGen (Continues H) s s') :
    Stuck s' e := by
  induction hrun with
  | refl => exact h
  | tail _ hstep ih => exact ih.step hstep

/-- Every outcome is one that a worker of the stream may have. -/
structure Sound (H : WorkerType → Handling) (s : State) : Prop where
  running : ∀ w ∈ s.workers, ∀ e ∈ w.running, e.stream = w.streamKey
  outcomes : ∀ e outcome, (e, outcome) ∈ s.outcomes →
    ∃ c t, (e.stream, c, t) ∈ s.kinds ∧ (H t).may e.data outcome = true

theorem Sound.running_set {s : State} (h : Sound H s) {i : ℕ} {v : Worker}
    (hv : ∀ e ∈ v.running, e.stream = v.streamKey) :
    ∀ u ∈ s.workers.set i v, ∀ e ∈ u.running, e.stream = u.streamKey := by
  intro u hu
  rcases List.mem_or_eq_of_mem_set hu with hu | rfl
  · exact h.running u hu
  · exact hv

theorem Sound.step {s s' : State} (h : Sound H s) {event : Event} (hstep : Step H s event s') : Sound H s' := by
  have hkept : ∀ e outcome, (e, outcome) ∈ s.outcomes →
      ∃ c t, (e.stream, c, t) ∈ s'.kinds ∧ (H t).may e.data outcome = true := step_kinds hstep ▸ h.outcomes
  have hkinds := step_kinds hstep
  cases hstep with
  | @start i w ok hw => exact ⟨h.running_set (h.running w (List.mem_of_getElem? hw)), hkept⟩
  | @recv i w batch hw hidle hbatch => exact ⟨h.running_set fun e he => (hbatch e he).1, hkept⟩
  | @handled i w e outcome hw he hmay =>
    have hrunning := h.running w (List.mem_of_getElem? hw)
    refine ⟨h.running_set fun a ha => hrunning a (List.mem_of_mem_erase ha), fun a o ha => ?_⟩
    rcases List.mem_append.mp ha with ha | ha
    · exact hkept a o ha
    · obtain ⟨rfl, rfl⟩ := Prod.mk.inj (List.mem_singleton.mp ha)
      refine ⟨w.consumptionType, w.workerType, ?_, hmay⟩
      rw [hkinds, hrunning a he]
      exact List.mem_map_of_mem (List.mem_of_getElem? hw)
  | @join i w e returnsId hw he => exact ⟨h.running_set (h.running w (List.mem_of_getElem? hw)), hkept⟩
  | crash =>
    refine ⟨fun w hw e he => ?_, hkept⟩
    obtain ⟨v, -, rfl⟩ := List.mem_map.mp hw
    cases he
  | _ => exact ⟨h.running, hkept⟩

theorem Sound.run {s s' : State} (h : Sound H s) (hrun : Relation.ReflTransGen (Continues H) s s') : Sound H s' := by
  induction hrun with
  | refl => exact h
  | tail _ hstep ih =>
    obtain ⟨event, -, hstep⟩ := hstep
    exact ih.step (step_cases hstep)

/-! ### When the streams drain -/

variable {configs : List WorkerConfig} {e : Entry}

/-- The process has just been started and one message has been added to its stream. -/
def State.first (configs : List WorkerConfig) (e : Entry) : State :=
  { State.start configs with published := [e], fresh := [e] }

theorem run_first : run (step H) (State.start configs) [.publish e] = some (State.first configs e) := by
  simp [run, step, State.start, State.first]

theorem first_unfailed : Unfailed (State.first configs e) := by
  refine ⟨fun hfailed => (nomatch hfailed), fun w hw hfailed => ?_⟩
  obtain ⟨config, -, hw⟩ := List.mem_flatMap.mp hw
  obtain ⟨i, -, rfl⟩ := List.mem_map.mp hw
  cases hfailed

/-- With one worker for its stream a new message is not asked for. -/
theorem first_stuck (h : ¬ ∃ config ∈ configs, config.streamName = e.stream ∧ 2 ≤ config.workerCount) :
    Stuck (State.first configs e) e := by
  refine ⟨List.mem_singleton_self e, List.not_mem_nil, fun t hk => ?_⟩
  obtain ⟨config, hconfig, hname, -, i, hi, hnew⟩ := mem_kinds.mp hk
  refine h ⟨config, hconfig, hname, ?_⟩
  by_contra hone
  obtain rfl : i = 0 := by omega
  cases hnew

theorem first_sound : Sound H (State.first configs e) := by
  refine ⟨fun w hw a ha => ?_, fun a o ha => absurd ha List.not_mem_nil⟩
  obtain ⟨config, -, hw⟩ := List.mem_flatMap.mp hw
  obtain ⟨i, -, rfl⟩ := List.mem_map.mp hw
  cases ha

/-- A run from there that handles the message has a worker for it that may let it go. -/
theorem worker_of_letGo {s : State} (hrun : Relation.ReflTransGen (Continues H) (State.first configs e) s)
    (hgo : LetGo s e) :
    ∃ config ∈ configs, config.streamName = e.stream ∧ 1 ≤ config.workerCount ∧
      ∃ outcome, (H config.workerType).may e.data outcome = true ∧ outcome.returnsId = true := by
  obtain ⟨outcome, hmem, hid⟩ := hgo
  have hkinds : s.kinds = (State.start configs).kinds := (Continues.kept hrun first_unfailed).2
  obtain ⟨c, t, hk, hmay⟩ := (first_sound.run hrun).outcomes e outcome hmem
  obtain ⟨config, hconfig, hname, rfl, i, hi, -⟩ := mem_kinds.mp (hkinds ▸ hk)
  exact ⟨config, hconfig, hname, by omega, outcome, hmay, hid⟩

/-- A message that two workers ask for, when it is new and when it is pending, can be handled and acknowledged. -/
theorem can_drain {s : State} (hup : Unfailed s) {t t' : WorkerType}
    (hnew : (e.stream, ConsumptionType.new, t) ∈ s.kinds)
    (hredeliver : (e.stream, ConsumptionType.redeliver, t') ∈ s.kinds) (hwait : Waiting s e) {outcome : Outcome}
    (hmay : (H t').may e.data outcome = true) (hid : outcome.returnsId = true) :
    ∃ s', Relation.ReflTransGen (Continues H) s s' ∧ LetGo s' e ∧ ¬ Waiting s' e := by
  -- what is new is delivered first, and is then pending
  obtain ⟨s₁, hrun₁, hpending⟩ : ∃ s₁, Relation.ReflTransGen (Continues H) s s₁ ∧ e ∈ s₁.pending := by
    rcases hwait with hf | hp
    · obtain ⟨o, ho⟩ := (H t).exists_outcome e.data
      obtain ⟨s₁, hrun₁, -, -, hp, -⟩ := can_handle hup hnew hf ho
      exact ⟨s₁, hrun₁, hp⟩
    · exact ⟨s, .refl, hp⟩
  obtain ⟨hup₁, hkinds₁⟩ := Continues.kept hrun₁ hup
  obtain ⟨s₂, hrun₂, hout, hfresh, -, hchannel⟩ := can_handle hup₁ (hkinds₁ ▸ hredeliver) hpending hmay
  obtain ⟨s₃, hrun₃, hgo, hgone⟩ :=
    can_acknowledge (H := H) (Continues.kept hrun₂ hup₁).1 (hchannel hid) hfresh ⟨outcome, hout, hid⟩
  exact ⟨s₃, (hrun₁.trans hrun₂).trans hrun₃, hgo, hgone⟩

/-- **A message can still be handled and acknowledged, wherever a run has got** in which no messenger has failed to
start, exactly when its stream is configured with two workers or more, for the first is never asked for what is new,
and a worker of its stream may let it go. -/
theorem drains_iff (H : WorkerType → Handling) (configs : List WorkerConfig) (e : Entry) :
    (∀ events s, run (step H) (State.start configs) events = some s → Unfailed s → Waiting s e →
      ∃ s', Relation.ReflTransGen (Continues H) s s' ∧ LetGo s' e ∧ ¬ Waiting s' e) ↔
    (∃ config ∈ configs, config.streamName = e.stream ∧ 2 ≤ config.workerCount) ∧
      ∃ config ∈ configs, config.streamName = e.stream ∧ 1 ≤ config.workerCount ∧
        ∃ outcome, (H config.workerType).may e.data outcome = true ∧ outcome.returnsId = true := by
  constructor
  · intro h
    obtain ⟨s, hrun, hgo, hgone⟩ := h _ _ run_first first_unfailed (.inl (List.mem_singleton_self e))
    refine ⟨?_, worker_of_letGo hrun hgo⟩
    by_contra hcount
    exact hgone (.inl ((first_stuck hcount).run hrun).fresh)
  · rintro ⟨⟨two, htwo, hname₂, hcount₂⟩, one, hone, hname₁, hcount₁, outcome, hmay, hid⟩ events s hrun hup hwait
    have hkinds : s.kinds = (State.start configs).kinds :=
      inv_of_any_run (I := fun s => s.kinds = (State.start configs).kinds)
        (fun _ _ _ hinv hstep => (step_kinds (step_cases hstep)).trans hinv) rfl hrun
    have hnew : (e.stream, ConsumptionType.new, two.workerType) ∈ s.kinds :=
      hkinds ▸ mem_kinds.mpr ⟨two, htwo, hname₂, rfl, 1, by omega, rfl⟩
    have hredeliver : (e.stream, ConsumptionType.redeliver, one.workerType) ∈ s.kinds :=
      hkinds ▸ mem_kinds.mpr ⟨one, hone, hname₁, rfl, 0, by omega, rfl⟩
    exact can_drain hup hnew hredeliver hwait hmay hid

end DasIndexer.Ingester
