import DasIndexer.Lib.GuardedRuns
import DasIndexer.Schema.Values
import DasIndexer.Sql.Table
import Mathlib.Data.List.Sort

/-!
# The background task runners

A runner reads the pending tasks at every tick and spawns a job for each.  The job locks its row and saves
that, executes the task, and saves the outcome: three statements on a connection of its own, with the task
between them.  Several runners share the table, and so do the ticks of one runner.

Locking looks at nothing: a job that has read its row before another locked it takes the lock all the same,
and the task is executed twice at once; and a task is still pending when its attempts equal `max_attempts`, so
that it is executed once too often (`tasks_overlap_and_overrun`).  **`exclusive_and_bounded`** says what keeps
both away over every interleaving: no job locks a row that is not pending any more or has used up its attempts,
and no lock runs out before the outcome is saved.
-/

namespace DasIndexer.Tasks

open Sql GuardedRuns

inductive TaskStatus where
  | failed | pending | running | success
deriving DecidableEq

/-- A row of `tasks`, without its key. -/
structure TaskRow where
  taskType : String
  data : Json
  status : TaskStatus
  createdAt : ℕ
  lockedUntil : Option ℕ
  lockedBy : Option String
  maxAttempts : ℕ
  attempts : ℕ
  duration : Option ℤ
  errors : Option String

/-- What a registered task type says of itself. -/
structure TaskDef where
  lockDuration : ℕ
  maxAttempts : ℕ

/-- How an execution ends. -/
inductive TaskResult where
  | ok
  | unrecoverable (msg : String)
  | failed (msg : String)
deriving DecidableEq

/-! ### The parts of a job -/

/-- The filter of `get_pending_tasks`. -/
def pending (now : ℕ) (r : TaskRow) : Bool :=
  decide (r.status ≠ .success)
    && (match r.lockedUntil with | some t => decide (t ≤ now) | none => true)
    && decide (r.attempts ≤ r.maxAttempts)

/-- `get_pending_tasks`. -/
def getPendingTasks (now batchSize : ℕ) (tasks : Table String TaskRow) : List (String × TaskRow) :=
  (((scan tasks).filter fun e => pending now e.2).insertionSort fun x y =>
    x.2.attempts < y.2.attempts ∨ (x.2.attempts = y.2.attempts ∧ y.2.createdAt ≤ x.2.createdAt)).take batchSize

/-- `lock_task`, and the columns that saving it writes. -/
def lockTask (now : ℕ) (task : TaskDef) (instanceName : String) (r : TaskRow) : TaskRow :=
  { r with status := .running, lockedUntil := some (now + task.lockDuration), lockedBy := some instanceName }

/-- `execute_task` before the task is run. -/
def beginTask (r : TaskRow) : TaskRow := { r with attempts := r.attempts + 1 }

/-- `execute_task` after the task has been run. -/
def endTask (task : TaskDef) (result : TaskResult) (duration : ℤ) (r : TaskRow) : TaskRow :=
  match result with
  | .ok =>
    { r with duration := some duration, status := .success, errors := none, lockedUntil := none, lockedBy := none }
  | .unrecoverable msg =>
    { r with
      duration := some duration, attempts := task.maxAttempts + 1, lockedBy := some "permanent failure"
      status := .failed, errors := some msg, lockedUntil := none }
  | .failed msg =>
    { r with
      duration := some duration, lockedBy := none, status := .failed, errors := some msg, lockedUntil := none }

/-- The columns of `copy` that `execute_task` has set, written to the stored row. -/
def saveTask (copy r : TaskRow) : TaskRow :=
  { r with
    attempts := copy.attempts, duration := copy.duration, status := copy.status, errors := copy.errors
    lockedUntil := copy.lockedUntil, lockedBy := copy.lockedBy }

/-! ### Runners -/

/-- How far a job is, with its copy of the row. -/
inductive Phase where
  | picked (r : TaskRow)
  | locked (r : TaskRow)
  | executing (r : TaskRow)
  | executed (result : TaskResult) (r : TaskRow)
  | saved (result : TaskResult)
  /-- The task type is not registered, or the row is gone. -/
  | dropped

namespace Phase

/-- The task is being executed. -/
def isExecuting : Phase → Bool
  | executing _ => true
  | _ => false

/-- The lock has been saved, and the outcome has not. -/
def isActive : Phase → Bool
  | locked _ | executing _ | executed _ _ => true
  | _ => false

/-- The execution has begun. -/
def hasBegun : Phase → Bool
  | executing _ | executed _ _ | saved _ => true
  | _ => false

/-- The lock has been saved. -/
def hasLocked : Phase → Bool
  | locked _ | executing _ | executed _ _ | saved _ => true
  | _ => false

def result : Phase → Option TaskResult
  | executed result _ | saved result => some result
  | _ => none

end Phase

structure Job where
  instanceName : String
  id : String
  phase : Phase

structure State where
  now : ℕ
  tasks : Table String TaskRow
  jobs : List Job

inductive Action where
  | wait (seconds : ℕ)
  | poll (instanceName : String) (batchSize : ℕ)
  | lockAndSave (i : ℕ)
  | execute (i : ℕ)
  | finish (i : ℕ) (result : TaskResult) (duration : ℤ)
  | finalSave (i : ℕ)

namespace State

/-- Job `i` moves on. -/
def setPhase (s : State) (i : ℕ) (j : Job) (phase : Phase) : State :=
  { s with jobs := s.jobs.set i { j with phase } }

/-- One step of the system; `none` where the action is not possible. -/
def step (defs : String → Option TaskDef) (s : State) : Action → Option State
  | .wait seconds => some { s with now := s.now + seconds }
  | .poll instanceName batchSize => some
      { s with jobs := s.jobs ++ (getPendingTasks s.now batchSize s.tasks).map fun e =>
          ⟨instanceName, e.1, .picked e.2⟩ }
  | .lockAndSave i => do
    let j ← s.jobs[i]?
    match j.phase with
    | .picked r =>
      match defs r.taskType, s.tasks.lookup j.id with
      | some task, some stored =>
        let locked := lockTask s.now task j.instanceName stored
        some ({ s with tasks := s.tasks.insert j.id locked }.setPhase i j (.locked locked))
      | _, _ => some (s.setPhase i j .dropped)
    | _ => none
  | .execute i => do
    let j ← s.jobs[i]?
    match j.phase with
    | .locked r => some (s.setPhase i j (.executing (beginTask r)))
    | _ => none
  | .finish i result duration => do
    let j ← s.jobs[i]?
    match j.phase with
    | .executing r => do
      let task ← defs r.taskType
      some (s.setPhase i j (.executed result (endTask task result duration r)))
    | _ => none
  | .finalSave i => do
    let j ← s.jobs[i]?
    match j.phase with
    | .executed result r =>
      match s.tasks.lookup j.id with
      | some stored => some ({ s with tasks := s.tasks.insert j.id (saveTask r stored) }.setPhase i j (.saved result))
      | none => some (s.setPhase i j .dropped)
    | _ => none

/-- No task is executed twice at once. -/
def Exclusive (s : State) : Prop :=
  ∀ (i k : ℕ) (j j' : Job), s.jobs[i]? = some j → s.jobs[k]? = some j' → j.id = j'.id → j.phase.isExecuting = true →
    j'.phase.isExecuting = true → i = k

/-- The jobs of a task in a phase of some kind. -/
def tally (s : State) (kind : Phase → Bool) (id : String) : ℕ :=
  s.jobs.countP fun j => decide (j.id = id) && kind j.phase

/-- The executions of a task so far. -/
def executions (s : State) (id : String) : ℕ := s.tally Phase.hasBegun id

/-- Every execution of the task that has ended has failed recoverably. -/
def FailsRecoverably (s : State) (id : String) : Prop :=
  ∀ j ∈ s.jobs, j.id = id → ∀ result, j.phase.result = some result → ∃ msg, result = .failed msg

/-- A task that always fails recoverably is executed at most `max_attempts` times. -/
def Bounded (s : State) : Prop :=
  ∀ id r, s.tasks.lookup id = some r → s.FailsRecoverably id → s.executions id ≤ r.maxAttempts

/-- Tasks that have not been tried, and no job. -/
structure Fresh (s : State) : Prop where
  attempts : ∀ id r, s.tasks.lookup id = some r → r.attempts = 0
  jobs : s.jobs = []

/-- A lock is saved where the row is still pending and has attempts left, and time does not pass the end of a
lock whose job has not saved its outcome. -/
def Safe (s : State) : Action → Prop
  | .lockAndSave i => ∀ (j : Job) (r stored : TaskRow), s.jobs[i]? = some j → j.phase = .picked r →
      s.tasks.lookup j.id = some stored → pending s.now stored = true ∧ stored.attempts < stored.maxAttempts
  | .wait seconds => ∀ j ∈ s.jobs, j.phase.isActive = true → ∀ stored t, s.tasks.lookup j.id = some stored →
      stored.lockedUntil = some t → s.now + seconds < t
  | _ => True

/-! ### What a step does -/

/-- What an action makes of job `i`: its phase afterwards, and the table. -/
inductive Moves (defs : String → Option TaskDef) (s : State) (i : ℕ) (j : Job) :
    Action → Table String TaskRow → Phase → Prop
  | lock {r stored task} : j.phase = .picked r → defs r.taskType = some task →
      s.tasks.lookup j.id = some stored → Moves defs s i j (.lockAndSave i)
        (s.tasks.insert j.id (lockTask s.now task j.instanceName stored))
        (.locked (lockTask s.now task j.instanceName stored))
  | drop {r} : j.phase = .picked r → Moves defs s i j (.lockAndSave i) s.tasks .dropped
  | begin {r} : j.phase = .locked r → Moves defs s i j (.execute i) s.tasks (.executing (beginTask r))
  | done {r task result duration} : j.phase = .executing r → Moves defs s i j (.finish i result duration) s.tasks
      (.executed result (endTask task result duration r))
  | save {r stored result} : j.phase = .executed result r → s.tasks.lookup j.id = some stored →
      Moves defs s i j (.finalSave i) (s.tasks.insert j.id (saveTask r stored)) (.saved result)
  | lose {r result} : j.phase = .executed result r → s.tasks.lookup j.id = none →
      Moves defs s i j (.finalSave i) s.tasks .dropped

variable {defs : String → Option TaskDef} {s s' : State} {a : Action} {i : ℕ} {j : Job}

theorem step_cases (h : s.step defs a = some s') :
    (∃ seconds, a = .wait seconds ∧ s' = { s with now := s.now + seconds })
    ∨ (∃ (instanceName : String) (picked : List (String × TaskRow)),
        s' = { s with jobs := s.jobs ++ picked.map fun e => ⟨instanceName, e.1, .picked e.2⟩ })
    ∨ ∃ i j tasks phase, s.jobs[i]? = some j ∧ Moves defs s i j a tasks phase
        ∧ s' = { s with tasks }.setPhase i j phase := by
  cases a with
  | wait seconds =>
    obtain rfl := Option.some.inj h
    exact Or.inl ⟨seconds, rfl, rfl⟩
  | poll instanceName batchSize =>
    obtain rfl := Option.some.inj h
    exact Or.inr (Or.inl ⟨instanceName, _, rfl⟩)
  | lockAndSave i =>
    obtain ⟨j, hj, h⟩ := Option.bind_eq_some_iff.mp h
    dsimp only at h
    split at h
    · rename_i r hr
      split at h
      · rename_i task stored htask hstored
        obtain rfl := Option.some.inj h
        exact Or.inr (Or.inr ⟨i, j, _, _, hj, .lock hr htask hstored, rfl⟩)
      · obtain rfl := Option.some.inj h
        exact Or.inr (Or.inr ⟨i, j, _, _, hj, .drop hr, rfl⟩)
    · cases h
  | execute i =>
    obtain ⟨j, hj, h⟩ := Option.bind_eq_some_iff.mp h
    split at h
    · rename_i r hr
      obtain rfl := Option.some.inj h
      exact Or.inr (Or.inr ⟨i, j, _, _, hj, .begin hr, rfl⟩)
    · cases h
  | finish i result duration =>
    obtain ⟨j, hj, h⟩ := Option.bind_eq_some_iff.mp h
    split at h
    · rename_i r hr
      obtain ⟨task, htask, h⟩ := Option.bind_eq_some_iff.mp h
      obtain rfl := Option.some.inj h
      exact Or.inr (Or.inr ⟨i, j, _, _, hj, .done hr, rfl⟩)
    · cases h
  | finalSave i =>
    obtain ⟨j, hj, h⟩ := Option.bind_eq_some_iff.mp h
    split at h
    · rename_i result r hr
      split at h
      · rename_i stored hstored
        obtain rfl := Option.some.inj h
        exact Or.inr (Or.inr ⟨i, j, _, _, hj, .save hr hstored, rfl⟩)
      · rename_i hstored
        obtain rfl := Option.some.inj h
        exact Or.inr (Or.inr ⟨i, j, _, _, hj, .lose hr hstored, rfl⟩)
    · cases h

/-- One job moves: it is taken out of the kind it was in and put into the one it is in now. -/
theorem tally_setPhase (tasks : Table String TaskRow) (hj : s.jobs[i]? = some j) (phase : Phase)
    (kind : Phase → Bool) (id : String) :
    ({ s with tasks }.setPhase i j phase).tally kind id + (if j.id = id ∧ kind j.phase = true then 1 else 0)
      = s.tally kind id + (if j.id = id ∧ kind phase = true then 1 else 0) := by
  obtain ⟨hi, rfl⟩ := List.getElem?_eq_some_iff.mp hj
  have hcount : 0 < s.tally kind id ∨ ¬ (s.jobs[i].id = id ∧ kind s.jobs[i].phase = true) := by
    by_cases hp : s.jobs[i].id = id ∧ kind s.jobs[i].phase = true
    · refine Or.inl (List.countP_pos_iff.mpr ⟨s.jobs[i], List.getElem_mem hi, ?_⟩)
      simpa using hp
    · exact Or.inr hp
  unfold tally at hcount ⊢
  rw [setPhase, List.countP_set hi]
  simp only [Bool.and_eq_true, decide_eq_true_eq]
  split
  · rename_i hp
    have hpos := hcount.resolve_right (not_not_intro hp)
    omega
  · omega

theorem tally_stay (tasks : Table String TaskRow) (hj : s.jobs[i]? = some j) {phase : Phase}
    {kind : Phase → Bool} (hkind : kind phase = kind j.phase) (id : String) :
    ({ s with tasks }.setPhase i j phase).tally kind id = s.tally kind id := by
  have htally := tally_setPhase tasks hj phase kind id
  rw [hkind] at htally
  exact Nat.add_right_cancel htally

theorem tally_enter (tasks : Table String TaskRow) (hj : s.jobs[i]? = some j) {phase : Phase}
    {kind : Phase → Bool} (hout : kind j.phase = false) (hin : kind phase = true) (id : String) :
    ({ s with tasks }.setPhase i j phase).tally kind id = s.tally kind id + if j.id = id then 1 else 0 := by
  have htally := tally_setPhase tasks hj phase kind id
  simpa only [hout, hin, Bool.false_eq_true, and_false, if_false, Nat.add_zero, and_true] using htally

theorem tally_leave (tasks : Table String TaskRow) (hj : s.jobs[i]? = some j) {phase : Phase}
    {kind : Phase → Bool} (hin : kind j.phase = true) (hout : kind phase = false) (id : String) :
    ({ s with tasks }.setPhase i j phase).tally kind id + (if j.id = id then 1 else 0) = s.tally kind id := by
  have htally := tally_setPhase tasks hj phase kind id
  simpa only [hout, hin, Bool.false_eq_true, and_false, if_false, Nat.add_zero, and_true] using htally

/-- The jobs a tick adds have only been picked. -/
theorem tally_poll (kind : Phase → Bool) (hkind : ∀ r, kind (.picked r) = false) (id instanceName : String)
    (picked : List (String × TaskRow)) :
    tally { s with jobs := s.jobs ++ picked.map fun e => (⟨instanceName, e.1, .picked e.2⟩ : Job) } kind id
      = s.tally kind id := by
  unfold tally
  rw [List.countP_append]
  have hnone : (picked.map fun e => (⟨instanceName, e.1, .picked e.2⟩ : Job)).countP
      (fun j : Job => decide (j.id = id) && kind j.phase) = 0 := by
    rw [List.countP_eq_zero]
    intro j hj
    obtain ⟨e, -, rfl⟩ := List.mem_map.mp hj
    simp [hkind]
  omega

/-- A job that is counted. -/
theorem tally_pos {kind : Phase → Bool} {id : String} (h : 0 < s.tally kind id) :
    ∃ (i : ℕ) (j : Job), s.jobs[i]? = some j ∧ j.id = id ∧ kind j.phase = true := by
  obtain ⟨j, hj, hp⟩ := List.countP_pos_iff.mp h
  obtain ⟨i, hi⟩ := List.mem_iff_getElem?.mp hj
  simp only [Bool.and_eq_true, decide_eq_true_eq] at hp
  exact ⟨i, j, hi, hp.1, hp.2⟩

theorem eq_of_countP_le_one {α : Type} {p : α → Bool} {l : List α} (h : l.countP p ≤ 1) {i k : ℕ} {x y : α}
    (hi : l[i]? = some x) (hk : l[k]? = some y) (hx : p x = true) (hy : p y = true) : i = k := by
  induction l generalizing i k with
  | nil => cases hi
  | cons z l ih =>
    rw [List.countP_cons] at h
    cases i with
    | zero =>
      cases k with
      | zero => rfl
      | succ k =>
        obtain rfl : z = x := by simpa using hi
        have hmem : y ∈ l := List.mem_of_getElem? (by simpa using hk)
        have hpos := List.countP_pos_iff.mpr ⟨y, hmem, hy⟩
        rw [if_pos hx] at h
        omega
    | succ i =>
      cases k with
      | zero =>
        obtain rfl : z = y := by simpa using hk
        have hmem : x ∈ l := List.mem_of_getElem? (by simpa using hi)
        have hpos := List.countP_pos_iff.mpr ⟨x, hmem, hx⟩
        rw [if_pos hy] at h
        omega
      | succ k =>
        have hik : i = k := ih (by omega) (by simpa using hi) (by simpa using hk)
        rw [hik]

theorem eq_of_tally_le_one {kind : Phase → Bool} {id : String} (h : s.tally kind id ≤ 1) {i k : ℕ} {j j' : Job}
    (hi : s.jobs[i]? = some j) (hk : s.jobs[k]? = some j') (hid : j.id = id) (hid' : j'.id = id)
    (hj : kind j.phase = true) (hj' : kind j'.phase = true) : i = k :=
  eq_of_countP_le_one h hi hk (by simp [hid, hj]) (by simp [hid', hj'])

/-- A kind that is part of another is counted less often. -/
theorem tally_mono {kind kind' : Phase → Bool} (hkind : ∀ phase, kind phase = true → kind' phase = true)
    (id : String) : s.tally kind id ≤ s.tally kind' id := by
  refine List.countP_mono_left fun j _ hp => ?_
  simp only [Bool.and_eq_true] at hp ⊢
  exact ⟨hp.1, hkind _ hp.2⟩

theorem getElem?_setPhase (tasks : Table String TaskRow) (hj : s.jobs[i]? = some j) (phase : Phase) (k : ℕ) :
    ({ s with tasks }.setPhase i j phase).jobs[k]? = if k = i then some { j with phase } else s.jobs[k]? := by
  obtain ⟨hi, -⟩ := List.getElem?_eq_some_iff.mp hj
  rw [setPhase, List.getElem?_set]
  by_cases hk : i = k
  · rw [if_pos hk, if_pos hk.symm, if_pos (hk ▸ hi)]
  · rw [if_neg hk, if_neg (Ne.symm hk)]

/-! ### The invariant -/

/-- The attempts of a job's copy, against the stored row. -/
def Follows : Phase → TaskRow → Prop
  | .locked r, stored => r.attempts = stored.attempts
  | .executing r, stored | .executed (.failed _) r, stored => r.attempts = stored.attempts + 1
  | _, _ => True

/-- A task has one active job at most, which holds its lock; and what has been locked has been counted, or is
about to be. -/
structure Inv (s : State) : Prop where
  single : ∀ id, s.tally Phase.isActive id ≤ 1
  held : ∀ (i : ℕ) (j : Job), s.jobs[i]? = some j → j.phase.isActive = true → ∃ stored t,
    s.tasks.lookup j.id = some stored ∧ stored.lockedUntil = some t ∧ s.now < t ∧ Follows j.phase stored
  spent : ∀ id stored, s.tasks.lookup id = some stored → s.FailsRecoverably id →
    s.tally Phase.hasLocked id = stored.attempts + s.tally Phase.isActive id
      ∧ s.tally Phase.hasLocked id ≤ stored.maxAttempts

theorem Inv.of_fresh (h : s.Fresh) : s.Inv := by
  have hnone : ∀ kind id, s.tally kind id = 0 := by
    intro kind id
    rw [tally, h.jobs]
    rfl
  constructor
  · intro id
    rw [hnone]
    exact Nat.zero_le 1
  · intro i j hj
    rw [h.jobs] at hj
    cases hj
  · intro id stored hstored _
    rw [hnone, hnone, h.attempts id stored hstored]
    exact ⟨rfl, Nat.zero_le _⟩

theorem Inv.exclusive (h : s.Inv) : s.Exclusive := by
  intro i k j j' hi hk hid hj hj'
  have hactive : ∀ phase : Phase, phase.isExecuting = true → phase.isActive = true := by
    intro phase hphase
    cases phase <;> first | rfl | cases hphase
  exact eq_of_tally_le_one (h.single j.id) hi hk rfl hid.symm (hactive _ hj) (hactive _ hj')

theorem Inv.bounded (h : s.Inv) : s.Bounded := by
  intro id r hr hfails
  have hlocked : ∀ phase : Phase, phase.hasBegun = true → phase.hasLocked = true := by
    intro phase hphase
    cases phase <;> first | rfl | cases hphase
  exact (tally_mono hlocked id).trans (h.spent id r hr hfails).2

/-- Where a job keeps the result it has, so does the account of its task. -/
theorem FailsRecoverably.of_setPhase {phase : Phase} (tasks : Table String TaskRow) (hj : s.jobs[i]? = some j)
    (hresult : ∀ result, j.phase.result = some result → phase.result = some result) {id : String}
    (h : ({ s with tasks }.setPhase i j phase).FailsRecoverably id) : s.FailsRecoverably id := by
  intro k hk hid result hres
  obtain ⟨n, hn⟩ := List.mem_iff_getElem?.mp hk
  have hget := getElem?_setPhase tasks hj phase n
  by_cases hni : n = i
  · subst hni
    obtain rfl : j = k := Option.some.inj (hj.symm.trans hn)
    rw [if_pos rfl] at hget
    exact h _ (List.mem_of_getElem? hget) hid result (hresult result hres)
  · rw [if_neg hni] at hget
    exact h k (List.mem_of_getElem? (hget.trans hn)) hid result hres

/-- A job that moves on without touching the table. -/
theorem Inv.setPhase (h : s.Inv) (hj : s.jobs[i]? = some j) {phase : Phase}
    (hactive : phase.isActive = j.phase.isActive) (hlocked : phase.hasLocked = j.phase.hasLocked)
    (hresult : ∀ result, j.phase.result = some result → phase.result = some result)
    (hfollows : ∀ stored, Follows j.phase stored → Follows phase stored) : (s.setPhase i j phase).Inv := by
  have hactives := tally_stay s.tasks hj hactive
  have hlocks := tally_stay s.tasks hj hlocked
  constructor
  · intro id
    rw [hactives]
    exact h.single id
  · intro k j' hk hact
    rw [getElem?_setPhase s.tasks hj] at hk
    split at hk
    · obtain rfl := Option.some.inj hk
      obtain ⟨stored, t, hstored, ht, hnow, hf⟩ := h.held i j hj (hactive ▸ hact)
      exact ⟨stored, t, hstored, ht, hnow, hfollows stored hf⟩
    · exact h.held k j' hk hact
  · intro id stored hstored hfails
    rw [hactives, hlocks]
    exact h.spent id stored hstored (FailsRecoverably.of_setPhase s.tasks hj hresult hfails)

/-- A row that is pending has no active job. -/
theorem Inv.idle (h : s.Inv) {id : String} {stored : TaskRow} (hstored : s.tasks.lookup id = some stored)
    (hpending : pending s.now stored = true) : s.tally Phase.isActive id = 0 := by
  by_contra hne
  obtain ⟨i, j, hj, rfl, hactive⟩ := tally_pos (Nat.pos_of_ne_zero hne)
  obtain ⟨stored', t, hstored', ht, hnow, -⟩ := h.held i j hj hactive
  obtain rfl : stored = stored' := Option.some.inj (hstored.symm.trans hstored')
  have hfree : t ≤ s.now := by
    simp only [pending, ht, Bool.and_eq_true, decide_eq_true_eq] at hpending
    exact hpending.1.2
  omega

/-- Locking a pending row that has attempts left. -/
theorem Inv.lock (h : s.Inv) (hj : s.jobs[i]? = some j) {r stored : TaskRow} (hr : j.phase = .picked r)
    (hstored : s.tasks.lookup j.id = some stored) (hpending : pending s.now stored = true)
    (hleft : stored.attempts < stored.maxAttempts) (task : TaskDef) (hlock : 0 < task.lockDuration) :
    ({ s with tasks := s.tasks.insert j.id (lockTask s.now task j.instanceName stored) }.setPhase i j
      (.locked (lockTask s.now task j.instanceName stored))).Inv := by
  set row := lockTask s.now task j.instanceName stored with hrow
  set s' := { s with tasks := s.tasks.insert j.id row }.setPhase i j (.locked row) with hs'
  have hidle := h.idle hstored hpending
  have hactives : ∀ id, s'.tally Phase.isActive id = s.tally Phase.isActive id + if j.id = id then 1 else 0 :=
    tally_enter _ hj (by rw [hr]; rfl) rfl
  have hlocks : ∀ id, s'.tally Phase.hasLocked id = s.tally Phase.hasLocked id + if j.id = id then 1 else 0 :=
    tally_enter _ hj (by rw [hr]; rfl) rfl
  constructor
  · intro id
    rw [hactives]
    by_cases hid : j.id = id
    · subst hid
      rw [hidle, if_pos rfl]
    · rw [if_neg hid]
      exact h.single id
  · intro k j' hk hact
    rw [hs', getElem?_setPhase _ hj] at hk
    split at hk
    · obtain rfl := Option.some.inj hk
      exact ⟨row, s.now + task.lockDuration, AList.lookup_insert _, rfl, Nat.lt_add_of_pos_right hlock, rfl⟩
    · -- another active job is one of another task
      have hne : j'.id ≠ j.id := by
        intro hid
        have hpos : 0 < s.tally Phase.isActive j.id :=
          List.countP_pos_iff.mpr ⟨j', List.mem_of_getElem? hk, by simp [hid, hact]⟩
        omega
      obtain ⟨stored', t, hstored', hrest⟩ := h.held k j' hk hact
      exact ⟨stored', t, (AList.lookup_insert_ne hne).trans hstored', hrest⟩
  · intro id stored' hstored' hfails
    have hfails' := FailsRecoverably.of_setPhase _ hj (by rw [hr]; intro _ hres; cases hres) hfails
    rw [hactives, hlocks]
    by_cases hid : j.id = id
    · subst hid
      obtain rfl : row = stored' := Option.some.inj ((AList.lookup_insert _).symm.trans hstored')
      obtain ⟨hcount, -⟩ := h.spent j.id stored hstored hfails'
      have hattempts : row.attempts = stored.attempts := rfl
      have hmax : row.maxAttempts = stored.maxAttempts := rfl
      rw [if_pos rfl]
      omega
    · have hlookup : s.tasks.lookup id = some stored' :=
        (AList.lookup_insert_ne (Ne.symm hid)).symm.trans hstored'
      rw [if_neg hid]
      exact h.spent id stored' hlookup hfails'

/-- Saving the outcome. -/
theorem Inv.save (h : s.Inv) (hj : s.jobs[i]? = some j) {result : TaskResult} {r stored : TaskRow}
    (hr : j.phase = .executed result r) (hstored : s.tasks.lookup j.id = some stored) :
    ({ s with tasks := s.tasks.insert j.id (saveTask r stored) }.setPhase i j (.saved result)).Inv := by
  set row := saveTask r stored with hrow
  set s' := { s with tasks := s.tasks.insert j.id row }.setPhase i j (.saved result) with hs'
  have hactive : j.phase.isActive = true := by rw [hr]; rfl
  have hactives : ∀ id, s'.tally Phase.isActive id + (if j.id = id then 1 else 0) = s.tally Phase.isActive id :=
    tally_leave _ hj hactive rfl
  have hlocks : ∀ id, s'.tally Phase.hasLocked id = s.tally Phase.hasLocked id :=
    tally_stay _ hj (by rw [hr]; rfl)
  constructor
  · intro id
    have hold := hactives id
    have hone := h.single id
    omega
  · intro k j' hk hact
    rw [hs', getElem?_setPhase _ hj] at hk
    split at hk
    · obtain rfl := Option.some.inj hk
      cases hact
    · rename_i hki
      have hne : j'.id ≠ j.id := fun hid =>
        hki (eq_of_tally_le_one (h.single j.id) hk hj hid rfl hact hactive)
      obtain ⟨stored', t, hstored', hrest⟩ := h.held k j' hk hact
      exact ⟨stored', t, (AList.lookup_insert_ne hne).trans hstored', hrest⟩
  · intro id stored' hstored' hfails
    have hfails' := FailsRecoverably.of_setPhase _ hj (by rw [hr]; intro _ hres; exact hres) hfails
    have hold := hactives id
    rw [hlocks]
    by_cases hid : j.id = id
    · subst hid
      obtain rfl : row = stored' := Option.some.inj ((AList.lookup_insert _).symm.trans hstored')
      obtain ⟨hcount, hle⟩ := h.spent j.id stored hstored hfails'
      -- the attempt the job was locked for is now counted in the row
      have hcounted : row.attempts = stored.attempts + 1 := by
        obtain ⟨msg, rfl⟩ := hfails' j (List.mem_of_getElem? hj) rfl result (by rw [hr]; rfl)
        obtain ⟨stored', t, hs, -, -, hfollows⟩ := h.held i j hj hactive
        obtain rfl : stored = stored' := Option.some.inj (hstored.symm.trans hs)
        rw [hr] at hfollows
        exact hfollows
      have hmax : row.maxAttempts = stored.maxAttempts := rfl
      have hone := h.single j.id
      rw [if_pos rfl] at hold
      omega
    · have hlookup : s.tasks.lookup id = some stored' :=
        (AList.lookup_insert_ne (Ne.symm hid)).symm.trans hstored'
      rw [if_neg hid, Nat.add_zero] at hold
      rw [hold]
      exact h.spent id stored' hlookup hfails'

theorem Inv.move (h : s.Inv) (hdefs : ∀ type task, defs type = some task → 0 < task.lockDuration)
    (hj : s.jobs[i]? = some j) {tasks : Table String TaskRow} {phase : Phase} (hmove : Moves defs s i j a tasks phase)
    (hsafe : s.Safe a) : ({ s with tasks }.setPhase i j phase).Inv := by
  cases hmove with
  | lock hr htask hstored =>
    obtain ⟨hpending, hleft⟩ := hsafe j _ _ hj hr hstored
    exact h.lock hj hr hstored hpending hleft _ (hdefs _ _ htask)
  | drop hr =>
    refine h.setPhase hj ?_ ?_ ?_ ?_ <;> rw [hr]
    · rfl
    · rfl
    · intro _ hres
      cases hres
    · exact fun _ _ => trivial
  | begin hr =>
    refine h.setPhase hj ?_ ?_ ?_ ?_ <;> rw [hr]
    · rfl
    · rfl
    · intro _ hres
      cases hres
    · exact fun stored hfollows => congrArg (· + 1) hfollows
  | @done r task result duration hr =>
    refine h.setPhase hj ?_ ?_ ?_ ?_ <;> rw [hr]
    · rfl
    · rfl
    · intro _ hres
      cases hres
    · intro stored hfollows
      cases result with
      | failed msg => exact hfollows
      | ok => trivial
      | unrecoverable msg => trivial
  | save hr hstored => exact h.save hj hr hstored
  | lose hr hgone =>
    obtain ⟨stored, t, hstored, -⟩ := h.held i j hj (by rw [hr]; rfl)
    rw [hgone] at hstored
    cases hstored

/-- One step. -/
theorem Inv.step (h : s.Inv) (hdefs : ∀ type task, defs type = some task → 0 < task.lockDuration)
    (hstep : s.step defs a = some s') (hsafe : s.Safe a) : s'.Inv := by
  obtain ⟨seconds, rfl, rfl⟩ | ⟨instanceName, picked, rfl⟩ | ⟨i, j, tasks, phase, hj, hmove, rfl⟩ :=
    step_cases hstep
  · refine ⟨h.single, ?_, h.spent⟩
    intro i j hj hactive
    obtain ⟨stored, t, hstored, ht, -, hfollows⟩ := h.held i j hj hactive
    exact ⟨stored, t, hstored, ht, hsafe j (List.mem_of_getElem? hj) hactive stored t hstored ht, hfollows⟩
  · constructor
    · intro id
      rw [tally_poll _ fun _ => rfl]
      exact h.single id
    · intro i j hj hactive
      rcases List.mem_append.mp (List.mem_of_getElem? hj) with hmem | hmem
      · obtain ⟨k, hk⟩ := List.mem_iff_getElem?.mp hmem
        exact h.held k j hk hactive
      · obtain ⟨e, -, rfl⟩ := List.mem_map.mp hmem
        cases hactive
    · intro id stored hstored hfails
      rw [tally_poll _ fun _ => rfl, tally_poll _ fun _ => rfl]
      exact h.spent id stored hstored fun j hj => hfails j (List.mem_append_left _ hj)
  · exact h.move hdefs hj hmove hsafe

end State

/-- Over every interleaving of runners whose locks outlast their jobs: as long as a job only locks a row that is
still pending and has attempts left, no task is executed twice at once, and one that always fails recoverably is
executed `max_attempts` times at most. -/
theorem exclusive_and_bounded (defs : String → Option TaskDef)
    (hdefs : ∀ type task, defs type = some task → 0 < task.lockDuration) (s s' : State) (as : List Action)
    (hfresh : s.Fresh) (hrun : run (State.step defs) s as = some s')
    (hsafe : SafeRun (State.step defs) State.Safe s as) : s'.Exclusive ∧ s'.Bounded := by
  have hinv : s'.Inv := inv_of_run (fun _ _ _ h hsafe hstep => h.step hdefs hstep hsafe)
    (State.Inv.of_fresh hfresh) hrun hsafe
  exact ⟨hinv.exclusive, hinv.bounded⟩

/-- A table with one task that may be tried once. -/
def oneTask : State where
  now := 0
  tasks := AList.singleton "t" ⟨"DownloadMetadata", .null, .pending, 0, none, none, 1, 0, none, none⟩
  jobs := []

/-- Every task type locks for five seconds and may be tried once. -/
def fiveSeconds : String → Option TaskDef := fun _ => some ⟨5, 1⟩

theorem oneTask_fresh : oneTask.Fresh := by
  refine ⟨?_, rfl⟩
  intro id r hr
  rw [oneTask, lookup_singleton] at hr
  split at hr
  · obtain rfl := Option.some.inj hr
    rfl
  · cases hr

/-- One runner, whose job takes four of the five seconds. -/
def oneJob : List Action :=
  [.poll "a" 100, .lockAndSave 0, .execute 0, .finish 0 (.failed "timeout") 3, .wait 4, .finalSave 0]

theorem one_job_is_safe : (run (State.step fiveSeconds) oneTask oneJob).isSome
    ∧ ∀ s', run (State.step fiveSeconds) oneTask oneJob = some s' → s'.Exclusive ∧ s'.Bounded := by
  refine ⟨rfl, fun s' hrun => exclusive_and_bounded fiveSeconds ?_ oneTask s' oneJob oneTask_fresh hrun ?_⟩
  · intro type task htask
    obtain rfl := Option.some.inj htask
    decide
  · refine .cons trivial rfl <| .cons ?_ rfl <| .cons trivial rfl <| .cons trivial rfl <| .cons ?_ rfl <|
      .cons trivial rfl trivial
    · rintro j r stored ⟨⟩ ⟨⟩ ⟨⟩
      decide
    · intro j hj _ stored t hstored ht
      obtain rfl := List.mem_singleton.mp hj
      cases hstored
      cases ht
      decide

/-- Two runners that read the table before either locks execute one task at once; and a task of one attempt, which
has failed, is executed again. -/
theorem tasks_overlap_and_overrun : oneTask.Fresh
    ∧ (∃ s', run (State.step fiveSeconds) oneTask
        [.poll "a" 100, .poll "b" 100, .lockAndSave 0, .lockAndSave 1, .execute 0, .execute 1] = some s'
      ∧ ¬ s'.Exclusive)
    ∧ ∃ s', run (State.step fiveSeconds) oneTask
        [.poll "a" 100, .lockAndSave 0, .execute 0, .finish 0 (.failed "timeout") 3, .finalSave 0,
          .poll "a" 100, .lockAndSave 1, .execute 1, .finish 1 (.failed "timeout") 3, .finalSave 1] = some s'
      ∧ ¬ s'.Bounded := by
  refine ⟨oneTask_fresh, ⟨_, rfl, ?_⟩, _, rfl, ?_⟩
  · intro h
    exact absurd (h 0 1 _ _ rfl rfl rfl rfl rfl) (by decide)
  · intro h
    refine absurd (h "t" _ rfl ?_) (by decide)
    intro j hj _ result hresult
    rcases List.mem_cons.mp hj with rfl | hj
    · cases hresult
      exact ⟨_, rfl⟩
    · obtain rfl := List.mem_singleton.mp hj
      cases hresult
      exact ⟨_, rfl⟩

end DasIndexer.Tasks
