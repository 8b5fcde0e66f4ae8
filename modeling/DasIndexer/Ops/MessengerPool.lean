import DasIndexer.Lib.GuardedRuns
import DasIndexer.Schema.Values

/-!
# The pool of messengers

The operations tools push accounts and transactions to a message queue through a pool of connections: a
channel that holds the messengers that are free.  A push locks the receiving end, takes a messenger, sends with
it and puts it back.  It keeps the lock until it returns, so pushes wait for each other.  When the send fails
the push returns early, and the messenger is not put back.

The messengers of the pool and the failed sends are together the connections that it was built with
(`messengers_run`).  **`conserved_iff`**: a run keeps the pool whole, and none of its pushes waiting for ever,
exactly when no send has failed where no push is in progress, and fewer sends than there are connections where
one is.
-/

namespace DasIndexer.Ops.MessengerPool

open GuardedRuns

/-! ### Pushes -/

inductive Stream where
  | account | accountBackfill | transaction | transactionBackfill
deriving DecidableEq

/-- A call of `push_account`, `push_account_backfill`, `push_transaction` or `push_transaction_backfill`. -/
structure Push where
  streamKey : Stream
  bytes : Bytes
deriving DecidableEq

/-- Where the push that holds the lock stands. -/
inductive Held (M : Type) where
  /-- at `rx.recv()` -/
  | receiving
  /-- at `messenger.send(stream_key, bytes)` -/
  | sending (messenger : M)
  /-- at `tx.send(messenger)` -/
  | returning (messenger : M)

/-- What a push returns.  Both ends of the channel live as long as the pool, so receiving from it and sending
to it do not fail. -/
inductive Outcome where
  | ok | messengerError
deriving DecidableEq

/-- `QueuePool`, with the pushes that wait for the lock, in their order, the one that holds it and what the
others have returned. -/
structure QueuePool (M : Type) where
  capacity : ℕ
  channel : List M := []
  waiting : List Push := []
  holder : Option (Push × Held M) := none
  returned : List (Push × Outcome) := []

inductive Event where
  | call (push : Push)
  | lock
  | recv
  | sent (success : Bool)
  | giveBack
deriving DecidableEq

variable {M : Type}

/-- `QueuePool::try_from_config`: a channel with room for the connections, and a messenger for each.  A
channel without room panics, and a messenger that cannot connect is an error. -/
def tryFromConfig (connect : ℕ → Option M) (connections : ℕ) : Option (QueuePool M) :=
  if connections = 0 then none
  else (List.range connections).foldlM (fun pool i => do
    let messenger ← connect i
    if pool.channel.length < pool.capacity then
      some { pool with channel := pool.channel ++ [messenger] }
    else none) { capacity := connections }

/-- One step of `push`, or a call of it. -/
def step (pool : QueuePool M) : Event → Option (QueuePool M)
  | .call push => some { pool with waiting := pool.waiting ++ [push] }
  | .lock =>
    match pool.holder, pool.waiting with
    | none, push :: waiting => some { pool with waiting, holder := some (push, .receiving) }
    | _, _ => none
  | .recv =>
    match pool.holder, pool.channel with
    | some (push, .receiving), messenger :: channel =>
      some { pool with channel, holder := some (push, .sending messenger) }
    | _, _ => none
  | .sent success =>
    match pool.holder with
    | some (push, .sending messenger) =>
      if success then some { pool with holder := some (push, .returning messenger) }
      -- the early return drops the messenger and the lock
      else some { pool with holder := none, returned := pool.returned ++ [(push, .messengerError)] }
    | _ => none
  | .giveBack =>
    match pool.holder with
    | some (push, .returning messenger) =>
      if pool.channel.length < pool.capacity then
        some { pool with
          channel := pool.channel ++ [messenger]
          holder := none
          returned := pool.returned ++ [(push, .ok)] }
      else none
    | _ => none

/-! ### What should hold -/

/-- No push is in progress. -/
def Quiet (pool : QueuePool M) : Prop := pool.holder = none ∧ pool.waiting = []

/-- All pushes in progress can still return. -/
def Drains (pool : QueuePool M) : Prop := ∃ events pool', run step pool events = some pool' ∧ Quiet pool'

/-- Wherever a run of a pool gets, the pool holds its messengers when no push is in progress, and no push in
progress waits for ever. -/
def Conserved (connections : ℕ) (pool : QueuePool M) (events : List Event) : Prop :=
  ∀ before pool', before <+: events → run step pool before = some pool' →
    (Quiet pool' → pool'.channel.length = connections) ∧ (¬ Quiet pool' → Drains pool')

/-- The sends that fail in a run. -/
def failures (events : List Event) : ℕ := events.count (.sent false)

/-! ### Messengers -/

/-- The messenger in the hands of the push that holds the lock. -/
def Held.inHand : Held M → ℕ
  | .receiving => 0
  | .sending _ => 1
  | .returning _ => 1

/-- The messengers that a pool has, in its channel and in hand. -/
def messengers (pool : QueuePool M) : ℕ :=
  pool.channel.length + (pool.holder.map fun h => h.2.inHand).getD 0

/-- The messengers that connect stand in the channel, behind those that are there. -/
theorem connect_all {connect : ℕ → Option M} (is : List ℕ) {pool pool' : QueuePool M}
    (h : is.foldlM (fun pool i => do
      let messenger ← connect i
      if pool.channel.length < pool.capacity then
        some { pool with channel := pool.channel ++ [messenger] }
      else none) pool = some pool') :
    pool'.channel.length = pool.channel.length + is.length ∧ pool'.capacity = pool.capacity ∧
      (Quiet pool → Quiet pool') := by
  induction is generalizing pool with
  | nil =>
    obtain rfl := Option.some.inj h
    exact ⟨rfl, rfl, id⟩
  | cons i is ih =>
    rw [List.foldlM_cons] at h
    obtain ⟨next, hnext, hrest⟩ := Option.bind_eq_some_iff.mp h
    obtain ⟨messenger, _, hsend⟩ := Option.bind_eq_some_iff.mp hnext
    obtain ⟨_, hpool⟩ := Option.ite_none_right_eq_some.mp hsend
    obtain rfl := Option.some.inj hpool
    obtain ⟨hlength, hcapacity, hquiet⟩ := ih hrest
    refine ⟨?_, hcapacity, hquiet⟩
    simp only [hlength, List.length_append, List.length_cons, List.length_nil]
    omega

/-- A pool that was built has all its connections in the channel. -/
theorem built {connect : ℕ → Option M} {connections : ℕ} {pool : QueuePool M}
    (h : tryFromConfig connect connections = some pool) :
    1 ≤ connections ∧ pool.capacity = connections ∧ messengers pool = connections ∧ Quiet pool := by
  obtain ⟨hpos, hall⟩ := Option.ite_none_left_eq_some.mp h
  obtain ⟨hlength, hcapacity, hquiet⟩ := connect_all _ hall
  have hquiet' : Quiet pool := hquiet ⟨rfl, rfl⟩
  refine ⟨Nat.one_le_iff_ne_zero.mpr hpos, hcapacity, ?_, hquiet'⟩
  rw [messengers, hquiet'.1, hlength, List.length_range]
  exact zero_add _

/-- What a step does, and where it can be made. -/
theorem step_cases {pool pool' : QueuePool M} {event : Event} (h : step pool event = some pool') :
    (∃ push, event = .call push ∧ pool' = { pool with waiting := pool.waiting ++ [push] }) ∨
    (∃ push waiting, event = .lock ∧ pool.holder = none ∧ pool.waiting = push :: waiting ∧
      pool' = { pool with waiting, holder := some (push, .receiving) }) ∨
    (∃ push messenger channel, event = .recv ∧ pool.holder = some (push, .receiving) ∧
      pool.channel = messenger :: channel ∧
      pool' = { pool with channel, holder := some (push, .sending messenger) }) ∨
    (∃ push messenger, pool.holder = some (push, .sending messenger) ∧
      ((event = .sent true ∧ pool' = { pool with holder := some (push, .returning messenger) }) ∨
        (event = .sent false ∧
          pool' = { pool with holder := none, returned := pool.returned ++ [(push, .messengerError)] }))) ∨
    (∃ push messenger, event = .giveBack ∧ pool.holder = some (push, .returning messenger) ∧
      pool.channel.length < pool.capacity ∧
      pool' = { pool with
        channel := pool.channel ++ [messenger]
        holder := none
        returned := pool.returned ++ [(push, .ok)] }) := by
  obtain ⟨capacity, channel, waiting, holder, returned⟩ := pool
  cases event with
  | call push => exact Or.inl ⟨push, rfl, (Option.some.inj h).symm⟩
  | lock =>
    rcases holder with _ | held
    · rcases waiting with _ | ⟨push, waiting⟩
      · cases h
      · exact Or.inr (Or.inl ⟨push, waiting, rfl, rfl, rfl, (Option.some.inj h).symm⟩)
    · cases h
  | recv =>
    rcases holder with _ | ⟨push, _ | _ | _⟩
    · cases h
    · rcases channel with _ | ⟨messenger, channel⟩
      · cases h
      · exact Or.inr (Or.inr (Or.inl ⟨push, messenger, channel, rfl, rfl, rfl, (Option.some.inj h).symm⟩))
    · cases h
    · cases h
  | sent success =>
    rcases holder with _ | ⟨push, _ | messenger | _⟩
    · cases h
    · cases h
    · refine Or.inr (Or.inr (Or.inr (Or.inl ⟨push, messenger, rfl, ?_⟩)))
      cases success with
      | true => exact Or.inl ⟨rfl, (Option.some.inj h).symm⟩
      | false => exact Or.inr ⟨rfl, (Option.some.inj h).symm⟩
    · cases h
  | giveBack =>
    rcases holder with _ | ⟨push, _ | _ | messenger⟩
    · cases h
    · cases h
    · cases h
    · obtain ⟨hroom, hpool⟩ := Option.ite_none_right_eq_some.mp h
      exact Or.inr (Or.inr (Or.inr (Or.inr ⟨push, messenger, rfl, rfl, hroom, (Option.some.inj hpool).symm⟩)))

/-- A step loses a messenger when a send fails, and none otherwise. -/
theorem messengers_step {pool pool' : QueuePool M} {event : Event} (h : step pool event = some pool') :
    messengers pool' + failures [event] = messengers pool ∧ pool'.capacity = pool.capacity := by
  obtain ⟨push, rfl, rfl⟩ | ⟨push, waiting, rfl, hholder, _, rfl⟩ |
    ⟨push, messenger, channel, rfl, hholder, hchannel, rfl⟩ |
    ⟨push, messenger, hholder, ⟨rfl, rfl⟩ | ⟨rfl, rfl⟩⟩ | ⟨push, messenger, rfl, hholder, _, rfl⟩ := step_cases h
  · exact ⟨rfl, rfl⟩
  · exact ⟨by simp [messengers, failures, Held.inHand, hholder], rfl⟩
  · exact ⟨by simp [messengers, failures, Held.inHand, hholder, hchannel], rfl⟩
  · exact ⟨by simp [messengers, failures, Held.inHand, hholder], rfl⟩
  · exact ⟨by simp [messengers, failures, Held.inHand, hholder], rfl⟩
  · exact ⟨by simp [messengers, failures, Held.inHand, hholder], rfl⟩

/-- **The messengers of a pool and the sends that failed are together what it was built with.** -/
theorem messengers_run {pool pool' : QueuePool M} {events : List Event}
    (h : run step pool events = some pool') :
    messengers pool' + failures events = messengers pool ∧ pool'.capacity = pool.capacity := by
  induction events generalizing pool with
  | nil =>
    obtain rfl := Option.some.inj h
    exact ⟨rfl, rfl⟩
  | cons event events ih =>
    obtain ⟨next, hnext, hrest⟩ := Option.bind_eq_some_iff.mp h
    obtain ⟨hstep, hcapacity⟩ := messengers_step hnext
    obtain ⟨hrun, hcapacity'⟩ := ih hrest
    refine ⟨?_, hcapacity'.trans hcapacity⟩
    have hsplit : failures (event :: events) = failures [event] + failures events := by
      rw [failures, ← List.singleton_append, List.count_append]
      rfl
    omega

/-! ### Progress -/

/-- A pool with a messenger, and with room for those that it has. -/
def Supplied (pool : QueuePool M) : Prop := 0 < messengers pool ∧ messengers pool ≤ pool.capacity

theorem drains_of_step {pool pool' : QueuePool M} {event : Event} (hstep : step pool event = some pool')
    (h : Drains pool') : Drains pool := by
  obtain ⟨events, last, hrun, hquiet⟩ := h
  refine ⟨event :: events, last, ?_, hquiet⟩
  rw [run, hstep]
  exact hrun

theorem Supplied.step {pool pool' : QueuePool M} {event : Event} (h : Supplied pool)
    (hstep : step pool event = some pool') (hevent : event ≠ .sent false) : Supplied pool' := by
  obtain ⟨hkeep, hcapacity⟩ := messengers_step hstep
  have hnone : failures [event] = 0 :=
    List.count_eq_zero.mpr fun hmem => hevent (List.mem_singleton.mp hmem).symm
  rw [hnone, add_zero] at hkeep
  rw [Supplied, hkeep, hcapacity]
  exact h

/-- A push that is to put its messenger back finds room. -/
theorem drains_of_returning {pool : QueuePool M} {push : Push} {messenger : M} (h : Supplied pool)
    (hholder : pool.holder = some (push, .returning messenger))
    (hfree : ∀ pool' : QueuePool M, pool'.holder = none → pool'.waiting = pool.waiting → Supplied pool' →
      Drains pool') :
    Drains pool := by
  have hroom : pool.channel.length < pool.capacity := by
    have hcapacity := h.2
    rw [messengers, hholder] at hcapacity
    exact Nat.lt_of_succ_le hcapacity
  have hstep : step pool .giveBack = some { pool with
      channel := pool.channel ++ [messenger]
      holder := none
      returned := pool.returned ++ [(push, .ok)] } := by
    simp only [step, hholder, if_pos hroom]
  exact drains_of_step hstep (hfree _ rfl rfl (h.step hstep nofun))

/-- A push that sends can succeed. -/
theorem drains_of_sending {pool : QueuePool M} {push : Push} {messenger : M} (h : Supplied pool)
    (hholder : pool.holder = some (push, .sending messenger))
    (hfree : ∀ pool' : QueuePool M, pool'.holder = none → pool'.waiting = pool.waiting → Supplied pool' →
      Drains pool') :
    Drains pool := by
  have hstep : step pool (.sent true) = some { pool with holder := some (push, .returning messenger) } := by
    simp only [step, hholder, if_true]
  exact drains_of_step hstep (drains_of_returning (h.step hstep nofun) rfl hfree)

/-- A push that holds the lock with nothing in hand finds a messenger in the channel. -/
theorem drains_of_receiving {pool : QueuePool M} {push : Push} (h : Supplied pool)
    (hholder : pool.holder = some (push, .receiving))
    (hfree : ∀ pool' : QueuePool M, pool'.holder = none → pool'.waiting = pool.waiting → Supplied pool' →
      Drains pool') :
    Drains pool := by
  cases hchannel : pool.channel with
  | nil =>
    have hpos := h.1
    rw [messengers, hholder, hchannel] at hpos
    exact absurd hpos (lt_irrefl 0)
  | cons messenger channel =>
    have hstep : step pool .recv = some { pool with channel, holder := some (push, .sending messenger) } := by
      simp only [step, hholder, hchannel]
    exact drains_of_step hstep (drains_of_sending (h.step hstep nofun) rfl hfree)

/-- The pushes that wait for a free lock return one after the other. -/
theorem drains_of_free (waiting : List Push) (pool : QueuePool M) (hholder : pool.holder = none)
    (hwaiting : pool.waiting = waiting) (h : Supplied pool) : Drains pool := by
  induction waiting generalizing pool with
  | nil => exact ⟨[], pool, rfl, hholder, hwaiting⟩
  | cons push waiting ih =>
    have hstep : step pool .lock = some { pool with waiting, holder := some (push, .receiving) } := by
      simp only [step, hholder, hwaiting]
    exact drains_of_step hstep (drains_of_receiving (h.step hstep nofun) rfl ih)

/-- **Where a messenger is left, every push in progress can return.** -/
theorem drains_of_supplied {pool : QueuePool M} (h : Supplied pool) : Drains pool := by
  rcases hholder : pool.holder with _ | ⟨push, _ | messenger | messenger⟩
  · exact drains_of_free pool.waiting pool hholder rfl h
  · exact drains_of_receiving h hholder fun next hnone _ h' => drains_of_free next.waiting next hnone rfl h'
  · exact drains_of_sending h hholder fun next hnone _ h' => drains_of_free next.waiting next hnone rfl h'
  · exact drains_of_returning h hholder fun next hnone _ h' => drains_of_free next.waiting next hnone rfl h'

/-- Where none is left, a push in progress never returns: the one that has the lock waits for a messenger. -/
theorem not_quiet_step {pool pool' : QueuePool M} {event : Event} (h : messengers pool = 0 ∧ ¬ Quiet pool)
    (hstep : step pool event = some pool') : messengers pool' = 0 ∧ ¬ Quiet pool' := by
  obtain ⟨hzero, _⟩ := h
  have hkeep := (messengers_step hstep).1
  refine ⟨by omega, ?_⟩
  obtain ⟨push, rfl, rfl⟩ | ⟨push, waiting, rfl, _, _, rfl⟩ |
    ⟨push, messenger, channel, rfl, _, hchannel, rfl⟩ | ⟨push, messenger, hholder, _⟩ |
    ⟨push, messenger, rfl, hholder, _, rfl⟩ := step_cases hstep
  · exact fun hquiet => List.append_ne_nil_of_right_ne_nil _ (List.cons_ne_nil push []) hquiet.2
  · exact fun hquiet => nomatch hquiet.1
  -- the other steps need a messenger
  · simp [messengers, hchannel] at hzero
  · simp [messengers, Held.inHand, hholder] at hzero
  · simp [messengers, Held.inHand, hholder] at hzero

theorem not_drains {pool : QueuePool M} (hzero : messengers pool = 0) (hbusy : ¬ Quiet pool) :
    ¬ Drains pool := by
  rintro ⟨events, last, hrun, hquiet⟩
  have hlast := inv_of_any_run (I := fun pool : QueuePool M => messengers pool = 0 ∧ ¬ Quiet pool)
    (fun _ _ _ h hstep => not_quiet_step h hstep) ⟨hzero, hbusy⟩ hrun
  exact hlast.2 hquiet

/-! ### Every run -/

/-- **When a run conserves the pool**: no send has failed where no push is in progress, and one connection
still works where one is. -/
theorem conserved_iff (connect : ℕ → Option M) (connections : ℕ) (pool : QueuePool M) (events : List Event)
    (hbuilt : tryFromConfig connect connections = some pool) :
    Conserved connections pool events ↔
      ∀ before pool', before <+: events → run step pool before = some pool' →
        (Quiet pool' → failures before = 0) ∧ (¬ Quiet pool' → failures before < connections) := by
  obtain ⟨_, hcapacity, hall, _⟩ := built hbuilt
  refine forall₄_congr fun before pool' _ hrun => ?_
  obtain ⟨hbalance, hroom⟩ := messengers_run hrun
  rw [hall] at hbalance
  rw [hcapacity] at hroom
  refine and_congr (imp_congr_right fun hquiet => ?_) (imp_congr_right fun hbusy => ?_)
  · have hchannel : messengers pool' = pool'.channel.length := by
      rw [messengers, hquiet.1]
      rfl
    omega
  · constructor
    · intro hdrains
      by_contra hfailed
      exact not_drains (by omega) hbusy hdrains
    · intro hfailed
      exact drains_of_supplied ⟨by omega, by omega⟩

/-- A push of an account. -/
def samplePush : Push := ⟨.account, [1]⟩

/-- A pool with one connection. -/
def samplePool : QueuePool ℕ := { capacity := 1, channel := [0] }

/-- One push that succeeds. -/
theorem one_push_conserves :
    Conserved 1 samplePool [.call samplePush, .lock, .recv, .sent true, .giveBack] := by
  refine (conserved_iff (fun i => some i) 1 samplePool _ rfl).mpr fun before pool' hbefore _ => ?_
  have hnone : failures before = 0 := by
    refine List.count_eq_zero.mpr fun hmem => ?_
    exact absurd (hbefore.subset hmem) (by decide)
  exact ⟨fun _ => hnone, fun _ => hnone ▸ one_pos⟩

/-- One failed send empties the pool, and the next push waits for ever. -/
theorem failed_send_empties_the_pool :
    tryFromConfig (fun i => some i) 1 = some samplePool ∧
      ¬ Conserved 1 samplePool [.call samplePush, .lock, .recv, .sent false] ∧
      ∃ pool', run step samplePool [.call samplePush, .lock, .recv, .sent false, .call samplePush]
        = some pool' ∧ ¬ Quiet pool' ∧ ¬ Drains pool' := by
  refine ⟨rfl, fun hconserved => ?_, _, rfl, nofun, not_drains rfl nofun⟩
  have hpool := (hconserved _ _ (List.prefix_refl _) rfl).1 ⟨rfl, rfl⟩
  exact absurd hpool (by decide)

end DasIndexer.Ops.MessengerPool
