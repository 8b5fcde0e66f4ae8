import DasIndexer.Lib.GuardedRuns

/-!
# Pausing a host

A host that says it is overloaded is paused, for the time it asks for or for twice the last pause.
`acquire` looks at the pause under the lock of the map, gives the lock back, and then waits for one of the
permits of the host.  `State` is what concerns one host: its entry, the calls of `acquire` that have passed
the check, and the permits; `Action` has the two halves of `acquire` apart, so that everything may happen
between them.

A call that waits for its permit when the pause begins is past the check, and goes on as soon as there is a
permit (`queued_call_goes`).  **`no_go_while_paused`**: in a run in which no pause begins while a call is past
the check, no call goes while the host is paused; and where one does begin, the call may go.
-/

namespace DasIndexer.Grpc.Hosts

open GuardedRuns

/-! ### One host -/

/-- A second, in nanoseconds. -/
def second : ℕ := 1000000000

/-- `MIN_PAUSE`. -/
def minPause : ℕ := 5 * second

/-- `MAX_PAUSE`. -/
def maxPause : ℕ := 600 * second

/-- An entry of the map; its permits are in `State`. -/
structure Host where
  pausedUntil : Option ℕ := none
  lastPause : ℕ := 0
deriving DecidableEq

namespace Host

/-- The part of `acquire` under the lock: how long to wait, or nothing. -/
def check (h : Host) (now : ℕ) : Option ℕ × Host :=
  match h.pausedUntil with
  | some t => if now < t then (some (t - now), h) else (none, { h with pausedUntil := none })
  | none => (none, h)

/-- A pause that is not over. -/
def paused (h : Host) (now : ℕ) : Bool := h.pausedUntil.any fun t => decide (now < t)

/-- The length of the next pause. -/
def nextPause (h : Host) (retryAfter : Option ℕ) : ℕ :=
  min (max (retryAfter.getD (max (h.lastPause * 2) minPause)) minPause) maxPause

/-- `back_off` on an entry, with what it returns: a pause that is not over is neither extended nor escalated. -/
def backOff (h : Host) (now : ℕ) (retryAfter : Option ℕ) : ℕ × Host :=
  if h.paused now then (h.pausedUntil.getD 0 - now, h)
  else (h.nextPause retryAfter,
    { lastPause := h.nextPause retryAfter, pausedUntil := some (now + h.nextPause retryAfter) })

/-- `succeeded`. -/
def succeeded (h : Host) : Host := { h with lastPause := 0 }

/-- What the check does with a pause. -/
theorem check_cases (h : Host) (now : ℕ) :
    (h.paused now = true ∧ ∃ delay, h.check now = (some delay, h)) ∨
    (h.paused now = false ∧ ∃ h', h.check now = (none, h') ∧ h'.paused now = false) := by
  obtain ⟨pausedUntil, lastPause⟩ := h
  cases pausedUntil with
  | none => exact Or.inr ⟨rfl, _, rfl, rfl⟩
  | some t =>
    by_cases ht : now < t
    · exact Or.inl ⟨decide_eq_true ht, t - now, if_pos ht⟩
    · exact Or.inr ⟨decide_eq_false ht, _, if_neg ht, rfl⟩

/-- A host that is paused later is paused now. -/
theorem paused_of_add {h : Host} {now duration : ℕ} (hp : h.paused (now + duration) = true) :
    h.paused now = true := by
  unfold paused at hp ⊢
  cases hu : h.pausedUntil with
  | none =>
    rw [hu] at hp
    exact absurd hp Bool.false_ne_true
  | some t =>
    rw [hu] at hp
    have hlt : now + duration < t := of_decide_eq_true hp
    exact decide_eq_true (by omega)

theorem one_le_nextPause (h : Host) (retryAfter : Option ℕ) : 1 ≤ h.nextPause retryAfter := by
  unfold nextPause minPause maxPause second
  omega

end Host

/-- `back_off`, with what it returns. -/
def backOff (now : ℕ) (retryAfter : Option ℕ) : Option Host → ℕ × Option Host
  | none => (minPause, none)
  | some h => ((h.backOff now retryAfter).1, some (h.backOff now retryAfter).2)

/-! ### The calls -/

/-- A call of `acquire`. -/
abbrev Call := ℕ

structure State where
  now : ℕ := 0
  /-- the entry of the host, once there is one -/
  host : Option Host := none
  /-- permits that no one holds -/
  free : ℕ
  /-- past the check and without a permit -/
  waiting : List Call := []
  /-- back from `acquire` with `Slot::Go`, and not done yet -/
  holding : List Call := []
deriving DecidableEq

inductive Action where
  /-- `acquire` up to where it gives the lock back -/
  | check (call : Call)
  /-- a call gets its permit, and `acquire` returns `Slot::Go` -/
  | go (call : Call)
  /-- `drop(permit)` -/
  | release (call : Call)
  | backOff (retryAfter : Option ℕ)
  | succeeded
  /-- time passes -/
  | pass (duration : ℕ)
deriving DecidableEq

namespace State

/-- The host is paused. -/
def Paused (s : State) : Prop := (s.host.any fun h => h.paused s.now) = true

instance (s : State) : Decidable s.Paused := inferInstanceAs (Decidable (_ = true))

def step (s : State) : Action → Option State
  | .check call =>
    match (s.host.getD {}).check s.now with
    | (some _, h) => some { s with host := some h }
    | (none, h) => some { s with host := some h, waiting := s.waiting ++ [call] }
  | .go call =>
    if call ∈ s.waiting ∧ 0 < s.free then
      some { s with waiting := s.waiting.erase call, holding := call :: s.holding, free := s.free - 1 }
    else none
  | .release call =>
    if call ∈ s.holding then some { s with holding := s.holding.erase call, free := s.free + 1 } else none
  | .backOff retryAfter => some { s with host := (backOff s.now retryAfter s.host).2 }
  | .succeeded => some { s with host := s.host.map Host.succeeded }
  | .pass duration => some { s with now := s.now + duration }

/-- No pause begins while a call is past the check. -/
def Safe (s : State) : Action → Prop
  | .backOff _ => s.Paused ∨ s.waiting = []
  | _ => True

end State

theorem State.paused_iff (s : State) :
    s.Paused ↔ ∃ entry, s.host = some entry ∧ entry.paused s.now = true := by
  rw [State.Paused]
  cases s.host with
  | none => simp
  | some entry => simp

/-- `Hosts::new`. -/
def init (perHost : ℕ) : State := { free := max perHost 1 }

/-- In the run no call goes while the host is paused. -/
def GoesUnpaused (s₀ : State) (as : List Action) : Prop :=
  ∀ before call after s, as = before ++ Action.go call :: after → run State.step s₀ before = some s →
    s.step (.go call) ≠ none → ¬ s.Paused

/-! ### The invariants -/

/-- The permits are counted, and there are no calls before there is an entry. -/
structure State.Inv (perHost : ℕ) (s : State) : Prop where
  permits : s.free + s.holding.length = max perHost 1
  entry : s.host = none → s.waiting = []

/-- While the host is paused no call is past the check. -/
def State.Quiet (s : State) : Prop := s.Paused → s.waiting = []

theorem inv_init (perHost : ℕ) : (init perHost).Inv perHost where
  permits := rfl
  entry _ := rfl

theorem State.Inv.step {perHost : ℕ} {s s' : State} {a : Action} (h : s.Inv perHost)
    (hstep : s.step a = some s') : s'.Inv perHost := by
  cases a with
  | check call =>
    rcases (s.host.getD {}).check_cases s.now with ⟨_, delay, hcheck⟩ | ⟨_, h', hcheck, _⟩
    · simp only [State.step, hcheck] at hstep
      cases hstep
      exact ⟨h.permits, fun hnone => absurd hnone (Option.some_ne_none _)⟩
    · simp only [State.step, hcheck] at hstep
      cases hstep
      exact ⟨h.permits, fun hnone => absurd hnone (Option.some_ne_none _)⟩
  | go call =>
    obtain ⟨⟨hmem, hfree⟩, hs⟩ := Option.ite_none_right_eq_some.mp hstep
    cases hs
    have hpermits := h.permits
    refine ⟨?_, fun hnone => ?_⟩
    · show s.free - 1 + (s.holding.length + 1) = _
      omega
    · rw [h.entry hnone] at hmem
      cases hmem
  | release call =>
    obtain ⟨hmem, hs⟩ := Option.ite_none_right_eq_some.mp hstep
    cases hs
    refine ⟨?_, h.entry⟩
    have hlength := List.length_erase_of_mem hmem
    have hpos := List.length_pos_of_mem hmem
    have hpermits := h.permits
    show s.free + 1 + (s.holding.erase call).length = _
    omega
  | backOff retryAfter =>
    cases hstep
    refine ⟨h.permits, fun hnone => h.entry ?_⟩
    cases hhost : s.host with
    | none => rfl
    | some entry =>
      simp only [hhost] at hnone
      cases hnone
  | succeeded =>
    cases hstep
    exact ⟨h.permits, fun hnone => h.entry (Option.map_eq_none_iff.mp hnone)⟩
  | pass duration =>
    cases hstep
    exact ⟨h.permits, h.entry⟩

theorem exists_of_getD_paused {host : Option Host} {now : ℕ} (h : (host.getD {}).paused now = true) :
    ∃ entry, host = some entry ∧ entry.paused now = true := by
  cases host with
  | none => exact absurd h Bool.false_ne_true
  | some entry => exact ⟨entry, rfl, h⟩

/-- **A safe step** keeps calls away from a paused host. -/
theorem State.Quiet.step {s s' : State} {a : Action} (h : s.Quiet) (hsafe : s.Safe a)
    (hstep : s.step a = some s') : s'.Quiet := by
  cases a with
  | check call =>
    rcases (s.host.getD {}).check_cases s.now with ⟨hpaused, delay, hcheck⟩ | ⟨_, h', hcheck, hover⟩
    · simp only [State.step, hcheck] at hstep
      cases hstep
      exact fun _ => h (s.paused_iff.mpr (exists_of_getD_paused hpaused))
    · simp only [State.step, hcheck] at hstep
      cases hstep
      intro hpaused
      exact absurd (hover.symm.trans hpaused) Bool.false_ne_true
  | go call =>
    obtain ⟨⟨hmem, _⟩, hs⟩ := Option.ite_none_right_eq_some.mp hstep
    cases hs
    intro hpaused
    rw [h hpaused] at hmem
    cases hmem
  | release call =>
    obtain ⟨_, hs⟩ := Option.ite_none_right_eq_some.mp hstep
    cases hs
    exact h
  | backOff retryAfter =>
    cases hstep
    intro _
    exact hsafe.elim h id
  | succeeded =>
    cases hstep
    intro hpaused
    obtain ⟨entry', hentry', hover⟩ := (State.paused_iff _).mp hpaused
    obtain ⟨entry, hentry, rfl⟩ := Option.map_eq_some_iff.mp hentry'
    exact h (s.paused_iff.mpr ⟨entry, hentry, hover⟩)
  | pass duration =>
    cases hstep
    intro hpaused
    obtain ⟨entry, hentry, hover⟩ := (State.paused_iff _).mp hpaused
    exact h (s.paused_iff.mpr ⟨entry, hentry, Host.paused_of_add hover⟩)

/-! ### Where a pause begins too early -/

/-- A pause that begins is one. -/
theorem Host.paused_backOff {h : Host} {now : ℕ} (hp : h.paused now = false) (retryAfter : Option ℕ) :
    (h.backOff now retryAfter).2.paused now = true := by
  have hpos := h.one_le_nextPause retryAfter
  rw [Host.backOff, hp]
  exact decide_eq_true (by omega)

/-- A call that is past the check when a pause begins may go before it is over. -/
theorem exists_go_of_not_safe {perHost : ℕ} {s : State} {retryAfter : Option ℕ} (h : s.Inv perHost)
    (hbroken : ¬ s.Safe (.backOff retryAfter)) :
    ∃ bs call s', run State.step s (Action.backOff retryAfter :: bs) = some s' ∧ s'.Paused ∧
      s'.step (.go call) ≠ none := by
  obtain ⟨hpaused, hwaiting⟩ := not_or.mp hbroken
  obtain ⟨call, hcall⟩ := List.exists_mem_of_ne_nil _ hwaiting
  cases hhost : s.host with
  | none => exact absurd (h.entry hhost) hwaiting
  | some entry =>
    have hover : entry.paused s.now = false := by
      rw [State.Paused, hhost] at hpaused
      exact eq_false_of_ne_true hpaused
    have hbegun := Host.paused_backOff hover retryAfter
    rcases Nat.eq_zero_or_pos s.free with hfree | hfree
    · -- some call holds a permit, and gives it back
      have hpermits := h.permits
      have hholding : s.holding ≠ [] := by
        intro hnil
        rw [hnil, List.length_nil] at hpermits
        omega
      obtain ⟨holder, hholder⟩ := List.exists_mem_of_ne_nil _ hholding
      refine ⟨[.release holder], call, { s with
        host := some (entry.backOff s.now retryAfter).2
        holding := s.holding.erase holder
        free := s.free + 1 }, ?_, hbegun, ?_⟩
      · simp only [run, State.step, hhost, backOff, Option.bind_some, if_pos hholder]
      · simp only [State.step, if_pos (And.intro hcall (Nat.succ_pos s.free))]
        exact Option.some_ne_none _
    · refine ⟨[], call, { s with host := some (entry.backOff s.now retryAfter).2 }, ?_, hbegun, ?_⟩
      · simp only [run, State.step, hhost, backOff, Option.bind_some]
      · simp only [State.step, if_pos (And.intro hcall hfree)]
        exact Option.some_ne_none _

/-- **A paused host gets no new request** in a run in which no pause begins while a call is past the check of
`acquire`.  From a state of any run in which one does begin, there is a way for a call to go before the pause
is over. -/
theorem no_go_while_paused (perHost : ℕ) :
    (∀ as, SafeRun State.step State.Safe (init perHost) as → GoesUnpaused (init perHost) as) ∧
    ∀ as s retryAfter, run State.step (init perHost) as = some s → ¬ s.Safe (.backOff retryAfter) →
      ∃ bs call s', run State.step s (Action.backOff retryAfter :: bs) = some s' ∧ s'.Paused ∧
        s'.step (.go call) ≠ none := by
  constructor
  · rintro as hsafe before call after s rfl hrun hgo hpaused
    have hquiet : s.Quiet := inv_of_run (fun _ _ _ h hs hstep => h.step hs hstep)
      (fun _ => rfl) hrun hsafe.left
    have hstep : s.step (.go call) = none := if_neg fun hmem => by
      rw [hquiet hpaused] at hmem
      exact absurd hmem.1 List.not_mem_nil
    exact hgo hstep
  · intro as s retryAfter hrun hbroken
    have hinv : s.Inv perHost := inv_of_any_run (fun _ _ _ h hstep => h.step hstep) (inv_init perHost) hrun
    exact exists_go_of_not_safe hinv hbroken

/-- A call that goes, is rate limited and gives its permit back before it pauses the host, and one that comes
after the pause. -/
def politeRun : List Action :=
  [.check 0, .go 0, .release 0, .backOff none, .pass (5 * second), .check 1, .go 1]

theorem politeRun_goes : GoesUnpaused (init 2) politeRun :=
  (no_go_while_paused 2).1 politeRun <|
    .cons trivial rfl <| .cons trivial rfl <| .cons trivial rfl <| .cons (Or.inr rfl) rfl <|
    .cons trivial rfl <| .cons trivial rfl <| .cons trivial rfl trivial

/-- With two permits and four calls, the last two wait.  The first is rate limited and pauses the host; the
second gives its permit back, and the last one goes although the host is paused for five seconds more. -/
def queuedRun : List Action :=
  [.check 0, .go 0, .check 1, .go 1, .check 2, .check 3, .release 0, .go 2, .backOff none, .release 1]

theorem queued_call_goes :
    ∃ s, run State.step (init 2) queuedRun = some s ∧ s.Paused ∧ (s.step (.go 3)).isSome = true ∧
      ¬ GoesUnpaused (init 2) (queuedRun ++ [.go 3]) := by
  refine ⟨_, rfl, by decide, by decide, fun h => ?_⟩
  exact h queuedRun 3 [] _ rfl rfl (by decide) (by decide)

end DasIndexer.Grpc.Hosts
