import Mathlib

/-!
# Stages of a pipeline

A stage takes jobs from a channel and runs a handler for each, at most `limit` at a time: where no slot is free it
waits for a handler that has ended.  A handler has some outputs to send, one at a time; then it ends, or goes on for
ever with nothing to send.  It may fail and lose what it has not sent.  When no more jobs will come and all handlers
have ended, the stage ends.

**`Stage.Inv`** is what a stage keeps: every job is in the channel, at hand or taken, and every output of a job that
was taken has been sent, lost or is still to be sent.  **`Step.weight_lt`** and **`Stage.progress`** are for
pipelines that end: where all handlers end, a step takes work off the stage, and a stage stands still only where there
is nothing to do or an output finds no room.
-/

namespace Stages

variable {J O : Type}

/-- What a handler has still to do: its outputs, and whether it ends after them. -/
structure Work (O : Type) where
  outputs : List O
  ends : Bool

/-- The handler has ended. -/
def Work.ended : Work O := ⟨[], true⟩

/-- A stage, with the jobs that it has taken and the outputs that its handlers have sent and lost. -/
structure Stage (J O : Type) where
  feed : List J := []
  held : Option J := none
  handlers : Multiset (Work O) := 0
  finished : Bool := false
  taken : Multiset J := 0
  sent : Multiset O := 0
  lost : Multiset O := 0

/-- A job arrives. -/
def Stage.accept (s : Stage J O) (j : J) : Stage J O := { s with feed := s.feed ++ [j] }

/-- A handler begins; `others` are the handlers next to it. -/
def Stage.begin (s : Stage J O) (handler : Work O) (j : J) (others : Multiset (Work O)) : Stage J O :=
  { s with held := none, handlers := handler ::ₘ others, taken := j ::ₘ s.taken }

/-- What a step of a stage does for the stages next to it. -/
inductive Act (O : Type) where
  | moves | fails | sends (output : O)

/-- What is sent. -/
def Act.output : Act O → Multiset O
  | .sends o => {o}
  | _ => 0

variable (work : J → Work O) (limit : ℕ) (closed : Prop)

/-- A step of a stage.  `closed` says that no more jobs will come. -/
inductive Step : Stage J O → Act O → Stage J O → Prop
  | recv (s : Stage J O) (j : J) (rest : List J) : s.finished = false → s.held = none → s.feed = j :: rest →
    Step s .moves { s with feed := rest, held := some j }
  | spawn (s : Stage J O) (j : J) : s.held = some j → s.handlers.card < limit ∨ s.handlers = 0 →
    Step s .moves (s.begin (work j) j s.handlers)
  | replace (s : Stage J O) (j : J) (others : Multiset (Work O)) : s.held = some j → limit ≤ s.handlers.card →
    s.handlers = Work.ended ::ₘ others → Step s .moves (s.begin (work j) j others)
  | fail (s : Stage J O) (handler : Work O) (others : Multiset (Work O)) : handler ≠ .ended →
    s.handlers = handler ::ₘ others →
    Step s .fails { s with handlers := Work.ended ::ₘ others, lost := s.lost + handler.outputs }
  | send (s : Stage J O) (o : O) (rest : List O) (ends : Bool) (others : Multiset (Work O)) :
    s.handlers = ⟨o :: rest, ends⟩ ::ₘ others →
    Step s (.sends o) { s with handlers := ⟨rest, ends⟩ ::ₘ others, sent := o ::ₘ s.sent }
  | spin (s : Stage J O) : ⟨[], false⟩ ∈ s.handlers → Step s .moves s
  | finish (s : Stage J O) : closed → s.finished = false → s.feed = [] → s.held = none →
    (∀ handler ∈ s.handlers, handler = .ended) → Step s .moves { s with finished := true }

/-! ### What a step changes -/

section Changes

variable {work : J → Work O} {limit : ℕ} {closed : Prop} {s s' : Stage J O} {act : Act O}

theorem Step.sent_eq (hstep : Step work limit closed s act s') : s'.sent = act.output + s.sent := by
  cases hstep with
  | send => exact (Multiset.singleton_add _ _).symm
  | _ => exact (zero_add _).symm

/-- Only a failure loses anything. -/
theorem Step.lost_eq (hstep : Step work limit closed s act s') (hact : act ≠ .fails) : s'.lost = s.lost := by
  cases hstep with
  | fail => exact absurd rfl hact
  | _ => rfl

theorem Step.feed_length_le (hstep : Step work limit closed s act s') : s'.feed.length ≤ s.feed.length := by
  cases hstep with
  | recv j rest _ _ hfeed =>
    rw [hfeed]
    exact Nat.le_succ _
  | _ => exact le_rfl

/-- A stage that has ended stays so, and one that ends has no more jobs to come. -/
theorem Step.finished_cases (hstep : Step work limit closed s act s') :
    s'.finished = s.finished ∨ closed ∧ s'.finished = true := by
  cases hstep with
  | finish hclosed => exact Or.inr ⟨hclosed, rfl⟩
  | _ => exact Or.inl rfl

theorem Step.finished_mono (hstep : Step work limit closed s act s') (hend : s.finished = true) :
    s'.finished = true := by
  rcases hstep.finished_cases with heq | ⟨-, htrue⟩
  · rw [heq, hend]
  · exact htrue

end Changes

/-! ### What a stage keeps -/

/-- The outputs that some handlers are still to send. -/
def unsent (handlers : Multiset (Work O)) : Multiset O :=
  (handlers.map fun handler : Work O => (handler.outputs : Multiset O)).sum

@[simp] theorem unsent_zero : unsent (0 : Multiset (Work O)) = 0 := rfl

@[simp] theorem unsent_cons (handler : Work O) (handlers : Multiset (Work O)) :
    unsent (handler ::ₘ handlers) = handler.outputs + unsent handlers := by
  rw [unsent, Multiset.map_cons, Multiset.sum_cons, unsent]

@[simp] theorem outputs_ended : (Work.ended : Work O).outputs = [] := rfl

theorem unsent_eq_zero {handlers : Multiset (Work O)} (h : ∀ handler ∈ handlers, handler = .ended) :
    unsent handlers = 0 := by
  refine Multiset.sum_eq_zero fun outputs houtputs => ?_
  obtain ⟨handler, hmem, rfl⟩ := Multiset.mem_map.mp houtputs
  rw [h handler hmem, outputs_ended, Multiset.coe_nil]

/-- No job and no output is lost sight of, and only a job of which the handler does not end has one that does not;
`entered` are the jobs that have come. -/
structure Stage.Inv (entered : Multiset J) (s : Stage J O) : Prop where
  jobs : entered = s.taken + s.held.toList + s.feed
  outputs : (s.taken.bind fun j => ((work j).outputs : Multiset O)) = s.sent + s.lost + unsent s.handlers
  endless : ∀ handler ∈ s.handlers, handler.ends = false → ∃ j ∈ s.taken, (work j).ends = false
  slots : s.handlers.card ≤ max 1 limit
  ended : s.finished = true → s.feed = [] ∧ s.held = none ∧ ∀ handler ∈ s.handlers, handler = .ended

variable {work limit closed} {entered : Multiset J} {s s' : Stage J O}

theorem Stage.Inv.start (feed : List J) : Stage.Inv work limit feed ({ feed } : Stage J O) where
  jobs := by simp
  outputs := by simp
  endless _ hmem := absurd hmem (Multiset.notMem_zero _)
  slots := by simp
  ended h := by cases h

/-- A stage that has not ended may be given a job. -/
theorem Stage.Inv.accept (h : Stage.Inv work limit entered s) (hopen : s.finished = false) (j : J) :
    Stage.Inv work limit (j ::ₘ entered) (s.accept j) where
  jobs := by
    show j ::ₘ entered = s.taken + s.held.toList + ((s.feed ++ [j] : List J) : Multiset J)
    rw [h.jobs, ← Multiset.coe_add, Multiset.coe_singleton, ← add_assoc, add_comm _ ({j} : Multiset J),
      Multiset.singleton_add]
  outputs := h.outputs
  endless := h.endless
  slots := h.slots
  ended hend := by
    rw [show (s.accept j).finished = s.finished from rfl, hopen] at hend
    cases hend

/-- A handler begins for the job at hand. -/
theorem Stage.Inv.begin (h : Stage.Inv work limit entered s) {j : J} (hheld : s.held = some j)
    {others : Multiset (Work O)} (hothers : others ≤ s.handlers) (hcard : others.card < max 1 limit)
    (hsend : unsent others = unsent s.handlers) :
    Stage.Inv work limit entered (s.begin (work j) j others) where
  jobs := by
    show entered = j ::ₘ s.taken + (none : Option J).toList + s.feed
    rw [h.jobs, hheld, Option.toList_some, Option.toList_none, Multiset.coe_singleton, Multiset.coe_nil, add_zero,
      ← Multiset.singleton_add, add_comm ({j} : Multiset J)]
  outputs := by
    show ((j ::ₘ s.taken).bind fun j => ((work j).outputs : Multiset O))
      = s.sent + s.lost + unsent (work j ::ₘ others)
    rw [Multiset.cons_bind, h.outputs, unsent_cons, hsend, add_left_comm]
  endless handler hmem hends := by
    rcases Multiset.mem_cons.mp hmem with rfl | hmem
    · exact ⟨j, Multiset.mem_cons_self j _, hends⟩
    · obtain ⟨j', htaken, hj'⟩ := h.endless handler (Multiset.mem_of_le hothers hmem) hends
      exact ⟨j', Multiset.mem_cons_of_mem htaken, hj'⟩
  slots := by
    show (work j ::ₘ others).card ≤ _
    rw [Multiset.card_cons]
    exact hcard
  ended hend := by
    have hheld' := (h.ended hend).2.1
    rw [hheld] at hheld'
    cases hheld'

/-- A stage of which a handler has not ended has not ended. -/
theorem Stage.Inv.not_finished (h : Stage.Inv work limit entered s) {handler : Work O}
    (hne : handler ≠ .ended) (hmem : handler ∈ s.handlers) : s.finished = false := by
  by_contra hend
  exact hne ((h.ended (Bool.eq_true_of_not_eq_false hend)).2.2 handler hmem)

theorem sending_ne_ended {o : O} {rest : List O} {ends : Bool} : (⟨o :: rest, ends⟩ : Work O) ≠ .ended := by
  intro h
  cases h

theorem Step.inv {act : Act O} (hstep : Step work limit closed s act s') (h : Stage.Inv work limit entered s) :
    Stage.Inv work limit entered s' := by
  cases hstep with
  | recv j rest hopen hheld hfeed =>
    refine ⟨?_, h.outputs, h.endless, h.slots, fun hend => ?_⟩
    · show entered = s.taken + (some j).toList + rest
      rw [h.jobs, hheld, hfeed, Option.toList_some, Option.toList_none, Multiset.coe_nil, add_zero,
        Multiset.coe_singleton, ← Multiset.cons_coe, ← Multiset.singleton_add, add_assoc]
    · rw [show _ = s.finished from rfl, hopen] at hend
      cases hend
  | spawn j hheld hslot =>
    refine h.begin hheld le_rfl ?_ rfl
    rcases hslot with hlt | hzero
    · exact lt_of_lt_of_le hlt (le_max_right 1 limit)
    · rw [hzero]
      exact lt_of_lt_of_le Nat.zero_lt_one (le_max_left 1 limit)
  | replace j others hheld _ hhandlers =>
    have hslots := h.slots
    rw [hhandlers, Multiset.card_cons] at hslots
    refine h.begin hheld (hhandlers ▸ Multiset.le_cons_self _ _) hslots ?_
    rw [hhandlers, unsent_cons, outputs_ended, Multiset.coe_nil, zero_add]
  | fail handler others hne hhandlers =>
    have hslots := h.slots
    rw [hhandlers, Multiset.card_cons] at hslots
    have hopen := h.not_finished hne (hhandlers ▸ Multiset.mem_cons_self _ _)
    refine ⟨h.jobs, ?_, fun handler' hmem hends => ?_, by rw [Multiset.card_cons]; exact hslots, fun hend => ?_⟩
    · show _ = s.sent + (s.lost + (handler.outputs : Multiset O)) + unsent (Work.ended ::ₘ others)
      rw [h.outputs, hhandlers, unsent_cons, unsent_cons, outputs_ended, Multiset.coe_nil, zero_add, add_assoc,
        add_assoc, add_assoc]
    · rcases Multiset.mem_cons.mp hmem with rfl | hmem
      · cases hends
      · exact h.endless handler' (hhandlers ▸ Multiset.mem_cons_of_mem hmem) hends
    · rw [show _ = s.finished from rfl, hopen] at hend
      cases hend
  | send o rest ends others hhandlers =>
    have hslots := h.slots
    rw [hhandlers, Multiset.card_cons] at hslots
    have hopen := h.not_finished sending_ne_ended (hhandlers ▸ Multiset.mem_cons_self _ _)
    refine ⟨h.jobs, ?_, fun handler hmem hends => ?_, by rw [Multiset.card_cons]; exact hslots, fun hend => ?_⟩
    · show _ = o ::ₘ s.sent + s.lost + unsent (⟨rest, ends⟩ ::ₘ others)
      rw [h.outputs, hhandlers, unsent_cons, unsent_cons, ← Multiset.cons_coe, Multiset.cons_add, Multiset.cons_add,
        Multiset.cons_add, Multiset.add_cons]
    · rcases Multiset.mem_cons.mp hmem with rfl | hmem
      · exact h.endless ⟨o :: rest, ends⟩ (hhandlers ▸ Multiset.mem_cons_self _ _) hends
      · exact h.endless handler (hhandlers ▸ Multiset.mem_cons_of_mem hmem) hends
    · rw [show _ = s.finished from rfl, hopen] at hend
      cases hend
  | spin => exact h
  | finish _ _ hfeed hheld hhandlers => exact ⟨h.jobs, h.outputs, h.endless, h.slots, fun _ => ⟨hfeed, hheld, hhandlers⟩⟩

/-- **When a stage has ended**, it has taken every job, and every output has been sent or lost. -/
theorem Stage.Inv.complete (h : Stage.Inv work limit entered s) (hend : s.finished = true) :
    s.taken = entered ∧ (entered.bind fun j => ((work j).outputs : Multiset O)) = s.sent + s.lost := by
  obtain ⟨hfeed, hheld, hhandlers⟩ := h.ended hend
  have htaken : s.taken = entered := by
    rw [h.jobs, hfeed, hheld, Option.toList_none, Multiset.coe_nil, add_zero, add_zero]
  have houtputs := h.outputs
  rw [unsent_eq_zero hhandlers, add_zero, htaken] at houtputs
  exact ⟨htaken, houtputs⟩

/-- A job that has been taken is one that has come. -/
theorem Stage.Inv.mem_entered (h : Stage.Inv work limit entered s) {j : J} (hj : j ∈ s.taken) : j ∈ entered := by
  rw [h.jobs, add_assoc]
  exact Multiset.mem_add.mpr (Or.inl hj)

/-- What has been sent is an output of a job that has come. -/
theorem Stage.Inv.exists_of_sent (h : Stage.Inv work limit entered s) {o : O} (ho : o ∈ s.sent) :
    ∃ j ∈ entered, o ∈ (work j).outputs := by
  have hmem : o ∈ s.taken.bind fun j => ((work j).outputs : Multiset O) := by
    rw [h.outputs, add_assoc]
    exact Multiset.mem_add.mpr (Or.inl ho)
  obtain ⟨j, hj, hoj⟩ := Multiset.mem_bind.mp hmem
  exact ⟨j, h.mem_entered hj, Multiset.mem_coe.mp hoj⟩

/-- Where the handlers of all jobs that have come end, those that run end. -/
theorem Stage.Inv.handlers_end (h : Stage.Inv work limit entered s) (hends : ∀ j ∈ entered, (work j).ends = true) :
    ∀ handler ∈ s.handlers, handler.ends = true := by
  intro handler hmem
  by_contra hne
  obtain ⟨j, hj, hfalse⟩ := h.endless handler hmem (Bool.eq_false_of_not_eq_true hne)
  rw [hends j (h.mem_entered hj)] at hfalse
  cases hfalse

/-! ### The work that is left -/

variable (work) (weigh : O → ℕ)

/-- The weight of outputs, given what they weigh where they go. -/
def weightOf (outputs : List O) : ℕ := (outputs.map fun o => weigh o + 1).sum

/-- The weight of a job on arrival. -/
def jobWeight (j : J) : ℕ := weightOf weigh (work j).outputs + 3

/-- More than the steps that a stage and those behind it can still make, where all handlers end. -/
def Stage.weight (s : Stage J O) : ℕ :=
  (s.feed.map (jobWeight work weigh)).sum + (s.held.elim 0 fun j => weightOf weigh (work j).outputs + 2)
    + (s.handlers.map fun handler => weightOf weigh handler.outputs + 1).sum + (!s.finished).toNat

/-- What a step hands on. -/
def Act.weight : Act O → ℕ
  | .sends o => weigh o
  | _ => 0

variable {work weigh}

theorem weight_accept (s : Stage J O) (j : J) :
    (s.accept j).weight work weigh = s.weight work weigh + jobWeight work weigh j := by
  simp only [Stage.weight, Stage.accept, List.map_append, List.sum_append, List.map_cons, List.map_nil,
    List.sum_singleton]
  omega

/-- A handler that ends and has not ended has something to send. -/
theorem exists_output {handler : Work O} (hne : handler ≠ .ended) (hends : handler.ends = true) :
    ∃ o rest, handler.outputs = o :: rest := by
  obtain ⟨outputs, ends⟩ := handler
  obtain rfl : ends = true := hends
  cases outputs with
  | nil => exact absurd rfl hne
  | cons o rest => exact ⟨o, rest, rfl⟩

variable (weigh) in
/-- **A step takes work off the stage**, more than it hands on, where all handlers end. -/
theorem Step.weight_lt {act : Act O} (hstep : Step work limit closed s act s')
    (hends : ∀ handler ∈ s.handlers, handler.ends = true) :
    s'.weight work weigh + act.weight weigh < s.weight work weigh := by
  cases hstep with
  | recv j rest hopen hheld hfeed =>
    simp only [Stage.weight, Act.weight, hheld, hfeed, List.map_cons, List.sum_cons, jobWeight, Option.elim]
    omega
  | spawn j hheld =>
    simp only [Stage.weight, Stage.begin, Act.weight, hheld, Multiset.map_cons, Multiset.sum_cons, Option.elim]
    omega
  | replace j others hheld _ hhandlers =>
    simp only [Stage.weight, Stage.begin, Act.weight, hheld, hhandlers, Multiset.map_cons, Multiset.sum_cons,
      Option.elim, outputs_ended, weightOf, List.map_nil, List.sum_nil]
    omega
  | fail handler others hne hhandlers =>
    obtain ⟨o, rest, houtputs⟩ :=
      exists_output hne (hends handler (hhandlers ▸ Multiset.mem_cons_self handler others))
    simp only [Stage.weight, Act.weight, hhandlers, Multiset.map_cons, Multiset.sum_cons, outputs_ended, weightOf,
      houtputs, List.map_cons, List.sum_cons, List.map_nil, List.sum_nil]
    omega
  | send o rest ends others hhandlers =>
    simp only [Stage.weight, Act.weight, hhandlers, Multiset.map_cons, Multiset.sum_cons, weightOf, List.map_cons,
      List.sum_cons]
    omega
  | spin hspins => cases hends _ hspins
  | finish _ hopen =>
    simp only [Stage.weight, Act.weight, hopen, Bool.not_false, Bool.not_true, Bool.toNat_true, Bool.toNat_false]
    omega

/-- Of some handlers, all have ended, or one has something to send, or one goes on for ever. -/
theorem all_ended_or (handlers : Multiset (Work O)) :
    (∀ handler ∈ handlers, handler = .ended) ∨ (∃ o rest ends others, handlers = ⟨o :: rest, ends⟩ ::ₘ others) ∨
      ⟨[], false⟩ ∈ handlers := by
  by_cases hall : ∀ handler ∈ handlers, handler = .ended
  · exact Or.inl hall
  · obtain ⟨⟨outputs, ends⟩, hmem, hne⟩ : ∃ handler ∈ handlers, handler ≠ .ended := by simpa using hall
    cases outputs with
    | cons o rest => exact Or.inr (Or.inl ⟨o, rest, ends, Multiset.exists_cons_of_mem hmem⟩)
    | nil =>
      cases ends with
      | true => exact absurd rfl hne
      | false => exact Or.inr (Or.inr hmem)

variable (work limit) in
/-- **A stage with something to do** makes a step of its own or has an output to send. -/
theorem Stage.progress (hopen : s.finished = false) (htodo : closed ∨ s.feed ≠ []) :
    (∃ s', Step work limit closed s .moves s') ∨ ∃ o s', Step work limit closed s (.sends o) s' := by
  rcases all_ended_or s.handlers with hall | ⟨o, rest, ends, others, hhandlers⟩ | hspins
  · refine Or.inl ?_
    cases hheld : s.held with
    | some j =>
      by_cases hslot : s.handlers.card < limit ∨ s.handlers = 0
      · exact ⟨_, Step.spawn s j hheld hslot⟩
      · -- all slots are taken, by handlers that have ended
        obtain ⟨hfull, hsome⟩ := not_or.mp hslot
        obtain ⟨handler, hmem⟩ := Multiset.exists_mem_of_ne_zero hsome
        obtain rfl := hall handler hmem
        obtain ⟨others, hhandlers⟩ := Multiset.exists_cons_of_mem hmem
        exact ⟨_, Step.replace s j others hheld (not_lt.mp hfull) hhandlers⟩
    | none =>
      cases hfeed : s.feed with
      | cons j rest => exact ⟨_, Step.recv s j rest hopen hheld hfeed⟩
      | nil =>
        rcases htodo with hclosed | hne
        · exact ⟨_, Step.finish s hclosed hopen hfeed hheld hall⟩
        · exact absurd hfeed hne
  · exact Or.inr ⟨o, _, Step.send s o rest ends others hhandlers⟩
  · exact Or.inl ⟨s, Step.spin s hspins⟩

end Stages
