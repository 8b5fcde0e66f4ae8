import DasIndexer.Grpc.Cursor
import Mathlib.Data.Set.Insert
import Mathlib.Logic.Relation

/-!
# The stream ingester

One process reads a subscription message by message, starts a write for every update it can convert, and
keeps the cursor; writes end in any order, the watermark is saved from time to time, the stream breaks and
is resumed after the watermark, and the process dies and starts again from what it saved.  `Step` has one
constructor for each of these actions, at the granularity at which they interleave: a message is read, then
its write begins; a gap is logged, then skipped; a watermark is read, then its file is renamed into place.

The feed is trusted for two things, and `Subscription` carries them: it delivers every update from its first
slot on, and nothing new of a slot below one it has declared finalized.

**`watermark_covers`** is the safety theorem: whatever the interleaving, an update at or below the watermark,
in memory or on disk, has been written or lies in a logged gap, and within one process the watermark never
decreases.
-/

namespace DasIndexer.Grpc

open DasIndexer.Grpc.Inner

/-- The updates that match the subscription, each with its slot and whether `convert` accepts it. -/
structure Feed where
  Update : Type
  slot : Update → ℕ
  convertible : Update → Bool
  one_le_slot : ∀ u, 1 ≤ slot u

/-- What a subscription delivers. -/
inductive Message (U : Type) where
  | update (u : U)
  | slotFinalized (slot : ℕ)
  | other

/-- A subscription, with all the messages it would deliver if it were never lost. -/
structure Subscription (F : Feed) where
  /-- The `from_slot` of the request. -/
  fromSlot : Option ℕ
  /-- The first slot it delivers: the requested one, or the tip of the chain. -/
  start : ℕ
  stream : ℕ → Message F.Update
  start_eq : ∀ f, fromSlot = some f → start = f
  complete : ∀ u, start ≤ F.slot u → ∃ k, stream k = .update u
  settled : ∀ i j s u, i < j → stream i = .slotFinalized s → stream j = .update u → F.slot u < s →
    ∃ k, k < i ∧ stream k = .update u

/-- When a slot is declared finalized, every update below it has been delivered. -/
theorem Subscription.delivered {F : Feed} (sub : Subscription F) {i s : ℕ} {u : F.Update}
    (hi : sub.stream i = .slotFinalized s) (hstart : sub.start ≤ F.slot u) (hu : F.slot u < s) :
    ∃ k, k < i ∧ sub.stream k = .update u := by
  obtain ⟨k, hk⟩ := sub.complete u hstart
  rcases Nat.lt_trichotomy k i with hlt | heq | hgt
  · exact ⟨k, hlt, hk⟩
  · subst heq
    rw [hi] at hk
    cases hk
  · exact sub.settled i k s u hgt hi hk hu

/-- Where the read loop of `Ingest::run` is. -/
inductive Phase (F : Feed) where
  /-- at the top of the loop -/
  | idle
  /-- `resume_slot` has been read and the subscription requested -/
  | connecting (fromSlot : Option ℕ)
  /-- `pos` messages have been read; `held` waits in `dispatch` for a permit -/
  | subscribed (sub : Subscription F) (pos : ℕ) (held : Option F.Update)
  /-- the subscription ended out of range -/
  | outOfRange (requested available : ℕ)
  /-- the gap is in the log, the cursor has not moved yet -/
  | gapLogged (requested available : ℕ)

/-- The ingester and what it leaves on disk. -/
structure State (F : Feed) where
  /-- the cursor in memory -/
  inner : Inner := {}
  /-- writes that have begun and not ended -/
  inFlight : List F.Update := []
  phase : Phase F := .idle
  /-- watermarks read by a `save` that has not renamed its file yet -/
  saves : List ℕ := []
  /-- the cursor file -/
  saved : Option ℕ := none
  /-- the gap log -/
  gaps : List (ℕ × ℕ) := []
  /-- updates with a write attempt that reached `Cursor::end` -/
  written : Set F.Update := ∅
  /-- the first slot of the latest subscription made with no `from_slot` -/
  tip : Option ℕ := none

/-- One action of a process. -/
inductive Step {F : Feed} : State F → State F → Prop
  /-- the loop reads `resume_slot` and subscribes -/
  | resume (s : State F) : s.phase = .idle →
      Step s { s with phase := .connecting s.inner.resumeSlot }
  | connectFailed (s : State F) (f : Option ℕ) : s.phase = .connecting f →
      Step s { s with phase := .idle }
  | connected (s : State F) (sub : Subscription F) : s.phase = .connecting sub.fromSlot →
      Step s { s with
        phase := .subscribed sub 0 none
        tip := if sub.fromSlot = none then some sub.start else s.tip }
  /-- a convertible update is read; its write waits for a permit -/
  | readUpdate (s : State F) (sub : Subscription F) (pos : ℕ) (u : F.Update) :
      s.phase = .subscribed sub pos none → sub.stream pos = .update u → F.convertible u = true →
      Step s { s with phase := .subscribed sub (pos + 1) (some u) }
  | readUnconvertible (s : State F) (sub : Subscription F) (pos : ℕ) (u : F.Update) :
      s.phase = .subscribed sub pos none → sub.stream pos = .update u → F.convertible u = false →
      Step s { s with phase := .subscribed sub (pos + 1) none }
  | readFinalized (s : State F) (sub : Subscription F) (pos slot : ℕ) :
      s.phase = .subscribed sub pos none → sub.stream pos = .slotFinalized slot →
      Step s { s with phase := .subscribed sub (pos + 1) none, inner := s.inner.finalized slot }
  | readOther (s : State F) (sub : Subscription F) (pos : ℕ) :
      s.phase = .subscribed sub pos none → sub.stream pos = .other →
      Step s { s with phase := .subscribed sub (pos + 1) none }
  /-- `dispatch` has its permit -/
  | dispatch (s : State F) (sub : Subscription F) (pos : ℕ) (u : F.Update) :
      s.phase = .subscribed sub pos (some u) →
      Step s { s with
        phase := .subscribed sub pos none
        inner := s.inner.beginWrite (F.slot u)
        inFlight := u :: s.inFlight }
  /-- a write ends, whatever its outcome -/
  | writeEnds (s : State F) (u : F.Update) (before after : List F.Update) :
      s.inFlight = before ++ u :: after →
      Step s { s with
        inner := s.inner.endWrite (F.slot u)
        inFlight := before ++ after
        written := insert u s.written }
  | streamLost (s : State F) (sub : Subscription F) (pos : ℕ) (held : Option F.Update) :
      s.phase = .subscribed sub pos held → Step s { s with phase := .idle }
  /-- a subscription that starts at the tip can only be told of a slot that is not above it -/
  | refused (s : State F) (sub : Subscription F) (pos : ℕ) (held : Option F.Update) (available : ℕ) :
      s.phase = .subscribed sub pos held → (sub.fromSlot = none → available ≤ sub.start) →
      Step s { s with phase := .outOfRange (sub.fromSlot.getD available) available }
  /-- `record_gap`: the line is on disk -/
  | logGap (s : State F) (requested available : ℕ) : s.phase = .outOfRange requested available →
      Step s { s with
        phase := .gapLogged requested available
        gaps := s.gaps ++ [(requested, available)] }
  /-- `record_gap`: the cursor moves past the gap -/
  | skipGap (s : State F) (requested available : ℕ) : s.phase = .gapLogged requested available →
      Step s { s with phase := .idle, inner := s.inner.skipGap available }
  | saveReads (s : State F) (w : ℕ) : s.inner.watermark = some w →
      Step s { s with saves := w :: s.saves }
  | saveRenames (s : State F) (w : ℕ) (before after : List ℕ) : s.saves = before ++ w :: after →
      Step s { s with saves := before ++ after, saved := some w }

/-- The process dies, and the next one loads the cursor file. -/
def restart {F : Feed} (s : State F) : State F :=
  { s with inner := load s.saved, inFlight := [], phase := .idle, saves := [] }

/-- The states that processes, crashes and restarts reach, from an empty state directory. -/
inductive Reachable {F : Feed} : State F → Prop
  | init : Reachable {}
  | step {s s' : State F} : Reachable s → Step s s' → Reachable s'
  | crash {s : State F} : Reachable s → Reachable (restart s)

/-! ### The invariant -/

section Invariant

variable {F : Feed}

/-- An update has been written, or lies in a logged gap. -/
def Settled (s : State F) (u : F.Update) : Prop :=
  u ∈ s.written ∨ ∃ g ∈ s.gaps, g.1 ≤ F.slot u ∧ F.slot u < g.2

/-- Every convertible update from the tip up to slot `n`, exclusive, is settled. -/
def CoveredBelow (s : State F) (n : ℕ) : Prop :=
  ∀ c, s.tip = some c → ∀ u, F.convertible u = true → c ≤ F.slot u → F.slot u < n → Settled s u

/-- What holds where the read loop is. -/
def PhaseInv (s : State F) : Phase F → Prop
  | .idle => True
  | .connecting none => s.inner.watermark = none
  | .connecting (some f) => CoveredBelow s f
  | .subscribed sub pos held => CoveredBelow s sub.start ∧
      ∀ i u, i < pos → sub.stream i = .update u → F.convertible u = true →
        u ∈ s.written ∨ u ∈ s.inFlight ∨ held = some u
  | .outOfRange requested _ => CoveredBelow s requested
  | .gapLogged requested available => CoveredBelow s requested ∧ (requested, available) ∈ s.gaps

/-- The invariant of the ingester. -/
structure Inv (s : State F) : Prop where
  tracks : s.inner.Tracks (s.inFlight.map F.slot)
  finalized : ∀ f, s.inner.highestFinalized = some f → ∀ c, s.tip = some c → ∀ u,
    F.convertible u = true → c ≤ F.slot u → F.slot u < f → Settled s u ∨ u ∈ s.inFlight
  watermark : ∀ w, s.inner.watermark = some w → CoveredBelow s (w + 1)
  saves : ∀ w ∈ s.saves, CoveredBelow s (w + 1)
  saved : ∀ w, s.saved = some w → CoveredBelow s (w + 1)
  fresh : s.inner.watermark = none →
    s.inner.highestFinalized = none ∧ s.saved = none ∧ s.saves = []
  phase : PhaseInv s s.phase

/-- What has been settled stays settled. -/
theorem CoveredBelow.mono {s s' : State F} (htip : s'.tip = s.tip) (hwritten : s.written ⊆ s'.written)
    (hgaps : s.gaps ⊆ s'.gaps) {m n : ℕ} (hmn : m ≤ n) (h : CoveredBelow s n) : CoveredBelow s' m := by
  intro c hc u hu hcu hum
  rw [htip] at hc
  rcases h c hc u hu hcu (by omega) with hw | ⟨g, hg, hin⟩
  · exact Or.inl (hwritten hw)
  · exact Or.inr ⟨g, hgaps hg, hin⟩

theorem PhaseInv.mono {s s' : State F} (htip : s'.tip = s.tip) (hwritten : s.written ⊆ s'.written)
    (hgaps : s.gaps ⊆ s'.gaps) (hfresh : s.inner.watermark = none → s'.inner.watermark = none)
    (hinflight : ∀ u ∈ s.inFlight, u ∈ s'.written ∨ u ∈ s'.inFlight) {p : Phase F} (h : PhaseInv s p) :
    PhaseInv s' p := by
  have hcov : ∀ n, CoveredBelow s n → CoveredBelow s' n := fun n hn =>
    hn.mono htip hwritten hgaps (Nat.le_refl n)
  cases p with
  | idle => trivial
  | connecting f =>
    cases f with
    | none => exact hfresh h
    | some f => exact hcov f h
  | subscribed sub pos held =>
    refine ⟨hcov _ h.1, fun i u hi hstream hu => ?_⟩
    rcases h.2 i u hi hstream hu with hw | hfly | hheld
    · exact Or.inl (hwritten hw)
    · exact (hinflight u hfly).imp_right Or.inl
    · exact Or.inr (Or.inr hheld)
  | outOfRange r a => exact hcov r h
  | gapLogged r a => exact ⟨hcov r h.1, hgaps h.2⟩

/-- **`advance` is safe**: what it moves over is finalized and has no write in flight. -/
theorem advance_covered {s : State F} {c : Inner} (htracks : c.Tracks (s.inFlight.map F.slot))
    (hfinalized : ∀ f, c.highestFinalized = some f → ∀ t, s.tip = some t → ∀ u,
      F.convertible u = true → t ≤ F.slot u → F.slot u < f → Settled s u ∨ u ∈ s.inFlight)
    (hwatermark : ∀ w, c.watermark = some w → CoveredBelow s (w + 1)) :
    ∀ w, c.advance.watermark = some w → CoveredBelow s (w + 1) := by
  intro w hw
  rcases advance_watermark hw with hold | ⟨f, hf, hwf, hpending⟩
  · exact hwatermark w hold
  · intro t ht u hu htu huw
    have hpos := F.one_le_slot u
    rcases hfinalized f hf t ht u hu htu (by omega) with hdone | hfly
    · exact hdone
    · have := hpending (F.slot u) (htracks.mem (List.mem_map_of_mem hfly))
      omega

/-! ### One step -/

/-- A step of the read loop that touches nothing else. -/
theorem Inv.withPhase {s : State F} (h : Inv s) {p : Phase F} (hp : PhaseInv s p) :
    Inv { s with phase := p } where
  tracks := h.tracks
  finalized := h.finalized
  watermark := h.watermark
  saves := h.saves
  saved := h.saved
  fresh := h.fresh
  phase := PhaseInv.mono (s := s) rfl (Set.Subset.refl _) (List.Subset.refl _) id (fun _ hu => Or.inr hu) hp

/-- A subscription at the tip is made only when nothing is known, so moving the tip loses nothing. -/
theorem Inv.connected {s : State F} (h : Inv s) {sub : Subscription F}
    (hp : s.phase = .connecting sub.fromSlot) :
    Inv { s with
      phase := .subscribed sub 0 none
      tip := if sub.fromSlot = none then some sub.start else s.tip } := by
  have hphase := h.phase
  rw [hp] at hphase
  cases hfrom : sub.fromSlot with
  | some f =>
    rw [hfrom] at hphase
    have hstart := sub.start_eq f hfrom
    refine h.withPhase ⟨hstart ▸ hphase, fun i u hi => absurd hi (Nat.not_lt_zero i)⟩
  | none =>
    rw [hfrom] at hphase
    have hnone : s.inner.watermark = none := hphase
    obtain ⟨hhf, hsaved, hsaves⟩ := h.fresh hnone
    refine ⟨h.tracks, ?_, ?_, ?_, ?_, h.fresh, ?_, fun i u hi => absurd hi (Nat.not_lt_zero i)⟩
    · intro f hf
      exact absurd (hhf.symm.trans hf) (by simp)
    · intro w hw
      exact absurd (hnone.symm.trans hw) (by simp)
    · intro w hw
      exact absurd (hsaves ▸ hw : w ∈ []) (by simp)
    · intro w hw
      exact absurd (hsaved.symm.trans hw) (by simp)
    · -- below the first slot of the subscription nothing is promised
      intro c hc u _ hcu hu
      have hstart : sub.start = c := Option.some.inj hc
      omega

/-- A message is read: what was delivered before is written, in flight or held, and so is this one. -/
theorem Inv.read {s : State F} (h : Inv s) {sub : Subscription F} {pos : ℕ} {held : Option F.Update}
    (hp : s.phase = .subscribed sub pos none)
    (hheld : ∀ u, sub.stream pos = .update u → F.convertible u = true → held = some u) :
    PhaseInv s (.subscribed sub (pos + 1) held) := by
  have hphase := h.phase
  rw [hp] at hphase
  refine ⟨hphase.1, fun i u hi hstream hu => ?_⟩
  rcases Nat.lt_succ_iff_lt_or_eq.mp hi with hlt | heq
  · rcases hphase.2 i u hlt hstream hu with hw | hfly | hnone
    · exact Or.inl hw
    · exact Or.inr (Or.inl hfly)
    · cases hnone
  · subst heq
    exact Or.inr (Or.inr (hheld u hstream hu))

/-- A finalized slot: everything below it that the subscription owes has begun. -/
theorem Inv.readFinalized {s : State F} (h : Inv s) {sub : Subscription F} {pos slot : ℕ}
    (hp : s.phase = .subscribed sub pos none) (hstream : sub.stream pos = .slotFinalized slot) :
    Inv { s with phase := .subscribed sub (pos + 1) none, inner := s.inner.finalized slot } := by
  have hphase := h.phase
  rw [hp] at hphase
  have hread : PhaseInv s (.subscribed sub (pos + 1) none) := h.read hp fun u hu => by
    rw [hstream] at hu
    cases hu
  have hbelow : ∀ c, s.tip = some c → ∀ u, F.convertible u = true → c ≤ F.slot u →
      F.slot u < slot → Settled s u ∨ u ∈ s.inFlight := by
    intro c hc u hu hcu hus
    rcases Nat.lt_or_ge (F.slot u) sub.start with hlt | hge
    · exact Or.inl (hphase.1 c hc u hu hcu hlt)
    · obtain ⟨k, hk, hku⟩ := sub.delivered hstream hge hus
      rcases hphase.2 k u hk hku hu with hw | hfly | hheld
      · exact Or.inl (Or.inl hw)
      · exact Or.inr hfly
      · cases hheld
  have hfinalized : ∀ f, some (s.inner.highestFinalized.elim slot fun g => max g slot) = some f →
      ∀ c, s.tip = some c → ∀ u, F.convertible u = true → c ≤ F.slot u → F.slot u < f →
        Settled s u ∨ u ∈ s.inFlight := by
    intro f hf c hc u hu hcu huf
    rw [Option.some.injEq] at hf
    cases hold : s.inner.highestFinalized with
    | none =>
      rw [hold] at hf
      rw [← hf] at huf
      exact hbelow c hc u hu hcu huf
    | some g =>
      rw [hold] at hf
      rw [← hf] at huf
      rcases Nat.lt_or_ge (F.slot u) g with hg | hg
      · exact h.finalized g hold c hc u hu hcu hg
      · have hmax : F.slot u < max g slot := huf
        exact hbelow c hc u hu hcu (by omega)
  have htracks : Inner.Tracks { s.inner with
      highestFinalized := some (s.inner.highestFinalized.elim slot fun g => max g slot) }
      (s.inFlight.map F.slot) := h.tracks
  have hsome : (s.inner.finalized slot).watermark ≠ none := advance_isSome rfl
  refine ⟨?_, ?_, advance_covered htracks hfinalized h.watermark, h.saves, h.saved,
    fun hnone => absurd hnone hsome, ?_⟩
  · intro n
    show (s.inner.finalized slot).pending.lookup n = _
    rw [Inner.finalized, advance_pending]
    exact h.tracks n
  · intro f hf
    have hf' : (s.inner.finalized slot).highestFinalized = some f := hf
    rw [Inner.finalized, advance_highestFinalized] at hf'
    exact hfinalized f hf'
  · exact ⟨hread.1, hread.2⟩

/-- A write begins: the update that was held is in flight. -/
theorem Inv.dispatch {s : State F} (h : Inv s) {sub : Subscription F} {pos : ℕ} {u : F.Update}
    (hp : s.phase = .subscribed sub pos (some u)) :
    Inv { s with
      phase := .subscribed sub pos none
      inner := s.inner.beginWrite (F.slot u)
      inFlight := u :: s.inFlight } where
  tracks := beginWrite_tracks h.tracks (F.slot u)
  finalized := fun f hf c hc v hv hcv hvf =>
    (h.finalized f hf c hc v hv hcv hvf).imp_right (List.mem_cons_of_mem u)
  watermark := h.watermark
  saves := h.saves
  saved := h.saved
  fresh := h.fresh
  phase := by
    have hphase := h.phase
    rw [hp] at hphase
    refine ⟨hphase.1, fun i v hi hstream hv => ?_⟩
    rcases hphase.2 i v hi hstream hv with hw | hfly | hheld
    · exact Or.inl hw
    · exact Or.inr (Or.inl (List.mem_cons_of_mem u hfly))
    · rw [Option.some.inj hheld]
      exact Or.inr (Or.inl List.mem_cons_self)

/-- A write ends: its update is settled, and the watermark may move over its slot. -/
theorem Inv.writeEnds {s : State F} (h : Inv s) {u : F.Update} {before after : List F.Update}
    (hfly : s.inFlight = before ++ u :: after) :
    Inv { s with
      inner := s.inner.endWrite (F.slot u)
      inFlight := before ++ after
      written := insert u s.written } := by
  have hsub : s.written ⊆ insert u s.written := Set.subset_insert u s.written
  have hcov : ∀ n, CoveredBelow s n → CoveredBelow { s with
      inner := s.inner.endWrite (F.slot u), inFlight := before ++ after,
      written := insert u s.written } n := by
    intro n hn
    refine CoveredBelow.mono ?_ hsub ?_ (Nat.le_refl n) hn
    · rfl
    · exact List.Subset.refl _
  have hstay : ∀ v ∈ s.inFlight, v ∈ insert u s.written ∨ v ∈ before ++ after := by
    intro v hv
    rw [hfly] at hv
    rcases List.mem_append.mp hv with hb | ha
    · exact Or.inr (List.mem_append_left _ hb)
    · rcases List.mem_cons.mp ha with heq | ha
      · exact Or.inl (heq ▸ Set.mem_insert u s.written)
      · exact Or.inr (List.mem_append_right _ ha)
  have hperm : (s.inFlight.map F.slot).Perm (F.slot u :: (before ++ after).map F.slot) := by
    rw [hfly, ← List.map_cons]
    exact List.perm_middle.map F.slot
  have htracks := endWrite_tracks (h.tracks.perm hperm)
  have hfinalized : ∀ f, s.inner.highestFinalized = some f → ∀ c, s.tip = some c → ∀ v,
      F.convertible v = true → c ≤ F.slot v → F.slot v < f → (v ∈ insert u s.written ∨
        ∃ g ∈ s.gaps, g.1 ≤ F.slot v ∧ F.slot v < g.2) ∨ v ∈ before ++ after := by
    intro f hf c hc v hv hcv hvf
    rcases h.finalized f hf c hc v hv hcv hvf with hdone | hv
    · exact Or.inl (hdone.imp_left fun hw => hsub hw)
    · exact (hstay v hv).imp_left Or.inl
  have hreleased : Inner.Tracks { s.inner with pending := release s.inner.pending (F.slot u) }
      ((before ++ after).map F.slot) := by
    intro n
    rw [← htracks n, endWrite, advance_pending]
  refine ⟨htracks, ?_, ?_, fun w hw => hcov _ (h.saves w hw), fun w hw => hcov _ (h.saved w hw), ?_, ?_⟩
  · intro f hf
    have hf' : (s.inner.endWrite (F.slot u)).highestFinalized = some f := hf
    rw [endWrite, advance_highestFinalized] at hf'
    exact hfinalized f hf'
  · exact advance_covered hreleased hfinalized fun w hw => hcov _ (h.watermark w hw)
  · intro hnone
    have hold : s.inner.watermark = none := by
      by_contra hne
      obtain ⟨w, hw⟩ := Option.ne_none_iff_exists'.mp hne
      obtain ⟨w', hw', _⟩ := endWrite_notBelow s.inner (F.slot u) w hw
      exact absurd (hw'.symm.trans hnone) (by simp)
    obtain ⟨hhf, hrest⟩ := h.fresh hold
    refine ⟨?_, hrest⟩
    show (s.inner.endWrite (F.slot u)).highestFinalized = none
    rw [endWrite, advance_highestFinalized]
    exact hhf
  · refine PhaseInv.mono ?_ hsub ?_ (fun hnone => ?_) hstay h.phase
    · rfl
    · exact List.Subset.refl _
    obtain ⟨hhf, _⟩ := h.fresh hnone
    show (s.inner.endWrite (F.slot u)).watermark = none
    rw [endWrite, advance]
    simp only [hhf, hnone]

/-- The end of a subscription out of range: below the requested slot everything is settled. -/
theorem Inv.refused {s : State F} (h : Inv s) {sub : Subscription F} {pos : ℕ}
    {held : Option F.Update} {available : ℕ} (hp : s.phase = .subscribed sub pos held)
    (htip : sub.fromSlot = none → available ≤ sub.start) :
    CoveredBelow s (sub.fromSlot.getD available) := by
  have hphase := h.phase
  rw [hp] at hphase
  refine hphase.1.mono rfl (Set.Subset.refl _) (List.Subset.refl _) ?_
  cases hfrom : sub.fromSlot with
  | none => exact htip hfrom
  | some f => exact Nat.le_of_eq (sub.start_eq f hfrom).symm

theorem Inv.logGap {s : State F} (h : Inv s) {requested available : ℕ}
    (hp : s.phase = .outOfRange requested available) :
    Inv { s with
      phase := .gapLogged requested available
      gaps := s.gaps ++ [(requested, available)] } := by
  have hphase := h.phase
  rw [hp] at hphase
  have hsub : s.gaps ⊆ s.gaps ++ [(requested, available)] := List.subset_append_left _ _
  have hcov : ∀ n, CoveredBelow s n → CoveredBelow { s with
      phase := .gapLogged requested available, gaps := s.gaps ++ [(requested, available)] } n := by
    intro n hn
    refine CoveredBelow.mono ?_ ?_ hsub (Nat.le_refl n) hn
    · rfl
    · exact Set.Subset.refl _
  refine ⟨h.tracks, ?_, fun w hw => hcov _ (h.watermark w hw), fun w hw => hcov _ (h.saves w hw),
    fun w hw => hcov _ (h.saved w hw), h.fresh, hcov _ hphase, ?_⟩
  · intro f hf c hc u hu hcu huf
    refine (h.finalized f hf c hc u hu hcu huf).imp_left fun hdone => ?_
    exact hdone.imp_right fun ⟨g, hg, hin⟩ => ⟨g, hsub hg, hin⟩
  · exact List.mem_append_right _ (List.mem_singleton_self _)

/-- The cursor moves over a gap that is in the log. -/
theorem Inv.skipGap {s : State F} (h : Inv s) {requested available : ℕ}
    (hp : s.phase = .gapLogged requested available) :
    Inv { s with phase := .idle, inner := s.inner.skipGap available } := by
  have hphase := h.phase
  rw [hp] at hphase
  obtain ⟨hbelow, hgap⟩ := hphase
  refine ⟨h.tracks, h.finalized, ?_, h.saves, h.saved, fun hnone => absurd hnone (raise_ne_none _ _),
    trivial⟩
  intro w hw
  rcases raise_eq_some hw with hold | hnew
  · exact h.watermark w hold
  · intro c hc u hu hcu huw
    have hpos := F.one_le_slot u
    rcases Nat.lt_or_ge (F.slot u) requested with hlt | hge
    · exact hbelow c hc u hu hcu hlt
    · exact Or.inr ⟨_, hgap, hge, show F.slot u < available from by omega⟩

theorem Inv.saveReads {s : State F} (h : Inv s) {w : ℕ} (hw : s.inner.watermark = some w) :
    Inv { s with saves := w :: s.saves } where
  tracks := h.tracks
  finalized := h.finalized
  watermark := h.watermark
  saves := by
    intro x hx
    rcases List.mem_cons.mp hx with heq | hx
    · exact heq ▸ h.watermark w hw
    · exact h.saves x hx
  saved := h.saved
  fresh := fun hnone => absurd (hw.symm.trans hnone) (by simp)
  phase := by
    refine PhaseInv.mono ?_ (Set.Subset.refl _) ?_ id (fun _ hu => Or.inr hu) h.phase
    · rfl
    · exact List.Subset.refl _

theorem Inv.saveRenames {s : State F} (h : Inv s) {w : ℕ} {before after : List ℕ}
    (hw : s.saves = before ++ w :: after) :
    Inv { s with saves := before ++ after, saved := some w } where
  tracks := h.tracks
  finalized := h.finalized
  watermark := h.watermark
  saves := by
    intro x hx
    refine h.saves x ?_
    rw [hw]
    rcases List.mem_append.mp hx with hb | ha
    · exact List.mem_append_left _ hb
    · exact List.mem_append_right _ (List.mem_cons_of_mem _ ha)
  saved := by
    intro x hx
    rw [← Option.some.inj hx]
    refine h.saves w ?_
    rw [hw]
    exact List.mem_append_right _ List.mem_cons_self
  fresh := by
    intro hnone
    obtain ⟨_, _, hsaves⟩ := h.fresh hnone
    rw [hw] at hsaves
    exact absurd hsaves (by simp)
  phase := by
    refine PhaseInv.mono ?_ (Set.Subset.refl _) ?_ id (fun _ hu => Or.inr hu) h.phase
    · rfl
    · exact List.Subset.refl _

/-- After a crash the watermark is the saved one, and nothing else is left. -/
theorem Inv.restart {s : State F} (h : Inv s) : Inv (restart s) where
  tracks := fun n => rfl
  finalized := fun f hf => absurd hf (by simp [Grpc.restart, load])
  watermark := h.saved
  saves := fun w hw => absurd hw (by simp [Grpc.restart])
  saved := h.saved
  fresh := fun hnone => ⟨rfl, hnone, rfl⟩
  phase := trivial

/-- **Every step keeps the invariant.** -/
theorem Inv.step {s s' : State F} (h : Inv s) (hstep : Step s s') : Inv s' := by
  cases hstep with
  | resume hp =>
    apply h.withPhase
    cases hw : s.inner.watermark with
    | none =>
      rw [resumeSlot, hw]
      exact hw
    | some w =>
      rw [resumeSlot, hw]
      exact h.watermark w hw
  | connectFailed f hp => exact h.withPhase trivial
  | connected sub hp => exact h.connected hp
  | readUpdate sub pos u hp hstream hu =>
    refine h.withPhase (h.read hp fun v hv _ => ?_)
    rw [hstream] at hv
    cases hv
    rfl
  | readUnconvertible sub pos u hp hstream hu =>
    refine h.withPhase (h.read hp fun v hv hconv => ?_)
    rw [hstream] at hv
    cases hv
    rw [hu] at hconv
    cases hconv
  | readFinalized sub pos slot hp hstream => exact h.readFinalized hp hstream
  | readOther sub pos hp hstream =>
    refine h.withPhase (h.read hp fun v hv _ => ?_)
    rw [hstream] at hv
    cases hv
  | dispatch sub pos u hp => exact h.dispatch hp
  | writeEnds u before after hfly => exact h.writeEnds hfly
  | streamLost sub pos held hp => exact h.withPhase trivial
  | refused sub pos held available hp htip => exact h.withPhase (h.refused hp htip)
  | logGap requested available hp => exact h.logGap hp
  | skipGap requested available hp => exact h.skipGap hp
  | saveReads w hw => exact h.saveReads hw
  | saveRenames w before after hw => exact h.saveRenames hw

theorem Inv.init : Inv ({} : State F) where
  tracks := fun n => rfl
  finalized := fun f hf => absurd hf (by simp)
  watermark := fun w hw => absurd hw (by simp)
  saves := fun w hw => absurd hw (by simp)
  saved := fun w hw => absurd hw (by simp)
  fresh := fun _ => ⟨rfl, rfl, rfl⟩
  phase := trivial

/-- The invariant holds in every state that is reached. -/
theorem Reachable.inv {s : State F} (h : Reachable s) : Inv s := by
  induction h with
  | init => exact Inv.init
  | step _ hstep ih => exact ih.step hstep
  | crash _ ih => exact ih.restart

/-! ### The watermark within one process -/

/-- A step does not lower the watermark. -/
theorem Step.watermark_notBelow {s s' : State F} (hstep : Step s s') :
    NotBelow s.inner.watermark s'.inner.watermark := by
  cases hstep with
  | readFinalized sub pos slot hp hstream => exact finalized_notBelow _ _
  | writeEnds u before after hfly => exact endWrite_notBelow _ _
  | skipGap requested available hp => exact raise_notBelow _ _
  | _ => exact NotBelow.refl _

/-- Neither does a run of steps. -/
theorem run_watermark_notBelow {s s' : State F} (h : Relation.ReflTransGen Step s s') :
    NotBelow s.inner.watermark s'.inner.watermark := by
  induction h with
  | refl => exact NotBelow.refl _
  | tail _ hstep ih => exact ih.trans hstep.watermark_notBelow

/-- **The cursor never skips an update silently.**  In every reachable state a convertible update at or below
the watermark, in memory or saved, and not older than the latest subscription made at the tip, has had a
write attempt that ended, or lies in a logged gap; and from there on the watermark of the process never
decreases. -/
theorem watermark_covers {s : State F} (h : Reachable s) :
    (∀ w, s.inner.watermark = some w ∨ s.saved = some w → ∀ c, s.tip = some c → ∀ u,
      F.convertible u = true → c ≤ F.slot u → F.slot u ≤ w →
      u ∈ s.written ∨ ∃ g ∈ s.gaps, g.1 ≤ F.slot u ∧ F.slot u < g.2) ∧
    ∀ s', Relation.ReflTransGen Step s s' → NotBelow s.inner.watermark s'.inner.watermark := by
  refine ⟨fun w hw c hc u hu hcu huw => ?_, fun s' hrun => run_watermark_notBelow hrun⟩
  have hcovered : CoveredBelow s (w + 1) := by
    rcases hw with hw | hw
    · exact h.inv.watermark w hw
    · exact h.inv.saved w hw
  exact hcovered c hc u hu hcu (by omega)

end Invariant

/-- One update, of slot 5. -/
def oneUpdate : Feed where
  Update := Unit
  slot _ := 5
  convertible _ := true
  one_le_slot _ := by decide

/-- A subscription at the tip that delivers it and then declares slot 6 finalized. -/
def tipSubscription : Subscription oneUpdate where
  fromSlot := none
  start := 5
  stream k := if k = 0 then .update () else .slotFinalized 6
  start_eq f hf := by cases hf
  complete u _ := ⟨0, rfl⟩
  settled i j s u hij _ hj _ := by
    rw [if_neg (by omega)] at hj
    cases hj

/-- The update is written, its slot finalized, the cursor saved, and the process started again. -/
theorem restarted_watermark_covers :
    ∃ s : State oneUpdate, Reachable s ∧ s.inner.watermark = some 5 ∧ s.tip = some 5 ∧
      (() ∈ s.written ∨ ∃ g ∈ s.gaps, g.1 ≤ 5 ∧ 5 < g.2) := by
  have hread := Reachable.init |>.step (Step.resume _ rfl)
    |>.step (Step.connected _ tipSubscription rfl)
    |>.step (Step.readUpdate _ tipSubscription 0 () rfl rfl rfl)
  have hwritten := hread |>.step (Step.dispatch _ tipSubscription 1 () rfl)
    |>.step (Step.writeEnds _ () [] [] rfl)
    |>.step (Step.readFinalized _ tipSubscription 1 6 rfl rfl)
  have hsaved := hwritten |>.step (Step.saveReads _ 5 rfl) |>.step (Step.saveRenames _ 5 [] [] rfl)
  have hcovered := watermark_covers hsaved.crash
  exact ⟨_, hsaved.crash, rfl, rfl, hcovered.1 5 (Or.inl rfl) 5 rfl () rfl (Nat.le_refl 5) (Nat.le_refl 5)⟩

end DasIndexer.Grpc
