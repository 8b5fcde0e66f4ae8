import DasIndexer.Lib.ChangedOnly
import DasIndexer.Lib.LastWriter
import Mathlib.Data.List.Perm.Basic
import Mathlib.Data.List.Perm.Subperm
import Mathlib.Data.List.Induction
import Mathlib.Data.List.Nodup

/-!
# Cells that follow a leader

A leader's cell and a follower's cell are both rewritten only on a change.  A write of the follower
either carries a value of its own or says that the follower follows the leader, and then it copies the
value that the leader has at that moment under its own stamp.  A write of the leader that is a change is
passed on to the follower if the newest of its writes says that it follows, and if the stamp in its cell
is older.  A write of the leader may also be dropped after it has been passed on.

Copying under the wrong stamp, passing on only changes, and looking only at the stored stamp make the
outcome depend on the order.  This module says where the cells of a run come from (`exists_write`), and
makes orders in which the two take turns (`Reaches.rounds`).
-/

namespace Followers

open ChangedOnly
open LastWriter (newer newer_true_some foldl_newer_spec foldl_newer_eq foldl_newer_of_lt foldl_newer_isSome)

variable {V : Type}

/-- The leader's cell, the follower's cell, and whether the follower follows. -/
structure State (V : Type) where
  leader : Option (ℤ × V) := none
  cell : Option (ℤ × V) := none
  follows : Option (ℤ × Bool) := none

/-- A write of the leader, one that is only passed on, or one of the follower: a value of its own, or
`none` to follow. -/
inductive Op (V : Type) where
  | lead (s : ℤ) (v : V)
  | pass (s : ℤ) (v : V)
  | set (s : ℤ) (v : Option V)
deriving DecidableEq

def Op.stamp : Op V → ℤ
  | lead s _ => s
  | pass s _ => s
  | set s _ => s

/-- What a write of the leader carries, stored or not. -/
def Op.sent : Op V → Option V
  | lead _ v => some v
  | pass _ v => some v
  | set _ _ => none

/-- The newest write of the follower says that it follows. -/
def State.following (σ : State V) : Bool := (σ.follows.map Prod.snd).getD false

/-- The leader's value, if it is known. -/
def State.leaderValue (unknown : V) (σ : State V) : V := (σ.leader.map Prod.snd).getD unknown

variable [DecidableEq V] (unknown : V)

/-- A write with which the leader leads with `a`. -/
def Op.leadsWith (a : V) : Op V → Bool
  | lead _ v => decide (v = a)
  | _ => false

/-- The follower's cell after a write of the leader. -/
def State.passOn (σ : State V) (w : ℤ × V) : Option (ℤ × V) :=
  if takes σ.leader w = true ∧ σ.following = true then σ.cell.bind fun c => change (some c) w else σ.cell

/-- One write. -/
def step (σ : State V) : Op V → State V
  | .lead s v => { σ with leader := change σ.leader (s, v), cell := σ.passOn (s, v) }
  | .pass s v => { σ with cell := σ.passOn (s, v) }
  | .set s v =>
    { σ with
      cell := change σ.cell (s, v.getD (σ.leaderValue unknown))
      follows := newer true σ.follows (s, v.isNone) }

def run (ops : List (Op V)) (σ : State V) : State V := ops.foldl (step unknown) σ

theorem run_append (ops ops' : List (Op V)) (σ : State V) :
    run unknown (ops ++ ops') σ = run unknown ops' (run unknown ops σ) := List.foldl_append

theorem run_cons (o : Op V) (ops : List (Op V)) (σ : State V) :
    run unknown (o :: ops) σ = run unknown ops (step unknown σ o) := rfl

/-! ### One write -/

theorem takes_of_newer {t s : ℤ} {v w : V} (hlt : t < s) (hne : v ≠ w) :
    takes (some (t, v)) (s, w) = true := decide_eq_true ⟨hlt, hne⟩

theorem not_takes_same (t s : ℤ) (v : V) : takes (some (t, v)) (s, v) = false :=
  decide_eq_false fun h => h.2 rfl

theorem not_takes_older {t s : ℤ} (v w : V) (hle : s ≤ t) : takes (some (t, v)) (s, w) = false :=
  decide_eq_false fun h => absurd h.1 (not_lt.mpr hle)

/-- A write is passed on as a change of a leader that is followed, or the cell stays as it is. -/
theorem passOn_cases (σ : State V) (w : ℤ × V) :
    σ.passOn w = σ.cell ∨ (σ.passOn w = some w ∧ σ.following = true ∧ takes σ.leader w = true ∧
      ∃ old, σ.cell = some old ∧ old.1 < w.1) := by
  unfold State.passOn
  split
  · rename_i hpass
    obtain ⟨htakes, hfollow⟩ := hpass
    cases hcell : σ.cell with
    | none => exact Or.inl rfl
    | some old =>
      rw [Option.bind_some]
      by_cases hnew : old.1 < w.1 ∧ old.2 ≠ w.2
      · exact Or.inr ⟨if_pos hnew, hfollow, htakes, old, rfl, hnew.1⟩
      · exact Or.inl (if_neg hnew)
  · exact Or.inl rfl

theorem passOn_of_idle {σ : State V} (h : σ.following = false) (w : ℤ × V) : σ.passOn w = σ.cell :=
  if_neg fun hpass => by simp [h] at hpass

theorem passOn_of_not_takes {σ : State V} {w : ℤ × V} (h : takes σ.leader w = false) : σ.passOn w = σ.cell :=
  if_neg fun hpass => by simp [h] at hpass

/-- A cell with the value already keeps its stamp. -/
theorem passOn_of_same {σ : State V} {t s : ℤ} {v : V} (h : σ.cell = some (t, v)) :
    σ.passOn (s, v) = some (t, v) := by
  unfold State.passOn
  rw [h]
  split
  · exact change_of_same rfl
  · rfl

theorem passOn_of_newer {σ : State V} {old w : ℤ × V} (hfollow : σ.following = true)
    (htakes : takes σ.leader w = true) (hcell : σ.cell = some old) (hlt : old.1 < w.1) :
    (σ.passOn w).map Prod.snd = some w.2 := by
  rw [State.passOn, if_pos ⟨htakes, hfollow⟩, hcell, Option.bind_some]
  exact change_snd_of_newer fun o ho => Option.some.inj ho ▸ hlt

/-- What a write of the leader does to the follower. -/
theorem step_of_sent {σ : State V} {o : Op V} {v : V} (ho : o.sent = some v) :
    (step unknown σ o).cell = σ.passOn (o.stamp, v) ∧ (step unknown σ o).follows = σ.follows := by
  cases o with
  | lead s v' =>
    obtain rfl := Option.some.inj ho
    exact ⟨rfl, rfl⟩
  | pass s v' =>
    obtain rfl := Option.some.inj ho
    exact ⟨rfl, rfl⟩
  | set s x => cases ho

/-- A write that the leader does not take changes nothing. -/
theorem step_of_not_takes {σ : State V} {o : Op V} {v : V} (ho : o.sent = some v)
    (h : takes σ.leader (o.stamp, v) = false) : step unknown σ o = σ := by
  have hpass := passOn_of_not_takes h
  cases o with
  | lead s v' =>
    obtain rfl := Option.some.inj ho
    have hkeep : change σ.leader (s, v') = σ.leader := by
      rw [change_eq_ite]
      exact if_neg (by simpa [Op.stamp] using h)
    show State.mk (change σ.leader (s, v')) (σ.passOn (s, v')) σ.follows = σ
    rw [hkeep, show σ.passOn (s, v') = σ.cell from hpass]
  | pass s v' =>
    obtain rfl := Option.some.inj ho
    show State.mk σ.leader (σ.passOn (s, v')) σ.follows = σ
    rw [show σ.passOn (s, v') = σ.cell from hpass]
  | set s x => cases ho

/-! ### The writes of each -/

omit [DecidableEq V] in
/-- What the leader stores. -/
def leads (ops : List (Op V)) : List (ℤ × V) :=
  ops.filterMap fun o =>
    match o with
    | .lead s v => some (s, v)
    | _ => none

omit [DecidableEq V] in
/-- The writes of the follower. -/
def sets (ops : List (Op V)) : List (ℤ × Option V) :=
  ops.filterMap fun o =>
    match o with
    | .set s v => some (s, v)
    | _ => none

omit [DecidableEq V] in
/-- Writes of the follower, as operations. -/
def own (ws : List (ℤ × Option V)) : List (Op V) := ws.map fun w => .set w.1 w.2

/-- The leader writes `v` at stamp `t`, whether it is stored or not. -/
def Sent (ops : List (Op V)) (t : ℤ) (v : V) : Prop := Op.lead t v ∈ ops ∨ Op.pass t v ∈ ops

omit [DecidableEq V] in
theorem mem_leads {ops : List (Op V)} {w : ℤ × V} : w ∈ leads ops ↔ Op.lead w.1 w.2 ∈ ops := by
  simp only [leads, List.mem_filterMap]
  constructor
  · intro ⟨o, ho, hw⟩
    cases o with
    | lead s v =>
      obtain rfl := Option.some.inj hw
      exact ho
    | pass s v => cases hw
    | set s v => cases hw
  · intro h
    exact ⟨_, h, rfl⟩

omit [DecidableEq V] in
theorem mem_sets {ops : List (Op V)} {w : ℤ × Option V} : w ∈ sets ops ↔ Op.set w.1 w.2 ∈ ops := by
  simp only [sets, List.mem_filterMap]
  constructor
  · intro ⟨o, ho, hw⟩
    cases o with
    | lead s v => cases hw
    | pass s v => cases hw
    | set s v =>
      obtain rfl := Option.some.inj hw
      exact ho
  · intro h
    exact ⟨_, h, rfl⟩

omit [DecidableEq V] in
theorem mem_own {ws : List (ℤ × Option V)} {s : ℤ} {x : Option V} : Op.set s x ∈ own ws ↔ (s, x) ∈ ws := by
  simp [own]

omit [DecidableEq V] in
theorem sent_iff {ops : List (Op V)} {t : ℤ} {v : V} : Sent ops t v ↔ ∃ o ∈ ops, o.stamp = t ∧ o.sent = some v := by
  constructor
  · rintro (h | h)
    · exact ⟨_, h, rfl, rfl⟩
    · exact ⟨_, h, rfl, rfl⟩
  · rintro ⟨o, ho, rfl, hv⟩
    cases o with
    | lead s w =>
      obtain rfl := Option.some.inj hv
      exact Or.inl ho
    | pass s w =>
      obtain rfl := Option.some.inj hv
      exact Or.inr ho
    | set s x => cases hv

omit [DecidableEq V] in
theorem Sent.mono {ops ops' : List (Op V)} {t : ℤ} {v : V} (h : Sent ops t v) (hsub : ops ⊆ ops') :
    Sent ops' t v := h.imp (fun hl => hsub hl) fun hp => hsub hp

/-! ### The cells of a run -/

theorem run_leader (ops : List (Op V)) (σ : State V) :
    (run unknown ops σ).leader = (leads ops).foldl change σ.leader := by
  induction ops generalizing σ with
  | nil => rfl
  | cons o ops ih =>
    rw [run_cons, ih]
    cases o with
    | lead s v => rfl
    | pass s v => rfl
    | set s v => rfl

theorem run_follows (ops : List (Op V)) (σ : State V) :
    (run unknown ops σ).follows
      = ((sets ops).map fun w => (w.1, w.2.isNone)).foldl (newer true) σ.follows := by
  induction ops generalizing σ with
  | nil => rfl
  | cons o ops ih =>
    rw [run_cons, ih]
    cases o with
    | lead s v => rfl
    | pass s v => rfl
    | set s v => rfl

/-- Writes of the follower copy the leader's value and leave the leader alone. -/
theorem run_own (ws : List (ℤ × Option V)) (σ : State V) :
    (run unknown (own ws) σ).leader = σ.leader
      ∧ (run unknown (own ws) σ).cell
        = (ws.map fun w => (w.1, w.2.getD (σ.leaderValue unknown))).foldl change σ.cell := by
  induction ws generalizing σ with
  | nil => exact ⟨rfl, rfl⟩
  | cons w ws ih => exact ih (step unknown σ (.set w.1 w.2))

/-- Where nothing follows, the leader does not touch the follower. -/
theorem run_of_idle {ops : List (Op V)} (hops : ∀ o ∈ ops, o.sent ≠ none) {σ : State V}
    (h : σ.following = false) :
    (run unknown ops σ).cell = σ.cell ∧ (run unknown ops σ).follows = σ.follows := by
  induction ops generalizing σ with
  | nil => exact ⟨rfl, rfl⟩
  | cons o ops ih =>
    obtain ⟨v, hv⟩ := Option.ne_none_iff_exists'.mp (hops o List.mem_cons_self)
    obtain ⟨hcell, hfollows⟩ := @step_of_sent V _ unknown σ o v hv
    have hidle : (step unknown σ o).following = false := by rwa [State.following, hfollows]
    obtain ⟨hcell', hfollows'⟩ := ih (fun o' ho' => hops o' (List.mem_cons_of_mem _ ho')) hidle
    exact ⟨hcell'.trans (hcell.trans (passOn_of_idle h _)), hfollows'.trans hfollows⟩

/-- Writes of the leader with other values never bring `a` to the follower. -/
theorem run_ne {a : V} {ops : List (Op V)} (hops : ∀ o ∈ ops, o.sent ≠ none ∧ o.sent ≠ some a) {σ : State V}
    (hcell : σ.cell.map Prod.snd ≠ some a) : (run unknown ops σ).cell.map Prod.snd ≠ some a := by
  induction ops generalizing σ with
  | nil => exact hcell
  | cons o ops ih =>
    obtain ⟨hsent, hne⟩ := hops o List.mem_cons_self
    obtain ⟨v, hv⟩ := Option.ne_none_iff_exists'.mp hsent
    refine ih (fun o' ho' => hops o' (List.mem_cons_of_mem _ ho')) ?_
    rw [(step_of_sent unknown hv).1]
    rcases passOn_cases σ (o.stamp, v) with heq | ⟨heq, -⟩
    · rwa [heq]
    · rw [heq]
      exact fun h => hne (hv.trans h)

/-- Writes of the leader that confirm its value change nothing. -/
theorem run_same {a : V} {s : ℤ} {ops : List (Op V)} (hops : ∀ o ∈ ops, o.sent = some a) {σ : State V}
    (hleader : σ.leader = some (s, a)) : run unknown ops σ = σ := by
  induction ops with
  | nil => rfl
  | cons o ops ih =>
    have hkeep : takes σ.leader (o.stamp, a) = false := by
      rw [hleader]
      exact not_takes_same s o.stamp a
    rw [run_cons, step_of_not_takes unknown (hops o List.mem_cons_self) hkeep]
    exact ih fun o' ho' => hops o' (List.mem_cons_of_mem _ ho')

/-- The leader leads with `a`, and confirms it. -/
theorem run_first_lead {a : V} {s : ℤ} {ops : List (Op V)} (hops : ∀ o ∈ ops, o.sent = some a) :
    run unknown (.lead s a :: ops) {} = ⟨some (s, a), none, none⟩ := by
  rw [run_cons, run_same unknown hops (show _ = some (s, a) from rfl)]
  rfl

/-- While the leader keeps its value, the follower's cell sees only its own writes. -/
theorem run_of_settled {a : V} {s : ℤ} {ops : List (Op V)} (hops : ∀ t v, Sent ops t v → v ≠ a → t ≤ s)
    {σ : State V} (hleader : σ.leader = some (s, a)) :
    (run unknown ops σ).cell = ((sets ops).map fun w => (w.1, w.2.getD a)).foldl change σ.cell := by
  induction ops generalizing σ with
  | nil => rfl
  | cons o ops ih =>
    have hrest : ∀ t v, Sent ops t v → v ≠ a → t ≤ s := fun t v h =>
      hops t v (h.mono (List.subset_cons_self _ _))
    have hkept : ∀ v, o.sent = some v → step unknown σ o = σ := by
      intro v hv
      refine step_of_not_takes unknown hv ?_
      rw [hleader]
      by_cases hva : v = a
      · rw [hva]
        exact not_takes_same s o.stamp a
      · exact not_takes_older a v (hops o.stamp v (sent_iff.mpr ⟨o, List.mem_cons_self, rfl, hv⟩) hva)
    rw [run_cons]
    cases o with
    | lead t v =>
      rw [hkept v rfl]
      exact ih hrest hleader
    | pass t v =>
      rw [hkept v rfl]
      exact ih hrest hleader
    | set t x =>
      rw [ih hrest (show (step unknown σ (.set t x)).leader = some (s, a) from hleader)]
      have hvalue : σ.leaderValue unknown = a := by
        rw [State.leaderValue, hleader]
        rfl
      show (((sets ops).map fun w => (w.1, w.2.getD a)).foldl change
        (change σ.cell (t, x.getD (σ.leaderValue unknown)))) = _
      rw [hvalue]
      rfl

/-- What is left of the leader's writes then does not touch the follower. -/
theorem run_of_settled_sent {a : V} {s : ℤ} {ops : List (Op V)} (hsent : ∀ o ∈ ops, o.sent ≠ none)
    (hops : ∀ t v, Sent ops t v → v ≠ a → t ≤ s) {σ : State V} (hleader : σ.leader = some (s, a)) :
    (run unknown ops σ).cell = σ.cell := by
  have hnone : sets ops = [] := List.eq_nil_iff_forall_not_mem.mpr fun w hw => hsent _ (mem_sets.mp hw) rfl
  rw [run_of_settled unknown hops hleader, hnone]
  rfl

/-! ### Where a cell comes from -/

/-- A cell is not taken back. -/
theorem le_stamp_change {o : Option (ℤ × V)} {old w : ℤ × V} (h : o = some old) :
    ∃ new, change o w = some new ∧ old.1 ≤ new.1 := by
  subst h
  by_cases hnew : old.1 < w.1 ∧ old.2 ≠ w.2
  · exact ⟨w, if_pos hnew, le_of_lt hnew.1⟩
  · exact ⟨old, if_neg hnew, le_rfl⟩

theorem le_stamp_foldl (ws : List (ℤ × V)) {o : Option (ℤ × V)} {old : ℤ × V} (h : o = some old) :
    ∃ new, ws.foldl change o = some new ∧ old.1 ≤ new.1 := by
  induction ws generalizing o old with
  | nil => exact ⟨old, h, le_rfl⟩
  | cons w ws ih =>
    obtain ⟨new, hnew, hle⟩ := le_stamp_change (w := w) h
    obtain ⟨last, hlast, hle'⟩ := ih hnew
    exact ⟨last, hlast, le_trans hle hle'⟩

theorem le_stamp_step {σ : State V} {old : ℤ × V} (h : σ.cell = some old) (o : Op V) :
    ∃ new, (step unknown σ o).cell = some new ∧ old.1 ≤ new.1 := by
  cases hv : o.sent with
  | some v =>
    rw [(step_of_sent unknown hv).1]
    rcases passOn_cases σ (o.stamp, v) with heq | ⟨heq, -, -, old', hold', hlt⟩
    · exact ⟨old, heq.trans h, le_rfl⟩
    · obtain rfl := Option.some.inj (h.symm.trans hold')
      exact ⟨_, heq, le_of_lt hlt⟩
  | none =>
    cases o with
    | lead s v => cases hv
    | pass s v => cases hv
    | set s x => exact le_stamp_change h

theorem le_stamp_cell (ops : List (Op V)) {σ : State V} {old : ℤ × V} (h : σ.cell = some old) :
    ∃ new, (run unknown ops σ).cell = some new ∧ old.1 ≤ new.1 := by
  induction ops generalizing σ old with
  | nil => exact ⟨old, h, le_rfl⟩
  | cons o ops ih =>
    obtain ⟨new, hnew, hle⟩ := le_stamp_step unknown h o
    obtain ⟨last, hlast, hle'⟩ := ih hnew
    exact ⟨last, hlast, le_trans hle hle'⟩

/-- A follower that has written has a cell. -/
theorem cell_isSome {ops : List (Op V)} {s : ℤ} {x : Option V} (h : Op.set s x ∈ ops) :
    ∃ c, (run unknown ops {}).cell = some c := by
  obtain ⟨pre, post, rfl⟩ := List.append_of_mem h
  rw [run_append, run_cons]
  have hwritten : ∃ c, (step unknown (run unknown pre {}) (.set s x)).cell = some c := by
    show ∃ c, change (run unknown pre {}).cell _ = some c
    cases hcell : (run unknown pre {}).cell with
    | none => exact ⟨_, rfl⟩
    | some old =>
      obtain ⟨new, hnew, -⟩ := le_stamp_change (w := (s, x.getD _)) hcell
      rw [hcell] at hnew
      exact ⟨new, hnew⟩
  obtain ⟨c, hc⟩ := hwritten
  obtain ⟨last, hlast, -⟩ := le_stamp_cell unknown post hc
  exact ⟨last, hlast⟩

theorem step_wrote {σ : State V} {o : Op V} {t : ℤ} {x : V} (hne : σ.cell ≠ some (t, x))
    (h : (step unknown σ o).cell = some (t, x)) :
    (∃ y, o = .set t y ∧ x = y.getD (σ.leaderValue unknown)) ∨
      (o.stamp = t ∧ o.sent = some x ∧ σ.following = true ∧ takes σ.leader (t, x) = true ∧
        ∃ old, σ.cell = some old ∧ old.1 < t) := by
  cases hv : o.sent with
  | some v =>
    right
    rw [(step_of_sent unknown hv).1] at h
    rcases passOn_cases σ (o.stamp, v) with heq | ⟨heq, hfollow, htakes, hold⟩
    · exact absurd (heq.symm.trans h) hne
    · obtain ⟨rfl, rfl⟩ := Prod.mk.inj (Option.some.inj (heq.symm.trans h))
      exact ⟨rfl, rfl, hfollow, htakes, hold⟩
  | none =>
    cases o with
    | lead s v => cases hv
    | pass s v => cases hv
    | set s y =>
      rcases change_cases σ.cell (s, y.getD (σ.leaderValue unknown)) with heq | heq
      · obtain ⟨rfl, rfl⟩ := Prod.mk.inj (Option.some.inj (heq.symm.trans h))
        exact Or.inl ⟨y, rfl, rfl⟩
      · exact absurd (heq.symm.trans h) hne

/-- What a cell holds at the end of a run was written by one of its operations. -/
theorem exists_write {ops : List (Op V)} {t : ℤ} {x : V} (h : (run unknown ops {}).cell = some (t, x)) :
    ∃ pre o post, ops = pre ++ o :: post ∧
      ((∃ y, o = .set t y ∧ x = y.getD ((run unknown pre {}).leaderValue unknown)) ∨
        (o.stamp = t ∧ o.sent = some x ∧ (run unknown pre {}).following = true ∧
          takes (run unknown pre {}).leader (t, x) = true ∧
          ∃ old, (run unknown pre {}).cell = some old ∧ old.1 < t)) := by
  induction ops using List.reverseRecOn with
  | nil => cases h
  | append_singleton ops o ih =>
    by_cases hsame : (run unknown ops {}).cell = some (t, x)
    · obtain ⟨pre, o', post, rfl, hwrote⟩ := ih hsame
      exact ⟨pre, o', post ++ [o], by rw [List.append_assoc, List.cons_append], hwrote⟩
    · rw [run_append] at h
      exact ⟨ops, o, [], rfl, step_wrote unknown hsame h⟩

/-- What the leader holds was led with. -/
theorem mem_of_leader {ops : List (Op V)} {w : ℤ × V} (h : (run unknown ops {}).leader = some w) :
    Op.lead w.1 w.2 ∈ ops := by
  rw [run_leader] at h
  rcases foldl_change_mem _ _ h with hin | hnone
  · exact mem_leads.mp hin
  · cases hnone

/-- A follower that has copied `a` was led with it. -/
theorem exists_lead_of_leaderValue {a : V} {ops : List (Op V)} (hne : unknown ≠ a)
    (hvalue : (run unknown ops {}).leaderValue unknown = a) : ∃ s, Op.lead s a ∈ ops := by
  cases hl : (run unknown ops {}).leader with
  | none =>
    rw [State.leaderValue, hl] at hvalue
    exact absurd hvalue hne
  | some w =>
    rw [State.leaderValue, hl] at hvalue
    obtain rfl : w.2 = a := hvalue
    exact ⟨w.1, mem_of_leader unknown hl⟩

/-- A leader that has led with `a`, and before with nothing newer, keeps it. -/
theorem leaderValue_of_ahead {a : V} {ops : List (Op V)} {s : ℤ} (hs : Op.lead s a ∈ ops)
    (hahead : ∀ s t v, Op.lead s a ∈ ops → Op.lead t v ∈ ops → v ≠ a → t < s) :
    (run unknown ops {}).leaderValue unknown = a := by
  have hsettled := foldl_change_settled (a := a) (leads ops) ?_ none (ready_none ⟨(s, a), mem_leads.mpr hs, rfl⟩)
  · rw [State.leaderValue, run_leader]
    exact congrArg (Option.getD · unknown) hsettled
  · intro p hp q hq hpa hqa
    exact hahead p.1 q.1 q.2 (hpa ▸ mem_leads.mp hp) (mem_leads.mp hq) hqa

/-! ### Whether the follower follows -/

/-- The newest write of the follower decides whether it follows. -/
theorem follows_of_newest {all ops : List (Op V)} {h : ℤ} {x : Option V} (hstamps : (all.map Op.stamp).Nodup)
    (hnewest : ∀ s y, Op.set s y ∈ all → s ≤ h) (hsub : ops ⊆ all) (hmem : Op.set h x ∈ ops) :
    (run unknown ops {}).follows = some (h, x.isNone) := by
  rw [run_follows]
  refine foldl_newer_eq true (m := (h, x.isNone)) ?_ (List.mem_map.mpr ⟨(h, x), mem_sets.mpr hmem, rfl⟩) ?_
  · intro f hf g hg heq
    obtain ⟨w, hw, rfl⟩ := List.mem_map.mp hf
    obtain ⟨w', hw', rfl⟩ := List.mem_map.mp hg
    have hsame : Op.set w.1 w.2 = Op.set w'.1 w'.2 :=
      List.inj_on_of_nodup_map hstamps (hsub (mem_sets.mp hw)) (hsub (mem_sets.mp hw')) heq
    obtain ⟨-, hx⟩ := Op.set.inj hsame
    exact Prod.ext heq (congrArg Option.isNone hx)
  · intro f hf
    obtain ⟨w, hw, rfl⟩ := List.mem_map.mp hf
    exact hnewest w.1 w.2 (hsub (mem_sets.mp hw))

/-- Older writes do not change whether it follows. -/
theorem follows_stays {ops : List (Op V)} {σ : State V} {f : ℤ × Bool} (hf : σ.follows = some f)
    (hold : ∀ s x, Op.set s x ∈ ops → s < f.1) : (run unknown ops σ).follows = some f := by
  rw [run_follows, hf]
  refine foldl_newer_of_lt true fun x hx => ?_
  obtain ⟨w, hw, rfl⟩ := List.mem_map.mp hx
  exact hold w.1 w.2 (mem_sets.mp hw)

/-- A follower that has written follows or does not as its newest write says. -/
theorem exists_newest {ops : List (Op V)} {s : ℤ} {x : Option V} (h : Op.set s x ∈ ops) :
    ∃ f y, Op.set f y ∈ ops ∧ (∀ t z, Op.set t z ∈ ops → t ≤ f) ∧
      (run unknown ops {}).follows = some (f, y.isNone) := by
  have hsome := foldl_newer_isSome true ((sets ops).map fun w => (w.1, w.2.isNone)) ({} : State V).follows
    (Or.inr (List.ne_nil_of_mem (List.mem_map.mpr ⟨_, (mem_sets (w := (s, x))).mpr h, rfl⟩)))
  obtain ⟨f, hf⟩ := Option.isSome_iff_exists.mp hsome
  obtain ⟨hin | hnone, hle, -⟩ := foldl_newer_spec true _ _ _ hf
  · obtain ⟨w, hw, rfl⟩ := List.mem_map.mp hin
    refine ⟨w.1, w.2, mem_sets.mp hw, fun t z hz => ?_, (run_follows unknown ops {}).trans hf⟩
    exact hle (t, z.isNone) (List.mem_map.mpr ⟨(t, z), mem_sets.mpr hz, rfl⟩)
  · cases hnone

/-- A follower that follows has said so. -/
theorem exists_none_of_following {ops : List (Op V)} (h : (run unknown ops {}).following = true) :
    ∃ g, Op.set g none ∈ ops := by
  have hsets : ∃ w, w ∈ sets ops := by
    by_contra hnone
    have hnil : sets ops = [] := List.eq_nil_iff_forall_not_mem.mpr fun w hw => hnone ⟨w, hw⟩
    rw [State.following, run_follows, hnil] at h
    cases h
  obtain ⟨w, hw⟩ := hsets
  obtain ⟨f, y, hy, -, hfollows⟩ := exists_newest unknown (mem_sets.mp hw)
  rw [State.following, hfollows] at h
  exact ⟨f, Option.isNone_iff_eq_none.mp h ▸ hy⟩

/-! ### A value that is confirmed -/

/-- The follower has a value of its own, older than `p` and not `a`, that following may confirm. -/
def Confirmed (a : V) (ops : List (Op V)) (p : ℤ) : Prop :=
  ∃ r z, Op.set r (some z) ∈ ops ∧ z ≠ a ∧ r < p ∧ (z = unknown ∨ ∃ q < p, Op.lead q z ∈ ops)

omit [DecidableEq V] in
theorem Confirmed.mono {a : V} {ops ops' : List (Op V)} {p : ℤ} (h : Confirmed unknown a ops p)
    (hsub : ops ⊆ ops') : Confirmed unknown a ops' p := by
  obtain ⟨r, z, hr, hz, hrp, hcopied⟩ := h
  exact ⟨r, z, hsub hr, hz, hrp, hcopied.imp_right fun ⟨q, hqp, hq⟩ => ⟨q, hqp, hsub hq⟩⟩

/-- A cell that is older than what the leader passes on, although the follower began to follow under a newer stamp:
what the follower copied when it began was there already, from an older write of its own. -/
theorem exists_confirmed {ops : List (Op V)} {t : ℤ} {old : ℤ × V} {x : V}
    (hfollow : (run unknown ops {}).following = true) (htakes : takes (run unknown ops {}).leader (t, x) = true)
    (hcell : (run unknown ops {}).cell = some old) (hlt : old.1 < t) (hnone : ∀ g, Op.set g none ∈ ops → t < g) :
    ∃ r z, Op.set r (some z) ∈ ops ∧ r < t ∧ (z = unknown ∨ ∃ q < t, Op.lead q z ∈ ops) := by
  obtain ⟨g₀, hg₀⟩ := exists_none_of_following unknown hfollow
  -- the first write that follows
  have hfirst : ∃ o, ops.find? (fun o => match o with | .set _ none => true | _ => false) = some o := by
    rw [← Option.isSome_iff_exists, List.find?_isSome]
    exact ⟨.set g₀ none, hg₀, rfl⟩
  obtain ⟨o, ho⟩ := hfirst
  obtain ⟨hon, pre, post, rfl, hpre⟩ := List.find?_eq_some_iff_append.mp ho
  obtain ⟨g, rfl⟩ : ∃ g, o = .set g none := by
    match o, hon with
    | .set g none, _ => exact ⟨g, rfl⟩
  have hunfollowed : ∀ g, Op.set g none ∉ pre := by
    intro g hg
    have := hpre _ hg
    simp at this
  have htg : t < g := hnone g (by simp)
  have hleft : ∀ new : ℤ × V, (step unknown (run unknown pre {}) (.set g none)).cell = some new → new.1 ≤ old.1 := by
    intro new hnew
    obtain ⟨last, hlast, hle⟩ := le_stamp_cell unknown post hnew
    rw [run_append, run_cons] at hcell
    obtain rfl := Option.some.inj (hlast.symm.trans hcell)
    exact hle
  -- its value was in the cell already
  cases hc : (run unknown pre {}).cell with
  | none =>
    have hle := hleft (g, (run unknown pre {}).leaderValue unknown) (by
      show change (run unknown pre {}).cell _ = _
      rw [hc]
      rfl)
    exact absurd (lt_of_le_of_lt hle hlt) (not_lt.mpr (le_of_lt htg))
  | some c =>
    obtain ⟨r, z⟩ := c
    have hstep : (step unknown (run unknown pre {}) (.set g none)).cell
        = change (some (r, z)) (g, (run unknown pre {}).leaderValue unknown) := by
      rw [← hc]
      rfl
    by_cases hnew : r < g ∧ z ≠ (run unknown pre {}).leaderValue unknown
    · have hle := hleft _ (hstep.trans (change_of_newer (w := (g, _)) hnew.1 hnew.2))
      exact absurd (lt_of_le_of_lt hle hlt) (not_lt.mpr (le_of_lt htg))
    · have hrt : r < t := lt_of_le_of_lt (hleft _ (hstep.trans (if_neg hnew))) hlt
      have hz : z = (run unknown pre {}).leaderValue unknown := by
        by_contra hz
        exact hnew ⟨lt_trans hrt htg, hz⟩
      have hset : Op.set r (some z) ∈ pre := by
        obtain ⟨pre', o', post', rfl, ⟨y, rfl, hy⟩ | ⟨-, -, hfollow', -⟩⟩ := exists_write unknown hc
        · cases y with
          | none => exact absurd (by simp) (hunfollowed r)
          | some y =>
            rw [hy]
            simp
        · obtain ⟨g', hg'⟩ := exists_none_of_following unknown hfollow'
          exact absurd (List.mem_append_left _ hg') (hunfollowed g')
      refine ⟨r, z, List.mem_append_left _ hset, hrt, ?_⟩
      cases hl : (run unknown pre {}).leader with
      | none =>
        left
        rw [hz, State.leaderValue, hl]
        rfl
      | some w =>
        right
        have hw : w.2 = z := by
          rw [hz, State.leaderValue, hl]
          rfl
        refine ⟨w.1, ?_, List.mem_append_left _ (hw ▸ mem_of_leader unknown hl)⟩
        obtain ⟨last, hlast, hle⟩ := le_stamp_foldl (leads (.set g none :: post)) hl
        rw [run_append, run_leader unknown (.set g none :: post), hlast] at htakes
        exact lt_of_le_of_lt hle (of_decide_eq_true htakes).1

/-! ### Orders -/

omit [DecidableEq V] in
/-- No other operation has the stamp of one that splits a run. -/
theorem stamp_ne {pre post : List (Op V)} {o o' : Op V} (hstamps : ((pre ++ o :: post).map Op.stamp).Nodup)
    (ho' : o' ∈ pre ++ post) : o'.stamp ≠ o.stamp := by
  rw [List.map_append, List.map_cons, List.nodup_middle, List.nodup_cons, ← List.map_append] at hstamps
  exact fun heq => hstamps.1 (heq ▸ List.mem_map_of_mem ho')

theorem exists_perm_front {α : Type} {front ops : List α} (hnodup : front.Nodup) (hsub : front ⊆ ops) :
    ∃ rest, (front ++ rest).Perm ops := by
  obtain ⟨l, hperm, hl⟩ := List.subperm_iff.mp (List.subperm_of_subset hnodup hsub)
  obtain ⟨rest, hrest⟩ := hl.exists_perm_append
  exact ⟨rest, hrest.symm.trans hperm⟩

omit [DecidableEq V] in
/-- The writes of the leader, then those of the follower. -/
theorem sent_append_own_perm (ops : List (Op V)) :
    ((ops.filter fun o => o.sent.isSome) ++ own (sets ops)).Perm ops := by
  induction ops with
  | nil => exact List.Perm.nil
  | cons o ops ih =>
    cases o with
    | lead s v => exact ih.cons (.lead s v)
    | pass s v => exact ih.cons (.pass s v)
    | set s v => exact List.perm_middle.trans (ih.cons (.set s v))

/-- Every order of the writes brings `a` to the follower. -/
def Reaches (unknown a : V) (all : List (Op V)) : Prop :=
  ∀ ops : List (Op V), ops.Perm all → (run unknown ops {}).cell.map Prod.snd = some a

/-- Some writes of the leader, some of the follower, and again; the leader's others come last. -/
theorem Reaches.rounds {unknown a : V} {all : List (Op V)} (hreach : Reaches unknown a all)
    (hstamps : (all.map Op.stamp).Nodup) (ls ls' : List (Op V)) (ss ss' : List (ℤ × Option V))
    (hnodup : (ls ++ ls').Nodup) (hsent : ∀ o ∈ ls ++ ls', o ∈ all ∧ o.sent ≠ none)
    (hss : (ss ++ ss').Perm (sets all)) :
    ∃ rest, (∀ o ∈ rest, o ∈ all ∧ o.sent ≠ none ∧ o ∉ ls ++ ls') ∧
      (run unknown rest (run unknown (own ss') (run unknown ls' (run unknown (own ss)
        (run unknown ls {}))))).cell.map Prod.snd = some a := by
  have hsub : ls ++ ls' ⊆ all.filter fun o => o.sent.isSome := fun o ho =>
    List.mem_filter.mpr ⟨(hsent o ho).1, Option.isSome_iff_ne_none.mpr (hsent o ho).2⟩
  obtain ⟨rest, hrest⟩ := exists_perm_front hnodup hsub
  refine ⟨rest, fun o ho => ?_, ?_⟩
  · obtain ⟨hall, hsome⟩ := List.mem_filter.mp (hrest.subset (List.mem_append_right _ ho))
    refine ⟨hall, Option.isSome_iff_ne_none.mp hsome, fun hin => ?_⟩
    have hall' : (all.filter fun o => o.sent.isSome).Nodup := (List.Nodup.of_map _ hstamps).filter _
    exact (List.nodup_append.mp (hrest.nodup_iff.mpr hall')).2.2 o hin o ho rfl
  · have hown : (own ss ++ own ss').Perm (own (sets all)) := by
      rw [own, own, ← List.map_append]
      exact hss.map _
    have hperm : (ls ++ (own ss ++ (ls' ++ (own ss' ++ rest)))).Perm all := by
      refine List.Perm.trans ?_ ((hrest.append hown).trans (sent_append_own_perm all))
      rw [List.append_assoc, List.append_assoc]
      refine List.Perm.append_left _ ((List.perm_append_comm_assoc _ _ _).trans (List.Perm.append_left _ ?_))
      rw [← List.append_assoc]
      exact List.perm_append_comm
    have hfinal := hreach _ hperm
    rwa [run_append, run_append, run_append, run_append] at hfinal

/-- The writes of the leader that carry `a`, one of them first. -/
theorem exists_sent_first {a : V} {all : List (Op V)} (hstamps : (all.map Op.stamp).Nodup) {o : Op V} (ho : o ∈ all)
    (hoa : o.sent = some a) :
    ∃ as : List (Op V), (o :: as).Nodup ∧ ∀ o', o' ∈ o :: as ↔ o' ∈ all ∧ o'.sent = some a := by
  have hin : o ∈ all.filter fun o => decide (o.sent = some a) := List.mem_filter.mpr ⟨ho, decide_eq_true hoa⟩
  have hperm := List.perm_cons_erase hin
  have hall : (all.filter fun o => decide (o.sent = some a)).Nodup := (List.Nodup.of_map _ hstamps).filter _
  refine ⟨_, hperm.nodup_iff.mp hall, fun o' => ?_⟩
  rw [← hperm.mem_iff, List.mem_filter, decide_eq_true_iff]

/-! ### A value that is passed on and overtaken -/

/-- Operations to reason about: distinct stamps, and values that are known. -/
structure Scenario (a : V) (ops : List (Op V)) : Prop where
  stamps : (ops.map Op.stamp).Nodup
  known : ∀ t v, Sent ops t v → v ≠ unknown
  unknown_ne : unknown ≠ a

section Scenario

variable {unknown} {a : V} {ops all : List (Op V)}

omit [DecidableEq V] in
theorem Scenario.eq_of_stamp (hscene : Scenario unknown a ops) {o o' : Op V} (ho : o ∈ ops) (ho' : o' ∈ ops)
    (heq : o.stamp = o'.stamp) : o = o' :=
  List.inj_on_of_nodup_map hscene.stamps ho ho' heq

omit [DecidableEq V] in
theorem Scenario.perm (hscene : Scenario unknown a all) (hperm : ops.Perm all) : Scenario unknown a ops where
  stamps := (hperm.map _).nodup_iff.mpr hscene.stamps
  known t v hv := hscene.known t v (hv.mono hperm.subset)
  unknown_ne := hscene.unknown_ne

/-- A follower that follows, under an older stamp than `p` or with an own value that it confirms, can be passed on an
`a` of stamp `p`. -/
theorem Scenario.exists_passed (hscene : Scenario unknown a all) {g p : ℤ} (hg : Op.set g none ∈ all)
    (hp : g < p ∨ Confirmed unknown a all p) :
    ∃ (ls : List (Op V)) (ss : List (ℤ × Option V)), ls.Nodup ∧
      (∀ o ∈ ls, o ∈ all ∧ o.sent ≠ none ∧ o.sent ≠ some a) ∧ ss.Nodup ∧ ss ⊆ sets all ∧
      (∀ w ∈ ss, w.1 = g ∨ w.1 < p) ∧
      (run unknown (own ss) (run unknown ls {})).leader = (run unknown ls {}).leader ∧
      (run unknown (own ss) (run unknown ls {})).passOn (p, a) = some (p, a) := by
  by_cases hgp : g < p
  · refine ⟨[], [(g, none)], List.nodup_nil, by simp, List.nodup_singleton _, ?_, ?_, rfl, ?_⟩
    · simpa using (mem_sets (w := (g, none))).mpr hg
    · simp
    · show change (some (g, unknown)) (p, a) = _
      exact change_of_newer hgp hscene.unknown_ne
  · obtain ⟨r, z, hr, hz, hrp, hcopied⟩ := hp.resolve_left hgp
    have hrg : r < g := lt_of_lt_of_le hrp (not_lt.mp hgp)
    -- a leader that has led with `z`, or with nothing if that is what is copied then
    obtain ⟨ls, hnodup, hls, hvalue, htakes⟩ : ∃ ls : List (Op V), ls.Nodup ∧
        (∀ o ∈ ls, o ∈ all ∧ o.sent ≠ none ∧ o.sent ≠ some a) ∧ (run unknown ls {}).leaderValue unknown = z ∧
        takes (run unknown ls {}).leader (p, a) = true := by
      rcases hcopied with rfl | ⟨q, hqp, hq⟩
      · exact ⟨[], List.nodup_nil, by simp, rfl, rfl⟩
      · exact ⟨[.lead q z], List.nodup_singleton _, by simp [hq, Op.sent, hz], rfl, takes_of_newer hqp hz⟩
    refine ⟨ls, [(r, some z), (g, none)], hnodup, hls, by simp, ?_, by simp [hrp], (run_own unknown _ _).1, ?_⟩
    · intro w hw
      rcases List.mem_cons.mp hw with rfl | hw
      · exact mem_sets.mpr hr
      · rw [List.mem_singleton.mp hw]
        exact mem_sets.mpr hg
    · obtain ⟨hcell, hfollows⟩ := run_of_idle unknown (fun o ho => (hls o ho).2.1)
        (show ({} : State V).following = false from rfl)
      generalize run unknown ls {} = σ at hvalue htakes hcell hfollows
      obtain ⟨leader, cell, follows⟩ := σ
      obtain rfl : cell = none := hcell
      obtain rfl : follows = none := hfollows
      have hconfirmed : run unknown (own [(r, some z), (g, none)]) ⟨leader, none, none⟩
          = ⟨leader, some (r, z), some (g, true)⟩ := by
        show State.mk leader (change (some (r, z)) (g, State.leaderValue unknown ⟨leader, some (r, z), _⟩))
          (newer true (some (r, false)) (g, true)) = _
        rw [show State.leaderValue unknown ⟨leader, some (r, z), _⟩ = z from hvalue,
          change_of_same (show (r, z).2 = (g, z).2 from rfl), newer_true_some, if_pos (le_of_lt hrg)]
      rw [hconfirmed, State.passOn, if_pos ⟨htakes, rfl⟩]
      exact change_of_newer hrp hz

/-- An `a` of stamp `p` is overtaken by a newer write, when what carries or copies `a` comes before. -/
theorem exists_overtaken {ss : List (ℤ × Option V)} (hnodup : ss.Nodup)
    (hss : ss ⊆ sets all) {p t : ℤ} {x : Option V} (ht : Op.set t x ∈ all) (hpt : p < t) (hnot : (t, x) ∉ ss) {v : V}
    (hx : x.getD v ≠ a) :
    ∃ ss', (ss ++ ss').Perm (sets all) ∧
      ((ss'.map fun w => (w.1, w.2.getD v)).foldl change (some (p, a))).map Prod.snd ≠ some a := by
  obtain ⟨rest, hrest⟩ := exists_perm_front hnodup hss
  have hin : (t, x) ∈ rest := (List.mem_append.mp (hrest.mem_iff.mpr (mem_sets.mpr ht))).resolve_left hnot
  refine ⟨_, ((List.filter_append_perm (fun w => decide (w.2.getD v = a)) rest).append_left ss).trans hrest, ?_⟩
  rw [List.map_append, List.foldl_append, foldl_change_keeps]
  · refine foldl_change_overtaken _ ?_ ⟨(t, x.getD v), ?_, hpt⟩
    · intro w' hw'
      obtain ⟨w, hw, rfl⟩ := List.mem_map.mp hw'
      simpa using (List.mem_filter.mp hw).2
    · exact List.mem_map.mpr ⟨(t, x), List.mem_filter.mpr ⟨hin, by simpa using hx⟩, rfl⟩
  · intro w' hw' hne
    obtain ⟨w, hw, rfl⟩ := List.mem_map.mp hw'
    exact absurd (of_decide_eq_true (List.mem_filter.mp hw).2) hne

end Scenario

/-- An order of what is selected from a list comes from an order of the list. -/
theorem exists_perm_filterMap {α β : Type} (f : α → Option β) {ys zs : List β} (h : ys.Perm zs) :
    ∀ l : List α, l.filterMap f = zs → ∃ l' : List α, l'.Perm l ∧ l'.filterMap f = ys := by
  induction h with
  | nil =>
    intro l hl
    exact ⟨l, List.Perm.refl l, hl⟩
  | cons y _ ih =>
    intro l hl
    obtain ⟨l₁, x, l₂, rfl, hnone, hx, hl₂⟩ := List.filterMap_eq_cons_iff.mp hl
    obtain ⟨l', hperm, hl'⟩ := ih l₂ hl₂
    refine ⟨l₁ ++ x :: l', (hperm.cons x).append_left l₁, ?_⟩
    rw [List.filterMap_append, List.filterMap_eq_nil_iff.mpr hnone, List.nil_append,
      List.filterMap_cons_some hx, hl']
  | swap y z _ =>
    intro l hl
    obtain ⟨l₁, x, l₂, rfl, hnone, hx, hl₂⟩ := List.filterMap_eq_cons_iff.mp hl
    obtain ⟨l₃, x', l₄, rfl, hnone', hx', hl₄⟩ := List.filterMap_eq_cons_iff.mp hl₂
    refine ⟨l₁ ++ l₃ ++ x' :: x :: l₄, ?_, ?_⟩
    · rw [List.append_assoc]
      refine List.Perm.append_left l₁ ?_
      exact (List.perm_middle.trans ((List.perm_middle).cons x')).trans
        ((List.Perm.swap x x' _).trans (List.perm_middle.symm.cons x))
    · rw [List.filterMap_append, List.filterMap_append, List.filterMap_eq_nil_iff.mpr hnone,
        List.filterMap_eq_nil_iff.mpr hnone', List.append_nil, List.nil_append,
        List.filterMap_cons_some hx', List.filterMap_cons_some hx, hl₄]
  | trans _ _ ih₁ ih₂ =>
    intro l hl
    obtain ⟨l₂, hperm₂, hl₂⟩ := ih₂ l hl
    obtain ⟨l₁, hperm₁, hl₁⟩ := ih₁ l₂ hl₂
    exact ⟨l₁, hperm₁.trans hperm₂, hl₁⟩

end Followers
