import Mathlib.Tactic.Common

/-!
# Runs of a system

A system is a step function: what an action makes of a state, or nothing where the action is not possible.  A
run takes one action after another; `SafeRun` says that each of them is safe in the state it is taken in.
**`inv_of_run`** is the rule of induction: what every safe step keeps holds at the end of every safe run.
-/

namespace GuardedRuns

variable {σ α : Type} (step : σ → α → Option σ) (safe : σ → α → Prop)

/-- Some steps. -/
def run : σ → List α → Option σ
  | s, [] => some s
  | s, a :: as => (step s a).bind fun s' => run s' as

/-- Every action is safe where it is taken. -/
def SafeRun : σ → List α → Prop
  | _, [] => True
  | s, a :: as => safe s a ∧ ∀ s', step s a = some s' → SafeRun s' as

variable {step safe}

theorem inv_of_run {I : σ → Prop} (hstep : ∀ s a s', I s → safe s a → step s a = some s' → I s') {s s' : σ}
    {as : List α} (hinv : I s) (hrun : run step s as = some s') (hsafe : SafeRun step safe s as) : I s' := by
  induction as generalizing s with
  | nil =>
    obtain rfl := Option.some.inj hrun
    exact hinv
  | cons a as ih =>
    obtain ⟨s₁, ha, hrun⟩ := Option.bind_eq_some_iff.mp hrun
    exact ih (hstep s a s₁ hinv hsafe.1 ha) hrun (hsafe.2 s₁ ha)

/-- What every step keeps holds at the end of every run. -/
theorem inv_of_any_run {I : σ → Prop} (hstep : ∀ s a s', I s → step s a = some s' → I s') {s s' : σ}
    {as : List α} (hinv : I s) (hrun : run step s as = some s') : I s' := by
  have hall : ∀ (s : σ) (as : List α), SafeRun step (fun _ _ => True) s as := by
    intro s as
    induction as generalizing s with
    | nil => trivial
    | cons a as ih => exact ⟨trivial, fun s' _ => ih s'⟩
  exact inv_of_run (fun s a s' h _ hs => hstep s a s' h hs) hinv hrun (hall s as)

/-- Actions that are safe everywhere make a safe run. -/
theorem SafeRun.of_forall {as : List α} (h : ∀ a ∈ as, ∀ s, safe s a) (s : σ) : SafeRun step safe s as := by
  induction as generalizing s with
  | nil => trivial
  | cons a as ih =>
    exact ⟨h a List.mem_cons_self s, fun s' _ => ih (fun b hb => h b (List.mem_cons_of_mem a hb)) s'⟩

theorem SafeRun.cons {s s₁ : σ} {a : α} {as : List α} (hsafe : safe s a) (hstep : step s a = some s₁)
    (hrest : SafeRun step safe s₁ as) : SafeRun step safe s (a :: as) := by
  refine ⟨hsafe, fun s' hs' => ?_⟩
  obtain rfl := Option.some.inj (hstep.symm.trans hs')
  exact hrest

/-- The first part of a safe run is safe. -/
theorem SafeRun.left {s : σ} {as bs : List α} (h : SafeRun step safe s (as ++ bs)) : SafeRun step safe s as := by
  induction as generalizing s with
  | nil => trivial
  | cons a as ih => exact ⟨h.1, fun s' hs' => ih (h.2 s' hs')⟩

end GuardedRuns
