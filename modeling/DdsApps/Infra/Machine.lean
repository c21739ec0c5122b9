import Mathlib.Data.List.Basic

/-!
# Machines with labelled steps

A state machine whose nondeterminism is in its labels: an event names which party moves,
and `step` says what that move does, or that it is not enabled.

* `Machine.exec` — runs a given sequence of events (a trace that can be evaluated)
* `Machine.ReachableWhere` — the states of runs whose every step meets a condition
* `Machine.Reachable` — the states of all runs
* `Machine.invariant` — what one step keeps, every run keeps
* `Machine.run_invariant` — the same from any state on

Nothing here is about a particular program.
-/

namespace DdsApps.Infra

/-- An initial state and, for each event, the state after it (`none`: not enabled). -/
structure Machine (σ ε : Type*) where
  init : σ
  step : σ → ε → Option σ

namespace Machine

variable {σ ε : Type*} {M : Machine σ ε}

/-! ## Runs given by their events -/

/-- Takes the events one after the other. -/
def run (M : Machine σ ε) : σ → List ε → Option σ
  | s, [] => some s
  | s, e :: es => (M.step s e).bind fun t => run M t es

/-- A run from the initial state. -/
def exec (M : Machine σ ε) (es : List ε) : Option σ := M.run M.init es

/-! ## Reachable states -/

/-- Reached by a run in which `ok` holds of every event and the state before it. -/
inductive ReachableWhere (M : Machine σ ε) (ok : σ → ε → Prop) : σ → Prop
  | init : ReachableWhere M ok M.init
  | step {s t : σ} {e : ε} (hs : ReachableWhere M ok s) (he : ok s e)
      (ht : M.step s e = some t) : ReachableWhere M ok t

/-- Reached by some run. -/
def Reachable (M : Machine σ ε) (s : σ) : Prop := M.ReachableWhere (fun _ _ => True) s

variable {ok ok' : σ → ε → Prop}

/-- A run whose steps meet a condition is a run. -/
theorem ReachableWhere.mono (h : ∀ s e, ok s e → ok' s e) {s : σ}
    (hs : M.ReachableWhere ok s) : M.ReachableWhere ok' s := by
  induction hs with
  | init => exact .init
  | step _ he ht ih => exact .step ih (h _ _ he) ht

theorem ReachableWhere.reachable {s : σ} (hs : M.ReachableWhere ok s) : M.Reachable s :=
  hs.mono fun _ _ _ => trivial

/-- **What one step keeps, every run keeps.** -/
theorem invariant {I : σ → Prop} (hinit : I M.init)
    (hstep : ∀ s e t, ok s e → I s → M.step s e = some t → I t) {s : σ}
    (hs : M.ReachableWhere ok s) : I s := by
  induction hs with
  | init => exact hinit
  | step _ he ht ih => exact hstep _ _ _ he ih ht

/-- **What each step keeps, a given run keeps**, wherever it starts. -/
theorem run_invariant {I : σ → Prop} (hstep : ∀ s e t, I s → M.step s e = some t → I t) {s : σ}
    (hs : I s) : ∀ (es : List ε) {t : σ}, M.run s es = some t → I t := by
  intro es
  induction es generalizing s with
  | nil =>
    intro t h
    cases h
    exact hs
  | cons e es ih =>
    intro t h
    obtain ⟨u, hu, ht⟩ := Option.bind_eq_some_iff.mp h
    exact ih (hstep s e u hs hu) ht

theorem reachable_of_run {s : σ} (hs : M.Reachable s) (es : List ε) {t : σ}
    (h : M.run s es = some t) : M.Reachable t :=
  run_invariant (fun _ _ _ hs ht => .step hs trivial ht) hs es h

/-- Where an executed trace ends is reachable. -/
theorem reachable_of_exec {es : List ε} {t : σ} (h : M.exec es = some t) : M.Reachable t :=
  reachable_of_run .init es h

/-! ## Runs whose steps meet a condition, as a machine of their own -/

/-- Only the steps that meet the condition are enabled. -/
def restrict (M : Machine σ ε) (ok : σ → ε → Prop) [∀ s e, Decidable (ok s e)] : Machine σ ε :=
  { M with step := fun s e => if ok s e then M.step s e else none }

theorem reachableWhere_of_restrict [∀ s e, Decidable (ok s e)] {s : σ}
    (hs : (M.restrict ok).Reachable s) : M.ReachableWhere ok s := by
  induction hs with
  | init => exact .init
  | step _ _ ht ih =>
    simp only [restrict] at ht
    split at ht
    · next he => exact .step ih he ht
    · cases ht

/-- Where an executed trace ends whose steps all meet the condition. -/
theorem reachableWhere_of_exec [∀ s e, Decidable (ok s e)] {es : List ε} {t : σ}
    (h : (M.restrict ok).exec es = some t) : M.ReachableWhere ok t :=
  reachableWhere_of_restrict (reachable_of_exec h)

end Machine

end DdsApps.Infra
