import DdsApps.Infra.Machine

/-!
# Refinement of machines

A machine refines another one by a map of its states to those of the other if each of its steps is
a step there, or changes nothing there. Both may be restricted to steps that meet a condition.

* `Machine.Refines` — the steps of one machine, seen as steps of another
* `Refines.reachableWhere` — what is reachable below is reachable above
* `Refines.trans` — refinements compose

Nothing here is about a particular program.
-/

namespace DdsApps.Infra.Machine

variable {σ σ' σ'' ε ε' ε'' : Type*} {C : Machine σ ε} {A : Machine σ' ε'} {B : Machine σ'' ε''}
variable {ok : σ → ε → Prop} {ok' : σ' → ε' → Prop} {ok'' : σ'' → ε'' → Prop}
variable {f : σ → σ'} {g : σ' → σ''}

structure Refines (C : Machine σ ε) (A : Machine σ' ε') (ok : σ → ε → Prop)
    (ok' : σ' → ε' → Prop) (f : σ → σ') : Prop where
  init : f C.init = A.init
  step : ∀ s e t, C.ReachableWhere ok s → ok s e → C.step s e = some t →
    f t = f s ∨ ∃ e', ok' (f s) e' ∧ A.step (f s) e' = some (f t)

/-- **What is reachable below is reachable above.** -/
theorem Refines.reachableWhere (h : Refines C A ok ok' f) {s : σ} (hs : C.ReachableWhere ok s) :
    A.ReachableWhere ok' (f s) := by
  induction hs with
  | init =>
    rw [h.init]
    exact .init
  | step hs he ht ih =>
    rcases h.step _ _ _ hs he ht with hsame | ⟨e', he', ht'⟩
    · rw [hsame]
      exact ih
    · exact .step ih he' ht'

theorem Refines.trans (h : Refines C A ok ok' f) (h' : Refines A B ok' ok'' g) :
    Refines C B ok ok'' (g ∘ f) where
  init := (congrArg g h.init).trans h'.init
  step := by
    intro s e t hs he ht
    rcases h.step s e t hs he ht with hsame | ⟨e', he', ht'⟩
    · exact Or.inl (congrArg g hsame)
    · exact h'.step _ e' _ (h.reachableWhere hs) he' ht'

end DdsApps.Infra.Machine
