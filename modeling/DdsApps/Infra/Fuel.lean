import Mathlib.Data.Option.Basic

/-!
# Loops with fuel

A computation with a loop in it takes fuel, and gives `none` where that runs out. What it computes
is what it gives with any fuel that is enough.

* `Converges` — with enough fuel, this is the result
* `whileLoop` — a loop whose condition may change the state
* `Converges.while_done`, `Converges.while_step` — one round of it
* `Converges.while_list` — a loop that takes the elements of a list
* `Iterates` — what an iterator stops at
* `Iterates.converges` — a loop over an iterator that its body leaves alone

Nothing here is about a particular program.
-/

namespace DdsApps.Infra

variable {α β σ : Type*}

/-- With enough fuel the result is `a`. -/
def Converges (f : Nat → Option α) (a : α) : Prop := ∃ n, ∀ fuel, n ≤ fuel → f fuel = some a

theorem Converges.some (a : α) : Converges (fun _ => some a) a := ⟨0, fun _ _ => rfl⟩

theorem Converges.bind {f : Nat → Option α} {g : Nat → α → Option β} {a : α} {b : β}
    (hf : Converges f a) (hg : Converges (fun fuel => g fuel a) b) :
    Converges (fun fuel => (f fuel).bind (g fuel)) b := by
  obtain ⟨n, hn⟩ := hf
  obtain ⟨m, hm⟩ := hg
  refine ⟨max n m, fun fuel hfuel => ?_⟩
  simp only [hn fuel (by omega), Option.bind_some, hm fuel (by omega)]

theorem Converges.map {f : Nat → Option α} {a : α} (h : Converges f a) (g : α → β) :
    Converges (fun fuel => (f fuel).map g) (g a) := by
  obtain ⟨n, hn⟩ := h
  refine ⟨n, fun fuel hfuel => ?_⟩
  simp only [hn fuel hfuel, Option.map_some]

/-- A function that uses up some fuel itself. -/
theorem Converges.of_succ {f g : Nat → Option α} {a : α} (hf : ∀ fuel, f (fuel + 1) = g fuel)
    (hg : Converges g a) : Converges f a := by
  obtain ⟨n, hn⟩ := hg
  refine ⟨n + 1, fun fuel hfuel => ?_⟩
  obtain ⟨m, rfl⟩ := Nat.exists_eq_add_of_le' (Nat.le_of_add_left_le hfuel)
  rw [hf, hn m (by omega)]

/-- There is one result at most. -/
theorem Converges.unique {f : Nat → Option α} {a b : α} (ha : Converges f a)
    (hb : Converges f b) : a = b := by
  obtain ⟨n, hn⟩ := ha
  obtain ⟨m, hm⟩ := hb
  exact Option.some_inj.mp ((hn (max n m) (by omega)).symm.trans (hm (max n m) (by omega)))

/-- `while (next()) body`, where `next` and `body` change the same state. -/
def whileLoop (next : σ → Bool × σ) (body : Nat → σ → Option σ) : Nat → σ → Option σ
  | 0, _ => none
  | fuel + 1, s =>
    match next s with
    | (false, t) => Option.some t
    | (true, t) => (body fuel t).bind (whileLoop next body fuel)

variable {next : σ → Bool × σ} {body : Nat → σ → Option σ} {s t u v : σ}

theorem Converges.while_done (h : next s = (false, t)) :
    Converges (fun fuel => whileLoop next body fuel s) t := by
  refine .of_succ (fun fuel => ?_) (.some t)
  simp only [whileLoop, h]

theorem Converges.while_step (h : next s = (true, u)) (hbody : Converges (fun fuel => body fuel u) v)
    (hrest : Converges (fun fuel => whileLoop next body fuel v) t) :
    Converges (fun fuel => whileLoop next body fuel s) t := by
  refine .of_succ (fun fuel => ?_) (hbody.bind hrest)
  simp only [whileLoop, h]

/--
**A loop over a list.** What is left is an invariant: each round takes its first element, and where
nothing is left the loop ends.
-/
theorem Converges.while_list {ι : Type*} (Left : List ι → σ → Prop) (Done : σ → Prop)
    (hdone : ∀ s, Left [] s → ∃ t, next s = (false, t) ∧ Done t)
    (hround : ∀ i rest s, Left (i :: rest) s →
      ∃ u v, next s = (true, u) ∧ Converges (fun fuel => body fuel u) v ∧ Left rest v)
    {left : List ι} (h : Left left s) :
    ∃ t, Converges (fun fuel => whileLoop next body fuel s) t ∧ Done t := by
  induction left generalizing s with
  | nil =>
    obtain ⟨t, hnext, ht⟩ := hdone s h
    exact ⟨t, .while_done hnext, ht⟩
  | cons i rest ih =>
    obtain ⟨u, v, hnext, hbody, hv⟩ := hround i rest s h
    obtain ⟨t, hloop, ht⟩ := ih hv
    exact ⟨t, .while_step hnext hbody hloop, ht⟩

/-! ## Iterators -/

/-- `next`, on the first of two states. -/
def onFst {τ : Type*} (next : σ → Bool × σ) (s : σ × τ) : Bool × (σ × τ) :=
  ((next s.1).1, ((next s.1).2, s.2))

/-- From `s` on, `next` stops in these states, and then there is no next one. -/
inductive Iterates (next : σ → Bool × σ) : σ → List σ → σ → Prop
  | done {s t : σ} (h : next s = (false, t)) : Iterates next s [] t
  | step {s t u : σ} {states : List σ} (h : next s = (true, u))
    (hrest : Iterates next u states t) : Iterates next s (u :: states) t

/-- **A loop over an iterator is a fold**, if its body leaves the iterator alone. -/
theorem Iterates.converges {τ : Type*} {next : σ → Bool × σ} {states : List σ}
    (h : Iterates next s states t) (f : σ → τ → τ) (a : τ) :
    Converges (fun fuel => whileLoop (onFst next)
        (fun _ s => Option.some (s.1, f s.1 s.2)) fuel (s, a))
      (t, states.foldl (fun a s => f s a) a) := by
  induction h generalizing a with
  | @done s t h =>
    refine .while_done ?_
    simp only [onFst, h, List.foldl_nil]
  | @step s t u states h hrest ih =>
    have hnext : onFst next (s, a) = (true, (u, a)) := by simp only [onFst, h]
    exact .while_step hnext (.some _) (ih (f u a))

end DdsApps.Infra
