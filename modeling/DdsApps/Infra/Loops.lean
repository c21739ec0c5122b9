import Mathlib.Data.List.Basic

/-!
# Loops that may fail

* `bind_eq_ok_iff` — a sequence succeeds when both of its parts do
* `foldlM_overwrite` — a loop whose body does not look at the state it replaces ends in what its
  last element wrote
* `foldlM_last_write` — a field that some elements set ends as the last of them has set it
-/

namespace DdsApps.Infra

universe u

variable {α : Type*} {ε : Type*} {σ τ : Type u}

theorem bind_eq_ok_iff {x : Except ε σ} {f : σ → Except ε τ} {b : τ} :
    (x >>= f) = .ok b ↔ ∃ a, x = .ok a ∧ f a = .ok b := by
  cases x with
  | error e => simp [Bind.bind, Except.bind]
  | ok a => simp [Bind.bind, Except.bind]

theorem pure_eq_ok_iff {a b : σ} : (pure a : Except ε σ) = .ok b ↔ a = b := by
  simp [Pure.pure, Except.pure]

/--
**Only the last element's write remains.** The body `g` succeeds on the elements with `P`, and
then replaces the whole state by `h` of the element.
-/
theorem foldlM_overwrite {P : α → Prop} {g : σ → α → Except ε σ} {h : α → σ}
    (hg : ∀ s a r, g s a = .ok r ↔ P a ∧ r = h a) :
    ∀ (l : List α) (s r : σ), l.foldlM g s = .ok r ↔
      (∀ a ∈ l, P a) ∧ r = (l.getLast?.map h).getD s
  | [], s, r => by
    rw [List.foldlM_nil, pure_eq_ok_iff]
    simp [eq_comm]
  | a :: rest, s, r => by
    rw [List.foldlM_cons, bind_eq_ok_iff, List.forall_mem_cons]
    have hlast : ((a :: rest).getLast?.map h).getD s = (rest.getLast?.map h).getD (h a) := by
      rw [List.getLast?_cons]
      cases rest.getLast? <;> rfl
    rw [hlast]
    constructor
    · rintro ⟨t, ht, hr⟩
      -- the rest of the loop starts from what the first element has written
      obtain ⟨hP, rfl⟩ := (hg s a t).mp ht
      obtain ⟨hrest, hr⟩ := (foldlM_overwrite hg rest _ _).mp hr
      exact ⟨⟨hP, hrest⟩, hr⟩
    · rintro ⟨⟨hP, hrest⟩, hr⟩
      exact ⟨h a, (hg s a _).mpr ⟨hP, rfl⟩, (foldlM_overwrite hg rest _ _).mpr ⟨hrest, hr⟩⟩

/--
**The last write of a field remains.** The elements with `p` set the field `f` to `v` of them, and
the others leave it alone.
-/
theorem foldlM_last_write {β : Type*} {g : σ → α → Option σ} {f : σ → β} {p : α → Bool}
    {v : α → β} : ∀ {l : List α},
      (∀ a ∈ l, ∀ s t, g s a = some t → f t = if p a then v a else f s) →
      ∀ {s t : σ}, l.foldlM g s = some t → f t = ((l.filter p).getLast?.map v).getD (f s)
  | [], _, s, t, h => by
    cases h
    rfl
  | a :: rest, hset, s, t, h => by
    rw [List.foldlM_cons] at h
    obtain ⟨u, hu, ht⟩ := Option.bind_eq_some_iff.mp h
    rw [List.forall_mem_cons] at hset
    rw [foldlM_last_write hset.2 ht, hset.1 s u hu, List.filter_cons]
    by_cases hp : p a = true
    · rw [if_pos hp, if_pos hp, List.getLast?_cons]
      cases (rest.filter p).getLast? <;> rfl
    · rw [if_neg hp, if_neg hp]

end DdsApps.Infra
