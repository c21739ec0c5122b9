import Mathlib.Logic.Function.Basic

/-!
# Circular buffers

A queue in an array of `n` slots: the next element is stored at `head`, and the next one read is in
the slot after `tail`. One slot stays free, so that a full buffer can be told from an empty one.

* `CircularBuffer.Holds` — the elements in the buffer, the oldest first
* `Holds.store`, `Holds.next` — it is a queue
* `Holds.empty_iff`, `Holds.full_iff` — and what its two tests say

Nothing here is about a particular program.
-/

namespace DdsApps.Infra

variable {α : Type*} {n : Nat}

structure CircularBuffer (α : Type*) (n : Nat) where
  slots : Nat → α
  head : Nat
  tail : Nat

namespace CircularBuffer

variable {b : CircularBuffer α n} {l : List α} {a : α}

def init (n : Nat) (a : α) : CircularBuffer α n := ⟨fun _ => a, 0, n - 1⟩

def empty (b : CircularBuffer α n) : Bool := (b.tail + 1) % n = b.head

def full (b : CircularBuffer α n) : Bool := b.tail = b.head

def store (b : CircularBuffer α n) (a : α) : CircularBuffer α n :=
  { b with slots := Function.update b.slots b.head a, head := (b.head + 1) % n }

/-- To be called before reading `current`. -/
def next (b : CircularBuffer α n) : CircularBuffer α n := { b with tail := (b.tail + 1) % n }

def current (b : CircularBuffer α n) : α := b.slots b.tail

/-- The slot `i` behind the first one. -/
def slot (b : CircularBuffer α n) (i : Nat) : Nat := (b.tail + 1 + i) % n

structure Holds (b : CircularBuffer α n) (l : List α) : Prop where
  tail_lt : b.tail < n
  length_lt : l.length < n
  head : b.head = b.slot l.length
  slots : ∀ i (h : i < l.length), b.slots (b.slot i) = l.get ⟨i, h⟩

/-- What is counted round the buffer once. -/
theorem mod_eq_ite {a n : Nat} (h : a < 2 * n) : a % n = if a < n then a else a - n := by
  split
  · next hlt => exact Nat.mod_eq_of_lt hlt
  · next hge => rw [Nat.mod_eq_sub_mod (by omega), Nat.mod_eq_of_lt (by omega)]

/-- Different places in the buffer are different slots. -/
theorem slot_inj (ht : b.tail < n) {i j : Nat} (hi : i < n) (hj : j < n)
    (h : b.slot i = b.slot j) : i = j := by
  rw [slot, slot, mod_eq_ite (by omega), mod_eq_ite (by omega)] at h
  split at h <;> split at h <;> omega

theorem holds_init (hn : 0 < n) (a : α) : (init n a).Holds [] where
  tail_lt := by
    simp only [init]
    omega
  length_lt := hn
  head := by
    simp only [init, slot, List.length_nil, Nat.add_zero, Nat.sub_add_cancel hn, Nat.mod_self]
  slots _ h := absurd h (Nat.not_lt_zero _)

theorem Holds.empty_iff (h : b.Holds l) : b.empty = true ↔ l = [] := by
  have ht := h.tail_lt
  have hl := h.length_lt
  have hstart : (b.tail + 1) % n = b.slot 0 := rfl
  rw [empty, decide_eq_true_iff, h.head, hstart, ← List.length_eq_zero_iff]
  exact ⟨fun heq => (slot_inj ht (by omega) hl heq).symm, fun heq => by rw [heq]⟩

theorem Holds.full_iff (h : b.Holds l) : b.full = true ↔ l.length + 1 = n := by
  have ht := h.tail_lt
  have hl := h.length_lt
  rw [full, decide_eq_true_iff, h.head, slot, mod_eq_ite (by omega)]
  split <;> omega

/-- **What is stored comes last.** -/
theorem Holds.store (h : b.Holds l) (hfull : b.full = false) (a : α) :
    (b.store a).Holds (l ++ [a]) := by
  have ht := h.tail_lt
  have hl := h.length_lt
  have hne : l.length + 1 ≠ n := mt h.full_iff.mpr (Bool.eq_false_iff.mp hfull)
  have hlength : (l ++ [a]).length = l.length + 1 := by
    rw [List.length_append, List.length_singleton]
  have hslot : ∀ i, (b.store a).slot i = b.slot i := fun _ => rfl
  refine ⟨ht, by omega, ?_, fun i hi => ?_⟩
  · rw [hlength, hslot, CircularBuffer.store, h.head, slot, slot, Nat.mod_add_mod]
    rfl
  · rw [hslot, CircularBuffer.store]
    rw [hlength] at hi
    by_cases hlast : i = l.length
    · subst hlast
      simp only [h.head, Function.update_self, List.get_eq_getElem, List.getElem_concat_length]
    · have hi' : i < l.length := by omega
      have hother : b.slot i ≠ b.head := by
        rw [h.head]
        exact fun heq => hlast (slot_inj ht (by omega) hl heq)
      simp only [Function.update_of_ne hother, h.slots i hi', List.get_eq_getElem,
        List.getElem_append_left hi']

/-- **What has been longest in the buffer is read first.** -/
theorem Holds.next (h : b.Holds (a :: l)) : b.next.Holds l ∧ b.next.current = a := by
  have ht := h.tail_lt
  have hl := h.length_lt
  rw [List.length_cons] at hl
  have hslot : ∀ i, b.next.slot i = b.slot (i + 1) := by
    intro i
    rw [slot, slot, CircularBuffer.next]
    dsimp only
    rw [Nat.add_assoc, Nat.mod_add_mod, Nat.add_comm 1 i, Nat.add_assoc b.tail 1 (i + 1),
      Nat.add_comm 1 (i + 1), Nat.add_assoc]
  refine ⟨⟨Nat.mod_lt _ (by omega), by omega, ?_, fun i hi => ?_⟩, ?_⟩
  · rw [hslot]
    exact h.head
  · rw [hslot]
    exact h.slots (i + 1) (Nat.succ_lt_succ hi)
  · exact h.slots 0 (Nat.succ_pos _)

end CircularBuffer

end DdsApps.Infra
