import DdsApps.Properties.MatchedCount
import DdsApps.Threads.Publish

/-!
# The waiting gate

`publish(true)` writes once a reader has been seen. The listener takes notice of a notification
only if it tells of one peer; two readers that are told of together leave the gate closed.

* `Accepted` — what the listener takes notice of
* `Seen` — how the gate and the last status hang together, kept by every step
* `waiting_gate_iff` — the gate is open exactly once a notification has been accepted
* `two_readers_unseen` — two readers are matched, and nothing is written
-/

namespace DdsApps.Threads.Publish

open DdsApps.Infra
open DdsApps.Types (HelloWorld)

variable {μ : Type} {app : App μ} {s t : State μ}

/-- The values of `current_count_change` the listener calls valid. -/
def Accepted (info : MatchedStatus) : Prop :=
  info.current_count_change = 1 ∨ info.current_count_change = -1

/-! ## One notification -/

theorem gate_true_iff {l : PubListener} :
    l.gate true = true ↔ l.first_connected_ = true ∨ 0 < l.matched_ := by
  simp [PubListener.gate]

/-- What the listener does not accept, it drops. -/
theorem on_publication_matched_of_not_accepted {l : PubListener} {info : MatchedStatus}
    (h : ¬Accepted info) : l.on_publication_matched info = l := by
  obtain ⟨hmatch, hleft⟩ := not_or.mp h
  simp only [PubListener.on_publication_matched, matchedAfter, if_neg hmatch, if_neg hleft]

/-- An accepted notification opens the gate: it tells of a reader that is there or was there. -/
theorem gate_of_accepted {l : PubListener} {info : MatchedStatus} (h : Accepted info)
    (htotal : 1 ≤ info.total_count) : (l.on_publication_matched info).gate true = true := by
  rw [gate_true_iff]
  rcases h with hmatch | hleft
  · exact Or.inl (if_pos hmatch)
  · right
    simp only [PubListener.on_publication_matched, matchedAfter, hleft]
    exact htotal

/-- One peer that comes, or leaves, has been counted. -/
theorem total_of_accepted {prev info : MatchedStatus}
    (h : prev.Follows info) (hprev : prev.current_count ≤ prev.total_count)
    (hnonneg : 0 ≤ prev.current_count) (haccepted : Accepted info) : 1 ≤ info.total_count := by
  have hcurrent := h.current
  have hcurrent' := h.nonneg
  have hmatches := h.matches_nonneg
  have hdepartures := h.departures_nonneg
  rcases haccepted with hmatch | hleft
  · omega
  · -- it was matched before it left
    omega

/-! ## Every run -/

structure Seen (s : State μ) : Prop where
  nonneg : 0 ≤ s.status.current_count
  current_le : s.status.current_count ≤ s.status.total_count
  gate : s.listener.gate true = true ↔ ∃ info ∈ s.notified, Accepted info
  total : (∃ info ∈ s.notified, Accepted info) → 1 ≤ s.status.total_count

theorem Seen.init (app : App μ) : Seen (init app) where
  nonneg := Int.le_refl 0
  current_le := Int.le_refl 0
  gate := iff_of_false (by simp [gate_true_iff, Publish.init, PubListener.initial])
    (fun ⟨_, hmem, _⟩ => absurd hmem List.not_mem_nil)
  total := fun ⟨_, hmem, _⟩ => absurd hmem List.not_mem_nil

theorem Seen.notify (h : Seen s) {info : MatchedStatus} (hfollows : s.status.Follows info) :
    Seen { s with
      listener := s.listener.on_publication_matched info, notified := info :: s.notified } := by
  have hcurrent := hfollows.current_le_total h.current_le
  by_cases haccepted : Accepted info
  · have htotal := total_of_accepted hfollows h.current_le h.nonneg haccepted
    have hnow : ∃ info' ∈ info :: s.notified, Accepted info' :=
      ⟨info, List.mem_cons_self .., haccepted⟩
    exact ⟨hfollows.nonneg, hcurrent, iff_of_true (gate_of_accepted haccepted htotal) hnow,
      fun _ => htotal⟩
  · -- nothing changes but the counts, which the listener does not look at
    have hiff : (∃ info' ∈ info :: s.notified, Accepted info') ↔
        ∃ info' ∈ s.notified, Accepted info' := by
      simp only [List.mem_cons, exists_eq_or_imp, haccepted, false_or]
    refine ⟨hfollows.nonneg, hcurrent, ?_, ?_⟩
    · rw [hiff, on_publication_matched_of_not_accepted haccepted]
      exact h.gate
    · rw [hiff]
      exact fun hseen => Int.le_trans (h.total hseen) hfollows.matches_nonneg

theorem Seen.step (h : Seen s) {e : Event} (ht : step app s e = some t) : Seen t := by
  rcases step_cases ht with ⟨info, -, hfollows, rfl⟩ | ⟨message, -, rfl⟩ | rfl
  · exact h.notify hfollows
  · exact ⟨h.nonneg, h.current_le, h.gate, h.total⟩
  · exact h

theorem seen_of_reachable (hs : (machine app).Reachable s) : Seen s :=
  Machine.invariant (Seen.init app) (fun _ _ _ _ h ht => h.step ht) hs

/--
**`publish(true)` writes exactly if a notification so far has told of one peer.**

Then at least one reader has been matched. Otherwise it returns false, and has touched nothing.
-/
theorem waiting_gate_iff (hs : (machine app).Reachable s) :
    ((∃ info ∈ s.notified, Accepted info) →
      1 ≤ s.status.total_count ∧
      publish app true s = (app.prepare s.message).map fun message =>
        (true, { s with message := message, written := s.written ++ [message] })) ∧
    ((¬∃ info ∈ s.notified, Accepted info) → publish app true s = some (false, s)) := by
  have hseen := seen_of_reachable hs
  constructor
  · intro haccepted
    exact ⟨hseen.total haccepted, if_pos (hseen.gate.mpr haccepted)⟩
  · intro hnone
    exact if_neg (mt hseen.gate.mp hnone)

/-- A reader comes, another comes together with a third, and one leaves. -/
def threeReaders : List Event := [.notify ⟨1, 1, 1⟩, .notify ⟨3, 3, 2⟩, .notify ⟨3, 2, -1⟩]

def afterThreeReaders : State HelloWorld :=
  { listener := ⟨3, true⟩, message := ⟨0, bytes "HelloWorld"⟩, written := []
    notified := [⟨3, 2, -1⟩, ⟨3, 3, 2⟩, ⟨1, 1, 1⟩] }

theorem threeReaders_written :
    publish HelloWorldExample.app true afterThreeReaders = some (true, { afterThreeReaders with
      message := ⟨1, bytes "HelloWorld"⟩, written := [⟨1, bytes "HelloWorld"⟩] }) := by
  have hexec : (machine HelloWorldExample.app).exec threeReaders = some afterThreeReaders := by
    rfl
  exact ((waiting_gate_iff (Machine.reachable_of_exec hexec)).1
    ⟨⟨1, 1, 1⟩, by decide, Or.inl rfl⟩).2

/-- **Two readers that are told of together are not seen.** -/
theorem two_readers_unseen :
    ¬∀ s, (machine HelloWorldExample.app).Reachable s →
      ((∃ t, publish HelloWorldExample.app true s = some (true, t)) ↔
        1 ≤ s.status.total_count) := by
  intro hall
  have hexec : (machine HelloWorldExample.app).exec [.notify ⟨2, 2, 2⟩] = some
      { init HelloWorldExample.app with notified := [⟨2, 2, 2⟩] } := by
    rfl
  obtain ⟨t, ht⟩ := (hall _ (Machine.reachable_of_exec hexec)).mpr (by decide)
  cases ht

end DdsApps.Threads.Publish
