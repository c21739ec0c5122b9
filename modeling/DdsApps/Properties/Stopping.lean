import DdsApps.Threads.RunCyclic
import DdsApps.Threads.RunSamples

/-!
# Stopping

The flag is looked at once a round. Whatever round the thread is in when the flag is set, it writes
at most the message of this round.

* `Stopped` — the messages written and the one the thread may still write, kept by every step
* `stopping_is_prompt` — both kinds of publishers, in any interleaving
-/

namespace DdsApps.Threads

open DdsApps.Infra

/-! ## The cyclic publishers -/

namespace RunCyclic

variable {μ : Type} {app : App μ} {s t u : State μ}

/-- The messages a stopped thread may still write: it has passed the test, or it has not. -/
def Pc.remaining : Pc → Nat
  | .wait | .waiting | .woken | .publish => 1
  | .notStarted | .lock | .test | .unlock | .exited => 0

/-- Told to stop, and at most `n` messages in the end. -/
structure Stopped (n : Nat) (s : State μ) : Prop where
  flag : s.stop_flag = true
  bound : s.written.length + s.pc.remaining ≤ n

/-- A step of the thread writes the message it may still write, or none. -/
theorem Stopped.thread {n : Nat} (h : Stopped n s) (ht : ThreadStep app s t) : Stopped n t := by
  obtain ⟨hflag, hbound⟩ := h
  cases ht with
  | lock hpc | stop hpc | wait hpc | woken hpc | unlock hpc =>
    exact ⟨hflag, by simpa only [hpc, Pc.remaining] using hbound⟩
  | round hpc hstop =>
    -- this was the last test
    rw [hflag] at hstop
    cases hstop
  | publish hpc =>
    refine ⟨hflag, ?_⟩
    simp only [hpc, Pc.remaining] at hbound
    simpa only [Pc.remaining, List.length_append, List.length_singleton] using hbound

theorem Stopped.step {n : Nat} (h : Stopped n s) {e : Event} (ht : step app s e = some t) :
    Stopped n t := by
  cases step_cases ht with
  | thread ht => exact h.thread ht
  | wake htimer hpc | spurious hpc | start hpc =>
    exact ⟨h.flag, by simpa only [hpc, Pc.remaining] using h.bound⟩
  | abort => exact ⟨rfl, h.bound⟩
  | lose | expire | notify => exact ⟨h.flag, h.bound⟩

theorem Pc.remaining_le_one (pc : Pc) : pc.remaining ≤ 1 := by
  unfold Pc.remaining
  split <;> decide

/-- The handler leaves everything but the flag alone. -/
theorem stopped_of_abort (ht : step app s .abort = some t) :
    Stopped (t.written.length + 1) t := by
  cases ht
  exact ⟨rfl, Nat.add_le_add_left (Pc.remaining_le_one _) _⟩

end RunCyclic

/-! ## The publishers with `run(samples, sleep)` -/

namespace RunSamples

variable {c : Config} {s t u : State}

/-- The messages a stopped thread may still write. -/
def Pc.remaining : Pc → Nat
  | .readFirst | .readMatched | .write => 1
  | .notStarted | .entry | .whileTest | .forTest | .published _ | .sleep | .exited => 0

/-- The same for the endless loop, which a thread that exists does not leave for the other one. -/
structure Stopped (n : Nat) (s : State) : Prop where
  started : s.pc ≠ .notStarted
  flag : s.stop_ = true
  bound : s.written.length + s.pc.remaining ≤ n

theorem Stopped.thread {n : Nat} (hc : c.samples = 0) (h : Stopped n s)
    (ht : ThreadStep c s t) : Stopped n t := by
  obtain ⟨-, hflag, hbound⟩ := h
  cases ht with
  | counting _ hn | failed _ hn | forNext _ hn => exact absurd hc hn
  | whileRound hpc hstop =>
    -- this was the last test
    rw [hflag] at hstop
    cases hstop
  | forRound hpc hlt =>
    rw [hc] at hlt
    exact absurd hlt UInt32.not_lt_zero
  | write hpc =>
    refine ⟨nofun, hflag, ?_⟩
    simp only [hpc, Pc.remaining] at hbound
    simpa only [Pc.remaining, List.length_append, List.length_singleton] using hbound
  | refuse hpc hgate => exact absurd (Or.inl hc) hgate
  | endless hpc | stop hpc | finish hpc | connected hpc | unconnected hpc | pass hpc | sent hpc
  | failedEndless hpc | whileNext hpc =>
    exact ⟨nofun, hflag, by simpa only [hpc, Pc.remaining] using hbound⟩

theorem Stopped.step {n : Nat} (hc : c.samples = 0) (h : Stopped n s) {e : Event}
    (ht : step c s e = some t) : Stopped n t := by
  cases step_cases ht with
  | thread ht => exact h.thread hc ht
  -- `stop_ = false` is behind it
  | start hpc => exact absurd hpc h.started
  | key => exact ⟨h.started, rfl, h.bound⟩
  | notify => exact ⟨h.started, h.flag, h.bound⟩

theorem Pc.remaining_le_one (pc : Pc) : pc.remaining ≤ 1 := by
  unfold Pc.remaining
  split <;> decide

/-- The key is waited for in the endless loop only, and after the thread has been started. -/
theorem stopped_of_key (ht : step c s .key = some t) :
    c.samples = 0 ∧ Stopped (t.written.length + 1) t := by
  cases step_cases ht with
  | key hc hpc => exact ⟨hc, hpc, rfl, Nat.add_le_add_left (Pc.remaining_le_one _) _⟩

end RunSamples

/-! ## Main result -/

/--
**At most one message is written after the flag is set, and the flag stays set.**

The flag is set in a step of any run, and the run goes on in any way. This is so for both cyclic
publishers, whatever their message, and for all configurations of `run(samples, sleep)`.
-/
theorem stopping_is_prompt :
    (∀ (μ : Type) (app : RunCyclic.App μ) (s t u : RunCyclic.State μ) (es : List RunCyclic.Event),
      (RunCyclic.machine app).Reachable s → RunCyclic.step app s .abort = some t →
      (RunCyclic.machine app).run t es = some u →
      u.stop_flag = true ∧ u.written.length ≤ t.written.length + 1) ∧
    ∀ (c : RunSamples.Config) (s t u : RunSamples.State) (es : List RunSamples.Event),
      (RunSamples.machine c).Reachable s → RunSamples.step c s .key = some t →
      (RunSamples.machine c).run t es = some u →
      u.stop_ = true ∧ u.written.length ≤ t.written.length + 1 := by
  constructor
  · intro μ app s t u es _ habort hrun
    have hstopped := Machine.run_invariant (I := RunCyclic.Stopped (t.written.length + 1))
      (fun _ _ _ h ht => h.step ht) (RunCyclic.stopped_of_abort habort) es hrun
    exact ⟨hstopped.flag, Nat.le_of_add_right_le hstopped.bound⟩
  · intro c s t u es _ hkey hrun
    obtain ⟨hc, hstart⟩ := RunSamples.stopped_of_key hkey
    have hstopped := Machine.run_invariant (I := RunSamples.Stopped (t.written.length + 1))
      (fun _ _ _ h ht => h.step hc ht) hstart es hrun
    exact ⟨hstopped.flag, Nat.le_of_add_right_le hstopped.bound⟩

/-- The thread of `CyclicROSDataPublisher` waits for its first cycle. -/
def RunCyclic.firstWait : RunCyclic.State Unit :=
  { RunCyclic.init RunCyclic.CyclicROSDataPublisher.app with pc := .waiting }

/-- It is interrupted there; the timer still goes off. -/
def RunCyclic.interrupted : RunCyclic.State Unit :=
  { RunCyclic.firstWait with pc := .exited, stop_flag := true, written := [()], expirations := 1 }

/-- The thread of `HelloWorldExample` has passed its first test. -/
def RunSamples.firstRound : RunSamples.State :=
  { RunSamples.init ⟨0, true, false⟩ with pc := .readFirst }

/-- The key is pressed there. -/
def RunSamples.keyPressed : RunSamples.State :=
  { RunSamples.firstRound with pc := .exited, stop_ := true, index := 1, written := [1] }

theorem firstRounds_stopped :
    (RunCyclic.interrupted.stop_flag = true ∧ RunCyclic.interrupted.written.length ≤ 1) ∧
    (RunSamples.keyPressed.stop_ = true ∧ RunSamples.keyPressed.written.length ≤ 1) := by
  have hwait : (RunCyclic.machine RunCyclic.CyclicROSDataPublisher.app).exec
      [.start, .thread, .thread, .thread] = some RunCyclic.firstWait := by
    decide
  have hround : (RunSamples.machine ⟨0, true, false⟩).exec [.start, .thread, .thread]
      = some RunSamples.firstRound := by
    decide
  constructor
  · exact stopping_is_prompt.1 Unit _ RunCyclic.firstWait
      { RunCyclic.firstWait with stop_flag := true } RunCyclic.interrupted
      [.expire, .signal, .thread, .thread, .thread, .thread] (Machine.reachable_of_exec hwait) rfl
      (by decide)
  · exact stopping_is_prompt.2 _ RunSamples.firstRound { RunSamples.firstRound with stop_ := true }
      RunSamples.keyPressed [.thread, .thread, .thread, .thread, .thread, .thread]
      (Machine.reachable_of_exec hround) rfl (by decide)

end DdsApps.Threads
