import DdsApps.Threads.Publish
import DdsApps.Threads.RunSamples

/-!
# The publishing thread and its message

`RunSamples` has the thread and what it shares with the listener and the main thread; `Publish` has
the message and what `publish` does with it. Here the thread writes the message of its program.
-/

namespace DdsApps.Threads

open DdsApps.Infra

namespace Publisher

variable {μ : Type}

structure State (μ : Type) where
  thread : RunSamples.State
  /-- `hello_` -/
  message : μ
  /-- what the writer has been given, in order -/
  written : List μ
deriving DecidableEq, Repr

/-- The next step of the thread is the one that writes. -/
def Writes (s : State μ) : RunSamples.Event → Prop
  | .thread => s.thread.pc = .write
  | .start | .key | .notify _ => False

instance (s : State μ) : (e : RunSamples.Event) → Decidable (Writes s e)
  | .thread => inferInstanceAs (Decidable (_ = _))
  | .start | .key | .notify _ => isFalse id

def init (app : Publish.App μ) (c : RunSamples.Config) : State μ :=
  { thread := RunSamples.init c, message := app.message, written := [] }

def step (app : Publish.App μ) (c : RunSamples.Config) (s : State μ) (e : RunSamples.Event) :
    Option (State μ) :=
  (RunSamples.step c s.thread e).bind fun thread =>
    if Writes s e then
      (app.prepare s.message).map fun message =>
        { thread, message, written := s.written ++ [message] }
    else some { s with thread }

def machine (app : Publish.App μ) (c : RunSamples.Config) : Machine (State μ) RunSamples.Event :=
  ⟨init app c, step app c⟩

/-! ## What a step can do -/

/-- A step that writes, and one that does not. -/
inductive Step (app : Publish.App μ) (c : RunSamples.Config) (s : State μ) :
    RunSamples.Event → State μ → Prop
  | write {message : μ} (hpc : s.thread.pc = .write) (hprepare : app.prepare s.message = some message) :
    Step app c s .thread
      { thread := { s.thread with
          index := s.thread.index + 1, written := s.thread.written ++ [s.thread.index + 1]
          pc := .published true }
        message, written := s.written ++ [message] }
  | other {e : RunSamples.Event} {thread : RunSamples.State} (hwrites : ¬Writes s e)
      (hthread : RunSamples.step c s.thread e = some thread) : Step app c s e { s with thread }

variable {app : Publish.App μ} {c : RunSamples.Config} {s t : State μ}

theorem step_cases {e : RunSamples.Event} (ht : step app c s e = some t) : Step app c s e t := by
  obtain ⟨thread, hthread, ht⟩ := Option.bind_eq_some_iff.mp ht
  by_cases hwrites : Writes s e
  · rw [if_pos hwrites] at ht
    obtain ⟨message, hprepare, rfl⟩ := Option.map_eq_some_iff.mp ht
    cases e with
    | thread =>
      have hpc : s.thread.pc = .write := hwrites
      simp only [RunSamples.step, RunSamples.threadStep, hpc, Option.some.injEq] at hthread
      subst hthread
      exact .write hpc hprepare
    | start | key | notify => cases hwrites
  · rw [if_neg hwrites] at ht
    cases ht
    exact .other hwrites hthread

/-- The thread steps, whatever is written. -/
theorem thread_of_step {e : RunSamples.Event} (ht : step app c s e = some t) :
    RunSamples.step c s.thread e = some t.thread := by
  obtain ⟨thread, hthread, ht⟩ := Option.bind_eq_some_iff.mp ht
  split at ht
  · obtain ⟨message, -, rfl⟩ := Option.map_eq_some_iff.mp ht
    exact hthread
  · cases ht
    exact hthread

end Publisher

end DdsApps.Threads
