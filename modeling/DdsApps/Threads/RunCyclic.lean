import DdsApps.Infra.Machine
import DdsApps.Threads.Listener

/-!
# `run()` of the cyclic publishers

A POSIX timer, each of whose expirations runs `timer_func` in a thread of its own; the publishing
thread, which waits for `timer_func`'s signal on a condition variable; and the SIGINT handler.

A signal wakes the publishing thread if it is blocked in `pthread_cond_wait` and has no effect
otherwise. POSIX lets `pthread_cond_wait` return without one (`Event.spurious`). With `m` held the
wait always returns 0.

Expirations, signals without effect and spurious wake-ups are counted as ghosts.
-/

namespace DdsApps.Threads

open DdsApps.Infra

namespace RunCyclic

/-- What a publisher does with its message before each write. -/
structure App (μ : Type) where
  /-- `publish_msg_` after `init` -/
  message : μ
  prepare : μ → μ

/-- `CustomMessage`, as far as `publish` sets it. -/
structure CustomMessage where
  index : UInt32
  message : String
deriving DecidableEq, Repr

/-- `CyclicROSDataPublisher` writes the pose it has constructed, each time. -/
def CyclicROSDataPublisher.app : App Unit := ⟨(), id⟩

/-- `ROSTypeDataPublisher` numbers its messages. -/
def ROSTypeDataPublisher.app : App CustomMessage where
  message := ⟨0, ""⟩
  prepare msg :=
    { index := msg.index + 1, message := "BigData" ++ toString ((msg.index + 1) % 10).toNat }

/-- Where the publishing thread is. -/
inductive Pc
  /-- the thread does not exist yet -/
  | notStarted
  /-- `pthread_mutex_lock(&m)` -/
  | lock
  /-- `while (!stop_flag)` -/
  | test
  /-- `pthread_cond_wait(&cond, &m)` is called -/
  | wait
  /-- blocked in it -/
  | waiting
  /-- woken in it, `m` not yet taken back -/
  | woken
  /-- it has returned 0 -/
  | publish
  /-- `pthread_mutex_unlock(&m)` -/
  | unlock
  | exited
deriving DecidableEq, Repr

variable {μ : Type}

structure State (μ : Type) where
  pc : Pc
  /-- `m` is held -/
  m : Bool
  stop_flag : Bool
  listener : PubListener
  message : μ
  written : List μ
  /-- the calls of `timer_func` that have not signalled yet -/
  timerFuncs : Nat
  expirations : Nat
  /-- the signals nobody waited for -/
  lost : Nat
  spurious : Nat
deriving DecidableEq, Repr

inductive Event
  /-- the timer expires -/
  | expire
  /-- one `timer_func` calls `pthread_cond_signal(&cond)` -/
  | signal
  /-- `pthread_cond_wait` wakes up by itself -/
  | spurious
  /-- `abort_handler` -/
  | abort
  /-- Fast DDS calls the listener -/
  | notify (info : MatchedStatus)
  /-- `run` starts the thread -/
  | start
  /-- the publishing thread takes its next step -/
  | thread
deriving DecidableEq, Repr

/-- The timer has just been armed; the thread is not started. -/
def init (app : App μ) : State μ :=
  { pc := .notStarted, m := false, stop_flag := false, listener := .initial
    message := app.message, written := [], timerFuncs := 0, expirations := 0, lost := 0
    spurious := 0 }

/-- `publish(false)` -/
def publish (app : App μ) (s : State μ) : State μ :=
  if s.listener.gate false then
    { s with message := app.prepare s.message, written := s.written ++ [app.prepare s.message] }
  else s

/-- `runThread`, step by step. -/
def threadStep (app : App μ) (s : State μ) : Option (State μ) :=
  match s.pc with
  | .notStarted => none
  | .lock => if s.m then none else some { s with m := true, pc := .test }
  | .test => some { s with pc := if s.stop_flag then .unlock else .wait }
  | .wait => some { s with m := false, pc := .waiting }
  | .waiting => none
  | .woken => if s.m then none else some { s with m := true, pc := .publish }
  | .publish => some { publish app s with pc := .test }
  | .unlock => some { s with m := false, pc := .exited }
  | .exited => none

def step (app : App μ) (s : State μ) : Event → Option (State μ)
  | .expire => some { s with expirations := s.expirations + 1, timerFuncs := s.timerFuncs + 1 }
  | .signal =>
    if s.timerFuncs = 0 then none
    else if s.pc = .waiting then some { s with timerFuncs := s.timerFuncs - 1, pc := .woken }
    -- nobody waits: the signal has no effect, and nothing remembers it
    else some { s with timerFuncs := s.timerFuncs - 1, lost := s.lost + 1 }
  | .spurious =>
    if s.pc = .waiting then some { s with spurious := s.spurious + 1, pc := .woken } else none
  | .abort => some { s with stop_flag := true }
  | .notify info => some { s with listener := s.listener.on_publication_matched info }
  | .start => if s.pc = .notStarted then some { s with pc := .lock } else none
  | .thread => threadStep app s

def machine (app : App μ) : Machine (State μ) Event := ⟨init app, step app⟩

/-- `publish(false)` does not wait for anybody. -/
theorem publish_eq (app : App μ) (s : State μ) :
    publish app s =
      { s with
        message := app.prepare s.message, written := s.written ++ [app.prepare s.message] } := by
  unfold publish
  rw [if_pos (by simp [PubListener.gate])]

/-! ## What a step can do -/

/-- The steps of the publishing thread, by where it is. -/
inductive ThreadStep (app : App μ) (s : State μ) : State μ → Prop
  | lock (hpc : s.pc = .lock) (hm : s.m = false) :
    ThreadStep app s { s with m := true, pc := .test }
  | stop (hpc : s.pc = .test) (hstop : s.stop_flag = true) :
    ThreadStep app s { s with pc := .unlock }
  | round (hpc : s.pc = .test) (hstop : s.stop_flag = false) :
    ThreadStep app s { s with pc := .wait }
  | wait (hpc : s.pc = .wait) : ThreadStep app s { s with m := false, pc := .waiting }
  | woken (hpc : s.pc = .woken) (hm : s.m = false) :
    ThreadStep app s { s with m := true, pc := .publish }
  | publish (hpc : s.pc = .publish) : ThreadStep app s { s with
      message := app.prepare s.message, written := s.written ++ [app.prepare s.message]
      pc := .test }
  | unlock (hpc : s.pc = .unlock) : ThreadStep app s { s with m := false, pc := .exited }

variable {app : App μ} {s t : State μ}

theorem threadStep_cases (ht : threadStep app s = some t) : ThreadStep app s t := by
  cases hpc : s.pc
  all_goals simp only [threadStep, hpc, publish_eq, reduceCtorEq, Option.some.injEq] at ht
  case lock =>
    split at ht
    · cases ht
    · next hm =>
      cases ht
      exact .lock hpc (Bool.eq_false_iff.mpr hm)
  case woken =>
    split at ht
    · cases ht
    · next hm =>
      cases ht
      exact .woken hpc (Bool.eq_false_iff.mpr hm)
  case test =>
    subst ht
    split
    · next hstop => exact .stop hpc hstop
    · next hstop => exact .round hpc (Bool.eq_false_iff.mpr hstop)
  all_goals subst ht
  case wait => exact .wait hpc
  case publish => exact .publish hpc
  case unlock => exact .unlock hpc

/-- The steps of all parties. -/
inductive Step (app : App μ) (s : State μ) : Event → State μ → Prop
  | expire : Step app s .expire
      { s with expirations := s.expirations + 1, timerFuncs := s.timerFuncs + 1 }
  | wake (htimer : s.timerFuncs ≠ 0) (hpc : s.pc = .waiting) :
    Step app s .signal { s with timerFuncs := s.timerFuncs - 1, pc := .woken }
  | lose (htimer : s.timerFuncs ≠ 0) (hpc : s.pc ≠ .waiting) :
    Step app s .signal { s with timerFuncs := s.timerFuncs - 1, lost := s.lost + 1 }
  | spurious (hpc : s.pc = .waiting) :
    Step app s .spurious { s with spurious := s.spurious + 1, pc := .woken }
  | abort : Step app s .abort { s with stop_flag := true }
  | notify (info : MatchedStatus) :
    Step app s (.notify info) { s with listener := s.listener.on_publication_matched info }
  | start (hpc : s.pc = .notStarted) : Step app s .start { s with pc := .lock }
  | thread {t : State μ} (h : ThreadStep app s t) : Step app s .thread t

theorem step_cases {e : Event} (ht : step app s e = some t) : Step app s e t := by
  cases e with
  | thread => exact .thread (threadStep_cases ht)
  | signal =>
    simp only [step] at ht
    split at ht
    · cases ht
    · next htimer =>
      split at ht
      · next hpc =>
        cases ht
        exact .wake htimer hpc
      · next hpc =>
        cases ht
        exact .lose htimer hpc
  | spurious =>
    simp only [step] at ht
    split at ht
    · next hpc =>
      cases ht
      exact .spurious hpc
    · cases ht
  | start =>
    simp only [step] at ht
    split at ht
    · next hpc =>
      cases ht
      exact .start hpc
    · cases ht
  | expire =>
    cases ht
    exact .expire
  | abort =>
    cases ht
    exact .abort
  | notify info =>
    cases ht
    exact .notify info

end RunCyclic

end DdsApps.Threads
