import DdsApps.Infra.Machine
import DdsApps.Threads.Listener

/-!
# `run(samples, sleep)`

The thread of a `HelloWorldPublisher` that writes a given number of messages, or until a key is
pressed where the number is 0; the main thread that starts and stops it; and the listener, which
Fast DDS calls at any moment.

A step is one access to what the threads share. The messages written and the statuses told are
kept as ghosts. The `HelloWorldExample` publisher clears `stop_` in `run`, the TCP publisher in
`init`; in the shared-memory publisher it is called `stop`.
-/

namespace DdsApps.Threads

open DdsApps.Infra

namespace RunSamples

/-- Where the publishing thread is; the names are those of what comes next. -/
inductive Pc
  /-- the thread does not exist yet -/
  | notStarted
  /-- `if (samples == 0)` -/
  | entry
  /-- `while (!stop_)` -/
  | whileTest
  /-- `i < samples` -/
  | forTest
  /-- `publish`: `listener_.first_connected_` -/
  | readFirst
  /-- `publish`: `!waitForListener || listener_.matched_ > 0` -/
  | readMatched
  /-- `publish`: the message is numbered and written -/
  | write
  /-- `publish` has returned -/
  | published (sent : Bool)
  /-- `sleep_for`, and the end of the loop body -/
  | sleep
  | exited
deriving DecidableEq, Repr

structure Config where
  samples : UInt32
  /-- `run` begins with `stop_ = false` -/
  clearsStop : Bool
  /-- `stop_` before `run` -/
  stop_ : Bool

structure State where
  pc : Pc
  i : UInt32
  stop_ : Bool
  listener : PubListener
  /-- `hello_.index()` -/
  index : UInt32
  /-- the indices of the messages written, in order -/
  written : List UInt32
  /-- the statuses the listener has been told, the last one first -/
  notified : List MatchedStatus
deriving DecidableEq, Repr

/-- The last status told. -/
def State.status (s : State) : MatchedStatus := s.notified.headD .initial

inductive Event
  /-- `run` starts the thread -/
  | start
  /-- the key that ends endless publishing -/
  | key
  /-- Fast DDS calls the listener -/
  | notify (info : MatchedStatus)
  /-- the thread takes its next step -/
  | thread

/-- After `init`, before `run`. -/
def init (c : Config) : State :=
  { pc := .notStarted, i := 0, stop_ := c.stop_, listener := .initial, index := 0, written := []
    notified := [] }

/-- `runThread`, step by step. `publish()` waits for a listener, `publish(false)` does not. -/
def threadStep (c : Config) (s : State) : Option State :=
  match s.pc with
  | .notStarted => none
  | .entry =>
    if c.samples = 0 then some { s with pc := .whileTest }
    else some { s with pc := .forTest, i := 0 }
  | .whileTest => some { s with pc := if s.stop_ then .exited else .readFirst }
  | .forTest => some { s with pc := if s.i < c.samples then .readFirst else .exited }
  | .readFirst =>
    some { s with pc := if s.listener.first_connected_ then .write else .readMatched }
  | .readMatched =>
    some { s with
      pc := if c.samples = 0 ∨ s.listener.matched_ > 0 then .write else .published false }
  | .write =>
    some { s with
      index := s.index + 1, written := s.written ++ [s.index + 1], pc := .published true }
  | .published sent =>
    -- only the counting loop takes a failed attempt back
    some { s with i := if sent || c.samples = 0 then s.i else s.i - 1, pc := .sleep }
  | .sleep =>
    if c.samples = 0 then some { s with pc := .whileTest }
    else some { s with i := s.i + 1, pc := .forTest }
  | .exited => none

def step (c : Config) (s : State) : Event → Option State
  | .start =>
    if s.pc = .notStarted then
      some { s with pc := .entry, stop_ := if c.clearsStop then false else s.stop_ }
    else none
  | .key =>
    if c.samples = 0 ∧ s.pc ≠ .notStarted then some { s with stop_ := true } else none
  | .notify info =>
    if s.status.Follows info then
      some { s with
        listener := s.listener.on_publication_matched info, notified := info :: s.notified }
    else none
  | .thread => threadStep c s

def machine (c : Config) : Machine State Event := ⟨init c, step c⟩

/-- Each notification tells of one peer. -/
def SinglePeer (_ : State) : Event → Prop
  | .notify info => info.current_count_change = 1 ∨ info.current_count_change = -1
  | _ => True

instance (s : State) : (e : Event) → Decidable (SinglePeer s e)
  | .notify _ => inferInstanceAs (Decidable (_ ∨ _))
  | .start | .key | .thread => isTrue trivial

/-! ## What a step can do -/

/-- The steps of the thread, by where it is and which of the loops it is in. -/
inductive ThreadStep (c : Config) (s : State) : State → Prop
  | endless (hpc : s.pc = .entry) (hc : c.samples = 0) : ThreadStep c s { s with pc := .whileTest }
  | counting (hpc : s.pc = .entry) (hc : c.samples ≠ 0) :
    ThreadStep c s { s with pc := .forTest, i := 0 }
  | stop (hpc : s.pc = .whileTest) (hstop : s.stop_ = true) :
    ThreadStep c s { s with pc := .exited }
  | whileRound (hpc : s.pc = .whileTest) (hstop : s.stop_ = false) :
    ThreadStep c s { s with pc := .readFirst }
  | forRound (hpc : s.pc = .forTest) (hlt : s.i < c.samples) :
    ThreadStep c s { s with pc := .readFirst }
  | finish (hpc : s.pc = .forTest) (hge : ¬s.i < c.samples) :
    ThreadStep c s { s with pc := .exited }
  | connected (hpc : s.pc = .readFirst) (hfirst : s.listener.first_connected_ = true) :
    ThreadStep c s { s with pc := .write }
  | unconnected (hpc : s.pc = .readFirst) (hfirst : s.listener.first_connected_ = false) :
    ThreadStep c s { s with pc := .readMatched }
  | pass (hpc : s.pc = .readMatched) (hgate : c.samples = 0 ∨ s.listener.matched_ > 0) :
    ThreadStep c s { s with pc := .write }
  | refuse (hpc : s.pc = .readMatched) (hgate : ¬(c.samples = 0 ∨ s.listener.matched_ > 0)) :
    ThreadStep c s { s with pc := .published false }
  | write (hpc : s.pc = .write) : ThreadStep c s { s with
      index := s.index + 1, written := s.written ++ [s.index + 1], pc := .published true }
  | sent (hpc : s.pc = .published true) : ThreadStep c s { s with pc := .sleep }
  | failed (hpc : s.pc = .published false) (hc : c.samples ≠ 0) :
    ThreadStep c s { s with i := s.i - 1, pc := .sleep }
  | failedEndless (hpc : s.pc = .published false) (hc : c.samples = 0) :
    ThreadStep c s { s with pc := .sleep }
  | whileNext (hpc : s.pc = .sleep) (hc : c.samples = 0) :
    ThreadStep c s { s with pc := .whileTest }
  | forNext (hpc : s.pc = .sleep) (hc : c.samples ≠ 0) :
    ThreadStep c s { s with i := s.i + 1, pc := .forTest }

variable {c : Config} {s t : State}

theorem threadStep_cases (ht : threadStep c s = some t) : ThreadStep c s t := by
  cases hpc : s.pc
  all_goals simp only [threadStep, hpc, reduceCtorEq, Option.some.injEq] at ht
  case entry =>
    split at ht
    · next hc =>
      cases ht
      exact .endless hpc hc
    · next hc =>
      cases ht
      exact .counting hpc hc
  case sleep =>
    split at ht
    · next hc =>
      cases ht
      exact .whileNext hpc hc
    · next hc =>
      cases ht
      exact .forNext hpc hc
  all_goals subst ht
  case whileTest =>
    split
    · next hstop => exact .stop hpc hstop
    · next hstop => exact .whileRound hpc (Bool.eq_false_iff.mpr hstop)
  case forTest =>
    split
    · next hlt => exact .forRound hpc hlt
    · next hge => exact .finish hpc hge
  case readFirst =>
    split
    · next hfirst => exact .connected hpc hfirst
    · next hfirst => exact .unconnected hpc (Bool.eq_false_iff.mpr hfirst)
  case readMatched =>
    split
    · next hgate => exact .pass hpc hgate
    · next hgate => exact .refuse hpc hgate
  case write => exact .write hpc
  case published sent =>
    cases sent with
    | true => exact .sent hpc
    | false =>
      by_cases hc : c.samples = 0
      · simp only [hc, Bool.false_or, decide_true, if_true]
        exact .failedEndless hpc hc
      · simp only [hc, Bool.false_or, decide_false, Bool.false_eq_true, if_false]
        exact .failed hpc hc

/-- The thread does not touch what Fast DDS has told. -/
theorem threadStep_listener (ht : ThreadStep c s t) :
    t.listener = s.listener ∧ t.notified = s.notified := by
  cases ht
  all_goals exact ⟨rfl, rfl⟩

/-- The steps of all parties. -/
inductive Step (c : Config) (s : State) : Event → State → Prop
  | start (hpc : s.pc = .notStarted) : Step c s .start
      { s with pc := .entry, stop_ := if c.clearsStop then false else s.stop_ }
  | key (hc : c.samples = 0) (hpc : s.pc ≠ .notStarted) : Step c s .key { s with stop_ := true }
  | notify {info : MatchedStatus} (hfollows : s.status.Follows info) : Step c s (.notify info)
      { s with listener := s.listener.on_publication_matched info, notified := info :: s.notified }
  | thread {t : State} (h : ThreadStep c s t) : Step c s .thread t

theorem step_cases {e : Event} (ht : step c s e = some t) : Step c s e t := by
  cases e with
  | start =>
    simp only [step] at ht
    split at ht
    · next hpc =>
      cases ht
      exact .start hpc
    · cases ht
  | key =>
    simp only [step] at ht
    split at ht
    · next henabled =>
      cases ht
      exact .key henabled.1 henabled.2
    · cases ht
  | notify info =>
    simp only [step] at ht
    split at ht
    · next hfollows =>
      cases ht
      exact .notify hfollows
    · cases ht
  | thread => exact .thread (threadStep_cases ht)

end RunSamples

end DdsApps.Threads
