import DdsApps.Infra.Machine
import DdsApps.Threads.Listener
import DdsApps.Types.HelloWorld

/-!
# `publish(waitForListener)`

A publisher between the calls of `publish`: its listener, the message it keeps, and what its writer
has been given. Calls and notifications come in any order. The statuses told are kept as ghosts.

What a call does with the message before it is written differs from program to program; it may go
wrong by writing outside the message.
-/

namespace DdsApps.Threads

open DdsApps.Infra
open DdsApps.Types (HelloWorld)

namespace Publish

/-- The message of a publisher. -/
structure App (μ : Type) where
  /-- `hello_` after `init` -/
  message : μ
  /-- what `publish` does before `write`; `none` where a byte outside the message is written -/
  prepare : μ → Option μ

/-- The TCP publisher and the one with data sharing do the same. -/
def HelloWorldExample.app : App HelloWorld where
  message := { HelloWorld.new with index := 0, message := bytes "HelloWorld" }
  prepare hello_ := some { hello_ with index := hello_.index + 1 }

variable {μ : Type}

structure State (μ : Type) where
  listener : PubListener
  message : μ
  /-- what the writer has been given, in order -/
  written : List μ
  /-- the statuses the listener has been told, the last one first -/
  notified : List MatchedStatus
deriving DecidableEq, Repr

/-- The last status told. -/
def State.status (s : State μ) : MatchedStatus := s.notified.headD .initial

inductive Event
  | notify (info : MatchedStatus)
  | publish (waitForListener : Bool)
deriving DecidableEq, Repr

def init (app : App μ) : State μ :=
  { listener := .initial, message := app.message, written := [], notified := [] }

/-- What is returned, and the state after the call. -/
def publish (app : App μ) (waitForListener : Bool) (s : State μ) : Option (Bool × State μ) :=
  if s.listener.gate waitForListener then
    (app.prepare s.message).map fun message =>
      (true, { s with message := message, written := s.written ++ [message] })
  else some (false, s)

def step (app : App μ) (s : State μ) : Event → Option (State μ)
  | .notify info =>
    if s.status.Follows info then
      some { s with
        listener := s.listener.on_publication_matched info, notified := info :: s.notified }
    else none
  | .publish waitForListener => (publish app waitForListener s).map Prod.snd

def machine (app : App μ) : Machine (State μ) Event := ⟨init app, step app⟩

/-! ## What a step can do -/

variable {app : App μ} {s t : State μ}

/-- A call that writes, and one that does not. -/
theorem publish_cases {waitForListener sent : Bool}
    (h : publish app waitForListener s = some (sent, t)) :
    (sent = true ∧ ∃ message, app.prepare s.message = some message ∧
      t = { s with message := message, written := s.written ++ [message] }) ∨
    (sent = false ∧ t = s) := by
  unfold publish at h
  split at h
  · obtain ⟨message, hprepare, heq⟩ := Option.map_eq_some_iff.mp h
    cases heq
    exact Or.inl ⟨rfl, message, hprepare, rfl⟩
  · cases h
    exact Or.inr ⟨rfl, rfl⟩

theorem step_cases {e : Event} (h : step app s e = some t) :
    (∃ info, e = .notify info ∧ s.status.Follows info ∧
      t = { s with
        listener := s.listener.on_publication_matched info, notified := info :: s.notified }) ∨
    (∃ message, app.prepare s.message = some message ∧
      t = { s with message := message, written := s.written ++ [message] }) ∨
    t = s := by
  cases e with
  | notify info =>
    simp only [step] at h
    split at h
    · next hfollows =>
      cases h
      exact Or.inl ⟨info, rfl, hfollows, rfl⟩
    · cases h
  | publish waitForListener =>
    obtain ⟨⟨sent, u⟩, hpublish, rfl⟩ := Option.map_eq_some_iff.mp h
    rcases publish_cases hpublish with ⟨-, hwritten⟩ | ⟨-, rfl⟩
    · exact Or.inr (Or.inl hwritten)
    · exact Or.inr (Or.inr rfl)

end Publish

end DdsApps.Threads
