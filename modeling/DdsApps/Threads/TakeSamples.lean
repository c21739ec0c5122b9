import DdsApps.Infra.Machine
import DdsApps.Threads.Listener

/-!
# Taking samples

The reader's samples, the notifications of them, and the `on_data_available` of a subscriber, which
takes one sample a call.

A notification is given for the samples that have arrived since the one before it, however many
these are. The reader keeps what is not taken, and the instance stays alive. What a subscriber
does with a message it has counted (printing, showing an image) is left out.
-/

namespace DdsApps.Threads

open DdsApps.Infra

namespace TakeSamples

inductive InstanceState
  | alive
  | notAliveDisposed
  | notAliveNoWriters
deriving DecidableEq, Repr

/-- `SampleInfo`, as far as it is read. -/
structure SampleInfo where
  instance_state : InstanceState
  valid_data : Bool
deriving DecidableEq, Repr

/-- How a subscriber looks at what it has taken. -/
structure App where
  /-- the condition under which the sample is used -/
  keeps : SampleInfo → Bool
  /-- `samples_++` on the samples that are used -/
  counts : Bool

def keepsAlive (info : SampleInfo) : Bool := info.instance_state == .alive

def keepsValid (info : SampleInfo) : Bool := info.valid_data

def HelloWorldExample.app : App := ⟨keepsAlive, true⟩

def ImageTest.app : App := ⟨keepsAlive, true⟩

def HelloWorldExampleTCP.app : App := ⟨keepsValid, true⟩

def HelloWorldExampleSharedMem.app : App := ⟨keepsValid, true⟩

/-- This listener has no `samples_`. -/
def CustomROSTypeDataSubscriber.app : App := ⟨keepsAlive, false⟩

/-- A sample in the reader's history. -/
structure Sample where
  valid_data : Bool
deriving DecidableEq, Repr

structure State where
  /-- the samples of the reader's history, the oldest first -/
  untaken : List Sample
  /-- the samples that have arrived since the last notification -/
  unnotified : Nat
  /-- the notifications whose callback has not run -/
  pending : Nat
  listener : SubListener
  /-- the samples that have been taken, in order -/
  taken : List Sample
  /-- the samples that had to share a notification with an earlier one -/
  coalesced : Nat
deriving DecidableEq, Repr

/-- All samples, in the order they came in. -/
def State.arrived (s : State) : List Sample := s.taken ++ s.untaken

inductive Event
  | arrive (sample : Sample)
  /-- Fast DDS notes that there is something to take -/
  | notify
  /-- it calls the listener for one notification -/
  | callback
deriving DecidableEq, Repr

def init : State :=
  { untaken := [], unnotified := 0, pending := 0, listener := .initial, taken := []
    coalesced := 0 }

/-- `take_next_sample`: the oldest sample, and `RETCODE_OK` if there is one. -/
def takeNextSample (s : State) : Option (SampleInfo × State) :=
  match s.untaken with
  | [] => none
  | sample :: rest =>
    some (⟨.alive, sample.valid_data⟩, { s with untaken := rest, taken := s.taken ++ [sample] })

def onDataAvailable (app : App) (s : State) : State :=
  match takeNextSample s with
  | none => s
  | some (info, t) =>
    if app.keeps info && app.counts then
      { t with listener := { t.listener with samples_ := t.listener.samples_ + 1 } }
    else t

def step (app : App) (s : State) : Event → Option State
  | .arrive sample =>
    some { s with untaken := s.untaken ++ [sample], unnotified := s.unnotified + 1 }
  | .notify =>
    if s.unnotified = 0 then none
    else
      some { s with
        unnotified := 0, pending := s.pending + 1
        coalesced := s.coalesced + (s.unnotified - 1) }
  | .callback =>
    if s.pending = 0 then none
    else some (onDataAvailable app { s with pending := s.pending - 1 })

def machine (app : App) : Machine State Event := ⟨init, step app⟩

/-- `while (number > listener_.samples_)` of `run(number)` goes on. -/
def runWaits (number : UInt32) (s : State) : Bool := number > s.listener.samples_

/-- Everything that arrived has been notified, and every notification handled. -/
structure Handled (s : State) : Prop where
  unnotified : s.unnotified = 0
  pending : s.pending = 0

end TakeSamples

end DdsApps.Threads
