import DdsApps.Threads.TakeSamples

/-!
# The instance a sample belongs to

A reader of one topic without keys: its only instance, the writers that keep it alive, and the
samples that have not been taken. A sample carries data, or tells that the instance is not alive any
more; `instance_state` is filled in when it is taken.

What has been taken is kept as a ghost. A subscriber is what its callback makes of the samples
taken; that `ImageTest` also shows the image is left out.
-/

namespace DdsApps.Threads

open DdsApps.Infra

namespace Instance

open TakeSamples (App InstanceState SampleInfo keepsAlive keepsValid)

/-! ## The reader -/

variable {μ : Type}

/-- A sample in the reader; without data it tells that the instance is not alive any more. -/
structure Sample (μ : Type) where
  data : Option μ
deriving DecidableEq, Repr

/-- The sample of a write. -/
def Sample.write (content : μ) : Sample μ := ⟨some content⟩

/-- The sample that tells of a disposal, or that there are no writers left. -/
def Sample.ended : Sample μ := ⟨none⟩

/-- A sample as it was taken. -/
structure Taken (μ : Type) where
  instance_state : InstanceState
  data : Option μ
deriving DecidableEq, Repr

/-- `valid_data` says whether this sample carries data. -/
def Taken.info (x : Taken μ) : SampleInfo := ⟨x.instance_state, x.data.isSome⟩

structure State (μ : Type) where
  instance_state : InstanceState
  /-- the writers that have written and not departed -/
  writers : List Nat
  /-- the oldest first -/
  untaken : List (Sample μ)
  taken : List (Taken μ)
deriving DecidableEq, Repr

inductive Event (μ : Type)
  | write (writer : Nat) (content : μ)
  /-- `noted`: the reader gets a sample that tells of it -/
  | dispose (noted : Bool)
  /-- a writer unregisters the instance, or is lost -/
  | depart (writer : Nat) (noted : Bool)
  /-- `on_data_available` takes the next sample -/
  | take
deriving DecidableEq, Repr

def init : State μ :=
  { instance_state := .notAliveNoWriters, writers := [], untaken := [], taken := [] }

/-- The instance is not alive any more. -/
def State.ends (s : State μ) (instance_state : InstanceState) (noted : Bool) : State μ :=
  { s with
    instance_state
    untaken := if noted then s.untaken ++ [.ended] else s.untaken }

def step (s : State μ) : Event μ → Option (State μ)
  | .write writer content =>
    some { s with
      instance_state := .alive
      writers := if writer ∈ s.writers then s.writers else writer :: s.writers
      untaken := s.untaken ++ [.write content] }
  | .dispose noted => some (s.ends .notAliveDisposed noted)
  | .depart writer noted =>
    if writer ∈ s.writers then
      let left := { s with writers := s.writers.erase writer }
      -- only the last one leaves the instance without writers, and a disposed one stays disposed
      if left.writers = [] ∧ s.instance_state = .alive then
        some (left.ends .notAliveNoWriters noted)
      else some left
    else none
  | .take =>
    match s.untaken with
    | [] => some s
    | sample :: rest =>
      some { s with untaken := rest, taken := s.taken ++ [⟨s.instance_state, sample.data⟩] }

def machine (μ : Type) : Machine (State μ) (Event μ) := ⟨init, step⟩

/-! ## The subscribers -/

/-- A `SubListener`; `hello_` keeps what was last taken into it. -/
structure Listener (μ : Type) where
  hello_ : μ
  samples_ : UInt32
  printed : List μ
deriving DecidableEq, Repr

/-- What `on_data_available` does with the sample it has taken. -/
def onDataAvailable (app : App) (l : Listener μ) (x : Taken μ) : Listener μ :=
  -- a sample without data leaves `hello_` as it was
  let hello_ := x.data.getD l.hello_
  if app.keeps x.info then
    { hello_ := hello_
      samples_ := if app.counts then l.samples_ + 1 else l.samples_
      printed := l.printed ++ [hello_] }
  else { l with hello_ := hello_ }

/-- The listener after it has taken these samples; `hello_` is as constructed before that. -/
def listener (app : App) (hello_ : μ) (taken : List (Taken μ)) : Listener μ :=
  taken.foldl (onDataAvailable app) ⟨hello_, 0, []⟩

def HelloWorldExampleDataSharing.app : App := ⟨keepsAlive, true⟩

def PointCloudTest.app : App := ⟨keepsAlive, true⟩

def HeaderTest.app : App := ⟨keepsAlive, true⟩

def TransformStampedTest.app : App := ⟨keepsAlive, true⟩

/-- The subscribers that go by `instance_state`, and those that go by `valid_data`. -/
def subscribers : List App :=
  [TakeSamples.HelloWorldExample.app, HelloWorldExampleDataSharing.app, TakeSamples.ImageTest.app,
    PointCloudTest.app, HeaderTest.app, TransformStampedTest.app,
    TakeSamples.CustomROSTypeDataSubscriber.app, TakeSamples.HelloWorldExampleTCP.app,
    TakeSamples.HelloWorldExampleSharedMem.app]

theorem subscribers_keep :
    ∀ app ∈ subscribers, app.keeps = keepsAlive ∨ app.keeps = keepsValid := by
  simp only [subscribers, List.forall_mem_cons, List.not_mem_nil, false_implies, implies_true,
    and_true]
  exact ⟨Or.inl rfl, Or.inl rfl, Or.inl rfl, Or.inl rfl, Or.inl rfl, Or.inl rfl, Or.inl rfl,
    Or.inr rfl, Or.inr rfl⟩

end Instance

end DdsApps.Threads
