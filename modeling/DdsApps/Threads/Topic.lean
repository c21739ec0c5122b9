import DdsApps.Threads.Instance
import DdsApps.Threads.Publisher
import DdsApps.Threads.SharedMem
import DdsApps.Types.HelloWorld

/-!
# A publisher and a subscriber

The two programs of an example, and the topic between them: the thread that publishes, the payloads
its type support fills in, the reader they come to, and the listener that takes them out of it.

What Fast DDS does in between is an assumption. The payloads of a writer come in the order they
were written in and at most once; they may be lost on the way, and one in the reader may give way
to newer ones. When the publisher has returned from `run` its writer is deleted. The reader learns
that at some time, and takes nothing from the writer from then on.
-/

namespace DdsApps.Threads

open DdsApps.Infra DdsApps.Types

namespace Topic

variable {μ : Type}

/-- Two programs and the type of their topic. -/
structure Config (μ : Type) where
  app : Publish.App μ
  run : RunSamples.Config
  type : CdrType μ
  cdr : FastCdr
  endianness : ByteOrder
  /-- of the payloads that the writer gives to its type support -/
  max_size : UInt32
  subscriber : TakeSamples.App
  /-- what the subscriber takes into, as constructed -/
  hello_ : μ

/-- A payload, and the message it is of as a ghost. -/
structure Sent (c : Config μ) where
  message : μ
  payload : Payload
  serialized : PubSubType.serialize c.type c.cdr c.endianness message c.max_size
    = .ok (some payload)

structure State (c : Config μ) where
  publisher : Publisher.State μ
  /-- the oldest first -/
  inFlight : List (Sent c)
  /-- the reader has learned that the writer is gone -/
  departed : Bool
  reader : Instance.State (Sent c)
  listener : Instance.Listener μ

inductive Event
  | publisher (e : RunSamples.Event)
  /-- the oldest payload in flight comes to the reader -/
  | deliver
  /-- or does not -/
  | lose
  /-- the oldest sample not taken gives way -/
  | replace
  /-- `noted`: the reader gets a sample that tells of it -/
  | depart (noted : Bool)
  /-- `on_data_available` -/
  | take

def init (c : Config μ) : State c :=
  { publisher := Publisher.init c.app c.run, inFlight := [], departed := false
    reader := Instance.init, listener := ⟨c.hello_, 0, []⟩ }

/-- `write`; what it returns is not looked at. An exception would end the program. -/
def write (c : Config μ) (message : μ) : Except CdrException (Option (Sent c)) :=
  match h : PubSubType.serialize c.type c.cdr c.endianness message c.max_size with
  | .ok (some payload) => .ok (some ⟨message, payload, h⟩)
  | .ok none => .ok none
  | .error e => .error e

/-- The payload is read into `hello_`; `none` where it is refused. -/
def receive (c : Config μ) (l : Instance.Listener μ) (x : Instance.Taken (Sent c)) :
    Option (Instance.Listener μ) :=
  match x.data with
  | none => some (Instance.onDataAvailable c.subscriber l ⟨x.instance_state, none⟩)
  | some sent =>
    match PubSubType.deserialize c.type c.cdr sent.payload.data l.hello_ with
    | .ok (true, hello_) =>
      some (Instance.onDataAvailable c.subscriber l ⟨x.instance_state, some hello_⟩)
    | _ => none

def step (c : Config μ) (s : State c) : Event → Option (State c)
  | .publisher e =>
    (Publisher.step c.app c.run s.publisher e).bind fun publisher =>
      if Publisher.Writes s.publisher e then
        match write c publisher.message with
        | .ok sent => some { s with publisher, inFlight := s.inFlight ++ sent.toList }
        | .error _ => none
      else some { s with publisher }
  | .deliver =>
    match s.inFlight with
    | [] => none
    | sent :: rest =>
      (Instance.step s.reader (.write 0 sent)).map fun reader =>
        { s with reader, inFlight := rest }
  | .lose =>
    match s.inFlight with
    | [] => none
    | _ :: rest => some { s with inFlight := rest }
  | .replace =>
    match s.reader.untaken with
    | [] => none
    | _ :: rest => some { s with reader := { s.reader with untaken := rest } }
  | .depart noted =>
    if s.publisher.thread.pc = .exited ∧ s.departed = false then
      -- a writer that nothing has come from leaves the instance as it is
      some { s with
        departed := true, inFlight := []
        reader := (Instance.step s.reader (.depart 0 noted)).getD s.reader }
    else none
  | .take =>
    match s.reader.untaken with
    | [] => some s
    | sample :: _ =>
      (receive c s.listener ⟨s.reader.instance_state, sample.data⟩).bind fun listener =>
        (Instance.step s.reader .take).map fun reader => { s with reader, listener }

def machine (c : Config μ) : Machine (State c) Event := ⟨init c, step c⟩

/-- `while (number > listener_.samples_)` of the subscriber's `run(number)` goes on. -/
def runWaits (c : Config μ) (number : UInt32) (s : State c) : Bool :=
  number > s.listener.samples_

/-! ## The examples -/

/-- `HelloWorldExample`, its TCP variant and the one with data sharing, with their subscribers. -/
def helloWorld (cdr : FastCdr) (endianness : ByteOrder) (run : RunSamples.Config)
    (subscriber : TakeSamples.App) : Config HelloWorld where
  app := Publish.HelloWorldExample.app
  run := run
  type := HelloWorld.type
  cdr := cdr
  endianness := endianness
  max_size := PubSubType.m_typeSize HelloWorld.type cdr
  subscriber := subscriber
  hello_ := HelloWorld.new

/-- `HelloWorldExampleSharedMem` -/
def sharedMem (cdr : FastCdr) (endianness : ByteOrder) (run : RunSamples.Config) :
    Config Types.SharedMem.HelloWorld where
  app := SharedMem.app
  run := run
  type := Types.SharedMem.HelloWorld.type
  cdr := cdr
  endianness := endianness
  max_size := PubSubType.m_typeSize Types.SharedMem.HelloWorld.type cdr
  subscriber := TakeSamples.HelloWorldExampleSharedMem.app
  hello_ := Types.SharedMem.HelloWorld.new

/-! ## What a step can do -/

variable {c : Config μ} {s t : State c}

inductive Step (c : Config μ) (s : State c) : Event → State c → Prop
  | write {message : μ} {thread : RunSamples.State} {sent : Option (Sent c)}
    (hpc : s.publisher.thread.pc = .write) (hprepare : c.app.prepare s.publisher.message = some message)
    (hwrite : write c message = .ok sent) : Step c s (.publisher .thread)
      { s with
        publisher := { thread, message, written := s.publisher.written ++ [message] }
        inFlight := s.inFlight ++ sent.toList }
  | publisher {e : RunSamples.Event} {thread : RunSamples.State}
    (hwrites : ¬Publisher.Writes s.publisher e)
    (hthread : RunSamples.step c.run s.publisher.thread e = some thread) : Step c s (.publisher e)
      { s with publisher := { s.publisher with thread } }
  | deliver {sent : Sent c} {rest : List (Sent c)} (hinFlight : s.inFlight = sent :: rest) :
    Step c s .deliver { s with
      inFlight := rest
      reader := { s.reader with
        instance_state := .alive
        writers := if 0 ∈ s.reader.writers then s.reader.writers else 0 :: s.reader.writers
        untaken := s.reader.untaken ++ [.write sent] } }
  | lose {sent : Sent c} {rest : List (Sent c)} (hinFlight : s.inFlight = sent :: rest) :
    Step c s .lose { s with inFlight := rest }
  | replace {sample : Instance.Sample (Sent c)} {rest : List (Instance.Sample (Sent c))}
    (huntaken : s.reader.untaken = sample :: rest) :
    Step c s .replace { s with reader := { s.reader with untaken := rest } }
  | depart {noted : Bool} (hpc : s.publisher.thread.pc = .exited) (hdeparted : s.departed = false) :
    Step c s (.depart noted) { s with
      departed := true, inFlight := []
      reader := (Instance.step s.reader (.depart 0 noted)).getD s.reader }
  | takeNone (huntaken : s.reader.untaken = []) : Step c s .take s
  | take {sample : Instance.Sample (Sent c)} {rest : List (Instance.Sample (Sent c))}
    {listener : Instance.Listener μ} (huntaken : s.reader.untaken = sample :: rest)
    (hreceive : receive c s.listener ⟨s.reader.instance_state, sample.data⟩ = some listener) :
    Step c s .take { s with
      listener
      reader := { s.reader with
        untaken := rest, taken := s.reader.taken ++ [⟨s.reader.instance_state, sample.data⟩] } }

theorem step_cases {e : Event} (ht : step c s e = some t) : Step c s e t := by
  cases e with
  | publisher e =>
    obtain ⟨publisher, hpublisher, ht⟩ := Option.bind_eq_some_iff.mp ht
    cases Publisher.step_cases hpublisher with
    | write hpc hprepare =>
      have hwrites : Publisher.Writes s.publisher .thread := hpc
      rw [if_pos hwrites] at ht
      split at ht
      · next sent hwrite =>
        cases ht
        exact .write hpc hprepare hwrite
      · cases ht
    | other hwrites hthread =>
      rw [if_neg hwrites] at ht
      cases ht
      exact .publisher hwrites hthread
  | deliver =>
    simp only [step] at ht
    split at ht
    · cases ht
    · next sent rest hinFlight =>
      cases ht
      exact .deliver hinFlight
  | lose =>
    simp only [step] at ht
    split at ht
    · cases ht
    · next sent rest hinFlight =>
      cases ht
      exact .lose hinFlight
  | replace =>
    simp only [step] at ht
    split at ht
    · cases ht
    · next sample rest huntaken =>
      cases ht
      exact .replace huntaken
  | depart noted =>
    simp only [step] at ht
    split at ht
    · next hgone =>
      cases ht
      exact .depart hgone.1 hgone.2
    · cases ht
  | take =>
    simp only [step] at ht
    split at ht
    · next huntaken =>
      cases ht
      exact .takeNone huntaken
    · next sample rest huntaken =>
      obtain ⟨listener, hreceive, ht⟩ := Option.bind_eq_some_iff.mp ht
      simp only [Instance.step, huntaken, Option.map_some, Option.some.injEq] at ht
      subst ht
      exact .take huntaken hreceive

/-- The publisher takes its own steps. -/
theorem publisher_of_step {e : Event} (ht : step c s e = some t) :
    t.publisher = s.publisher ∨ ∃ e', e = .publisher e' ∧
      Publisher.step c.app c.run s.publisher e' = some t.publisher := by
  cases e with
  | publisher e =>
    obtain ⟨publisher, hpublisher, ht⟩ := Option.bind_eq_some_iff.mp ht
    right
    refine ⟨e, rfl, ?_⟩
    split at ht
    · split at ht
      · cases ht
        exact hpublisher
      · cases ht
    · cases ht
      exact hpublisher
  | _ =>
    cases step_cases ht
    all_goals exact Or.inl rfl

end Topic

end DdsApps.Threads
