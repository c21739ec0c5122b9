import DdsApps.Properties.AllArrive
import DdsApps.Properties.TailMarker
import DdsApps.Properties.WireFormat

/-!
# The examples, from end to end

The messages of an example are known, so what its subscriber may print is known as well.

* `hello_worlds_printed` — what the `HelloWorld` subscribers print, whatever is lost
* `hello_worlds_received` — and where nothing is
* `marked_messages_printed` — the messages of a megabyte come with their mark
-/

namespace DdsApps.Threads.Topic

open DdsApps.Infra DdsApps.Types

variable {μ : Type} {c : Config μ} {cdr : FastCdr} {endianness : ByteOrder}
variable {run : RunSamples.Config} {subscriber : TakeSamples.App}

/-- A payload that is filled in is sent. -/
theorem exists_write {message : μ} {payload : Payload}
    (h : PubSubType.serialize c.type c.cdr c.endianness message c.max_size
      = .ok (some payload)) : ∃ sent, write c message = .ok (some sent) := by
  unfold write
  split
  · exact ⟨_, rfl⟩
  · next hnone =>
    rw [h] at hnone
    cases hnone
  · next hexception =>
    rw [h] at hexception
    cases hexception

/-- The thread has seen its subscriber, and writes next. -/
def beforeWrite (c : Config μ) : State c :=
  { init c with
    publisher := ⟨⟨.write, 0, false, ⟨1, true⟩, 0, [], [⟨1, 1, 1⟩]⟩, c.app.message, []⟩ }

def afterWrite {c : Config μ} (message : μ) (sent : Sent c) : State c :=
  { init c with
    publisher := ⟨⟨.published true, 0, false, ⟨1, true⟩, 1, [1], [⟨1, 1, 1⟩]⟩, message, [message]⟩
    inFlight := [sent] }

/-- The thread has returned, and the message is in the reader. -/
def beforeTake {c : Config μ} (message : μ) (sent : Sent c) : State c :=
  { init c with
    publisher := ⟨⟨.exited, 1, false, ⟨1, true⟩, 1, [1], [⟨1, 1, 1⟩]⟩, message, [message]⟩
    reader := ⟨.alive, [0], [.write sent], []⟩ }

def afterTake {c : Config μ} (message : μ) (sent : Sent c) (listener : Instance.Listener μ) :
    State c :=
  { beforeTake message sent with
    reader := ⟨.alive, [0], [], [⟨.alive, some sent⟩]⟩
    listener := listener }

theorem exec_beforeWrite (hrun : c.run = ⟨1, true, false⟩) :
    ((machine c).restrict Reliable).exec [.publisher .start, .publisher .thread, .publisher .thread,
      .publisher (.notify ⟨1, 1, 1⟩), .publisher .thread] = some (beforeWrite c) := by
  obtain ⟨app, run, type, cdr, endianness, max_size, subscriber, hello_⟩ := c
  cases hrun
  rfl

theorem step_write {message : μ} {sent : Sent c}
    (hprepare : c.app.prepare c.app.message = some message)
    (hwrite : write c message = .ok (some sent)) :
    ((machine c).restrict Reliable).step (beforeWrite c) (.publisher .thread)
      = some (afterWrite message sent) := by
  have hwrites : Publisher.Writes (beforeWrite c).publisher .thread := rfl
  have hpublisher : Publisher.step c.app c.run (beforeWrite c).publisher .thread
      = some (afterWrite message sent).publisher := by
    simp [Publisher.step, Publisher.Writes, RunSamples.step, RunSamples.threadStep, beforeWrite,
      afterWrite, hprepare]
  have hmessage : (afterWrite message sent).publisher.message = message := rfl
  simp [Machine.restrict, machine, step, Reliable, hpublisher, hwrites, hmessage, hwrite]
  rfl

theorem run_beforeTake (hrun : c.run = ⟨1, true, false⟩) {message : μ} {sent : Sent c} :
    ((machine c).restrict Reliable).run (afterWrite message sent)
      [.publisher .thread, .publisher .thread, .publisher .thread, .deliver]
      = some (beforeTake message sent) := by
  obtain ⟨app, run, type, cdr, endianness, max_size, subscriber, hello_⟩ := c
  cases hrun
  rfl

theorem step_take {message : μ} {sent : Sent c} {listener : Instance.Listener μ}
    (hreceive : receive c ⟨c.hello_, 0, []⟩ ⟨.alive, some sent⟩ = some listener) :
    ((machine c).restrict Reliable).step (beforeTake message sent) .take
      = some (afterTake message sent listener) := by
  show (receive c ⟨c.hello_, 0, []⟩ ⟨.alive, some sent⟩).bind _ = _
  rw [hreceive]
  rfl

/-- Such a run exists wherever the type support gives back what it was given. -/
theorem exists_afterTake {R : Nat → μ → Prop} {arrives : μ → μ} (hrun : c.run = ⟨1, true, false⟩)
    (hR : Publish.Numbered c.app R) (hwritable : Writable c R) (hc : Carries c R arrives)
    {message : μ} (hprepare : c.app.prepare c.app.message = some message) :
    ∃ (sent : Sent c) (listener : Instance.Listener μ),
      (machine c).ReachableWhere Reliable (afterTake message sent listener) := by
  have hnext := hR.next _ _ _ hR.init hprepare
  obtain ⟨sent, hwrite⟩ := hwritable 0 message hnext
  have hsent := message_of_sent hwrite
  have hreceive := receive_eq hc ⟨c.hello_, 0, []⟩ (x := ⟨.alive, some sent⟩)
    (by rintro _ ⟨⟩; exact ⟨_, hsent.symm ▸ hnext⟩)
  have hbefore := Machine.reachable_of_exec (exec_beforeWrite hrun)
  have hafter := hbefore.step trivial (step_write hprepare hwrite)
  have harrived := Machine.reachable_of_run hafter _ (run_beforeTake hrun)
  exact ⟨sent, _, Machine.reachableWhere_of_restrict (harrived.step trivial (step_take hreceive))⟩

/-! ## `HelloWorldExample` and its variants -/

/-- The `i`-th message. -/
def hello (i : Nat) : HelloWorld := ⟨UInt32.ofNat i, bytes "HelloWorld"⟩

theorem hello_message : (0 : UInt8) ∉ bytes "HelloWorld" ∧ (bytes "HelloWorld").length = 10 := by
  decide +kernel

theorem sendable_helloWorld : Sendable (bytes "HelloWorld") := by
  have hlength := length_c_str_le (bytes "HelloWorld")
  have hten := hello_message.2
  unfold Sendable
  omega

theorem numbered_helloWorld : Publish.Numbered Publish.HelloWorldExample.app
    fun i message => message = hello i where
  init := rfl
  next := by
    rintro i m m' rfl h
    cases h
    simp only [hello, UInt32.ofNat_add]
    rfl

theorem carries_helloWorld (hcdr : cdr.Documented) :
    Carries (helloWorld cdr endianness run subscriber) (fun i message => message = hello i)
      HelloWorld.read := by
  intro i sent old hsent
  have hsendable : Sendable sent.message.message := by
    rw [hsent]
    exact sendable_helloWorld
  exact ((HelloWorld.format hcdr).received hcdr hsendable sent.serialized old).deserialized

/-- The size of the type is enough for the publishers' message. -/
theorem length_helloWorld_le : (c_str (bytes "HelloWorld")).length ≤ 255 := by
  have hlength := length_c_str_le (bytes "HelloWorld")
  have hten := hello_message.2
  omega

theorem writable_helloWorld (hcdr : cdr.Documented) :
    Writable (helloWorld cdr endianness run subscriber) fun i message => message = hello i := by
  rintro i message rfl
  have hsendable : Sendable (hello (i + 1)).message := sendable_helloWorld
  have hsizes := (HelloWorld.format hcdr).bufferSizes hcdr endianness hsendable
  obtain ⟨payload, hpayload⟩ := hsizes.of_type.mpr length_helloWorld_le
  exact exists_write hpayload

theorem read_hello (i : Nat) : (hello i).read = hello i := by
  rw [HelloWorld.read, hello, (c_str_eq_iff _).mpr hello_message.1]

/-- What each message is, all of them are. -/
theorem eq_map_of_forall₂ {α β : Type} {f : α → β} {as : List α} {bs : List β}
    (h : List.Forall₂ (fun a b => b = f a) as bs) : bs = as.map f := by
  induction h with
  | nil => rfl
  | cons heq _ ih => rw [heq, ih, List.map_cons]

theorem written_helloWorld {s : State (helloWorld cdr endianness run subscriber)}
    (hs : (machine _).Reachable s) :
    s.publisher.written.map HelloWorld.read
      = (List.range' 1 s.publisher.written.length).map hello := by
  have hnumbered := eq_map_of_forall₂ (numbered_of_reachable numbered_helloWorld hs).2
  refine Eq.trans (congrArg _ hnumbered) ?_
  rw [List.map_map]
  exact List.map_congr_left fun i _ => read_hello i

/--
**In every run the `HelloWorld` subscribers print messages that have been written**, in their order
and none of them twice, and count what they print.
-/
theorem hello_worlds_printed (hcdr : cdr.Documented) (hsub : subscriber ∈ Instance.subscribers)
    {s : State (helloWorld cdr endianness run subscriber)} (hs : (machine _).Reachable s) :
    Prints ((List.range' 1 s.publisher.written.length).map hello) s := by
  rw [← written_helloWorld hs]
  exact prints_written numbered_helloWorld (carries_helloWorld hcdr) hsub hs

/-- `HelloWorldExample` with a number of samples of 1. -/
def oneHello : Config HelloWorld :=
  helloWorld .xcdr .littleEndian ⟨1, true, false⟩ TakeSamples.HelloWorldExample.app

theorem exists_oneHello : ∃ (sent : Sent oneHello) (listener : Instance.Listener HelloWorld),
    (machine oneHello).ReachableWhere Reliable (afterTake (hello 1) sent listener) :=
  exists_afterTake rfl numbered_helloWorld (writable_helloWorld FastCdr.xcdr_documented)
    (carries_helloWorld FastCdr.xcdr_documented) rfl

theorem hello_worlds_printed_one :
    ∃ s, (machine oneHello).Reachable s ∧ s.publisher.written.length = 1 ∧
      Prints [hello 1] s := by
  obtain ⟨sent, listener, hs⟩ := exists_oneHello
  exact ⟨_, hs.reachable, rfl,
    hello_worlds_printed FastCdr.xcdr_documented (List.mem_cons_self ..) hs.reachable⟩

/--
**Where nothing is lost, all of them are printed.**

When the publisher has returned from `run` with its number of samples, and there is nothing left to
take, exactly that many messages have been printed and counted.
-/
theorem hello_worlds_received (hcdr : cdr.Documented) (hsub : subscriber ∈ Instance.subscribers)
    (hn : run.samples ≠ 0) {s : State (helloWorld cdr endianness run subscriber)}
    (hs : (machine _).ReachableWhere Reliable s) (hpc : s.publisher.thread.pc = .exited)
    (hquiet : Quiet s) :
    s.listener.printed = (List.range' 1 run.samples.toNat).map hello ∧
      (subscriber.counts = true → s.listener.samples_ = run.samples) := by
  have hlength : s.publisher.written.length = run.samples.toNat :=
    length_of_exited hn hs.reachable hpc
  obtain ⟨hprinted, hcounted⟩ := all_printed hsub (carries_helloWorld hcdr) numbered_helloWorld
    (writable_helloWorld hcdr) hs hquiet
  rw [written_helloWorld hs.reachable, hlength] at hprinted
  rw [hlength, UInt32.ofNat_toNat] at hcounted
  exact ⟨hprinted, hcounted⟩

theorem hello_worlds_received_one :
    ∃ s, (machine oneHello).Reachable s ∧ s.listener.printed = [hello 1] ∧
      s.listener.samples_ = 1 := by
  obtain ⟨sent, listener, hs⟩ := exists_oneHello
  obtain ⟨hprinted, hcounted⟩ := hello_worlds_received FastCdr.xcdr_documented
    (List.mem_cons_self ..) (by decide) hs rfl ⟨rfl, rfl⟩
  exact ⟨_, hs.reachable, hprinted, hcounted rfl⟩

/-! ## `HelloWorldExampleSharedMem` -/

/-- What its subscriber shows of the `i`-th message. -/
structure Shown (i : Nat) (data : Types.SharedMem.HelloWorld) : Prop where
  index : data.index = UInt32.ofNat i
  message : data.message = bytes "HelloWorld"
  dataEnd : cString (data.data.toList.drop (SharedMem.dataSize - 9))
    = some (SharedMem.marker (UInt32.ofNat i))

/-- The publisher's message after it has been written `i` times; it is marked from the first on. -/
structure MarkedNumber (i : Nat) (message : Types.SharedMem.HelloWorld) : Prop where
  index : message.index = UInt32.ofNat i
  text : message.message = bytes "HelloWorld"
  clean : SharedMem.Clean message
  marked : i ≠ 0 → SharedMem.Marked message

theorem MarkedNumber.sendable {i : Nat} {message : Types.SharedMem.HelloWorld}
    (h : MarkedNumber i message) : Sendable message.message := by
  rw [h.text]
  exact sendable_helloWorld

theorem numbered_sharedMem : Publish.Numbered SharedMem.app MarkedNumber where
  init := ⟨rfl, rfl, SharedMem.AllMarked.init.message, fun h => absurd rfl h⟩
  next := by
    intro i m m' h hprepare
    rw [SharedMem.app_prepare] at hprepare
    have hmarked := SharedMem.prepare_marked h.clean hprepare
    rw [SharedMem.prepare_eq] at hprepare
    obtain ⟨data, -, rfl⟩ := Option.map_eq_some_iff.mp hprepare
    refine ⟨?_, h.text, hmarked.clean, fun _ => hmarked⟩
    rw [UInt32.ofNat_add]
    exact congrArg (· + 1) h.index

theorem carries_sharedMem (hcdr : cdr.Documented) :
    Carries (sharedMem cdr endianness run) MarkedNumber Types.SharedMem.HelloWorld.read := by
  intro i sent old hsent
  have hreceived := (Types.SharedMem.HelloWorld.format hcdr).received hcdr hsent.sendable
    sent.serialized old
  exact hreceived.deserialized

theorem writable_sharedMem (hcdr : cdr.Documented) :
    Writable (sharedMem cdr endianness run) MarkedNumber := by
  intro i message h
  have hsizes := (Types.SharedMem.HelloWorld.format hcdr).bufferSizes hcdr endianness h.sendable
  have hshort : (c_str message.message).length ≤ 255 := by
    rw [h.text]
    exact length_helloWorld_le
  obtain ⟨payload, hpayload⟩ := hsizes.of_type.mpr hshort
  exact exists_write hpayload

theorem shown_of_marked {i : Nat} {message : Types.SharedMem.HelloWorld}
    (h : MarkedNumber i message) (hi : i ≠ 0) : Shown i message.read := by
  refine ⟨h.index, ?_, ?_⟩
  · rw [Types.SharedMem.HelloWorld.read, h.text]
    exact (c_str_eq_iff _).mpr hello_message.1
  · have hdataEnd := (h.marked hi).dataEnd
    rw [h.index] at hdataEnd
    exact hdataEnd

theorem written_sharedMem {s : State (sharedMem cdr endianness run)}
    (hs : (machine _).Reachable s) :
    List.Forall₂ Shown (List.range' 1 s.publisher.written.length)
      (s.publisher.written.map Types.SharedMem.HelloWorld.read) := by
  rw [List.forall₂_map_right_iff]
  have hnumbered := (numbered_of_reachable numbered_sharedMem hs).2
  have hpos : ∀ i ∈ List.range' 1 s.publisher.written.length, i ≠ 0 := by
    intro i hi
    have hle := (List.mem_range'_1.mp hi).1
    omega
  exact ((List.forall₂_and_left _ _).mpr ⟨hpos, hnumbered⟩).imp fun _ _ h => shown_of_marked h.2 h.1

/--
**Each message of a megabyte is shown with the mark of its index**, in every run; and where nothing
is lost, all of them are.
-/
theorem marked_messages_printed (hcdr : cdr.Documented)
    {s : State (sharedMem cdr endianness run)} (hs : (machine _).Reachable s) :
    (∃ messages, List.Forall₂ Shown (List.range' 1 s.publisher.written.length) messages ∧
      Prints messages s) ∧
    (run.samples ≠ 0 → (machine _).ReachableWhere Reliable s → s.publisher.thread.pc = .exited →
      Quiet s → List.Forall₂ Shown (List.range' 1 run.samples.toNat) s.listener.printed ∧
        s.listener.samples_ = run.samples) := by
  have hsub : TakeSamples.HelloWorldExampleSharedMem.app ∈ Instance.subscribers := by
    simp only [Instance.subscribers, List.mem_cons, true_or, or_true]
  have hprints := prints_written numbered_sharedMem (carries_sharedMem hcdr) hsub hs
  refine ⟨⟨_, written_sharedMem hs, hprints⟩, ?_⟩
  intro hn hreliable hpc hquiet
  have hlength : s.publisher.written.length = run.samples.toNat :=
    length_of_exited hn hs hpc
  have hwritten := written_sharedMem hs
  obtain ⟨hprinted, hcounted⟩ := all_printed hsub (carries_sharedMem hcdr) numbered_sharedMem
    (writable_sharedMem hcdr) hreliable hquiet
  rw [← hprinted, hlength] at hwritten
  rw [hlength, UInt32.ofNat_toNat] at hcounted
  exact ⟨hwritten, hcounted rfl⟩

theorem marked_messages_printed_one :
    ∃ s : State (sharedMem .xcdr .littleEndian ⟨1, true, false⟩), (machine _).Reachable s ∧
      List.Forall₂ Shown [1] s.listener.printed ∧ s.listener.samples_ = 1 := by
  obtain ⟨message, hmessage⟩ := SharedMem.exists_prepare SharedMem.app.message
  rw [← SharedMem.app_prepare] at hmessage
  obtain ⟨sent, listener, hs⟩ := exists_afterTake
    (c := sharedMem .xcdr .littleEndian ⟨1, true, false⟩) rfl numbered_sharedMem
    (writable_sharedMem FastCdr.xcdr_documented) (carries_sharedMem FastCdr.xcdr_documented)
    hmessage
  obtain ⟨hprinted, hcounted⟩ := (marked_messages_printed FastCdr.xcdr_documented
    hs.reachable).2 (by decide) hs rfl ⟨rfl, rfl⟩
  exact ⟨_, hs.reachable, hprinted, hcounted⟩

end DdsApps.Threads.Topic
