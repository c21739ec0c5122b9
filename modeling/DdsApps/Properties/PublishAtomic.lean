import DdsApps.Infra.Simulation
import DdsApps.Properties.WaitingGate
import DdsApps.Threads.Publisher

/-!
# A call of `publish` is atomic

The thread reads the two variables of its listener one after the other, and writes after that;
notifications come in between. To everyone else a call is still one step, at the moment it writes
or has read the second variable.

* `GateKept` — an open gate stays open until the message is written
* `refines_publish` — the thread refines the publisher with atomic calls
* `publish_atomic` — and its calls return what the atomic ones return
-/

namespace DdsApps.Threads

open DdsApps.Infra

/-! ## The gate between reading and writing -/

namespace RunSamples

variable {c : Config} {s t : State}

/-- The argument of `publish`: the counting loop waits for a listener. -/
def Config.waitForListener (c : Config) : Bool := decide (c.samples ≠ 0)

/-- What Fast DDS has told, as `Publish` has it. -/
def State.told (s : State) : Publish.State Unit :=
  { listener := s.listener, message := (), written := [], notified := s.notified }

/-- The gate opens with an accepted notification, and with it `matched_` becomes positive. -/
structure GateKept (c : Config) (s : State) : Prop where
  seen : Publish.Seen s.told
  matched : (∃ info ∈ s.notified, Publish.Accepted info) → 0 < s.listener.matched_
  write : s.pc = .write → s.listener.gate c.waitForListener = true

theorem GateKept.init (c : Config) : GateKept c (init c) where
  seen := Publish.Seen.init ⟨(), some⟩
  matched := fun ⟨_, hmem, _⟩ => absurd hmem List.not_mem_nil
  write hpc := by cases hpc

theorem gate_of_gate {l : PubListener} {waitForListener : Bool}
    (h : l.gate true = true) : l.gate waitForListener = true := by
  cases waitForListener with
  | true => exact h
  | false => simp [PubListener.gate]

/-- A gate that is open without having been waited for is that of the endless loop. -/
theorem gate_true_or (h : s.listener.gate c.waitForListener = true) :
    c.samples = 0 ∨ s.listener.gate true = true := by
  by_cases hc : c.samples = 0
  · exact Or.inl hc
  · have hwaits : c.waitForListener = true := decide_eq_true hc
    rw [hwaits] at h
    exact Or.inr h

theorem gate_of_endless (hc : c.samples = 0) (l : PubListener) :
    l.gate c.waitForListener = true := by
  have hwaits : c.waitForListener = false := decide_eq_false (not_not_intro hc)
  simp [hwaits, PubListener.gate]

theorem GateKept.notify (h : GateKept c s) {info : MatchedStatus}
    (hfollows : s.status.Follows info) :
    GateKept c { s with
      listener := s.listener.on_publication_matched info, notified := info :: s.notified } := by
  have hseen := h.seen.notify hfollows
  refine ⟨hseen, ?_, fun hpc => ?_⟩
  · intro haccepted
    have htotal := hseen.total haccepted
    by_cases hinfo : Publish.Accepted info
    · rcases hinfo with hmatch | hleft
      · simp only [PubListener.on_publication_matched, matchedAfter, if_pos hmatch]
        exact htotal
      · simp only [PubListener.on_publication_matched, matchedAfter, hleft]
        exact htotal
    · -- the notification is dropped, and an earlier one has set `matched_`
      rw [Publish.on_publication_matched_of_not_accepted hinfo]
      obtain ⟨info', hmem, haccepted'⟩ := haccepted
      rcases List.mem_cons.mp hmem with rfl | hmem
      · exact absurd haccepted' hinfo
      · exact h.matched ⟨info', hmem, haccepted'⟩
  · rcases gate_true_or (h.write hpc) with hc | hgate
    · exact gate_of_endless hc _
    · obtain ⟨info', hmem, haccepted⟩ := h.seen.gate.mp hgate
      exact gate_of_gate (hseen.gate.mpr ⟨info', List.mem_cons_of_mem _ hmem, haccepted⟩)

/-- **An open gate stays open until the message is written.** -/
theorem GateKept.thread (h : GateKept c s) (ht : ThreadStep c s t) : GateKept c t := by
  have hseen := h.seen
  have hmatched := h.matched
  cases ht with
  | connected hpc hfirst =>
    exact ⟨hseen, hmatched, fun _ => gate_of_gate (Publish.gate_true_iff.mpr (Or.inl hfirst))⟩
  | pass hpc hgate =>
    refine ⟨hseen, hmatched, fun _ => ?_⟩
    rcases hgate with hc | hpos
    · exact gate_of_endless hc _
    · exact gate_of_gate (Publish.gate_true_iff.mpr (Or.inr hpos))
  | _ => exact ⟨hseen, hmatched, nofun⟩

theorem GateKept.step (h : GateKept c s) {e : Event} (ht : step c s e = some t) :
    GateKept c t := by
  cases step_cases ht with
  | start => exact ⟨h.seen, h.matched, nofun⟩
  | key => exact ⟨h.seen, h.matched, h.write⟩
  | notify hfollows => exact h.notify hfollows
  | thread ht => exact h.thread ht

/-- A call that is refused has found the gate closed. -/
theorem GateKept.gate_of_refuse (h : GateKept c s)
    (hgate : ¬(c.samples = 0 ∨ s.listener.matched_ > 0)) :
    s.listener.gate c.waitForListener = false := by
  obtain ⟨hc, hmatched⟩ := not_or.mp hgate
  refine Bool.eq_false_iff.mpr fun hopen => ?_
  rcases gate_true_or hopen with hc' | hopen
  · exact hc hc'
  · exact hmatched (h.matched (h.seen.gate.mp hopen))

end RunSamples

/-! ## The refinement -/

namespace Publisher

variable {μ : Type} {app : Publish.App μ} {c : RunSamples.Config} {s t : State μ}
variable {ok : RunSamples.State → RunSamples.Event → Prop}

/-- The thread alone. -/
theorem refines_thread : Machine.Refines (machine app c) (RunSamples.machine c)
    (fun s e => ok s.thread e) ok State.thread where
  init := rfl
  step _ e _ _ he ht := Or.inr ⟨e, he, thread_of_step ht⟩

theorem gateKept_of_reachable (hs : (machine app c).Reachable s) :
    RunSamples.GateKept c s.thread := by
  have hthread : (RunSamples.machine c).Reachable s.thread := refines_thread.reachableWhere hs
  exact Machine.invariant (RunSamples.GateKept.init c) (fun _ _ _ _ h ht => h.step ht) hthread

/-- The publisher without its thread. -/
def State.atomic (s : State μ) : Publish.State μ :=
  { listener := s.thread.listener, message := s.message, written := s.written
    notified := s.thread.notified }

/-- The step that writes is the call of `publish`. -/
theorem publish_of_write {message : μ} (hkept : RunSamples.GateKept c s.thread)
    (hpc : s.thread.pc = .write) (hprepare : app.prepare s.message = some message) :
    Publish.publish app c.waitForListener s.atomic
      = some (true, { s.atomic with message, written := s.written ++ [message] }) := by
  have hgate : s.atomic.listener.gate c.waitForListener = true := hkept.write hpc
  have hprepare' : app.prepare s.atomic.message = some message := hprepare
  rw [Publish.publish, if_pos hgate, hprepare', Option.map_some]
  rfl

theorem refines_publish : Machine.Refines (machine app c) (Publish.machine app)
    (fun _ _ => True) (fun _ _ => True) State.atomic where
  init := rfl
  step := by
    intro s e t hs _ ht
    cases step_cases ht with
    | write hpc hprepare =>
      right
      refine ⟨.publish c.waitForListener, trivial, ?_⟩
      simp only [Publish.machine, Publish.step,
        publish_of_write (gateKept_of_reachable hs) hpc hprepare, Option.map_some]
      rfl
    | other hwrites hthread =>
      cases RunSamples.step_cases hthread with
      | start | key => exact Or.inl rfl
      | @notify info hfollows =>
        exact Or.inr ⟨.notify info, trivial, if_pos hfollows⟩
      | thread hthread =>
        obtain ⟨hlistener, hnotified⟩ := RunSamples.threadStep_listener hthread
        left
        simp only [State.atomic, hlistener, hnotified]

/--
**To everyone else, a call of `publish` is one step.**

The states of the thread are states of the publisher with atomic calls, and the step that decides a
call is the atomic call, with the same result.
-/
theorem publish_atomic (hs : (machine app c).Reachable s) :
    (Publish.machine app).Reachable s.atomic ∧
      ∀ t sent, step app c s .thread = some t → t.thread.pc = .published sent →
        Publish.publish app c.waitForListener s.atomic = some (sent, t.atomic) := by
  have hkept := gateKept_of_reachable hs
  refine ⟨refines_publish.reachableWhere hs, fun t sent ht hsent => ?_⟩
  cases step_cases ht with
  | write hpc hprepare =>
    cases hsent
    exact publish_of_write hkept hpc hprepare
  | other hwrites hthread =>
    cases RunSamples.step_cases hthread with
    | thread hthread =>
      cases hthread with
      | write hpc => exact absurd hpc hwrites
      | refuse hpc hgate =>
        cases hsent
        have hclosed : ¬s.atomic.listener.gate c.waitForListener = true :=
          Bool.eq_false_iff.mp (hkept.gate_of_refuse hgate)
        rw [Publish.publish, if_neg hclosed]
        rfl
      | _ => cases hsent

/-- The first call of `publish`, before it looks at `matched_`. -/
def beforeRefusal : List RunSamples.Event := [.start, .thread, .thread, .thread]

theorem publish_atomic_refused :
    Publish.publish Publish.HelloWorldExample.app true
      (Publish.init Publish.HelloWorldExample.app)
      = some (false, Publish.init Publish.HelloWorldExample.app) := by
  have hexec : (machine Publish.HelloWorldExample.app ⟨1, true, false⟩).exec beforeRefusal
      = some ⟨⟨.readMatched, 0, false, .initial, 0, [], []⟩,
          Publish.HelloWorldExample.app.message, []⟩ := by
    rfl
  exact (publish_atomic (Machine.reachable_of_exec hexec)).2
    ⟨⟨.published false, 0, false, .initial, 0, [], []⟩, Publish.HelloWorldExample.app.message, []⟩
    false (by rfl) rfl

end Publisher

end DdsApps.Threads
