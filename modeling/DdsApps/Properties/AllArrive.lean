import DdsApps.Properties.BoundedPublishing
import DdsApps.Properties.EndToEnd

/-!
# Everything arrives

Where nothing is lost, and the reader does not learn of the departure too early for a subscriber
that looks at `instance_state`, everything that has been written is printed.

* `Reliable` — the steps that lose nothing
* `all_printed` — what has been printed when there is nothing left to take
-/

namespace DdsApps.Threads

open DdsApps.Infra DdsApps.Types

/-! ## The thread -/

namespace Publisher

variable {μ : Type} {app : Publish.App μ} {c : RunSamples.Config} {s t : State μ}

/-- The thread has written as many messages as its writer has been given. -/
theorem length_written (hs : (machine app c).Reachable s) :
    s.thread.written.length = s.written.length := by
  refine Machine.invariant (M := machine app c)
    (I := fun s => s.thread.written.length = s.written.length) rfl ?_ hs
  intro s e t _ h ht
  cases step_cases ht with
  | write => simp only [List.length_append, List.length_singleton, h]
  | other hwrites hthread =>
    refine Eq.trans ?_ h
    cases RunSamples.step_cases hthread with
    | start | key | notify => rfl
    | thread hthread =>
      cases hthread with
      | write hpc => exact absurd hpc hwrites
      | _ => rfl

end Publisher

namespace Topic

open Instance (Sample contents)
open TakeSamples (keepsAlive keepsValid)

variable {μ : Type} {c : Config μ} {s t : State c} {arrives : μ → μ} {R : Nat → μ → Prop}

/-! ## Nothing is lost -/

/-- The subscriber will use exactly the samples with data, though the writer is gone. -/
def Patient (c : Config μ) (sample : Sample (Sent c)) : Prop :=
  c.subscriber.keeps ⟨.notAliveNoWriters, sample.data.isSome⟩ = sample.data.isSome

instance (c : Config μ) (sample : Sample (Sent c)) : Decidable (Patient c sample) :=
  inferInstanceAs (Decidable (_ = _))

/--
Nothing is lost, and the reader learns of the departure when nothing is in flight, and nothing is
in the reader that the subscriber would then drop.
-/
def Reliable (s : State c) : Event → Prop
  | .publisher _ | .deliver | .take => True
  | .lose | .replace => False
  | .depart _ => s.inFlight.length = 0 ∧ ∀ sample ∈ s.reader.untaken, Patient c sample

instance (s : State c) : (e : Event) → Decidable (Reliable s e)
  | .publisher _ | .deliver | .take => isTrue trivial
  | .lose | .replace => isFalse id
  | .depart _ => inferInstanceAs (Decidable (_ ∧ _))

/-- The payloads of the messages fit. -/
def Writable (c : Config μ) (R : Nat → μ → Prop) : Prop :=
  ∀ i message, R (i + 1) message → ∃ sent, write c message = .ok (some sent)

structure Whole (R : Nat → μ → Prop) (s : State c) : Prop where
  reader : ReaderInv s
  message : R s.publisher.written.length s.publisher.message
  written : (pipeline s).map Sent.message = s.publisher.written
  kept : ∀ x ∈ s.reader.taken,
    c.subscriber.keeps ⟨x.instance_state, x.data.isSome⟩ = x.data.isSome
  left : s.departed = true → ∀ sample ∈ s.reader.untaken, Patient c sample

theorem Whole.init (hR : Publish.Numbered c.app R) : Whole R (init c) where
  reader := ReaderInv.init c
  message := hR.init
  written := rfl
  kept _ hmem := absurd hmem List.not_mem_nil
  left := nofun

/-- Both filters use a sample with data while its writer is there, and none without data later. -/
theorem keeps_of_subscriber (hsub : c.subscriber ∈ Instance.subscribers) :
    c.subscriber.keeps ⟨.alive, true⟩ = true ∧
      c.subscriber.keeps ⟨.notAliveNoWriters, false⟩ = false := by
  rcases Instance.subscribers_keep c.subscriber hsub with halive | hvalid
  · rw [halive]
    exact ⟨rfl, rfl⟩
  · rw [hvalid]
    exact ⟨rfl, rfl⟩

theorem message_of_sent {message : μ} {sent : Sent c} (h : write c message = .ok (some sent)) :
    sent.message = message := by
  unfold write at h
  split at h <;> cases h
  rfl

theorem Whole.step (hsub : c.subscriber ∈ Instance.subscribers) (hR : Publish.Numbered c.app R)
    (hwritable : Writable c R) (h : Whole R s) {e : Event} (he : Reliable s e)
    (ht : step c s e = some t) : Whole R t := by
  have hreader := h.reader.step ht
  have hwritten := h.written
  unfold pipeline at hwritten
  cases step_cases ht with
  | @write message thread sent hpc hprepare hwrite =>
    have hnext := hR.next _ _ _ h.message hprepare
    obtain ⟨sent', hsent'⟩ := hwritable _ _ hnext
    cases hwrite.symm.trans hsent'
    refine ⟨hreader, ?_, ?_, h.kept, h.left⟩
    · simpa only [List.length_append, List.length_singleton] using hnext
    · simp only [pipeline, ← List.append_assoc, List.map_append, Option.toList_some,
        List.map_singleton, message_of_sent hsent'] at hwritten ⊢
      rw [hwritten]
  | publisher => exact ⟨hreader, h.message, hwritten, h.kept, h.left⟩
  | @deliver sent rest hinFlight =>
    refine ⟨hreader, h.message, ?_, h.kept, fun hdeparted => ?_⟩
    · rw [hinFlight] at hwritten
      simpa only [pipeline, List.filterMap_append, Sample.write, List.filterMap_cons,
        List.filterMap_nil, List.append_assoc, List.singleton_append] using hwritten
    · have hnone := (h.reader.gone hdeparted).2.2
      rw [hinFlight] at hnone
      cases hnone
  | lose => cases he
  | replace => cases he
  | @depart noted hpc hpresent =>
    obtain ⟨untaken, heq, hnone⟩ := depart_cases noted (h.reader.phase hpresent)
    have hinFlight := List.length_eq_zero_iff.mp he.1
    rw [heq] at hreader ⊢
    refine ⟨hreader, h.message, ?_, h.kept, fun _ => ?_⟩
    · rw [hinFlight] at hwritten
      simpa only [pipeline, List.filterMap_append, List.filterMap_eq_nil_iff.mpr hnone,
        List.append_nil] using hwritten
    · rw [List.forall_mem_append]
      refine ⟨he.2, fun sample hmem => ?_⟩
      unfold Patient
      rw [hnone sample hmem]
      exact (keeps_of_subscriber hsub).2
  | takeNone => exact h
  | @take sample rest listener huntaken hreceive =>
    have hmem : sample ∈ s.reader.untaken := huntaken ▸ List.mem_cons_self ..
    refine ⟨hreader, h.message, ?_, ?_, fun hdeparted sample' hmem' => ?_⟩
    · rw [huntaken] at hwritten
      cases hdata : sample.data with
      | none =>
        simpa only [pipeline, Instance.contents_append_singleton, hdata, Option.toList_none,
          List.append_nil, List.filterMap_cons] using hwritten
      | some sent =>
        simpa only [pipeline, Instance.contents_append_singleton, hdata, Option.toList_some,
          List.filterMap_cons, List.append_assoc, List.singleton_append, List.cons_append,
          List.nil_append] using hwritten
    · rw [List.forall_mem_append, List.forall_mem_singleton]
      refine ⟨h.kept, ?_⟩
      cases hdeparted : s.departed with
      | false =>
        have hphase := (h.reader.phase hdeparted).resolve_left (not_unwritten huntaken)
        rw [hphase.instance_state, h.reader.present hdeparted sample hmem]
        exact (keeps_of_subscriber hsub).1
      | true =>
        rw [(h.reader.gone hdeparted).2.1]
        exact h.left hdeparted sample hmem
    · exact h.left hdeparted sample' (huntaken ▸ List.mem_cons_of_mem _ hmem')

/-! ## Everything is printed -/

/-- Nothing is in flight, and nothing is left to take. -/
structure Quiet (s : State c) : Prop where
  inFlight : s.inFlight = []
  untaken : s.reader.untaken = []

theorem all_printed (hsub : c.subscriber ∈ Instance.subscribers) (hc : Carries c R arrives)
    (hR : Publish.Numbered c.app R) (hwritable : Writable c R)
    (hs : (machine c).ReachableWhere Reliable s) (hquiet : Quiet s) :
    s.listener.printed = s.publisher.written.map arrives ∧
      (c.subscriber.counts = true →
        s.listener.samples_ = UInt32.ofNat s.publisher.written.length) := by
  have hwhole : Whole R s :=
    Machine.invariant (Whole.init hR) (fun _ _ _ he h ht => h.step hsub hR hwritable he ht) hs
  have hinv := inv_of_reachable hR hc hs.reachable
  have hkeeps : ∀ x ∈ s.reader.taken.map (received arrives),
      c.subscriber.keeps x.info = x.data.isSome := by
    rw [List.forall_mem_map]
    intro x hx
    have hkept := hwhole.kept x hx
    simpa only [received, Instance.Taken.info, Option.isSome_map] using hkept
  obtain ⟨hprinted, hcounted⟩ := Instance.listener_of_keeps c.hello_ hkeeps
  have hwritten := hwhole.written
  rw [pipeline, hquiet.inFlight, hquiet.untaken, List.filterMap_nil, List.append_nil,
    List.append_nil] at hwritten
  rw [← hinv.listener, contents_received] at hprinted hcounted
  rw [← hwritten, List.map_map, List.length_map]
  rw [List.length_map] at hcounted
  exact ⟨hprinted, hcounted⟩

/-- A publisher that has returned has written its samples. -/
theorem length_of_exited (hn : c.run.samples ≠ 0) (hs : (machine c).Reachable s)
    (hpc : s.publisher.thread.pc = .exited) :
    s.publisher.written.length = c.run.samples.toNat := by
  have hpublisher : (Publisher.machine c.app c.run).Reachable s.publisher :=
    refines_publisher.reachableWhere hs
  have hthread : (RunSamples.machine c.run).Reachable s.publisher.thread :=
    Publisher.refines_thread.reachableWhere hpublisher
  have hloop := (RunSamples.counted_of_reachable hn hthread).loop
  rw [← Publisher.length_written hpublisher]
  simpa only [RunSamples.LoopCount, hpc] using hloop

end Topic

end DdsApps.Threads
