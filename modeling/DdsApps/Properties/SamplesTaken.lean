import DdsApps.Threads.TakeSamples

/-!
# Samples left in the reader

A callback takes at most one sample, and a notification may stand for several. The ones beyond the
first stay in the reader for good.

* `untaken_eq_coalesced` — in every run, what is left is what shared a notification
* `samples_counted` — `samples_` is the number of samples kept so far, modulo 2^32
* `all_samples_taken` — in runs with a notification for each sample, none is left or miscounted
* `second_sample_left` — two samples, one notification
-/

namespace DdsApps.Threads.TakeSamples

open DdsApps.Infra

variable {app : App} {s t : State}

/-! ## What a callback does -/

theorem onDataAvailable_cons (app : App) {sample : Sample} {rest : List Sample}
    (hs : s.untaken = sample :: rest) :
    onDataAvailable app s = { s with
      untaken := rest, taken := s.taken ++ [sample]
      listener := { s.listener with
        samples_ := if app.keeps ⟨.alive, sample.valid_data⟩ && app.counts
          then s.listener.samples_ + 1 else s.listener.samples_ } } := by
  simp only [onDataAvailable, takeNextSample, hs]
  split <;> rfl

/-! ## What is left -/

/-- The samples in the reader are those to be notified, those whose callback is still to come, and
those whose callback took another one. -/
def Accounted (s : State) : Prop := s.untaken.length = s.unnotified + s.pending + s.coalesced

theorem Accounted.step (h : Accounted s) {e : Event} (ht : step app s e = some t) :
    Accounted t := by
  unfold Accounted at *
  cases e with
  | arrive sample =>
    cases ht
    simp only [List.length_append, List.length_singleton]
    omega
  | notify =>
    simp only [TakeSamples.step] at ht
    split at ht
    · cases ht
    · cases ht
      dsimp only
      omega
  | callback =>
    simp only [TakeSamples.step] at ht
    split at ht
    · cases ht
    · -- a callback is only pending while there is a sample left for it
      cases huntaken : s.untaken with
      | nil =>
        rw [huntaken] at h
        simp only [List.length_nil] at h
        omega
      | cons sample rest =>
        rw [onDataAvailable_cons app (s := { s with pending := s.pending - 1 }) huntaken] at ht
        cases ht
        rw [huntaken] at h
        simp only [List.length_cons] at h
        dsimp only
        omega

theorem Accounted.init : Accounted init := rfl

/-- **In every run, once all notifications are handled, the samples that shared a notification
with an earlier one are left.** -/
theorem untaken_eq_coalesced (hs : (machine app).Reachable s) (hhandled : Handled s) :
    s.untaken.length = s.coalesced := by
  have haccount : Accounted s :=
    Machine.invariant Accounted.init (fun _ _ _ _ h ht => h.step ht) hs
  unfold Accounted at haccount
  rw [hhandled.unnotified, hhandled.pending] at haccount
  omega

/-! ## What is counted -/

/-- The samples an application keeps, as it finds them with the instance alive. -/
def App.keepsSample (app : App) (sample : Sample) : Bool := app.keeps ⟨.alive, sample.valid_data⟩

def Counted (app : App) (s : State) : Prop :=
  s.listener.samples_ = UInt32.ofNat (s.taken.countP app.keepsSample)

theorem Counted.step (hcounts : app.counts = true) (h : Counted app s) {e : Event}
    (ht : step app s e = some t) : Counted app t := by
  unfold Counted at *
  cases e with
  | arrive sample =>
    cases ht
    exact h
  | notify =>
    simp only [TakeSamples.step] at ht
    split at ht
    · cases ht
    · cases ht
      exact h
  | callback =>
    simp only [TakeSamples.step] at ht
    split at ht
    · cases ht
    · cases huntaken : s.untaken with
      | nil =>
        simp only [onDataAvailable, takeNextSample, huntaken, Option.some.injEq] at ht
        subst ht
        exact h
      | cons sample rest =>
        rw [onDataAvailable_cons app (s := { s with pending := s.pending - 1 }) huntaken] at ht
        cases ht
        simp only [hcounts, Bool.and_true, List.countP_append, List.countP_singleton, h]
        cases hkeeps : app.keepsSample sample with
        | true =>
          have hkeeps' : app.keeps ⟨.alive, sample.valid_data⟩ = true := hkeeps
          rw [if_pos hkeeps', if_pos rfl, UInt32.ofNat_add]
          rfl
        | false =>
          have hkeeps' : ¬app.keeps ⟨.alive, sample.valid_data⟩ = true := by
            rw [← App.keepsSample, hkeeps]
            decide
          rw [if_neg hkeeps', if_neg (by decide)]
          rfl

theorem Counted.init (app : App) : Counted app init := rfl

/-- **In every run `samples_` is the number of samples taken and kept, modulo 2^32.** -/
theorem samples_counted (hcounts : app.counts = true) (hs : (machine app).Reachable s) :
    s.listener.samples_ = UInt32.ofNat (s.taken.countP app.keepsSample) :=
  Machine.invariant (I := Counted app) (Counted.init app)
    (fun _ _ _ _ h ht => Counted.step hcounts h ht) hs

/-! ## Main result -/

/--
A notification stands for one sample. Where samples are counted, each is kept exactly if it has
data, and `samples_` has room for it.
-/
def OneByOne (app : App) (s : State) : Event → Prop
  | .arrive sample => app.counts = true →
    app.keepsSample sample = sample.valid_data ∧ s.arrived.length + 1 < 4294967296
  | .notify => s.unnotified = 1
  | .callback => True

instance (app : App) (s : State) : (e : Event) → Decidable (OneByOne app s e)
  | .arrive _ => inferInstanceAs (Decidable (_ → _))
  | .notify => inferInstanceAs (Decidable (_ = _))
  | .callback => isTrue trivial

theorem arrived_onDataAvailable (app : App) (s : State) :
    (onDataAvailable app s).arrived = s.arrived ∧
      (onDataAvailable app s).coalesced = s.coalesced := by
  cases huntaken : s.untaken with
  | nil => simp [onDataAvailable, takeNextSample, huntaken]
  | cons sample rest =>
    rw [onDataAvailable_cons app huntaken]
    refine ⟨?_, rfl⟩
    simp only [State.arrived, huntaken, List.append_assoc, List.singleton_append]

/-- What such steps keep. -/
structure InOrder (app : App) (s : State) : Prop where
  single : s.coalesced = 0
  kept : app.counts = true → ∀ sample ∈ s.arrived, app.keepsSample sample = sample.valid_data
  room : app.counts = true → s.arrived.length < 4294967296

theorem InOrder.init (app : App) : InOrder app init where
  single := rfl
  kept _ _ hmem := nomatch hmem
  room _ := by decide

theorem InOrder.step (h : InOrder app s) {e : Event} (he : OneByOne app s e)
    (ht : step app s e = some t) : InOrder app t := by
  cases e with
  | arrive sample =>
    cases ht
    have harrived : State.arrived { s with
        untaken := s.untaken ++ [sample], unnotified := s.unnotified + 1 }
        = s.arrived ++ [sample] := (List.append_assoc ..).symm
    refine ⟨h.single, fun hcounts => ?_, fun hcounts => ?_⟩
    · rw [harrived, List.forall_mem_append, List.forall_mem_singleton]
      exact ⟨h.kept hcounts, (he hcounts).1⟩
    · rw [harrived, List.length_append]
      exact (he hcounts).2
  | notify =>
    have hone : s.unnotified = 1 := he
    simp only [TakeSamples.step, hone] at ht
    cases ht
    exact ⟨h.single, h.kept, h.room⟩
  | callback =>
    simp only [TakeSamples.step] at ht
    split at ht
    · cases ht
    · cases ht
      obtain ⟨harrived, hcoalesced⟩ :=
        arrived_onDataAvailable app { s with pending := s.pending - 1 }
      refine ⟨hcoalesced.trans h.single, ?_, ?_⟩
      · rw [harrived]
        exact h.kept
      · rw [harrived]
        exact h.room

theorem inOrder_of_reachable (hs : (machine app).ReachableWhere (OneByOne app) s) :
    InOrder app s :=
  Machine.invariant (InOrder.init app) (fun _ _ _ he h ht => h.step he ht) hs

theorem untaken_eq_nil (hs : (machine app).ReachableWhere (OneByOne app) s)
    (hhandled : Handled s) : s.untaken = [] := by
  rw [← List.length_eq_zero_iff, untaken_eq_coalesced hs.reachable hhandled,
    (inOrder_of_reachable hs).single]

theorem samples_toNat (hs : (machine app).ReachableWhere (OneByOne app) s)
    (hhandled : Handled s) (hcounts : app.counts = true) :
    s.listener.samples_.toNat = s.arrived.countP Sample.valid_data := by
  have horder := inOrder_of_reachable hs
  -- with nothing left in the reader, what was taken is all there was
  have harrived : s.arrived = s.taken := by
    rw [State.arrived, untaken_eq_nil hs hhandled, List.append_nil]
  have hcongr : s.taken.countP app.keepsSample = s.taken.countP Sample.valid_data := by
    refine List.countP_congr fun sample hmem => ?_
    rw [horder.kept hcounts sample (harrived ▸ hmem)]
  have hlt : s.taken.countP Sample.valid_data < 4294967296 := by
    have hroom := horder.room hcounts
    rw [harrived] at hroom
    exact List.countP_le_length.trans_lt hroom
  rw [harrived, samples_counted hcounts hs.reachable, hcongr, UInt32.toNat_ofNat',
    Nat.mod_eq_of_lt hlt]

/-- `run(number)` then goes on exactly while fewer samples with data have arrived. -/
theorem runWaits_iff (hs : (machine app).ReachableWhere (OneByOne app) s)
    (hhandled : Handled s) (hcounts : app.counts = true) (number : UInt32) :
    runWaits number s = true ↔ s.arrived.countP Sample.valid_data < number.toNat := by
  rw [← samples_toNat hs hhandled hcounts, ← UInt32.lt_iff_toNat_lt]
  exact decide_eq_true_iff

/--
**With a notification for each sample, none is left in the reader and none miscounted.**

A subscriber that counts must not keep a sample without data, nor drop one with data, and there must
be fewer than 2^32.
-/
theorem all_samples_taken (hs : (machine app).ReachableWhere (OneByOne app) s)
    (hhandled : Handled s) :
    s.untaken = [] ∧
      (app.counts = true → s.listener.samples_.toNat = s.arrived.countP Sample.valid_data) :=
  ⟨untaken_eq_nil hs hhandled, samples_toNat hs hhandled⟩

/-- Two samples, a notification and a callback for each of them. -/
def twoNotifications : List Event :=
  [.arrive ⟨true⟩, .notify, .callback, .arrive ⟨true⟩, .notify, .callback]

theorem two_samples_taken : ∃ s, (machine HelloWorldExample.app).Reachable s ∧
    s.arrived.length = 2 ∧ s.untaken = [] ∧ s.listener.samples_.toNat = 2 := by
  have hexec : ((machine HelloWorldExample.app).restrict (OneByOne HelloWorldExample.app)).exec
      twoNotifications = some ⟨[], 0, 0, ⟨0, 2⟩, [⟨true⟩, ⟨true⟩], 0⟩ := by
    decide
  have hs := Machine.reachableWhere_of_exec hexec
  obtain ⟨huntaken, hsamples⟩ := all_samples_taken hs ⟨rfl, rfl⟩
  exact ⟨_, hs.reachable, rfl, huntaken, hsamples rfl⟩

/-- Two samples that are told of at once. -/
def oneNotification : List Event := [.arrive ⟨true⟩, .arrive ⟨true⟩, .notify, .callback]

/-- The subscribers whose callbacks are modelled. -/
def apps : List App :=
  [HelloWorldExample.app, ImageTest.app, HelloWorldExampleTCP.app, HelloWorldExampleSharedMem.app,
    CustomROSTypeDataSubscriber.app]

/-- **The second of two samples stays in the reader, in every subscriber.** -/
theorem second_sample_left :
    ¬∃ app ∈ apps, ∀ s, (machine app).Reachable s → Handled s → s.untaken = [] ∧
      (app.counts = true → s.listener.samples_.toNat = s.arrived.countP Sample.valid_data) := by
  have hexec : ∀ app ∈ apps, (machine app).exec oneNotification = some
      ⟨[⟨true⟩], 0, 0, ⟨0, if app.counts then 1 else 0⟩, [⟨true⟩], 1⟩ := by
    decide
  rintro ⟨app, happ, hall⟩
  have hleft := hall _ (Machine.reachable_of_exec (hexec app happ)) ⟨rfl, rfl⟩
  cases hleft.1

end DdsApps.Threads.TakeSamples
