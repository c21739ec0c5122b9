import DdsApps.Properties.PublishAtomic
import DdsApps.Properties.SampleFilters
import DdsApps.Threads.Topic

/-!
# From the publisher to the subscriber

Whatever is lost on the way, and in whatever order the programs and the middleware take their steps,
a subscriber prints messages that have been written, in their order and none of them twice. The
subscribers that look at `instance_state` are no exception: with one publisher the instance does not
come to life again after it has gone.

* `Publish.Numbered` — what is known of the n-th message
* `Carries` — the type support gives back what it was given
* `Inv` — where the messages are, kept by every step
-/

namespace DdsApps.Threads

open DdsApps.Infra DdsApps.Types

/-! ## The messages of a publisher -/

namespace Publish

variable {μ : Type} {app : App μ} {s t : State μ}

/-- `R i m`: the message is `m` after it has been written `i` times. -/
structure Numbered (app : App μ) (R : Nat → μ → Prop) : Prop where
  init : R 0 app.message
  next : ∀ i m m', R i m → app.prepare m = some m' → R (i + 1) m'

/-- **The messages of every run**, and the one that is kept. -/
theorem Numbered.written {R : Nat → μ → Prop} (hR : Numbered app R)
    (hs : (machine app).Reachable s) :
    R s.written.length s.message ∧ List.Forall₂ R (List.range' 1 s.written.length) s.written := by
  refine Machine.invariant (M := machine app) (I := fun s => R s.written.length s.message ∧
    List.Forall₂ R (List.range' 1 s.written.length) s.written) ⟨hR.init, .nil⟩ ?_ hs
  rintro s e t - ⟨hmessage, hwritten⟩ ht
  rcases step_cases ht with ⟨info, -, -, rfl⟩ | ⟨message, hprepare, rfl⟩ | rfl
  · exact ⟨hmessage, hwritten⟩
  · have hnext := hR.next _ _ _ hmessage hprepare
    have hlength : (s.written ++ [message]).length = s.written.length + 1 := by
      rw [List.length_append, List.length_singleton]
    refine ⟨by rw [hlength]; exact hnext, ?_⟩
    rw [hlength, List.range'_1_concat, Nat.add_comm 1]
    exact List.rel_append hwritten (.cons hnext .nil)
  · exact ⟨hmessage, hwritten⟩

end Publish

/-! ## What is printed of the samples taken -/

namespace Instance

open TakeSamples (App)

variable {μ : Type}

/-- A subscriber that uses only samples with data prints some of these, and counts what it prints. -/
theorem printed_sublist {app : App} (hello_ : μ) {taken : List (Taken μ)}
    (h : ∀ x ∈ taken, app.keeps x.info = true → x.data.isSome) :
    List.Sublist (listener app hello_ taken).printed (contents taken) ∧
      (app.counts = true →
        (listener app hello_ taken).samples_
          = UInt32.ofNat (listener app hello_ taken).printed.length) := by
  induction taken using List.reverseRecOn with
  | nil => exact ⟨.slnil, fun _ => rfl⟩
  | append_singleton taken x ih =>
    rw [List.forall_mem_append, List.forall_mem_singleton] at h
    obtain ⟨hprinted, hsamples⟩ := ih h.1
    rw [contents_append_singleton, listener, List.foldl_concat, ← listener, onDataAvailable]
    cases hkeeps : app.keeps x.info with
    | false =>
      simp only [Bool.false_eq_true, if_false]
      exact ⟨hprinted.trans (List.sublist_append_left _ _), hsamples⟩
    | true =>
      obtain ⟨content, hcontent⟩ := Option.isSome_iff_exists.mp (h.2 hkeeps)
      simp only [if_true, hcontent, Option.getD_some, Option.toList_some, List.length_append,
        List.length_singleton, UInt32.ofNat_add]
      refine ⟨hprinted.append (List.Sublist.refl _), fun hcounts => ?_⟩
      rw [if_pos hcounts, hsamples hcounts]
      rfl

end Instance

namespace Topic

open Instance (Taken Sample contents)
open TakeSamples (InstanceState keepsAlive keepsValid)

variable {μ : Type} {c : Config μ} {s t : State c} {arrives : μ → μ} {R : Nat → μ → Prop}

/-! ## The publisher of a topic -/

theorem refines_publisher : Machine.Refines (machine c) (Publisher.machine c.app c.run)
    (fun _ _ => True) (fun _ _ => True) State.publisher where
  init := rfl
  step := by
    intro s e t _ _ ht
    rcases publisher_of_step ht with hsame | ⟨e', rfl, ht'⟩
    · exact Or.inl hsame
    · exact Or.inr ⟨e', trivial, ht'⟩

/-- The topic refines the publisher with atomic calls. -/
theorem numbered_of_reachable (hR : Publish.Numbered c.app R) (hs : (machine c).Reachable s) :
    R s.publisher.written.length s.publisher.message ∧
      List.Forall₂ R (List.range' 1 s.publisher.written.length) s.publisher.written := by
  have hatomic : (Publish.machine c.app).Reachable s.publisher.atomic :=
    (refines_publisher.trans Publisher.refines_publish).reachableWhere hs
  exact hR.written hatomic

/-- Each message that has been written is one of these. -/
theorem exists_numbered (hR : Publish.Numbered c.app R) (hs : (machine c).Reachable s) :
    ∀ message ∈ s.publisher.written, ∃ i, R i message := by
  intro message hmem
  have hwritten := (numbered_of_reachable hR hs).2
  obtain ⟨n, rfl⟩ := List.mem_iff_get.mp hmem
  have hn : n.val < (List.range' 1 s.publisher.written.length).length := by
    rw [List.length_range']
    exact n.isLt
  exact ⟨_, hwritten.get hn n.isLt⟩

/-! ## The type support -/

/-- The type support gives back the messages that it is given, into whatever object. -/
def Carries (c : Config μ) (R : Nat → μ → Prop) (arrives : μ → μ) : Prop :=
  ∀ (i : Nat) (sent : Sent c) (old : μ), R i sent.message →
    PubSubType.deserialize c.type c.cdr sent.payload.data old = .ok (true, arrives sent.message)

/-- The sample as the listener gets it. -/
def received (arrives : μ → μ) (x : Taken (Sent c)) : Taken μ :=
  ⟨x.instance_state, x.data.map fun sent => arrives sent.message⟩

theorem receive_eq (hc : Carries c R arrives) (l : Instance.Listener μ) {x : Taken (Sent c)}
    (hx : ∀ sent, x.data = some sent → ∃ i, R i sent.message) :
    receive c l x = some (Instance.onDataAvailable c.subscriber l (received arrives x)) := by
  obtain ⟨instance_state, data⟩ := x
  cases data with
  | none => rfl
  | some sent =>
    obtain ⟨i, hi⟩ := hx sent rfl
    simp only [receive, hc i sent l.hello_ hi, received, Option.map_some]

theorem contents_received (taken : List (Taken (Sent c))) :
    contents (taken.map (received arrives))
      = (contents taken).map fun sent => arrives sent.message := by
  unfold contents received
  rw [List.filterMap_map, List.map_filterMap]
  rfl

/-! ## Where the messages are -/

/-- What has been taken, what is in the reader, and what is in flight. -/
def pipeline (s : State c) : List (Sent c) :=
  contents s.reader.taken ++ (s.reader.untaken.filterMap Sample.data ++ s.inFlight)

/-- Nothing has come to the reader yet. -/
structure Unwritten (reader : Instance.State (Sent c)) : Prop where
  writers : reader.writers = []
  instance_state : reader.instance_state = .notAliveNoWriters
  untaken : reader.untaken = []

/-- Something has come, and its writer is there. -/
structure Written (reader : Instance.State (Sent c)) : Prop where
  writers : reader.writers = [0]
  instance_state : reader.instance_state = .alive

/-- The reader, before and after it has learned that its writer is gone. -/
structure ReaderInv (s : State c) : Prop where
  present : s.departed = false → ∀ sample ∈ s.reader.untaken, sample.data.isSome
  phase : s.departed = false → Unwritten s.reader ∨ Written s.reader
  gone : s.departed = true → s.publisher.thread.pc = .exited ∧
    s.reader.instance_state = .notAliveNoWriters ∧ s.inFlight = []
  taken : ∀ x ∈ s.reader.taken, x.instance_state = .alive → x.data.isSome

structure Inv (arrives : μ → μ) (s : State c) : Prop where
  reader : ReaderInv s
  listener : s.listener
    = Instance.listener c.subscriber c.hello_ (s.reader.taken.map (received arrives))
  written : List.Sublist ((pipeline s).map Sent.message) s.publisher.written

theorem ReaderInv.init (c : Config μ) : ReaderInv (init c) where
  present _ _ hmem := absurd hmem List.not_mem_nil
  phase _ := Or.inl ⟨rfl, rfl, rfl⟩
  gone := nofun
  taken _ hmem := absurd hmem List.not_mem_nil

theorem Inv.init : Inv arrives (init c) where
  reader := ReaderInv.init c
  listener := rfl
  written := .slnil

/-- The only writer departs: the sample that may tell of it is all that comes. -/
theorem depart_cases {reader : Instance.State (Sent c)} (noted : Bool)
    (h : Unwritten reader ∨ Written reader) :
    ∃ untaken, (Instance.step reader (.depart 0 noted)).getD reader
      = { reader with
          instance_state := .notAliveNoWriters, writers := []
          untaken := reader.untaken ++ untaken } ∧
      ∀ sample ∈ untaken, sample.data = none := by
  rcases h with ⟨hwriters, hstate, -⟩ | ⟨hwriters, hstate⟩
  · refine ⟨[], ?_, fun _ hmem => absurd hmem List.not_mem_nil⟩
    have hnone : Instance.step reader (.depart 0 noted) = none := by
      rw [Instance.step, hwriters]
      exact if_neg List.not_mem_nil
    rw [hnone, Option.getD_none, List.append_nil, ← hwriters, ← hstate]
  · refine ⟨if noted then [.ended] else [], ?_, ?_⟩
    · have herase : reader.writers.erase 0 = [] := by
        rw [hwriters]
        rfl
      have hmem : 0 ∈ reader.writers := by
        rw [hwriters]
        exact List.mem_singleton_self 0
      simp only [Instance.step, if_pos hmem, herase, hstate, and_self, if_true, Option.getD_some,
        Instance.State.ends]
      cases noted with
      | false => simp only [Bool.false_eq_true, if_false, List.append_nil]
      | true => simp only [if_true]
    · intro sample hmem
      cases noted with
      | false => cases hmem
      | true =>
        rw [List.mem_singleton.mp hmem]
        rfl

/-- A thread that has returned takes no more steps. -/
theorem exited_of_step {c : RunSamples.Config} {s t : RunSamples.State} {e : RunSamples.Event}
    (hpc : s.pc = .exited) (ht : RunSamples.step c s e = some t) : t.pc = .exited := by
  cases e with
  | thread =>
    simp only [RunSamples.step, RunSamples.threadStep, hpc, reduceCtorEq] at ht
  | start =>
    simp only [RunSamples.step, hpc, reduceCtorEq, if_false] at ht
  | key | notify =>
    cases RunSamples.step_cases ht
    exact hpc

theorem not_unwritten {reader : Instance.State (Sent c)} {sample : Sample (Sent c)}
    {rest : List (Sample (Sent c))} (huntaken : reader.untaken = sample :: rest) :
    ¬Unwritten reader := by
  intro h
  have hnil := h.untaken
  rw [huntaken] at hnil
  cases hnil

theorem ReaderInv.step (h : ReaderInv s) {e : Event} (ht : step c s e = some t) : ReaderInv t := by
  cases step_cases ht with
  | write hpc =>
    refine ⟨h.present, h.phase, fun hdeparted => ?_, h.taken⟩
    have hexited := (h.gone hdeparted).1
    rw [hpc] at hexited
    cases hexited
  | publisher hwrites hthread =>
    refine ⟨h.present, h.phase, fun hdeparted => ?_, h.taken⟩
    exact ⟨exited_of_step (h.gone hdeparted).1 hthread, (h.gone hdeparted).2⟩
  | @deliver sent rest hinFlight =>
    have hpresent : s.departed = false := by
      refine Bool.eq_false_iff.mpr fun hdeparted => ?_
      have hnone := (h.gone hdeparted).2.2
      rw [hinFlight] at hnone
      cases hnone
    refine ⟨fun _ => ?_, fun _ => ?_, fun hdeparted => ?_, h.taken⟩
    · rw [List.forall_mem_append, List.forall_mem_singleton]
      exact ⟨h.present hpresent, rfl⟩
    · refine Or.inr ⟨?_, rfl⟩
      rcases h.phase hpresent with hunwritten | hwritten
      · simp only [hunwritten.writers, List.not_mem_nil, if_false]
      · simp only [hwritten.writers, List.mem_singleton_self, if_true]
    · exact absurd (hpresent.symm.trans hdeparted) (by decide)
  | lose hinFlight =>
    refine ⟨h.present, h.phase, fun hdeparted => ?_, h.taken⟩
    have hnone := (h.gone hdeparted).2.2
    rw [hinFlight] at hnone
    cases hnone
  | replace huntaken =>
    refine ⟨fun hpresent sample hmem => ?_, fun hpresent => ?_, h.gone, h.taken⟩
    · exact h.present hpresent sample (huntaken ▸ List.mem_cons_of_mem _ hmem)
    · have hwritten := (h.phase hpresent).resolve_left (not_unwritten huntaken)
      exact Or.inr ⟨hwritten.writers, hwritten.instance_state⟩
  | @depart noted hpc hpresent =>
    obtain ⟨untaken, heq, -⟩ := depart_cases noted (h.phase hpresent)
    rw [heq]
    exact ⟨nofun, nofun, fun _ => ⟨hpc, rfl, rfl⟩, h.taken⟩
  | takeNone => exact h
  | @take sample rest listener huntaken hreceive =>
    refine ⟨fun hpresent sample hmem => ?_, fun hpresent => ?_, h.gone, ?_⟩
    · exact h.present hpresent sample (huntaken ▸ List.mem_cons_of_mem _ hmem)
    · have hwritten := (h.phase hpresent).resolve_left (not_unwritten huntaken)
      exact Or.inr ⟨hwritten.writers, hwritten.instance_state⟩
    · rw [List.forall_mem_append, List.forall_mem_singleton]
      refine ⟨h.taken, fun halive => ?_⟩
      -- an instance that is alive has its writer, and so every sample is one with data
      have hpresent : s.departed = false := by
        refine Bool.eq_false_iff.mpr fun hdeparted => ?_
        exact absurd ((h.gone hdeparted).2.1.symm.trans halive) (by decide)
      exact h.present hpresent sample (huntaken ▸ List.mem_cons_self ..)

/-- What is in flight is the message that was written. -/
theorem message_of_write {message : μ} {sent : Option (Sent c)} (h : write c message = .ok sent) :
    List.Sublist (sent.toList.map Sent.message) [message] := by
  unfold write at h
  split at h
  · cases h
    exact List.Sublist.refl _
  · cases h
    exact List.nil_sublist _
  · cases h

/-- What is left to take has been written. -/
theorem Inv.numbered_untaken (h : Inv arrives s)
    (hnumbered : ∀ message ∈ s.publisher.written, ∃ i, R i message)
    {sample : Sample (Sent c)} (hsample : sample ∈ s.reader.untaken) {sent : Sent c}
    (hsent : sample.data = some sent) : ∃ i, R i sent.message := by
  have hmem : sent ∈ pipeline s := by
    refine List.mem_append_right _ (List.mem_append_left _ ?_)
    exact List.mem_filterMap.mpr ⟨sample, hsample, hsent⟩
  exact hnumbered _ (h.written.subset (List.mem_map_of_mem hmem))

theorem Inv.step (hc : Carries c R arrives)
    (hnumbered : ∀ message ∈ s.publisher.written, ∃ i, R i message) (h : Inv arrives s) {e : Event}
    (ht : step c s e = some t) : Inv arrives t := by
  have hreader := h.reader.step ht
  have hwritten := h.written
  unfold pipeline at hwritten
  cases step_cases ht with
  | @write message thread sent hpc hprepare hwrite =>
    refine ⟨hreader, h.listener, ?_⟩
    simp only [pipeline, ← List.append_assoc, List.map_append] at hwritten ⊢
    exact hwritten.append (message_of_write hwrite)
  | publisher => exact ⟨hreader, h.listener, hwritten⟩
  | @deliver sent rest hinFlight =>
    refine ⟨hreader, h.listener, ?_⟩
    rw [hinFlight] at hwritten
    simpa only [pipeline, List.filterMap_append, Sample.write, List.filterMap_cons,
      List.filterMap_nil, List.append_assoc, List.singleton_append] using hwritten
  | @lose sent rest hinFlight =>
    refine ⟨hreader, h.listener, List.Sublist.trans (List.Sublist.map _ ?_) hwritten⟩
    rw [hinFlight]
    exact ((List.Sublist.refl _).append ((List.Sublist.refl _).append (List.sublist_cons_self ..)))
  | @replace sample rest huntaken =>
    refine ⟨hreader, h.listener, List.Sublist.trans (List.Sublist.map _ ?_) hwritten⟩
    rw [huntaken]
    exact (List.Sublist.refl _).append
      (((List.sublist_cons_self ..).filterMap _).append (List.Sublist.refl _))
  | @depart noted hpc hpresent =>
    obtain ⟨untaken, heq, hnone⟩ := depart_cases noted (h.reader.phase hpresent)
    rw [heq] at hreader ⊢
    refine ⟨hreader, h.listener, List.Sublist.trans (List.Sublist.map _ ?_) hwritten⟩
    simp only [pipeline, List.filterMap_append, List.filterMap_eq_nil_iff.mpr hnone,
      List.append_nil]
    exact (List.Sublist.refl _).append (List.sublist_append_left ..)
  | takeNone => exact h
  | @take sample rest listener huntaken hreceive =>
    refine ⟨hreader, ?_, ?_⟩
    · have hsample : sample ∈ s.reader.untaken := huntaken ▸ List.mem_cons_self ..
      rw [receive_eq hc _ fun _ => h.numbered_untaken hnumbered hsample, Option.some_inj]
        at hreceive
      rw [← hreceive, List.map_append, List.map_singleton, Instance.listener, List.foldl_concat,
        ← Instance.listener, h.listener]
    · rw [huntaken] at hwritten
      cases hdata : sample.data with
      | none =>
        simpa only [pipeline, Instance.contents_append_singleton, hdata, Option.toList_none,
          List.append_nil, List.filterMap_cons] using hwritten
      | some sent =>
        simpa only [pipeline, Instance.contents_append_singleton, hdata, Option.toList_some,
          List.filterMap_cons, List.append_assoc, List.singleton_append, List.cons_append,
          List.nil_append] using hwritten

theorem inv_of_reachable (hR : Publish.Numbered c.app R) (hc : Carries c R arrives)
    (hs : (machine c).Reachable s) : Inv arrives s := by
  induction hs with
  | init => exact Inv.init
  | step hs _ ht ih => exact ih.step hc (exists_numbered hR hs) ht

/-! ## Safety -/

/-- The listener uses no sample without data. -/
theorem keeps_data (arrives : μ → μ) (hsub : c.subscriber ∈ Instance.subscribers)
    (h : ReaderInv s) :
    ∀ x ∈ s.reader.taken.map (received arrives),
      c.subscriber.keeps x.info = true → x.data.isSome := by
  rw [List.forall_mem_map]
  intro x hx hkeeps
  rcases Instance.subscribers_keep c.subscriber hsub with halive | hvalid
  · rw [halive, keepsAlive, beq_iff_eq] at hkeeps
    have hdata := h.taken x hx hkeeps
    simpa only [received, Option.isSome_map] using hdata
  · rw [hvalid] at hkeeps
    exact hkeeps

/-- Some of the messages, in their order and none of them twice, and as many as are counted. -/
structure Prints (messages : List μ) (s : State c) : Prop where
  printed : List.Sublist s.listener.printed messages
  counted : c.subscriber.counts = true →
    s.listener.samples_ = UInt32.ofNat s.listener.printed.length
  /-- `run(number)` does not return before there are so many -/
  waits : c.subscriber.counts = true → ∀ number, runWaits c number s = false →
    number.toNat ≤ messages.length
  /-- nothing that is taken is refused -/
  takes : ∃ t, step c s .take = some t

/-- **In every run, what is printed has been written.** -/
theorem prints_written (hR : Publish.Numbered c.app R) (hc : Carries c R arrives)
    (hsub : c.subscriber ∈ Instance.subscribers) (hs : (machine c).Reachable s) :
    Prints (s.publisher.written.map arrives) s := by
  have hinv := inv_of_reachable hR hc hs
  obtain ⟨hprinted, hcounted⟩ :=
    Instance.printed_sublist c.hello_ (keeps_data arrives hsub hinv.reader)
  rw [← hinv.listener] at hprinted hcounted
  rw [contents_received] at hprinted
  have hcontents : List.Sublist ((contents s.reader.taken).map fun sent => arrives sent.message)
      (s.publisher.written.map arrives) := by
    have htaken := ((List.sublist_append_left (contents s.reader.taken) _).map Sent.message).trans
      hinv.written
    have harrived := htaken.map arrives
    rwa [List.map_map] at harrived
  have hsublist := hprinted.trans hcontents
  refine ⟨hsublist, hcounted, fun hcounts number hwaits => ?_, ?_⟩
  · have hle : number.toNat ≤ s.listener.samples_.toNat := by
      have hnot := of_decide_eq_false hwaits
      rw [gt_iff_lt, UInt32.lt_iff_toNat_lt] at hnot
      omega
    rw [hcounted hcounts, UInt32.toNat_ofNat'] at hle
    exact hle.trans ((Nat.mod_le _ _).trans hsublist.length_le)
  · simp only [step]
    split
    · exact ⟨_, rfl⟩
    · next sample rest huntaken =>
      have hsample : sample ∈ s.reader.untaken := huntaken ▸ List.mem_cons_self ..
      rw [receive_eq hc _ fun _ => hinv.numbered_untaken (exists_numbered hR hs) hsample]
      simp only [Instance.step, huntaken, Option.bind_some, Option.map_some]
      exact ⟨_, rfl⟩

end Topic

end DdsApps.Threads
