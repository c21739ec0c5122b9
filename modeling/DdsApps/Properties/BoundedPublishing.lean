import DdsApps.Threads.RunSamples

/-!
# Bounded publishing is exact

With a positive number of samples the thread writes that many messages, numbered from 1, and none
before a subscriber has been seen; whatever the order of its steps and of the notifications.

* `Gated` — what opens the gate of `publish()`, when each notification tells of one peer
* `Counted` — how `i`, the index and the messages written hang together at each step of the loop,
  whatever is notified
* `bounded_publishing_exact` — what holds in every reachable state
-/

namespace DdsApps.Threads.RunSamples

open DdsApps.Infra

variable {c : Config} {s t : State}

/-! ## The gate -/

/-- The listener has seen a match as soon as it has been told anything, and nothing is written
before that. -/
structure Gated (s : State) : Prop where
  fresh : s.notified = [] → s.listener = .initial
  connected : s.notified ≠ [] → s.listener.first_connected_ = true
  seen : s.listener.first_connected_ = true → ∃ info ∈ s.notified, info.current_count_change = 1
  write : s.pc = .write → s.listener.first_connected_ = true
  opened : s.written ≠ [] → s.listener.first_connected_ = true

theorem Gated.init (c : Config) : Gated (init c) where
  fresh _ := rfl
  connected h := absurd rfl h
  seen h := by cases h
  write hpc := by cases hpc
  opened h := absurd rfl h

/-- The first notification can only tell of a match. -/
theorem Gated.notify (h : Gated s) {info : MatchedStatus} (hfollows : s.status.Follows info)
    (hone : info.current_count_change = 1 ∨ info.current_count_change = -1) :
    Gated { s with
      listener := s.listener.on_publication_matched info, notified := info :: s.notified } := by
  have hconnected : (s.listener.on_publication_matched info).first_connected_ = true := by
    unfold PubListener.on_publication_matched
    rcases hone with hmatch | hleft
    · exact if_pos hmatch
    · -- a departure cannot come first: the current count would be -1
      have hne : s.notified ≠ [] := by
        intro hnil
        have hcurrent := hfollows.current
        have hnonneg := hfollows.nonneg
        rw [State.status, hnil, hleft] at hcurrent
        simp only [List.headD_nil, MatchedStatus.initial] at hcurrent
        omega
      simp only [h.connected hne, ite_self]
  refine ⟨fun hnil => absurd hnil (List.cons_ne_nil _ _), fun _ => hconnected, fun _ => ?_,
    fun _ => hconnected, fun _ => hconnected⟩
  by_cases hmatch : info.current_count_change = 1
  · exact ⟨info, List.mem_cons_self .., hmatch⟩
  · have hseen : s.listener.first_connected_ = true := by
      unfold PubListener.on_publication_matched at hconnected
      simpa only [if_neg hmatch] using hconnected
    obtain ⟨info', hmem, hchange⟩ := h.seen hseen
    exact ⟨info', List.mem_cons_of_mem _ hmem, hchange⟩

/-- A positive `matched_` comes from a notification as well. -/
theorem Gated.connected_of_matched (h : Gated s) (hmatched : s.listener.matched_ > 0) :
    s.listener.first_connected_ = true := by
  refine h.connected fun hnil => ?_
  rw [h.fresh hnil] at hmatched
  exact absurd hmatched (by decide)

theorem Gated.thread (h : Gated s) (hn : c.samples ≠ 0) (ht : ThreadStep c s t) : Gated t := by
  cases ht with
  | connected hpc hfirst => exact ⟨h.fresh, h.connected, h.seen, fun _ => hfirst, h.opened⟩
  | pass hpc hgate =>
    have hfirst := h.connected_of_matched (hgate.resolve_left hn)
    exact ⟨h.fresh, h.connected, h.seen, fun _ => hfirst, h.opened⟩
  | write hpc => exact ⟨h.fresh, h.connected, h.seen, nofun, fun _ => h.write hpc⟩
  | _ => exact ⟨h.fresh, h.connected, h.seen, nofun, h.opened⟩

theorem Gated.step (hn : c.samples ≠ 0) (h : Gated s) {e : Event} (he : SinglePeer s e)
    (ht : step c s e = some t) : Gated t := by
  cases step_cases ht with
  | start => exact ⟨h.fresh, h.connected, h.seen, nofun, h.opened⟩
  | key hc => exact absurd hc hn
  | notify hfollows => exact h.notify hfollows he
  | thread ht => exact h.thread hn ht

theorem gated_of_reachable (hn : c.samples ≠ 0) (hs : (machine c).ReachableWhere SinglePeer s) :
    Gated s :=
  Machine.invariant (Gated.init c) (fun _ _ _ he h ht => h.step hn he ht) hs

/-! ## The loop -/

/-- What `i` is at each step of the loop; in `sleep` a failure has taken it back below 0. -/
def LoopCount (c : Config) (s : State) : Prop :=
  match s.pc with
  | .notStarted | .entry => s.written = []
  | .forTest => s.i.toNat = s.written.length
  | .readFirst | .readMatched | .write | .published false =>
    s.i.toNat = s.written.length ∧ s.written.length < c.samples.toNat
  | .published true => s.i.toNat + 1 = s.written.length
  | .sleep => (s.i + 1).toNat = s.written.length
  | .whileTest => False
  | .exited => s.written.length = c.samples.toNat

theorem LoopCount.congr (h : LoopCount c s) (hpc : t.pc = s.pc) (hi : t.i = s.i)
    (hwritten : t.written = s.written) : LoopCount c t := by
  unfold LoopCount at h ⊢
  rw [hpc, hi, hwritten]
  exact h

structure Counted (c : Config) (s : State) : Prop where
  index : s.index.toNat = s.written.length
  numbered : s.written.map UInt32.toNat = List.range' 1 s.written.length
  bound : s.written.length ≤ c.samples.toNat
  loop : LoopCount c s

theorem Counted.init (c : Config) : Counted c (init c) :=
  ⟨rfl, rfl, Nat.zero_le _, rfl⟩

/-- A step that writes nothing only has to keep the loop's count. -/
theorem Counted.congr (h : Counted c s) (hindex : t.index = s.index)
    (hwritten : t.written = s.written) (hloop : LoopCount c t) : Counted c t := by
  refine ⟨?_, ?_, ?_, hloop⟩
  · rw [hindex, hwritten]
    exact h.index
  · rw [hwritten]
    exact h.numbered
  · rw [hwritten]
    exact h.bound

/-- Writing numbers the next message. -/
theorem Counted.write (h : Counted c s) (hpc : s.pc = .write) :
    Counted c { s with
      index := s.index + 1, written := s.written ++ [s.index + 1], pc := .published true } := by
  have hloop := h.loop
  simp only [LoopCount, hpc] at hloop
  obtain ⟨hi, hlt⟩ := hloop
  -- there are fewer than 2^32 messages, so the index does not wrap
  have hn := c.samples.toNat_lt
  have hnext : (s.index + 1).toNat = s.written.length + 1 := by
    rw [UInt32.toNat_add, h.index, UInt32.toNat_one]
    omega
  have hlen : (s.written ++ [s.index + 1]).length = s.written.length + 1 := by simp
  refine ⟨hnext.trans hlen.symm, ?_, by rw [hlen]; exact hlt, ?_⟩
  · rw [List.map_append, h.numbered, hlen, List.range'_1_concat, List.map_singleton, hnext,
      Nat.add_comm 1]
  · simp only [LoopCount, hlen, hi]

/-- **Each step of the thread keeps the count.** -/
theorem Counted.thread (h : Counted c s) (hn : c.samples ≠ 0) (ht : ThreadStep c s t) :
    Counted c t := by
  have hloop := h.loop
  cases ht with
  | endless _ hc | failedEndless _ hc | whileNext _ hc => exact absurd hc hn
  | stop hpc | whileRound hpc => simp [LoopCount, hpc] at hloop
  | counting hpc =>
    simp only [LoopCount, hpc] at hloop
    exact h.congr rfl rfl (by simp [LoopCount, hloop])
  | forRound hpc hlt =>
    have hlt' : s.i.toNat < c.samples.toNat := UInt32.lt_iff_toNat_lt.mp hlt
    simp only [LoopCount, hpc] at hloop
    refine h.congr rfl rfl ?_
    simp only [LoopCount]
    exact ⟨hloop, by omega⟩
  | finish hpc hge =>
    have hge' : ¬s.i.toNat < c.samples.toNat := mt UInt32.lt_iff_toNat_lt.mpr hge
    have hbound := h.bound
    simp only [LoopCount, hpc] at hloop
    refine h.congr rfl rfl ?_
    simp only [LoopCount]
    omega
  | connected hpc | unconnected hpc | pass hpc | refuse hpc =>
    refine h.congr rfl rfl ?_
    simpa only [LoopCount, hpc] using hloop
  | write hpc => exact h.write hpc
  | sent hpc =>
    have hn := c.samples.toNat_lt
    have hbound := h.bound
    simp only [LoopCount, hpc] at hloop
    refine h.congr rfl rfl ?_
    simp only [LoopCount, UInt32.toNat_add, UInt32.toNat_one]
    omega
  | failed hpc =>
    -- `i` may be 2^32 - 1 here; the `++i` that follows takes it back to where it was
    simp only [LoopCount, hpc] at hloop
    refine h.congr rfl rfl ?_
    simp only [LoopCount, UInt32.sub_add_cancel]
    exact hloop.1
  | forNext hpc =>
    simp only [LoopCount, hpc] at hloop
    exact h.congr rfl rfl (by simpa only [LoopCount] using hloop)

/-! ## Every run -/

theorem Counted.step (hn : c.samples ≠ 0) (h : Counted c s) {e : Event}
    (ht : step c s e = some t) : Counted c t := by
  cases step_cases ht with
  | start hpc =>
    have hloop := h.loop
    simp only [LoopCount, hpc] at hloop
    exact h.congr rfl rfl (by simpa only [LoopCount])
  | key hc => exact absurd hc hn
  | notify => exact h.congr rfl rfl (h.loop.congr rfl rfl rfl)
  | thread ht => exact h.thread hn ht

/-- The count does not depend on what the listener is told. -/
theorem counted_of_reachable (hn : c.samples ≠ 0) (hs : (machine c).Reachable s) : Counted c s :=
  Machine.invariant (Counted.init c) (fun _ _ _ _ h ht => h.step hn ht) hs

/-- At the loop test the thread leaves exactly when all messages are written. -/
theorem forTest_exits_iff (h : Counted c s) (hpc : s.pc = .forTest)
    (ht : threadStep c s = some t) : t.pc = .exited ↔ s.written.length = c.samples.toNat := by
  have hloop := h.loop
  have hbound := h.bound
  simp only [LoopCount, hpc] at hloop
  simp only [threadStep, hpc, Option.some.injEq] at ht
  subst ht
  by_cases hlt : s.i < c.samples
  · have hlt' : s.i.toNat < c.samples.toNat := UInt32.lt_iff_toNat_lt.mp hlt
    simp only [if_pos hlt, reduceCtorEq, false_iff]
    omega
  · have hge : ¬s.i.toNat < c.samples.toNat := mt UInt32.lt_iff_toNat_lt.mpr hlt
    simp only [if_neg hlt, true_iff]
    omega

/--
**Bounded publishing is exact.**

In every state that steps of the thread and notifications lead to: nothing is written before a
match; the messages are numbered from 1; the counter is their number at every loop test; and the
loop is left with `samples` messages, which are never exceeded, and only then.
-/
theorem bounded_publishing_exact (hn : c.samples ≠ 0)
    (hs : (machine c).ReachableWhere SinglePeer s) :
    ((∀ info ∈ s.notified, info.current_count_change ≠ 1) → s.written = []) ∧
    s.written.map UInt32.toNat = List.range' 1 s.written.length ∧
    (s.pc = .forTest → s.i.toNat = s.written.length) ∧
    (s.pc = .forTest → ∀ t, step c s .thread = some t →
      (t.pc = .exited ↔ s.written.length = c.samples.toNat)) ∧
    (s.pc = .exited → s.written.length = c.samples.toNat) ∧
    s.written.length ≤ c.samples.toNat := by
  have hgated := gated_of_reachable hn hs
  have hcounted := counted_of_reachable hn hs.reachable
  have hloop := hcounted.loop
  refine ⟨?_, hcounted.numbered, ?_, ?_, ?_, hcounted.bound⟩
  · intro hnone
    by_contra hne
    obtain ⟨info, hmem, hmatch⟩ := hgated.seen (hgated.opened hne)
    exact hnone info hmem hmatch
  · intro hpc
    simpa only [LoopCount, hpc] using hloop
  · intro hpc t ht
    exact forTest_exits_iff hcounted hpc ht
  · intro hpc
    simpa only [LoopCount, hpc] using hloop

/-- Two samples, as `HelloWorldExample` runs them. -/
def twoSamples : Config := { samples := 2, clearsStop := true, stop_ := false }

/-- The first attempt fails, and takes `i` below 0; then a subscriber comes. -/
def failsOnce : List Event :=
  [.start, .thread, .thread, .thread, .thread, .thread, .notify ⟨1, 1, 1⟩, .thread, .thread,
    .thread, .thread, .thread, .thread, .thread, .thread, .thread, .thread, .thread, .thread]

theorem failsOnce_writes_two : ∃ s, (machine twoSamples).exec failsOnce = some s ∧
    s.pc = .exited ∧ s.written.map UInt32.toNat = [1, 2] := by
  have hexec : ((machine twoSamples).restrict SinglePeer).exec failsOnce = some
      ⟨.exited, 2, false, ⟨1, true⟩, 2, [1, 2], [⟨1, 1, 1⟩]⟩ := by
    decide
  have hexact := bounded_publishing_exact (c := twoSamples) (by decide)
    (Machine.reachableWhere_of_exec hexec)
  exact ⟨_, by decide, rfl, hexact.2.1⟩

end DdsApps.Threads.RunSamples
