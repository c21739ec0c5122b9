import DdsApps.Threads.Instance

/-!
# The two sample filters

Some subscribers use a sample when its instance is alive, others when it carries data. The state of
the instance is that of the moment the sample is taken, so what happens before may set them apart.

* `listener_of_keeps` — a subscriber that keeps the samples with data counts and prints these
* `filtersAgree_iff` — all subscribers do, as long as the filters agree on what was taken
* `settled_step` — the events that keep what is in the reader from being taken too late
* `filters_agree_undisturbed` — the filters agree in the runs of such events
* `filters_differ` — runs in which they do not
-/

namespace DdsApps.Threads.Instance

open DdsApps.Infra
open TakeSamples (App InstanceState SampleInfo keepsAlive keepsValid)

variable {μ : Type} {s t : State μ}

/-! ## What a subscriber makes of the samples it has taken -/

/-- The contents of the samples with data, in order. -/
def contents (taken : List (Taken μ)) : List μ := taken.filterMap Taken.data

theorem contents_append_singleton (taken : List (Taken μ)) (x : Taken μ) :
    contents (taken ++ [x]) = contents taken ++ x.data.toList := by
  unfold contents
  rw [List.filterMap_append, List.filterMap_cons]
  cases x.data <;> rfl

/-- **A subscriber that keeps the samples with data prints these**, and has counted them. -/
theorem listener_of_keeps {app : App} (hello_ : μ) {taken : List (Taken μ)}
    (h : ∀ x ∈ taken, app.keeps x.info = x.data.isSome) :
    (listener app hello_ taken).printed = contents taken ∧
      (app.counts = true →
        (listener app hello_ taken).samples_ = UInt32.ofNat (contents taken).length) := by
  induction taken using List.reverseRecOn with
  | nil => exact ⟨rfl, fun _ => rfl⟩
  | append_singleton taken x ih =>
    rw [List.forall_mem_append, List.forall_mem_singleton] at h
    obtain ⟨hprinted, hsamples⟩ := ih h.1
    rw [contents_append_singleton, listener, List.foldl_concat, ← listener, onDataAvailable, h.2]
    cases hdata : x.data with
    | none =>
      -- neither counted nor printed, whatever is in `hello_`
      simp only [Option.isSome_none, Bool.false_eq_true, if_false, Option.toList_none,
        List.append_nil]
      exact ⟨hprinted, hsamples⟩
    | some content =>
      simp only [Option.isSome_some, if_true, Option.getD_some, Option.toList_some]
      refine ⟨by rw [hprinted], fun hcounts => ?_⟩
      rw [if_pos hcounts, hsamples hcounts, List.length_append, List.length_singleton,
        UInt32.ofNat_add]
      rfl

/-! ## Agreement -/

/-- Both filters accept the same samples, and each subscriber counts and prints those with data. -/
structure FiltersAgree (taken : List (Taken μ)) : Prop where
  same : ∀ x ∈ taken, keepsAlive x.info = keepsValid x.info
  counted : ∀ app ∈ subscribers, app.counts = true → ∀ hello_,
    (listener app hello_ taken).samples_.toNat = (contents taken).length
  printed : ∀ app ∈ subscribers, ∀ hello_, (listener app hello_ taken).printed = contents taken

theorem keepsAlive_eq_keepsValid_iff {x : Taken μ} :
    keepsAlive x.info = keepsValid x.info ↔ (x.instance_state = .alive ↔ x.data.isSome) := by
  unfold keepsAlive keepsValid Taken.info
  rw [Bool.eq_iff_iff, beq_iff_eq]

/-- It is enough that the filters agree, while the number fits into `samples_`. -/
theorem filtersAgree_iff {taken : List (Taken μ)} :
    FiltersAgree taken ↔ (∀ x ∈ taken, keepsAlive x.info = keepsValid x.info) ∧
      (contents taken).length < 4294967296 := by
  constructor
  · intro h
    refine ⟨h.same, ?_⟩
    cases hcontents : contents taken with
    | nil => exact Nat.zero_lt_succ _
    | cons content rest =>
      rw [← hcontents,
        ← h.counted TakeSamples.HelloWorldExample.app (List.mem_cons_self ..) rfl content]
      exact UInt32.toNat_lt _
  · rintro ⟨hsame, hroom⟩
    have hkeeps : ∀ app ∈ subscribers, ∀ x ∈ taken, app.keeps x.info = x.data.isSome := by
      intro app happ x hx
      rcases subscribers_keep app happ with halive | hvalid
      · rw [halive, hsame x hx]
        rfl
      · rw [hvalid]
        rfl
    refine ⟨hsame, fun app happ hcounts hello_ => ?_, fun app happ hello_ => ?_⟩
    · rw [(listener_of_keeps hello_ (hkeeps app happ)).2 hcounts, UInt32.toNat_ofNat',
        Nat.mod_eq_of_lt hroom]
    · exact (listener_of_keeps hello_ (hkeeps app happ)).1

/-! ## What is still in the reader -/

/-- The contents of the samples with data that have not been taken. -/
def State.waiting (s : State μ) : List μ := s.untaken.filterMap Sample.data

/-- Everything in the reader is taken, as the instance is now. -/
def State.drained (s : State μ) : State μ :=
  { s with
    untaken := []
    taken := s.taken ++ s.untaken.map fun sample => ⟨s.instance_state, sample.data⟩ }

theorem run_take (s : State μ) :
    (machine μ).run s (List.replicate s.untaken.length .take) = some s.drained := by
  obtain ⟨instance_state, writers, untaken, taken⟩ := s
  induction untaken generalizing taken with
  | nil => simp only [State.drained, List.map_nil, List.append_nil]; rfl
  | cons sample rest ih =>
    rw [List.length_cons, List.replicate_succ, Machine.run]
    refine (ih (taken ++ [⟨instance_state, sample.data⟩])).trans ?_
    simp only [State.drained, List.map_cons, List.append_assoc, List.singleton_append]

/-- Whatever is in the reader leaves the filters agreed when it is taken now. -/
structure Settled (s : State μ) : Prop where
  taken : ∀ x ∈ s.taken, keepsAlive x.info = keepsValid x.info
  untaken : ∀ sample ∈ s.untaken, s.instance_state = .alive ↔ sample.data.isSome
  room : (contents s.taken).length + s.waiting.length < 4294967296

theorem contents_drained (s : State μ) : contents s.drained.taken = contents s.taken ++ s.waiting := by
  simp only [contents, State.drained, State.waiting, List.filterMap_append, List.filterMap_map]
  rfl

theorem filtersAgree_drained_iff : FiltersAgree s.drained.taken ↔ Settled s := by
  rw [filtersAgree_iff, contents_drained, List.length_append]
  simp only [State.drained, List.forall_mem_append, List.forall_mem_map,
    keepsAlive_eq_keepsValid_iff]
  constructor
  · rintro ⟨⟨htaken, huntaken⟩, hroom⟩
    exact ⟨fun x hx => keepsAlive_eq_keepsValid_iff.mpr (htaken x hx), huntaken, hroom⟩
  · rintro ⟨htaken, huntaken, hroom⟩
    exact ⟨⟨fun x hx => keepsAlive_eq_keepsValid_iff.mp (htaken x hx), huntaken⟩, hroom⟩

theorem Settled.filtersAgree (h : Settled s) : FiltersAgree s.taken :=
  filtersAgree_iff.mpr ⟨h.taken, (Nat.le_add_right _ _).trans_lt h.room⟩

theorem Settled.init : Settled (init : State μ) where
  taken _ hmem := absurd hmem List.not_mem_nil
  untaken _ hmem := absurd hmem List.not_mem_nil
  room := Nat.zero_lt_succ _

/-! ## What disturbs it -/

/--
No write comes while a sample without data has not been taken, the instance does not end while one
with data has not; and fewer than 2^32 samples with data are written.
-/
def Undisturbed (s : State μ) : Event μ → Prop
  | .write _ _ =>
    (∀ sample ∈ s.untaken, sample.data.isSome) ∧
      (contents s.taken).length + s.waiting.length + 1 < 4294967296
  | .dispose _ => ∀ sample ∈ s.untaken, sample.data.isNone
  | .depart writer _ =>
    -- only the last one that keeps it alive ends it
    s.writers.erase writer = [] → s.instance_state = .alive →
      ∀ sample ∈ s.untaken, sample.data.isNone
  | .take => True

instance (s : State μ) : (e : Event μ) → Decidable (Undisturbed s e)
  | .write _ _ => inferInstanceAs (Decidable (_ ∧ _))
  | .dispose _ => inferInstanceAs (Decidable (∀ sample ∈ s.untaken, _))
  | .depart writer _ =>
    inferInstanceAs (Decidable (s.writers.erase writer = [] → s.instance_state = .alive → _))
  | .take => isTrue trivial

/-- An instance that ends leaves the samples without data as they should be, and no others. -/
theorem Settled.ends_iff (h : Settled s) {instance_state : InstanceState}
    (hended : instance_state ≠ .alive) (noted : Bool) :
    Settled (s.ends instance_state noted) ↔ ∀ sample ∈ s.untaken, sample.data.isNone := by
  have hnew : ∀ sample ∈ (if noted then [Sample.ended] else [] : List (Sample μ)),
      sample.data = none := by
    intro sample hmem
    cases noted with
    | false => cases hmem
    | true => rw [List.mem_singleton.mp hmem]; rfl
  have huntaken : (s.ends instance_state noted).untaken
      = s.untaken ++ if noted then [.ended] else [] := by
    cases noted with
    | false => exact (List.append_nil _).symm
    | true => rfl
  have hwaiting : (s.ends instance_state noted).waiting = s.waiting := by
    rw [State.waiting, huntaken, List.filterMap_append, List.filterMap_eq_nil_iff.mpr hnew,
      List.append_nil, State.waiting]
  constructor
  · intro hends sample hmem
    have hsample := hends.untaken sample (huntaken ▸ List.mem_append_left _ hmem)
    rw [← Option.not_isSome_iff_eq_none.trans Option.isNone_iff_eq_none.symm, ← hsample]
    exact hended
  · intro hnone
    refine ⟨h.taken, ?_, ?_⟩
    · rw [huntaken, List.forall_mem_append]
      refine ⟨fun sample hmem => iff_of_false hended ?_, fun sample hmem => iff_of_false hended ?_⟩
      · rw [Option.isNone_iff_eq_none.mp (hnone sample hmem)]
        exact Bool.false_ne_true
      · rw [hnew sample hmem]
        exact Bool.false_ne_true
    · rw [hwaiting]
      exact h.room

/-- **An event leaves the reader settled exactly if it does not disturb it.** -/
theorem settled_step (h : Settled s) {e : Event μ} (ht : step s e = some t) :
    Undisturbed s e ↔ Settled t := by
  cases e with
  | write writer content =>
    cases ht
    constructor
    · rintro ⟨hdata, hroom⟩
      refine ⟨h.taken, ?_, ?_⟩
      · rw [List.forall_mem_append, List.forall_mem_singleton]
        exact ⟨fun sample hmem => iff_of_true rfl (hdata sample hmem), iff_of_true rfl rfl⟩
      · rw [State.waiting, List.filterMap_append, List.length_append]
        exact hroom
    · rintro ⟨-, huntaken, hroom⟩
      rw [List.forall_mem_append] at huntaken
      rw [State.waiting, List.filterMap_append, List.length_append] at hroom
      exact ⟨fun sample hmem => (huntaken.1 sample hmem).mp rfl, hroom⟩
  | dispose noted =>
    cases ht
    exact (h.ends_iff (by decide) noted).symm
  | depart writer noted =>
    simp only [step] at ht
    have hleft : Settled { s with writers := s.writers.erase writer } :=
      ⟨h.taken, h.untaken, h.room⟩
    split at ht
    · split at ht
      · next hlast =>
        cases ht
        rw [hleft.ends_iff (by decide)]
        exact ⟨fun hnone => hnone hlast.1 hlast.2, fun hnone _ _ => hnone⟩
      · next hlast =>
        cases ht
        exact iff_of_true (fun herase halive => absurd ⟨herase, halive⟩ hlast) hleft
    · cases ht
  | take =>
    -- what is left is taken as before
    have hdrained : t.drained = s.drained := by
      simp only [step] at ht
      split at ht
      · cases ht
        rfl
      · next sample rest huntaken =>
        cases ht
        simp only [State.drained, huntaken, List.map_cons, List.append_assoc,
          List.singleton_append]
    refine iff_of_true trivial ?_
    rw [← filtersAgree_drained_iff, hdrained]
    exact filtersAgree_drained_iff.mpr h

theorem settled_of_reachable (hs : (machine μ).ReachableWhere Undisturbed s) : Settled s :=
  Machine.invariant (M := machine μ) Settled.init (fun _ _ _ he h ht => (settled_step h ht).mp he) hs

/-! ## Every run -/

/--
**The filters agree in the runs that nothing disturbs.**

In each state of such a run, an event that does disturb it leads to a state in which they do not:
when what is then in the reader is taken.
-/
theorem filters_agree_undisturbed (hs : (machine μ).ReachableWhere Undisturbed s) :
    FiltersAgree s.taken ∧
      ∀ e t, step s e = some t → ∃ u,
        (machine μ).run t (List.replicate t.untaken.length .take) = some u ∧
          (Undisturbed s e ↔ FiltersAgree u.taken) := by
  have hsettled := settled_of_reachable hs
  refine ⟨hsettled.filtersAgree, fun e t ht => ⟨t.drained, run_take t, ?_⟩⟩
  rw [settled_step hsettled ht, filtersAgree_drained_iff]

/-- Two samples are taken before their only writer departs, and what tells of that after it. -/
def takenInTime : List (Event String) :=
  [.write 0 "Hello", .write 0 "again", .take, .take, .depart 0 true, .take]

theorem takenInTime_agrees :
    ∃ s, (machine String).exec takenInTime = some s ∧ s.taken.length = 3 ∧
      FiltersAgree s.taken := by
  have hexec : ((machine String).restrict Undisturbed).exec takenInTime = some
      ⟨.notAliveNoWriters, [], [],
        [⟨.alive, some "Hello"⟩, ⟨.alive, some "again"⟩, ⟨.notAliveNoWriters, none⟩]⟩ := by
    decide
  exact ⟨_, by decide, rfl, (filters_agree_undisturbed (Machine.reachableWhere_of_exec hexec)).1⟩

/-- The only writer departs before its sample is taken. -/
def departsFirst : List (Event String) := [.write 0 "Hello", .depart 0 true, .take]

/-- The instance is disposed and written again before the disposal is taken. -/
def writtenAgain : List (Event String) :=
  [.write 0 "Hello", .take, .dispose true, .write 0 "again", .take]

/--
**A sample with data that is not counted, and one without data whose stale content is printed.**
-/
theorem filters_differ :
    (¬∀ s, (machine String).Reachable s → ∀ app ∈ subscribers, app.counts = true → ∀ hello_,
      (listener app hello_ s.taken).samples_.toNat = (contents s.taken).length) ∧
    ¬∀ s, (machine String).Reachable s → ∀ app ∈ subscribers, ∀ hello_,
      (listener app hello_ s.taken).printed = contents s.taken := by
  constructor
  · intro hall
    have hexec : (machine String).exec departsFirst = some
        ⟨.notAliveNoWriters, [], [.ended], [⟨.notAliveNoWriters, some "Hello"⟩]⟩ := by
      decide
    exact absurd (hall _ (Machine.reachable_of_exec hexec) TakeSamples.HelloWorldExample.app
      (List.mem_cons_self ..) rfl "") (by decide)
  · intro hall
    have hexec : (machine String).exec writtenAgain = some
        ⟨.alive, [0], [.write "again"], [⟨.alive, some "Hello"⟩, ⟨.alive, none⟩]⟩ := by
      decide
    exact absurd (hall _ (Machine.reachable_of_exec hexec) TakeSamples.HelloWorldExample.app
      (List.mem_cons_self ..) "") (by decide)

end DdsApps.Threads.Instance
