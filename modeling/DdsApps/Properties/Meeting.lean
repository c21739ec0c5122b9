import DdsApps.Config.Init

/-!
# Publisher and subscriber meet

The publishers and the subscriber parse the same document in bodies of their own. They can only
find each other when they agree on the domain and on the topic.

* `perform_participant` / `mem_topicsPassed` — what reaches `create_participant`, `create_topic`
* `publishers_meet_subscriber` — agreement on every document, up to the interval only one side
  reads
-/

namespace DdsApps.Config

variable {yaml : YamlCpp} {node : Node}

/-! ## What is passed to Fast DDS -/

/-- The domain numbers passed to `create_participant`. -/
def domainsPassed (calls : List Call) : List UInt8 :=
  calls.filterMap fun
    | .create_participant domain _ => some domain
    | _ => none

/-- The names passed to `create_topic`. -/
def topicsPassed (calls : List Call) : List String :=
  calls.filterMap fun
    | .create_topic topic_name _ => some topic_name
    | _ => none

theorem domainsPassed_publisherCalls (type : MessageType) (shm : Bool) (f : PublisherFields) :
    domainsPassed (publisherCalls type shm f) = [f.domain_number_] := by
  cases shm <;> rfl

theorem topicsPassed_publisherCalls (type : MessageType) (shm : Bool) (f : PublisherFields) :
    topicsPassed (publisherCalls type shm f) = [f.topic_name_] := by
  cases shm <;> rfl

theorem domainsPassed_subscriberCalls (shm : Bool) (f : SubscriberFields) :
    domainsPassed (subscriberCalls shm f) = [f.domain_number_] := by
  cases shm <;> rfl

theorem topicsPassed_subscriberCalls (shm : Bool) (f : SubscriberFields) :
    topicsPassed (subscriberCalls shm f) = [f.topic_name_] := by
  cases shm <;> rfl

/-- The first call is made whether it succeeds or not. -/
theorem domainsPassed_perform {dds : Call → Bool} {l : List Call} {d : UInt8}
    {qos : List Setting} {rest : List Call} (hl : l = .create_participant d qos :: rest)
    (hd : domainsPassed l = [d]) : domainsPassed (perform dds l).1 = [d] := by
  have hsub : (domainsPassed (perform dds l).1).Sublist [d] := by
    rw [← hd]
    exact (perform_isPrefix dds l).sublist.filterMap _
  refine hsub.eq_of_length_le ?_
  subst hl
  unfold perform domainsPassed
  split <;> simp

/-- Whatever fails, no other name than the last one read is passed. -/
theorem mem_topicsPassed {dds : Call → Bool} {l : List Call} {n m : String}
    (hl : topicsPassed l = [n]) (hm : m ∈ topicsPassed (perform dds l).1) : m = n := by
  have hsub : (topicsPassed (perform dds l).1).Sublist [n] := by
    rw [← hl]
    exact (perform_isPrefix dds l).sublist.filterMap _
  exact List.mem_singleton.mp (hsub.subset hm)

theorem publisherOutcome_domains (type : MessageType) (dds : Call → Bool) :
    domainsPassed (publisherOutcome type yaml dds node).calls = [domainNumber yaml node] := by
  have hcalls : ∀ shm f, ∃ qos rest,
      publisherCalls type shm f = .create_participant f.domain_number_ qos :: rest := by
    intro shm f
    cases shm <;> exact ⟨_, _, rfl⟩
  obtain ⟨qos, rest, hl⟩ := hcalls (sharedMemory yaml node)
    ⟨domainNumber yaml node, topicName yaml node, configuredInterval yaml node⟩
  exact domainsPassed_perform hl (domainsPassed_publisherCalls ..)

theorem subscriberOutcome_domains (dds : Call → Bool) :
    domainsPassed (subscriberOutcome yaml dds node).calls = [domainNumber yaml node] := by
  have hcalls : ∀ shm f, ∃ qos rest,
      subscriberCalls shm f = .create_participant f.domain_number_ qos :: rest := by
    intro shm f
    cases shm <;> exact ⟨_, _, rfl⟩
  obtain ⟨qos, rest, hl⟩ := hcalls (sharedMemory yaml node)
    ⟨domainNumber yaml node, topicName yaml node⟩
  exact domainsPassed_perform hl (domainsPassed_subscriberCalls ..)

theorem publisherOutcome_topic {type : MessageType} {dds : Call → Bool} {n : String}
    (h : n ∈ topicsPassed (publisherOutcome type yaml dds node).calls) :
    n = topicName yaml node :=
  mem_topicsPassed (topicsPassed_publisherCalls ..) h

theorem subscriberOutcome_topic {dds : Call → Bool} {n : String}
    (h : n ∈ topicsPassed (subscriberOutcome yaml dds node).calls) : n = topicName yaml node :=
  mem_topicsPassed (topicsPassed_subscriberCalls ..) h

/-- Where nothing fails, the name is passed. -/
theorem publisherOutcome_topics {type : MessageType} {dds : Call → Bool}
    (h : (publisherOutcome type yaml dds node).success = true) :
    topicsPassed (publisherOutcome type yaml dds node).calls = [topicName yaml node] :=
  (congrArg topicsPassed (perform_of_success h)).trans (topicsPassed_publisherCalls ..)

theorem subscriberOutcome_topics {dds : Call → Bool}
    (h : (subscriberOutcome yaml dds node).success = true) :
    topicsPassed (subscriberOutcome yaml dds node).calls = [topicName yaml node] :=
  (congrArg topicsPassed (perform_of_success h)).trans (topicsPassed_subscriberCalls ..)

/-! ## Main result -/

/-- The last entry of `topics` sets `interval_ms` to 0. -/
def LastIntervalZero (yaml : YamlCpp) (node : Node) : Prop :=
  ∃ item, node.topics.getLast? = some item ∧ yaml.asInteger (item.lookup "interval_ms") = some 0

theorem configuredInterval_eq_zero_iff :
    configuredInterval yaml node = 0 ↔ LastIntervalZero yaml node := by
  unfold configuredInterval LastIntervalZero
  cases node.topics.getLast? with
  | none => simp
  | some item =>
    simp only [Option.map_some, Option.getD_some, Option.some.injEq, exists_eq_left']
    rw [← YamlCpp.asUInt16_eq_zero_iff]
    cases yaml.asUInt16 (item.lookup "interval_ms") with
    | none => simp
    | some v => simp

/--
**The three applications agree on every document.**

A publisher reaches participant creation where the subscriber does, unless the last entry asks for
the interval 0. Then both pass the same domain number, and no two different topic names; where
nothing fails, each passes one.
-/
theorem publishers_meet_subscriber (yaml : YamlCpp) (node : Node) (dds dds' : Call → Bool) :
    ∀ init ∈ publisherInits,
      ((∃ p, init yaml dds node = .ok p) ↔
        (∃ s, ROSTypeDataSubscriber.init yaml dds' node = .ok s) ∧ ¬LastIntervalZero yaml node) ∧
      ∀ p s, init yaml dds node = .ok p → ROSTypeDataSubscriber.init yaml dds' node = .ok s →
        (∃ d, domainsPassed p.calls = [d] ∧ domainsPassed s.calls = [d]) ∧
        (∀ n ∈ topicsPassed p.calls, ∀ n' ∈ topicsPassed s.calls, n = n') ∧
        (p.success = true → s.success = true →
          ∃ n, topicsPassed p.calls = [n] ∧ topicsPassed s.calls = [n]) := by
  refine forall_publisherInits fun type => ?_
  simp only [publisherInit_eq_ok_iff, subscriberInit_eq_ok_iff]
  constructor
  · rw [← configuredInterval_eq_zero_iff]
    constructor
    · rintro ⟨p, haccepted, hinterval, -⟩
      exact ⟨⟨_, haccepted, rfl⟩, hinterval⟩
    · rintro ⟨⟨s, haccepted, -⟩, hinterval⟩
      exact ⟨_, haccepted, hinterval, rfl⟩
  · rintro p s ⟨-, -, rfl⟩ ⟨-, rfl⟩
    refine ⟨⟨_, publisherOutcome_domains type dds, subscriberOutcome_domains dds'⟩, ?_, ?_⟩
    · intro n hn n' hn'
      rw [publisherOutcome_topic hn, subscriberOutcome_topic hn']
    · intro hp hs
      exact ⟨_, publisherOutcome_topics hp, subscriberOutcome_topics hs⟩

/-- With the configuration of the repository, in the domain 0. -/
theorem shippedConfig_met :
    let p := publisherOutcome .pose YamlCpp.plain (fun _ => true) shippedConfig
    let s := subscriberOutcome YamlCpp.plain (fun _ => true) shippedConfig
    domainsPassed p.calls = [0] ∧ domainsPassed s.calls = [0] ∧
      topicsPassed p.calls = ["rt/pose_topic"] ∧ topicsPassed s.calls = ["rt/pose_topic"] := by
  intro p s
  have hdomain : domainsPassed p.calls = [0] := by decide +kernel
  have htopic : topicsPassed p.calls = ["rt/pose_topic"] := by decide +kernel
  obtain ⟨⟨d, hp, hs⟩, -, htopics⟩ :=
    ((publishers_meet_subscriber YamlCpp.plain shippedConfig (fun _ => true) fun _ => true)
      CyclicROSDataPublisher.init (List.mem_cons_self ..)).2 p s
      (publisherInit_eq_ok_iff.mpr ⟨accepted_shippedConfig, by decide, rfl⟩)
      (subscriberInit_eq_ok_iff.mpr ⟨accepted_shippedConfig, rfl⟩)
  obtain ⟨n, hpn, hsn⟩ := htopics (by decide +kernel) (by decide +kernel)
  rw [hdomain] at hp
  rw [htopic] at hpn
  exact ⟨hdomain, hs.trans hp.symm, htopic, hsn.trans hpn.symm⟩

end DdsApps.Config
