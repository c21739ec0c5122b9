import DdsApps.Properties.Meeting

/-!
# The prefix of ROS 2 topics

A ROS 2 node sees a topic only under `rt/`. The prefix is put before a name inside the loop over
`topics`; the name the constructor sets never goes through it.

* `topicName_eq_iff` / `topic_prefix_iff` — the topic has the name it should have unless a ROS 2
  topic is asked for without an entry
* `default_topic_unprefixed` — a document without entries, in all three applications
-/

namespace DdsApps.Config

variable {yaml : YamlCpp} {node : Node}

/-- The configured name, under `rt/` where a ROS 2 topic is asked for. -/
def expectedTopic (yaml : YamlCpp) (node : Node) : String :=
  if ros2Topic yaml node then "rt/" ++ configuredName yaml node else configuredName yaml node

/-- Without an entry the name is the constructor's, and a prefix would change it. -/
theorem topicName_eq_iff :
    topicName yaml node = expectedTopic yaml node ↔
      ros2Topic yaml node = false ∨ node.topics ≠ [] := by
  unfold topicName expectedTopic
  cases hros : ros2Topic yaml node with
  | false => simp
  | true =>
    cases htopics : node.topics with
    | nil =>
      have hname : configuredName yaml node = "default_topic" := by
        unfold configuredName
        rw [htopics]
        rfl
      rw [hname]
      decide
    | cons item rest => simp

/--
**The topic is named as it should be, except for a ROS 2 topic without an entry.**

This is so in all three applications, for each name that reaches `create_topic`; an `init` that
succeeds has passed one.
-/
theorem topic_prefix_iff (yaml : YamlCpp) (node : Node) (dds : Call → Bool) :
    (∀ init ∈ publisherInits,
      ∀ p, init yaml dds node = .ok p →
        (p.success = true → ∃ n, topicsPassed p.calls = [n]) ∧
        ∀ n ∈ topicsPassed p.calls,
          (n = expectedTopic yaml node ↔ ros2Topic yaml node = false ∨ node.topics ≠ [])) ∧
    ∀ s, ROSTypeDataSubscriber.init yaml dds node = .ok s →
      (s.success = true → ∃ n, topicsPassed s.calls = [n]) ∧
      ∀ n ∈ topicsPassed s.calls,
        (n = expectedTopic yaml node ↔ ros2Topic yaml node = false ∨ node.topics ≠ []) := by
  constructor
  · refine forall_publisherInits fun type p hp => ?_
    obtain ⟨-, -, rfl⟩ := publisherInit_eq_ok_iff.mp hp
    refine ⟨fun hsuccess => ⟨_, publisherOutcome_topics hsuccess⟩, fun n hn => ?_⟩
    rw [publisherOutcome_topic hn, topicName_eq_iff]
  · intro s hs
    obtain ⟨-, rfl⟩ := subscriberInit_eq_ok_iff.mp hs
    refine ⟨fun hsuccess => ⟨_, subscriberOutcome_topics hsuccess⟩, fun n hn => ?_⟩
    rw [subscriberOutcome_topic hn, topicName_eq_iff]

theorem shippedConfig_prefixed : "rt/pose_topic" = expectedTopic YamlCpp.plain shippedConfig :=
  (((topic_prefix_iff YamlCpp.plain shippedConfig fun _ => true).2 _
    (subscriberInit_eq_ok_iff.mpr ⟨accepted_shippedConfig, rfl⟩)).2 "rt/pose_topic"
    (by decide)).mpr (Or.inr (by decide))

/-- **With the defaults alone, every application creates the topic without its prefix.** -/
theorem default_topic_unprefixed :
    (¬∃ init ∈ publisherInits,
      ∀ yaml dds node p, init yaml dds node = .ok p → p.success = true →
        ∀ n ∈ topicsPassed p.calls, n = expectedTopic yaml node) ∧
    ¬∀ yaml dds node s, ROSTypeDataSubscriber.init yaml dds node = .ok s → s.success = true →
      ∀ n ∈ topicsPassed s.calls, n = expectedTopic yaml node := by
  have hne : "default_topic" ≠ expectedTopic YamlCpp.plain emptyConfig := by decide
  constructor
  · rintro ⟨init, hinit, hall⟩
    revert init
    refine forall_publisherInits fun type hall => ?_
    refine hne (hall YamlCpp.plain (fun _ => true) emptyConfig _
      (publisherInit_eq_ok_iff.mpr ⟨accepted_emptyConfig, by decide, rfl⟩) ?_ _ ?_)
    all_goals cases type <;> decide
  · intro hall
    exact hne (hall YamlCpp.plain (fun _ => true) emptyConfig _
      (subscriberInit_eq_ok_iff.mpr ⟨accepted_emptyConfig, rfl⟩) (by decide) _ (by decide))

end DdsApps.Config
