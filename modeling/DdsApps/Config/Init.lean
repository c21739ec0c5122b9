import DdsApps.Config.Yaml
import DdsApps.Infra.Loops

/-!
# `init` of the config-driven applications

`CyclicROSDataPublisher`, `ROSTypeDataPublisher` and `ROSTypeDataSubscriber` read one document and
create their entities from it. The two publishers differ in the type they publish; the subscriber
has a body of its own, which reads no interval.

* What `init` asks Fast DDS for is a list of calls (`Call`), made up to the first one that fails.
* `publisherInit_eq_ok_iff`, `subscriberInit_eq_ok_iff` — the documents on which each reaches its
  calls, and what it has read by then
-/

namespace DdsApps.Config

open DdsApps.Infra

/-! ## Calls into Fast DDS -/

/-- The message types, by their generated type support. -/
inductive MessageType
  | pose
  | customMessage
deriving DecidableEq, Repr

/-- An assignment to a QoS that starts as the default. -/
inductive Setting
  | name (s : String)
  | discoveryProtocolSimple
  | simpleEndpointDiscovery (on : Bool)
  | publicationReaderAndSubscriptionWriter (on : Bool)
  | publicationWriterAndSubscriptionReader (on : Bool)
  | leaseDurationInfinite
  | useBuiltinTransports (on : Bool)
  | sharedMemTransport (segment_size : Nat)
  | historyKeepLast
  | historyDepth (n : Nat)
  | maxSamples (n : Nat)
  | allocatedSamples (n : Nat)
  | heartbeatPeriod (seconds nanosec : Nat)
  | reliable
  | asynchronousPublishMode
  | transientLocalDurability
  | preallocatedWithReallocMemoryMode
deriving DecidableEq, Repr

inductive Call
  | create_participant (domain : UInt8) (qos : List Setting)
  | register_type (type : MessageType)
  | create_publisher
  | create_subscriber
  | create_topic (topic_name : String) (type : MessageType)
  | create_datawriter (qos : List Setting)
  | create_datareader (qos : List Setting)
deriving DecidableEq, Repr

/-- Only what `create_*` returns is compared with `nullptr`. -/
def Call.checked : Call → Bool
  | .register_type _ => false
  | _ => true

/--
Makes the calls in order, up to the first one that returns `nullptr`: the calls made, and whether
all of them succeeded. `dds` says which calls do.
-/
def perform (dds : Call → Bool) : List Call → List Call × Bool
  | [] => ([], true)
  | c :: rest =>
    if c.checked && !dds c then ([c], false)
    else (c :: (perform dds rest).1, (perform dds rest).2)

/-- Where nothing fails, all calls are made. -/
theorem perform_of_success {dds : Call → Bool} : ∀ {l : List Call}, (perform dds l).2 = true →
    (perform dds l).1 = l
  | [], _ => rfl
  | c :: rest, h => by
    unfold perform at h ⊢
    split at h
    · cases h
    · next hc => rw [if_neg hc, perform_of_success h]

/-- The calls made are the first ones of the list. -/
theorem perform_isPrefix (dds : Call → Bool) : ∀ l : List Call, (perform dds l).1 <+: l
  | [] => List.prefix_rfl
  | c :: rest => by
    unfold perform
    split
    · exact List.cons_prefix_cons.mpr ⟨rfl, List.nil_prefix⟩
    · exact List.cons_prefix_cons.mpr ⟨rfl, perform_isPrefix dds rest⟩

/-- The participant QoS on the shared-memory branch. -/
def sharedMemParticipant (name : String) : List Setting :=
  [.discoveryProtocolSimple, .simpleEndpointDiscovery true,
    .publicationReaderAndSubscriptionWriter true, .publicationWriterAndSubscriptionReader true,
    .leaseDurationInfinite, .name name, .useBuiltinTransports false,
    .sharedMemTransport (2 * 1024 * 1024)]

/-- `if (topics.IsSequence())` around a loop: what the constructor set stays where it is none. -/
def forTopics {σ : Type} (f : σ → Node → Except Stop σ) (s : σ) : Node → Except Stop σ
  | .sequence items => items.foldlM f s
  | _ => .ok s

/-! ## Publishers -/

/-- The members `init` of a publisher sets. -/
structure PublisherFields where
  domain_number_ : UInt8
  topic_name_ : String
  interval_ms_ : UInt16
deriving DecidableEq, Repr

/-- What `init` has done once it has got past the document. -/
structure Outcome (Fields : Type) where
  fields : Fields
  calls : List Call
  /-- the value `init` returns -/
  success : Bool

/-- The calls of a publisher's `init`, on either branch. -/
def publisherCalls (type : MessageType) (shared_memory : Bool) (f : PublisherFields) : List Call :=
  if shared_memory then
    [.create_participant f.domain_number_ (sharedMemParticipant "Participant_pub"),
      .register_type type,
      .create_publisher,
      .create_topic f.topic_name_ type,
      .create_datawriter [.historyKeepLast, .historyDepth 30, .maxSamples 50, .allocatedSamples 20,
        .heartbeatPeriod 2 (200 * 1000 * 1000), .reliable, .asynchronousPublishMode]]
  else
    [.create_participant f.domain_number_ [.name "Participant_pub"],
      .register_type type,
      .create_publisher,
      .create_topic f.topic_name_ type,
      .create_datawriter [.preallocatedWithReallocMemoryMode]]

/-- The body of the loop over `topics`; it sets both members anew. -/
def readPublisherTopic (yaml : YamlCpp) (ros2_topic : Bool) (_ : String × UInt16)
    (topic_node : Node) : Except Stop (String × UInt16) := do
  let topic_name_ := (yaml.asString (← topic_node.get "name")).getD "default_topic"
  let topic_name_ := if ros2_topic then "rt/" ++ topic_name_ else topic_name_
  let interval_ms_ := (yaml.asUInt16 (← topic_node.get "interval_ms")).getD 1000
  return (topic_name_, interval_ms_)

/-- `init` of both publishers, on the loaded document. -/
def publisherInit (type : MessageType) (yaml : YamlCpp) (dds : Call → Bool) (node : Node) :
    Except Stop (Outcome PublisherFields) := do
  let config ← node.get "config"
  let shared_memory := (yaml.asBool (← config.get "shared_memory")).getD false
  let ros2_topic := (yaml.asBool (← config.get "ros2_topic")).getD true
  let domain_number_ := (yaml.asUInt8 (← config.get "domain_number")).getD 0
  if ros2_topic && shared_memory then
    .error (.refused "ROS 2 compatible topic doesn't support Shared Memory!")
  else
    let (topic_name_, interval_ms_) ← forTopics (readPublisherTopic yaml ros2_topic)
      ("default_topic", 1000) (← config.get "topics")
    if interval_ms_ = 0 then
      .error (.refused "Interval Time Error!")
    else
      let fields := ⟨domain_number_, topic_name_, interval_ms_⟩
      let (calls, success) := perform dds (publisherCalls type shared_memory fields)
      return ⟨fields, calls, success⟩

def CyclicROSDataPublisher.init := publisherInit .pose

def ROSTypeDataPublisher.init := publisherInit .customMessage

/-- The two of them, for what holds of both. -/
def publisherInits : List (YamlCpp → (Call → Bool) → Node → Except Stop (Outcome PublisherFields)) :=
  [CyclicROSDataPublisher.init, ROSTypeDataPublisher.init]

/-- What does not depend on the published type holds of both. -/
theorem forall_publisherInits
    {P : (YamlCpp → (Call → Bool) → Node → Except Stop (Outcome PublisherFields)) → Prop}
    (h : ∀ type, P (publisherInit type)) : ∀ init ∈ publisherInits, P init := by
  simp only [publisherInits, List.forall_mem_cons, List.not_mem_nil, false_implies, implies_true,
    and_true]
  exact ⟨h .pose, h .customMessage⟩

/-! ## The subscriber -/

/-- The members `init` of the subscriber sets. -/
structure SubscriberFields where
  domain_number_ : UInt8
  topic_name_ : String
deriving DecidableEq, Repr

def subscriberCalls (shared_memory : Bool) (f : SubscriberFields) : List Call :=
  if shared_memory then
    [.create_participant f.domain_number_ (sharedMemParticipant "Participant_sub"),
      .register_type .customMessage,
      .create_subscriber,
      .create_topic f.topic_name_ .customMessage,
      .create_datareader [.historyKeepLast, .historyDepth 30, .maxSamples 50, .allocatedSamples 20,
        .reliable, .transientLocalDurability]]
  else
    [.create_participant f.domain_number_ [.name "Participant_sub"],
      .register_type .customMessage,
      .create_subscriber,
      .create_topic f.topic_name_ .customMessage,
      .create_datareader [.reliable, .preallocatedWithReallocMemoryMode]]

def readSubscriberTopic (yaml : YamlCpp) (ros2_topic : Bool) (_ : String) (topic_node : Node) :
    Except Stop String := do
  let topic_name_ := (yaml.asString (← topic_node.get "name")).getD "default_topic"
  return if ros2_topic then "rt/" ++ topic_name_ else topic_name_

def ROSTypeDataSubscriber.init (yaml : YamlCpp) (dds : Call → Bool) (node : Node) :
    Except Stop (Outcome SubscriberFields) := do
  let config ← node.get "config"
  let shared_memory := (yaml.asBool (← config.get "shared_memory")).getD false
  let ros2_topic := (yaml.asBool (← config.get "ros2_topic")).getD true
  let domain_number_ := (yaml.asUInt8 (← config.get "domain_number")).getD 0
  if ros2_topic && shared_memory then
    .error (.refused "ROS 2 compatible topic doesn't support Shared Memory!")
  else
    let topic_name_ ← forTopics (readSubscriberTopic yaml ros2_topic) "default_topic"
      (← config.get "topics")
    let fields := ⟨domain_number_, topic_name_⟩
    let (calls, success) := perform dds (subscriberCalls shared_memory fields)
    return ⟨fields, calls, success⟩

/-! ## What a document says -/

/-- The entries of `topics`; none where it is not a sequence. -/
def Node.topics (node : Node) : List Node :=
  match (node.lookup "config").lookup "topics" with
  | .sequence items => items
  | _ => []

/-- No access throws. -/
structure Readable (node : Node) : Prop where
  root : node.Subscriptable
  config : (node.lookup "config").Subscriptable
  topics : ∀ item ∈ node.topics, item.Subscriptable

section Reading

variable (yaml : YamlCpp) (node : Node)

def sharedMemory : Bool :=
  (yaml.asBool ((node.lookup "config").lookup "shared_memory")).getD false

def ros2Topic : Bool :=
  (yaml.asBool ((node.lookup "config").lookup "ros2_topic")).getD true

def domainNumber : UInt8 :=
  (yaml.asUInt8 ((node.lookup "config").lookup "domain_number")).getD 0

/-- The name of the last entry, or the default. -/
def configuredName : String :=
  (node.topics.getLast?.map fun item => (yaml.asString (item.lookup "name")).getD "default_topic").getD
    "default_topic"

/-- The interval of the last entry, or the default. -/
def configuredInterval : UInt16 :=
  (node.topics.getLast?.map fun item => (yaml.asUInt16 (item.lookup "interval_ms")).getD 1000).getD
    1000

/-- The name with the prefix the loop puts before it, which it does for an entry only. -/
def topicName : String :=
  if ros2Topic yaml node && !node.topics.isEmpty then "rt/" ++ configuredName yaml node
  else configuredName yaml node

/-- The documents no check refuses on either side. -/
structure Accepted : Prop where
  readable : Readable node
  transport : ¬(ros2Topic yaml node && sharedMemory yaml node)

end Reading

/-! ## `init` reads what the document says -/

variable {yaml : YamlCpp} {node : Node}

theorem readPublisherTopic_eq_ok_iff {ros2 : Bool} {s r : String × UInt16} {item : Node} :
    readPublisherTopic yaml ros2 s item = .ok r ↔ item.Subscriptable ∧
      r = ((if ros2 then "rt/" ++ (yaml.asString (item.lookup "name")).getD "default_topic"
          else (yaml.asString (item.lookup "name")).getD "default_topic"),
        (yaml.asUInt16 (item.lookup "interval_ms")).getD 1000) := by
  unfold readPublisherTopic
  simp only [bind_eq_ok_iff, pure_eq_ok_iff, Node.get_eq_ok_iff]
  constructor
  · rintro ⟨n, ⟨hs, rfl⟩, m, ⟨-, rfl⟩, hr⟩
    exact ⟨hs, hr.symm⟩
  · rintro ⟨hs, rfl⟩
    exact ⟨_, ⟨hs, rfl⟩, _, ⟨hs, rfl⟩, rfl⟩

theorem readSubscriberTopic_eq_ok_iff {ros2 : Bool} {s r : String} {item : Node} :
    readSubscriberTopic yaml ros2 s item = .ok r ↔ item.Subscriptable ∧
      r = if ros2 then "rt/" ++ (yaml.asString (item.lookup "name")).getD "default_topic"
        else (yaml.asString (item.lookup "name")).getD "default_topic" := by
  unfold readSubscriberTopic
  simp only [bind_eq_ok_iff, pure_eq_ok_iff, Node.get_eq_ok_iff]
  constructor
  · rintro ⟨n, ⟨hs, rfl⟩, hr⟩
    exact ⟨hs, hr.symm⟩
  · rintro ⟨hs, rfl⟩
    exact ⟨_, ⟨hs, rfl⟩, rfl⟩

/-- A node that is not a sequence is read like one without items. -/
theorem forTopics_eq {σ : Type} (f : σ → Node → Except Stop σ) (s : σ) :
    forTopics f s ((node.lookup "config").lookup "topics") = node.topics.foldlM f s := by
  unfold Node.topics
  cases (node.lookup "config").lookup "topics" <;> rfl

/-- What the publishers' loop over `topics` ends in. -/
theorem publisherLoop_eq_ok_iff (yaml : YamlCpp) {r : String × UInt16} :
    node.topics.foldlM (readPublisherTopic yaml (ros2Topic yaml node)) ("default_topic", 1000)
        = .ok r ↔
      (∀ item ∈ node.topics, item.Subscriptable) ∧
        r = (topicName yaml node, configuredInterval yaml node) := by
  rw [foldlM_overwrite (g := readPublisherTopic yaml (ros2Topic yaml node))
    fun _ _ _ => readPublisherTopic_eq_ok_iff]
  refine and_congr_right fun _ => ?_
  unfold topicName configuredInterval configuredName
  cases h : node.topics.getLast? with
  | none => simp [List.getLast?_eq_none_iff.mp h]
  | some item =>
    have hne : node.topics ≠ [] := by
      rintro hnil
      simp [hnil] at h
    simp [hne]

theorem subscriberLoop_eq_ok_iff (yaml : YamlCpp) {r : String} :
    node.topics.foldlM (readSubscriberTopic yaml (ros2Topic yaml node)) "default_topic" = .ok r ↔
      (∀ item ∈ node.topics, item.Subscriptable) ∧ r = topicName yaml node := by
  rw [foldlM_overwrite (g := readSubscriberTopic yaml (ros2Topic yaml node))
    fun _ _ _ => readSubscriberTopic_eq_ok_iff]
  refine and_congr_right fun _ => ?_
  unfold topicName configuredName
  cases h : node.topics.getLast? with
  | none => simp [List.getLast?_eq_none_iff.mp h]
  | some item =>
    have hne : node.topics ≠ [] := by
      rintro hnil
      simp [hnil] at h
    simp [hne]

/-- The outcome of `init` in a publisher, in terms of what the document says. -/
def publisherOutcome (type : MessageType) (yaml : YamlCpp) (dds : Call → Bool) (node : Node) :
    Outcome PublisherFields :=
  let fields := ⟨domainNumber yaml node, topicName yaml node, configuredInterval yaml node⟩
  let made := perform dds (publisherCalls type (sharedMemory yaml node) fields)
  ⟨fields, made.1, made.2⟩

def subscriberOutcome (yaml : YamlCpp) (dds : Call → Bool) (node : Node) :
    Outcome SubscriberFields :=
  let fields := ⟨domainNumber yaml node, topicName yaml node⟩
  let made := perform dds (subscriberCalls (sharedMemory yaml node) fields)
  ⟨fields, made.1, made.2⟩

/-- **Where a publisher's `init` gets past the document, and with what.** -/
theorem publisherInit_eq_ok_iff {type : MessageType} {dds : Call → Bool}
    {o : Outcome PublisherFields} :
    publisherInit type yaml dds node = .ok o ↔
      Accepted yaml node ∧ configuredInterval yaml node ≠ 0 ∧
        o = publisherOutcome type yaml dds node := by
  unfold publisherInit
  simp only [bind_eq_ok_iff, Node.get_eq_ok_iff]
  constructor
  · rintro ⟨config, ⟨hroot, rfl⟩, n, ⟨hconfig, rfl⟩, m, ⟨-, rfl⟩, d, ⟨-, rfl⟩, h⟩
    split at h
    · cases h
    · next htransport =>
      simp only [bind_eq_ok_iff, Node.get_eq_ok_iff] at h
      obtain ⟨_, ⟨-, rfl⟩, r, hr, h⟩ := h
      rw [forTopics_eq] at hr
      obtain ⟨htopics, rfl⟩ := (publisherLoop_eq_ok_iff yaml).mp hr
      split at h
      · cases h
      · next hinterval =>
        exact ⟨⟨⟨hroot, hconfig, htopics⟩, htransport⟩, hinterval, (pure_eq_ok_iff.mp h).symm⟩
  · rintro ⟨⟨⟨hroot, hconfig, htopics⟩, htransport⟩, hinterval, rfl⟩
    refine ⟨_, ⟨hroot, rfl⟩, _, ⟨hconfig, rfl⟩, _, ⟨hconfig, rfl⟩, _, ⟨hconfig, rfl⟩, ?_⟩
    refine (if_neg htransport).trans ?_
    simp only [bind_eq_ok_iff, Node.get_eq_ok_iff]
    have hloop := (publisherLoop_eq_ok_iff yaml).mpr ⟨htopics, rfl⟩
    rw [← forTopics_eq] at hloop
    exact ⟨_, ⟨hconfig, rfl⟩, _, hloop, if_neg hinterval⟩

/-- **Where the subscriber's `init` gets past the document, and with what.** -/
theorem subscriberInit_eq_ok_iff {dds : Call → Bool} {o : Outcome SubscriberFields} :
    ROSTypeDataSubscriber.init yaml dds node = .ok o ↔
      Accepted yaml node ∧ o = subscriberOutcome yaml dds node := by
  unfold ROSTypeDataSubscriber.init
  simp only [bind_eq_ok_iff, Node.get_eq_ok_iff]
  constructor
  · rintro ⟨config, ⟨hroot, rfl⟩, n, ⟨hconfig, rfl⟩, m, ⟨-, rfl⟩, d, ⟨-, rfl⟩, h⟩
    split at h
    · cases h
    · next htransport =>
      simp only [bind_eq_ok_iff, Node.get_eq_ok_iff] at h
      obtain ⟨_, ⟨-, rfl⟩, r, hr, h⟩ := h
      rw [forTopics_eq] at hr
      obtain ⟨htopics, rfl⟩ := (subscriberLoop_eq_ok_iff yaml).mp hr
      exact ⟨⟨⟨hroot, hconfig, htopics⟩, htransport⟩, (pure_eq_ok_iff.mp h).symm⟩
  · rintro ⟨⟨⟨hroot, hconfig, htopics⟩, htransport⟩, rfl⟩
    refine ⟨_, ⟨hroot, rfl⟩, _, ⟨hconfig, rfl⟩, _, ⟨hconfig, rfl⟩, _, ⟨hconfig, rfl⟩, ?_⟩
    refine (if_neg htransport).trans ?_
    simp only [bind_eq_ok_iff, Node.get_eq_ok_iff]
    have hloop := (subscriberLoop_eq_ok_iff yaml).mpr ⟨htopics, rfl⟩
    rw [← forTopics_eq] at hloop
    exact ⟨_, ⟨hconfig, rfl⟩, _, hloop, rfl⟩

/-! ## Two documents -/

/-- `config/config.yaml` of the publishers. -/
def shippedConfig : Node :=
  .map [(.scalar "config", .map [
    (.scalar "shared_memory", .scalar "false"),
    (.scalar "ros2_topic", .scalar "true"),
    (.scalar "domain_number", .scalar "0"),
    (.scalar "topics", .sequence [
      .map [(.scalar "name", .scalar "pose_topic"), (.scalar "interval_ms", .scalar "100")]])])]

theorem accepted_shippedConfig : Accepted YamlCpp.plain shippedConfig where
  readable :=
    { root := trivial
      config := trivial
      topics := fun item hitem => by
        obtain rfl := List.mem_singleton.mp hitem
        trivial }
  transport := by decide

/-- A `config` without any key: everything is left to the defaults. -/
def emptyConfig : Node := .map [(.scalar "config", .map [])]

theorem accepted_emptyConfig : Accepted YamlCpp.plain emptyConfig where
  readable := { root := trivial, config := trivial, topics := fun _ hitem => nomatch hitem }
  transport := by decide

end DdsApps.Config
