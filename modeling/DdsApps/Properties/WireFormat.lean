import DdsApps.Types.HelloWorld

/-!
# What is sent is what is received

The type supports write an object by the formats of its fields, one after the other; what holds of
the formats holds of them.

* `Sendable` — the messages that the operators can write
* `Coded`, `Format` — a generated class and the format of its fields
* `serialized_size` — when a message is written, and how long it is
* `buffer_sizes` — the messages for which the size of the type, or the announced one, is enough
* `received_eq_sent_iff` — the messages that arrive as they were sent
* `truncated_refused` — what is cut off is refused
-/

namespace DdsApps.Types

open DdsApps.Infra

variable {α β μ : Type} {cdr : FastCdr}

/-! ## Fields one after the other -/

theorem put_seq (c : Codec α) (d : Codec β) (a : α) (b : β) (s : Ser) :
    ((s.put c a).bind fun s => s.put d b) = s.put (c.seq d) (a, b) := by
  simp only [Ser.put, Codec.seq, Ser.bytes, List.length_append]
  by_cases hfirst : s.encapsulation.length + s.body.length
      + (c.write s.endianness s.body.length a).length ≤ s.max_size
  · rw [if_pos hfirst]
    simp only [Except.bind, List.length_append, List.append_assoc, Nat.add_assoc]
  · rw [if_neg hfirst, if_neg (by omega)]
    rfl

/-- The string that is written of a message has a 32-bit length. -/
def Sendable (message : List UInt8) : Prop := (c_str message).length + 1 < 2 ^ 32

instance (message : List UInt8) : Decidable (Sendable message) :=
  inferInstanceAs (Decidable (_ < _))

theorem text_of_sendable {message : List UInt8} (h : Sendable message) : Text (c_str message) :=
  ⟨zero_notMem_c_str message, h⟩

/-- A class whose objects are written by a format of their fields. -/
structure Coded (T : CdrType μ) (cdr : FastCdr) (c : Codec α) (fields : μ → α) (object : α → μ)
    (valid : α → Prop) : Prop where
  serialize : ∀ data scdr, valid (fields data) → T.serialize cdr data scdr = scdr.put c (fields data)
  deserialize : ∀ dcdr data a rest,
    c.read dcdr.endianness dcdr.offset dcdr.rest = some (a, rest) →
    T.deserialize cdr dcdr data = (object a, none)
  refuses : ∀ dcdr data, c.read dcdr.endianness dcdr.offset dcdr.rest = none →
    (T.deserialize cdr dcdr data).2 = some .notEnoughMemory

def HelloWorld.codec (cdr : FastCdr) : Codec (UInt32 × List UInt8) :=
  cdr.uint32.format.seq cdr.string.format

theorem HelloWorld.coded (hcdr : cdr.Documented) :
    Coded HelloWorld.type cdr (HelloWorld.codec cdr) (fun data => (data.index, c_str data.message))
      (fun fields => ⟨fields.1, fields.2⟩) fun fields => Text fields.2 where
  serialize := by
    intro data scdr htext
    have hstring := fun scdr => hcdr.string.put (c_str data.message) scdr htext
    rw [HelloWorld.codec, ← put_seq]
    simp only [HelloWorld.type, HelloWorld.serialize, hcdr.uint32.put _ _ trivial, hstring]
    rfl
  deserialize := by
    rintro dcdr data ⟨index, message⟩ rest h
    obtain ⟨⟨index', rest'⟩, hindex, h⟩ := Option.bind_eq_some_iff.mp h
    obtain ⟨⟨message', rest''⟩, hmessage, h⟩ := Option.map_eq_some_iff.mp h
    cases h
    simp only [HelloWorld.type, HelloWorld.deserialize, hcdr.uint32.get, hcdr.string.get, De.get,
      hindex, hmessage]
  refuses := by
    intro dcdr data h
    simp only [HelloWorld.type, HelloWorld.deserialize, hcdr.uint32.get, hcdr.string.get, De.get]
    cases hindex : cdr.uint32.format.read dcdr.endianness dcdr.offset dcdr.rest with
    | none => rfl
    | some found =>
      obtain ⟨index, rest⟩ := found
      simp only [HelloWorld.codec, Codec.seq, hindex, Option.bind_some, Option.map_eq_none_iff] at h
      simp only [h]

def SharedMem.HelloWorld.codec (cdr : FastCdr) :
    Codec (UInt32 × List UInt8 × Buffer SharedMem.dataSize) :=
  cdr.uint32.format.seq (cdr.string.format.seq (cdr.array SharedMem.dataSize).format)

theorem SharedMem.HelloWorld.coded (hcdr : cdr.Documented) :
    Coded SharedMem.HelloWorld.type cdr (SharedMem.HelloWorld.codec cdr)
      (fun data => (data.index, c_str data.message, data.data))
      (fun fields => ⟨fields.1, fields.2.1, fields.2.2⟩) fun fields => Text fields.2.1 where
  serialize := by
    intro data scdr htext
    have hstring := fun scdr => hcdr.string.put (c_str data.message) scdr htext
    have harray := fun scdr => (hcdr.array SharedMem.dataSize).put data.data scdr trivial
    rw [SharedMem.HelloWorld.codec, ← put_seq]
    simp only [← put_seq, SharedMem.HelloWorld.type, SharedMem.HelloWorld.serialize,
      hcdr.uint32.put _ _ trivial, hstring, harray]
    rfl
  deserialize := by
    rintro dcdr data ⟨index, message, array⟩ rest h
    obtain ⟨⟨index₁, rest₁⟩, hindex, h⟩ := Option.bind_eq_some_iff.mp h
    obtain ⟨⟨⟨message₁, array₁⟩, rest₂⟩, h, heq⟩ := Option.map_eq_some_iff.mp h
    obtain ⟨⟨message₂, rest₃⟩, hmessage, h⟩ := Option.bind_eq_some_iff.mp h
    obtain ⟨⟨array₂, rest₄⟩, harray, h⟩ := Option.map_eq_some_iff.mp h
    cases h
    cases heq
    simp only [SharedMem.HelloWorld.type, SharedMem.HelloWorld.deserialize, hcdr.uint32.get,
      hcdr.string.get, (hcdr.array _).get, De.get, hindex, hmessage, harray]
  refuses := by
    intro dcdr data h
    simp only [SharedMem.HelloWorld.type, SharedMem.HelloWorld.deserialize, hcdr.uint32.get,
      hcdr.string.get, (hcdr.array _).get, De.get]
    cases hindex : cdr.uint32.format.read dcdr.endianness dcdr.offset dcdr.rest with
    | none => rfl
    | some found =>
      obtain ⟨index, rest⟩ := found
      simp only [SharedMem.HelloWorld.codec, Codec.seq, hindex, Option.bind_some,
        Option.map_eq_none_iff] at h
      cases hmessage : cdr.string.format.read dcdr.endianness
          (dcdr.offset + (dcdr.rest.length - rest.length)) rest with
      | none => simp only [hmessage]
      | some found =>
        obtain ⟨message, rest'⟩ := found
        simp only [hmessage, Option.bind_some, Option.map_eq_none_iff] at h ⊢
        simp only [h]

/-! ## The type support -/

variable {T : CdrType μ} {c : Codec α} {fields : μ → α} {object : α → μ} {valid : α → Prop}

/-- What is written of an object. -/
theorem Coded.serialize_eq (hT : Coded T cdr c fields object valid) (hcdr : cdr.Documented)
    (endianness : ByteOrder) {data : μ} (hvalid : valid (fields data)) {max_size : UInt32}
    (hmax : 4 ≤ max_size.toNat) :
    PubSubType.serialize T cdr endianness data max_size
      = if 4 + (c.write endianness 0 (fields data)).length ≤ max_size.toNat then
          .ok (some ⟨endianness,
            cdr.serialize_encapsulation endianness ++ c.write endianness 0 (fields data),
            UInt32.ofNat (4 + (c.write endianness 0 (fields data)).length)⟩)
        else .ok none := by
  have hlength := hcdr.encapsulation_length endianness
  simp only [PubSubType.serialize, hlength, if_pos hmax, hT.serialize _ _ hvalid, Ser.put, Ser.bytes,
    List.append_nil, List.length_nil, List.nil_append]
  by_cases hfits : 4 + (c.write endianness 0 (fields data)).length ≤ max_size.toNat
  · simp only [if_pos hfits, List.length_append, hlength]
  · simp only [if_neg hfits]

/-- A payload that has been filled in. -/
theorem Coded.written (hT : Coded T cdr c fields object valid) (hcdr : cdr.Documented)
    {endianness : ByteOrder} {data : μ} (hvalid : valid (fields data)) {max_size : UInt32}
    {payload : Payload}
    (h : PubSubType.serialize T cdr endianness data max_size = .ok (some payload)) :
    4 + (c.write endianness 0 (fields data)).length ≤ max_size.toNat ∧
      payload.data
        = cdr.serialize_encapsulation endianness ++ c.write endianness 0 (fields data) := by
  have hmax : 4 ≤ max_size.toNat := by
    by_contra hshort
    rw [PubSubType.serialize, hcdr.encapsulation_length, if_neg hshort] at h
    cases h
  rw [hT.serialize_eq hcdr endianness hvalid hmax] at h
  by_cases hfits : 4 + (c.write endianness 0 (fields data)).length ≤ max_size.toNat
  · rw [if_pos hfits] at h
    cases h
    exact ⟨hfits, rfl⟩
  · rw [if_neg hfits] at h
    cases h

/-- **What is written is read**, on hosts of either byte order. -/
theorem Coded.deserialize_serialize (hT : Coded T cdr c fields object valid) (hcdr : cdr.Documented)
    (hc : c.Lawful valid) (endianness : ByteOrder) {data : μ} (hvalid : valid (fields data))
    (old : μ) :
    PubSubType.deserialize T cdr
        (cdr.serialize_encapsulation endianness ++ c.write endianness 0 (fields data)) old
      = .ok (true, object (fields data)) := by
  have hread := hc.read_write endianness 0 (fields data) [] hvalid
  rw [List.append_nil] at hread
  rw [PubSubType.deserialize, hcdr.read_encapsulation]
  simp only [hT.deserialize ⟨endianness, 0, c.write endianness 0 (fields data)⟩ old _ _ hread]

/-- **A part of it is refused**, and no exception leaves the type support. -/
theorem Coded.deserialize_part (hT : Coded T cdr c fields object valid) (hcdr : cdr.Documented)
    (hc : c.Lawful valid) (endianness : ByteOrder) {data : μ} (hvalid : valid (fields data))
    {part missing : List UInt8}
    (h : part ++ missing
      = cdr.serialize_encapsulation endianness ++ c.write endianness 0 (fields data))
    (hne : missing ≠ []) (old : μ) :
    ∃ left, PubSubType.deserialize T cdr part old = .ok (false, left) := by
  rw [PubSubType.deserialize]
  rcases Codec.part_cases h with ⟨more, hfirst, hmore⟩ | ⟨part', rfl, hsecond⟩
  · have hlt := Codec.length_lt_of_missing hfirst hmore
    rw [hcdr.encapsulation_length] at hlt
    rw [hcdr.short_encapsulation part hlt]
    exact ⟨old, rfl⟩
  · have hnone := hc.truncated endianness 0 _ part' missing hvalid hsecond hne
    have hrefused := hT.refuses ⟨endianness, 0, part'⟩ old hnone
    rw [hcdr.read_encapsulation]
    dsimp only
    generalize T.deserialize cdr ⟨endianness, 0, part'⟩ old = result at hrefused ⊢
    obtain ⟨left, e⟩ := result
    cases hrefused
    exact ⟨left, rfl⟩

/-! ## The classes -/

/--
A class with a message, and `k` bytes besides it. The strings of an object are written up to their
first zero: `read` is the object as it is written.
-/
structure Format (T : CdrType μ) (cdr : FastCdr) (c : Codec α) (fields : μ → α) (object : α → μ)
    (message : μ → List UInt8) (text : α → List UInt8) (k : Nat) : Prop
    extends Coded T cdr c fields object fun a => Text (text a) where
  lawful : c.Lawful fun a => Text (text a)
  text_fields : ∀ data, text (fields data) = c_str (message data)
  object_eq_iff : ∀ data, object (fields data) = data ↔ 0 ∉ message data
  length_write : ∀ order a, Text (text a) → (c.write order 0 a).length = k + (text a).length
  size_eq : ∀ data, T.getCdrSerializedSize cdr data 0 = k + (message data).length
  typeSize_eq : (PubSubType.m_typeSize T cdr).toNat = 4 + k + 255

theorem HelloWorld.object_eq_iff (data : HelloWorld) :
    (⟨data.index, c_str data.message⟩ : HelloWorld) = data ↔ 0 ∉ data.message := by
  rw [← c_str_eq_iff]
  refine ⟨fun h => congrArg HelloWorld.message h, fun h => ?_⟩
  rw [h]

theorem HelloWorld.format (hcdr : cdr.Documented) :
    Format HelloWorld.type cdr (HelloWorld.codec cdr) (fun data => (data.index, c_str data.message))
      (fun fields => ⟨fields.1, fields.2⟩) HelloWorld.message Prod.snd 9 where
  toCoded := HelloWorld.coded hcdr
  lawful := (hcdr.uint32.lawful.seq hcdr.string.lawful).mono fun _ h => ⟨trivial, h⟩
  text_fields _ := rfl
  object_eq_iff := HelloWorld.object_eq_iff
  length_write := by
    intro order a htext
    have hpad : Codec.padding 0 4 = 0 ∧ Codec.padding 4 4 = 0 := by decide
    simp only [HelloWorld.codec, Codec.seq, List.length_append, hcdr.uint32_length,
      hcdr.string_length _ _ _ htext, hpad.1, Nat.zero_add, hpad.2]
    omega
  size_eq := by
    intro data
    have hpad : Codec.padding 0 4 = 0 ∧ Codec.padding 4 4 = 0 := by decide
    have halign := fun current => hcdr.alignment current 4 (by decide)
    simp only [HelloWorld.type, HelloWorld.getCdrSerializedSize, halign, hpad.1, Nat.zero_add,
      Nat.add_zero, hpad.2]
    omega
  typeSize_eq := by
    have halign := fun current => hcdr.alignment current 4 (by decide)
    simp only [PubSubType.m_typeSize, HelloWorld.type, HelloWorld.getMaxCdrSerializedSize, halign]
    decide

theorem SharedMem.HelloWorld.object_eq_iff (data : SharedMem.HelloWorld) :
    (⟨data.index, c_str data.message, data.data⟩ : SharedMem.HelloWorld) = data
      ↔ 0 ∉ data.message := by
  rw [← c_str_eq_iff]
  refine ⟨fun h => congrArg SharedMem.HelloWorld.message h, fun h => ?_⟩
  rw [h]

theorem SharedMem.HelloWorld.format (hcdr : cdr.Documented) :
    Format SharedMem.HelloWorld.type cdr (SharedMem.HelloWorld.codec cdr)
      (fun data => (data.index, c_str data.message, data.data))
      (fun fields => ⟨fields.1, fields.2.1, fields.2.2⟩) SharedMem.HelloWorld.message
      (fun fields => fields.2.1) (9 + SharedMem.dataSize) where
  toCoded := SharedMem.HelloWorld.coded hcdr
  lawful := (hcdr.uint32.lawful.seq
    (hcdr.string.lawful.seq (hcdr.array SharedMem.dataSize).lawful)).mono
      fun _ h => ⟨trivial, h, trivial⟩
  text_fields _ := rfl
  object_eq_iff := SharedMem.HelloWorld.object_eq_iff
  length_write := by
    intro order a htext
    have hpad : Codec.padding 0 4 = 0 ∧ Codec.padding 4 4 = 0 := by decide
    simp only [SharedMem.HelloWorld.codec, Codec.seq, List.length_append, hcdr.uint32_length,
      hcdr.string_length _ _ _ htext, hcdr.array_length, hpad.1, Nat.zero_add, hpad.2]
    omega
  size_eq := by
    intro data
    have hpad : Codec.padding 0 4 = 0 ∧ Codec.padding 4 4 = 0 := by decide
    have halign := fun current => hcdr.alignment current 4 (by decide)
    have hone : ∀ current, cdr.alignment current 1 = 0 := by
      intro current
      rw [hcdr.alignment current 1 (by decide), Codec.padding, Nat.mod_one]
    simp only [SharedMem.HelloWorld.type, SharedMem.HelloWorld.getCdrSerializedSize, halign, hone,
      hpad.1, Nat.zero_add, Nat.add_zero, hpad.2]
    omega
  typeSize_eq := by
    have halign := fun current => hcdr.alignment current 4 (by decide)
    have hone := fun current => hcdr.alignment current 1 (by decide)
    simp only [PubSubType.m_typeSize, SharedMem.HelloWorld.type,
      SharedMem.HelloWorld.getMaxCdrSerializedSize, halign, hone]
    decide

/-! ## Sizes -/

variable {message : μ → List UInt8} {text : α → List UInt8} {k : Nat}

/-- An object is written exactly when it fits in `size` bytes, and is then so long. -/
structure WritesExactly (T : CdrType μ) (cdr : FastCdr) (endianness : ByteOrder) (data : μ)
    (max_size : UInt32) (size : Nat) : Prop where
  written_iff :
    (∃ payload, PubSubType.serialize T cdr endianness data max_size = .ok (some payload))
      ↔ size ≤ max_size.toNat
  refused_iff : PubSubType.serialize T cdr endianness data max_size = .ok none
    ↔ max_size.toNat < size
  length : ∀ payload, PubSubType.serialize T cdr endianness data max_size = .ok (some payload) →
    payload.data.length = size ∧ payload.length.toNat = size

/-- What is written of a sendable message is a text. -/
theorem Format.text_of_sendable (hT : Format T cdr c fields object message text k) {data : μ}
    (hdata : Sendable (message data)) : Text (text (fields data)) := by
  rw [hT.text_fields]
  exact Types.text_of_sendable hdata

theorem Format.writesExactly (hT : Format T cdr c fields object message text k)
    (hcdr : cdr.Documented) (endianness : ByteOrder) {data : μ} (hdata : Sendable (message data))
    {max_size : UInt32} (hmax : 4 ≤ max_size.toNat) :
    WritesExactly T cdr endianness data max_size (4 + (k + (c_str (message data)).length)) := by
  have htext := hT.text_of_sendable hdata
  have hserialize := hT.serialize_eq hcdr endianness htext hmax
  have hlength := hT.length_write endianness _ htext
  rw [hlength, hT.text_fields] at hserialize
  generalize hsize : 4 + (k + (c_str (message data)).length) = size at hserialize ⊢
  by_cases hfits : size ≤ max_size.toNat
  · rw [if_pos hfits] at hserialize
    refine ⟨?_, ?_, ?_⟩ <;> rw [hserialize]
    · exact iff_of_true ⟨_, rfl⟩ hfits
    · exact iff_of_false nofun (by omega)
    · intro payload h
      cases h
      refine ⟨?_, ?_⟩
      · rw [List.length_append, hcdr.encapsulation_length, hlength, hT.text_fields, hsize]
      · exact UInt32.toNat_ofNat_of_lt' (lt_of_le_of_lt hfits max_size.toNat_lt)
  · rw [if_neg hfits] at hserialize
    refine ⟨?_, ?_, ?_⟩ <;> rw [hserialize]
    · exact iff_of_false nofun hfits
    · exact iff_of_true rfl (by omega)
    · intro payload h
      cases h

/-- The object as its strings are read. -/
def HelloWorld.read (data : HelloWorld) : HelloWorld :=
  { data with message := c_str data.message }

def SharedMem.HelloWorld.read (data : SharedMem.HelloWorld) : SharedMem.HelloWorld :=
  { data with message := c_str data.message }

/--
**Exactly what fits is written**, and it is as long as has been computed for the object with its
message up to the first zero.
-/
theorem serialized_size (hcdr : cdr.Documented) (endianness : ByteOrder) {max_size : UInt32}
    (hmax : 4 ≤ max_size.toNat) :
    (∀ data : HelloWorld, Sendable data.message →
      WritesExactly HelloWorld.type cdr endianness data max_size
        (4 + HelloWorld.getCdrSerializedSize cdr data.read 0)) ∧
      ∀ data : SharedMem.HelloWorld, Sendable data.message →
        WritesExactly SharedMem.HelloWorld.type cdr endianness data max_size
          (4 + SharedMem.HelloWorld.getCdrSerializedSize cdr data.read 0) := by
  refine ⟨fun data hdata => ?_, fun data hdata => ?_⟩
  · have hsize := (HelloWorld.format hcdr).size_eq data.read
    simp only [HelloWorld.type] at hsize
    rw [hsize]
    exact (HelloWorld.format hcdr).writesExactly hcdr endianness hdata hmax
  · have hsize := (SharedMem.HelloWorld.format hcdr).size_eq data.read
    simp only [SharedMem.HelloWorld.type] at hsize
    rw [hsize]
    exact (SharedMem.HelloWorld.format hcdr).writesExactly hcdr endianness hdata hmax

/-- A message with a zero, of which two bytes are written. -/
theorem serialized_size_xcdr :
    WritesExactly HelloWorld.type .xcdr .littleEndian ⟨7, [72, 105, 0, 33]⟩ 268 15 :=
  (serialized_size FastCdr.xcdr_documented .littleEndian (by decide)).1 ⟨7, [72, 105, 0, 33]⟩
    (by decide)

/-! ## Buffers -/

/-- The two sizes that a buffer for the object is given: that of the type, and the announced one. -/
structure BufferSizes (T : CdrType μ) (cdr : FastCdr) (endianness : ByteOrder) (data : μ)
    (message : List UInt8) : Prop where
  of_type :
    (∃ payload,
      PubSubType.serialize T cdr endianness data (PubSubType.m_typeSize T cdr) = .ok (some payload))
      ↔ (c_str message).length ≤ 255
  announced : 4 + T.getCdrSerializedSize cdr data 0 < 2 ^ 32 →
    ∃ payload,
      PubSubType.serialize T cdr endianness data (PubSubType.getSerializedSizeProvider T cdr data)
        = .ok (some payload) ∧
      (payload.length = PubSubType.getSerializedSizeProvider T cdr data ↔ 0 ∉ message)

theorem toNat_provider (data : μ) (h : 4 + T.getCdrSerializedSize cdr data 0 < 2 ^ 32) :
    (PubSubType.getSerializedSizeProvider T cdr data).toNat
      = 4 + T.getCdrSerializedSize cdr data 0 := by
  rw [PubSubType.getSerializedSizeProvider, UInt32.toNat_add, UInt32.toNat_ofNat']
  have hfour : (4 : UInt32).toNat = 4 := rfl
  rw [hfour, Nat.mod_add_mod, Nat.add_comm, Nat.mod_eq_of_lt h]

theorem Format.bufferSizes (hT : Format T cdr c fields object message text k)
    (hcdr : cdr.Documented) (endianness : ByteOrder) {data : μ} (hdata : Sendable (message data)) :
    BufferSizes T cdr endianness data (message data) where
  of_type := by
    have htype := hT.typeSize_eq
    rw [(hT.writesExactly hcdr endianness hdata (by omega)).written_iff, htype]
    omega
  announced := by
    intro hlt
    have htoNat := toNat_provider data hlt
    have hwrites := hT.writesExactly hcdr endianness hdata
      (show 4 ≤ (PubSubType.getSerializedSizeProvider T cdr data).toNat by omega)
    have hle := length_c_str_le (message data)
    rw [hT.size_eq] at htoNat
    obtain ⟨payload, hpayload⟩ := hwrites.written_iff.mpr (by omega)
    refine ⟨payload, hpayload, ?_⟩
    rw [← UInt32.toNat_inj, (hwrites.length payload hpayload).2, htoNat, ← length_c_str_eq_iff]
    omega

/--
**Messages up to 255 bytes fit the size of the type, and every message the announced one**, which is
exact unless the message has a zero in it.
-/
theorem buffer_sizes (hcdr : cdr.Documented) (endianness : ByteOrder) :
    (∀ data : HelloWorld, Sendable data.message →
      BufferSizes HelloWorld.type cdr endianness data data.message) ∧
      ∀ data : SharedMem.HelloWorld, Sendable data.message →
        BufferSizes SharedMem.HelloWorld.type cdr endianness data data.message :=
  ⟨fun _ => (HelloWorld.format hcdr).bufferSizes hcdr endianness,
    fun _ => (SharedMem.HelloWorld.format hcdr).bufferSizes hcdr endianness⟩

theorem buffer_sizes_xcdr :
    BufferSizes HelloWorld.type .xcdr .bigEndian ⟨7, [72, 105, 0, 33]⟩ [72, 105, 0, 33] :=
  (buffer_sizes FastCdr.xcdr_documented .bigEndian).1 ⟨7, [72, 105, 0, 33]⟩ (by decide)

/-! ## Round trips -/

/-- What another object of the class is after it has received a payload with `data`. -/
structure Received (T : CdrType μ) (cdr : FastCdr) (payload : Payload) (data old received : μ)
    (message : List UInt8) : Prop where
  deserialized : PubSubType.deserialize T cdr payload.data old = .ok (true, received)
  eq_sent_iff : received = data ↔ 0 ∉ message

theorem Format.received (hT : Format T cdr c fields object message text k)
    (hcdr : cdr.Documented) {endianness : ByteOrder} {data : μ} (hdata : Sendable (message data))
    {max_size : UInt32} {payload : Payload}
    (h : PubSubType.serialize T cdr endianness data max_size = .ok (some payload)) (old : μ) :
    Received T cdr payload data old (object (fields data)) (message data) where
  deserialized := by
    have htext := hT.text_of_sendable hdata
    rw [(hT.written hcdr htext h).2]
    exact hT.deserialize_serialize hcdr hT.lawful endianness htext old
  eq_sent_iff := hT.object_eq_iff data

theorem Format.truncated (hT : Format T cdr c fields object message text k)
    (hcdr : cdr.Documented) {endianness : ByteOrder} {data : μ} (hdata : Sendable (message data))
    {max_size : UInt32} {payload : Payload}
    (h : PubSubType.serialize T cdr endianness data max_size = .ok (some payload))
    {part missing : List UInt8} (hpart : part ++ missing = payload.data) (hne : missing ≠ [])
    (old : μ) :
    ∃ left, PubSubType.deserialize T cdr part old = .ok (false, left) := by
  have htext := hT.text_of_sendable hdata
  rw [(hT.written hcdr htext h).2] at hpart
  exact hT.deserialize_part hcdr hT.lawful endianness htext hpart hne old

/-- **An object is received as it was sent**, unless its message has a zero: it is cut there. -/
theorem received_eq_sent_iff (hcdr : cdr.Documented) (endianness : ByteOrder) (max_size : UInt32)
    (payload : Payload) :
    (∀ data old : HelloWorld, Sendable data.message →
      PubSubType.serialize HelloWorld.type cdr endianness data max_size = .ok (some payload) →
      Received HelloWorld.type cdr payload data old data.read data.message) ∧
      ∀ data old : SharedMem.HelloWorld, Sendable data.message →
        PubSubType.serialize SharedMem.HelloWorld.type cdr endianness data max_size
          = .ok (some payload) →
        Received SharedMem.HelloWorld.type cdr payload data old data.read data.message :=
  ⟨fun _ old hdata h => (HelloWorld.format hcdr).received hcdr hdata h old,
    fun _ old hdata h => (SharedMem.HelloWorld.format hcdr).received hcdr hdata h old⟩

theorem received_eq_sent_iff_hi :
    Received HelloWorld.type .xcdr
      ⟨.littleEndian, [0, 1, 0, 0, 7, 0, 0, 0, 3, 0, 0, 0, 72, 105, 0], 15⟩ ⟨7, [72, 105]⟩ ⟨0, []⟩
      ⟨7, [72, 105]⟩ [72, 105] :=
  (received_eq_sent_iff FastCdr.xcdr_documented .littleEndian 268 _).1 ⟨7, [72, 105]⟩ ⟨0, []⟩
    (by decide) (by decide +kernel)

/-- **What is cut off is refused**: no exception leaves the type support, wherever the cut is. -/
theorem truncated_refused (hcdr : cdr.Documented) (endianness : ByteOrder) (max_size : UInt32)
    (payload : Payload) {part missing : List UInt8} (hpart : part ++ missing = payload.data)
    (hne : missing ≠ []) :
    (∀ data old : HelloWorld, Sendable data.message →
      PubSubType.serialize HelloWorld.type cdr endianness data max_size = .ok (some payload) →
      ∃ left, PubSubType.deserialize HelloWorld.type cdr part old = .ok (false, left)) ∧
      ∀ data old : SharedMem.HelloWorld, Sendable data.message →
        PubSubType.serialize SharedMem.HelloWorld.type cdr endianness data max_size
          = .ok (some payload) →
        ∃ left, PubSubType.deserialize SharedMem.HelloWorld.type cdr part old = .ok (false, left) :=
  ⟨fun _ old hdata h => (HelloWorld.format hcdr).truncated hcdr hdata h hpart hne old,
    fun _ old hdata h => (SharedMem.HelloWorld.format hcdr).truncated hcdr hdata h hpart hne old⟩

theorem truncated_refused_hi :
    ∃ left, PubSubType.deserialize HelloWorld.type .xcdr [0, 1, 0, 0, 7, 0, 0, 0, 3, 0] ⟨0, []⟩
      = .ok (false, left) :=
  (truncated_refused FastCdr.xcdr_documented .littleEndian 268
    ⟨.littleEndian, [0, 1, 0, 0, 7, 0, 0, 0, 3, 0, 0, 0, 72, 105, 0], 15⟩
    (show [0, 1, 0, 0, 7, 0, 0, 0, 3, 0] ++ [0, 0, 72, 105, 0] = _ from rfl) (by decide)).1
    ⟨7, [72, 105]⟩ ⟨0, []⟩ (by decide) (by decide +kernel)

end DdsApps.Types
