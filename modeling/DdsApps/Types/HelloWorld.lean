import DdsApps.Types.FastCdr
import Mathlib.Data.List.TakeWhile

/-!
# The generated types

The classes generated from the `HelloWorld.idl` files, and the type support that is generated with
each of them. `HelloWorldExample`, its TCP variant and the one with data sharing have the same
class; that of `HelloWorldExampleSharedMem` has a field more. A `std::string` is its bytes, and may
have zeros in it.

* `CdrType` — what the type support uses of a class
* `PubSubType` — the type support
* `HelloWorld`, `SharedMem.HelloWorld` — the classes
-/

namespace DdsApps.Types

open DdsApps.Infra

/-! ## Type supports -/

/-- A generated class. -/
structure CdrType (μ : Type) where
  serialize : FastCdr → μ → Ser → Except CdrException Ser
  /-- what is in the object afterwards, and the exception that has left the function -/
  deserialize : FastCdr → De → μ → μ × Option CdrException
  getMaxCdrSerializedSize : FastCdr → (current_alignment : Nat) → Nat
  getCdrSerializedSize : FastCdr → μ → (current_alignment : Nat) → Nat

/-- What `serialize` fills in of a `SerializedPayload_t`. -/
structure Payload where
  encapsulation : ByteOrder
  data : List UInt8
  length : UInt32
deriving DecidableEq, Repr

namespace PubSubType

variable {μ : Type}

/-- `m_typeSize` after the constructor. -/
def m_typeSize (T : CdrType μ) (cdr : FastCdr) : UInt32 :=
  let type_size := T.getMaxCdrSerializedSize cdr 0
  UInt32.ofNat (type_size + cdr.alignment type_size 4) + 4

/-- `none` where it returns `false`. The encapsulation is written outside of the `try`. -/
def serialize (T : CdrType μ) (cdr : FastCdr) (endianness : ByteOrder) (data : μ)
    (max_size : UInt32) : Except CdrException (Option Payload) :=
  let encapsulation := cdr.serialize_encapsulation endianness
  if encapsulation.length ≤ max_size.toNat then
    match T.serialize cdr data { endianness, max_size := max_size.toNat, encapsulation, body := [] } with
    | .ok ser => .ok (some ⟨endianness, ser.bytes, UInt32.ofNat ser.bytes.length⟩)
    | .error .notEnoughMemory => .ok none
    | .error e => .error e
  else .error .notEnoughMemory

/-- What is returned, and what is in the object then. -/
def deserialize (T : CdrType μ) (cdr : FastCdr) (payload : List UInt8) (data : μ) :
    Except CdrException (Bool × μ) :=
  match cdr.read_encapsulation payload with
  | .ok (endianness, rest) =>
    match T.deserialize cdr { endianness, offset := 0, rest } data with
    | (data, none) => .ok (true, data)
    | (data, some .notEnoughMemory) => .ok (false, data)
    | (_, some e) => .error e
  | .error .notEnoughMemory => .ok (false, data)
  | .error e => .error e

def getSerializedSizeProvider (T : CdrType μ) (cdr : FastCdr) (data : μ) : UInt32 :=
  UInt32.ofNat (T.getCdrSerializedSize cdr data 0) + 4

end PubSubType

/-! ## Classes -/

/-- `c_str()`, as far as it is read. -/
def c_str (s : List UInt8) : List UInt8 := s.takeWhile (· ≠ 0)

theorem zero_notMem_c_str (s : List UInt8) : 0 ∉ c_str s := by
  intro h
  have hne := List.mem_takeWhile_imp h
  exact of_decide_eq_true hne rfl

theorem c_str_eq_iff (s : List UInt8) : c_str s = s ↔ 0 ∉ s := by
  refine ⟨fun h => ?_, fun h => ?_⟩
  · rw [← h]
    exact zero_notMem_c_str s
  · refine List.takeWhile_eq_self_iff.mpr fun x hx => ?_
    exact decide_eq_true (by rintro rfl; exact h hx)

theorem length_c_str_le (s : List UInt8) : (c_str s).length ≤ s.length :=
  (List.takeWhile_sublist _).length_le

theorem length_c_str_eq_iff (s : List UInt8) : (c_str s).length = s.length ↔ 0 ∉ s := by
  rw [← c_str_eq_iff]
  exact ⟨(List.takeWhile_sublist _).eq_of_length, congrArg List.length⟩

structure HelloWorld where
  index : UInt32
  message : List UInt8
deriving DecidableEq, Repr

/-- The constructor. -/
def HelloWorld.new : HelloWorld := ⟨0, []⟩

def HelloWorld.serialize (cdr : FastCdr) (data : HelloWorld) (scdr : Ser) :
    Except CdrException Ser := do
  let scdr ← cdr.uint32.put data.index scdr
  cdr.string.put (c_str data.message) scdr

def HelloWorld.deserialize (cdr : FastCdr) (dcdr : De) (data : HelloWorld) :
    HelloWorld × Option CdrException :=
  match cdr.uint32.get dcdr with
  | .error e => (data, some e)
  | .ok (index, dcdr) =>
    let data := { data with index }
    match cdr.string.get dcdr with
    | .error e => (data, some e)
    | .ok (message, _) => ({ data with message }, none)

def HelloWorld.getMaxCdrSerializedSize (cdr : FastCdr) (current_alignment : Nat) : Nat :=
  let initial_alignment := current_alignment
  let current_alignment := current_alignment + (4 + cdr.alignment current_alignment 4)
  let current_alignment := current_alignment + (4 + cdr.alignment current_alignment 4 + 255 + 1)
  current_alignment - initial_alignment

def HelloWorld.getCdrSerializedSize (cdr : FastCdr) (data : HelloWorld)
    (current_alignment : Nat) : Nat :=
  let initial_alignment := current_alignment
  let current_alignment := current_alignment + (4 + cdr.alignment current_alignment 4)
  let current_alignment :=
    current_alignment + (4 + cdr.alignment current_alignment 4 + data.message.length + 1)
  current_alignment - initial_alignment

def HelloWorld.type : CdrType HelloWorld where
  serialize := HelloWorld.serialize
  deserialize := HelloWorld.deserialize
  getMaxCdrSerializedSize := HelloWorld.getMaxCdrSerializedSize
  getCdrSerializedSize := HelloWorld.getCdrSerializedSize

namespace SharedMem

/-- `1024*1024` -/
def dataSize : Nat := 1024 * 1024

structure HelloWorld where
  index : UInt32
  message : List UInt8
  data : Buffer dataSize
deriving DecidableEq

/-- The constructor clears `data`. -/
def HelloWorld.new : HelloWorld := ⟨0, [], List.Vector.replicate dataSize 0⟩

def HelloWorld.serialize (cdr : FastCdr) (data : HelloWorld) (scdr : Ser) :
    Except CdrException Ser := do
  let scdr ← cdr.uint32.put data.index scdr
  let scdr ← cdr.string.put (c_str data.message) scdr
  (cdr.array dataSize).put data.data scdr

def HelloWorld.deserialize (cdr : FastCdr) (dcdr : De) (data : HelloWorld) :
    HelloWorld × Option CdrException :=
  match cdr.uint32.get dcdr with
  | .error e => (data, some e)
  | .ok (index, dcdr) =>
    let data := { data with index }
    match cdr.string.get dcdr with
    | .error e => (data, some e)
    | .ok (message, dcdr) =>
      let data := { data with message }
      match (cdr.array dataSize).get dcdr with
      | .error e => (data, some e)
      | .ok (array, _) => ({ data with data := array }, none)

def HelloWorld.getMaxCdrSerializedSize (cdr : FastCdr) (current_alignment : Nat) : Nat :=
  let initial_alignment := current_alignment
  let current_alignment := current_alignment + (4 + cdr.alignment current_alignment 4)
  let current_alignment := current_alignment + (4 + cdr.alignment current_alignment 4 + 255 + 1)
  let current_alignment := current_alignment + (dataSize * 1 + cdr.alignment current_alignment 1)
  current_alignment - initial_alignment

def HelloWorld.getCdrSerializedSize (cdr : FastCdr) (data : HelloWorld)
    (current_alignment : Nat) : Nat :=
  let initial_alignment := current_alignment
  let current_alignment := current_alignment + (4 + cdr.alignment current_alignment 4)
  let current_alignment :=
    current_alignment + (4 + cdr.alignment current_alignment 4 + data.message.length + 1)
  let current_alignment := current_alignment + (dataSize * 1 + cdr.alignment current_alignment 1)
  current_alignment - initial_alignment

def HelloWorld.type : CdrType HelloWorld where
  serialize := HelloWorld.serialize
  deserialize := HelloWorld.deserialize
  getMaxCdrSerializedSize := HelloWorld.getMaxCdrSerializedSize
  getCdrSerializedSize := HelloWorld.getCdrSerializedSize

end SharedMem

end DdsApps.Types
