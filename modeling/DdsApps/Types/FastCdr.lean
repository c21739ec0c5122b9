import DdsApps.Infra.CStrings
import DdsApps.Infra.Codec

/-!
# Fast CDR

The serializer of the generated classes is a library that is not part of the repository. What they
use of it is a parameter here: its operators, and the formats that these write and read. A format
begins at an offset from the end of the encapsulation.

* `Operators` — `<<` and `>>` for a type
* `FastCdr` — the library
* `FastCdr.Documented` — what its documentation says of it
* `FastCdr.xcdr` — the format of the standard, which the library implements
-/

namespace DdsApps.Types

open DdsApps.Infra

inductive CdrException
  | notEnoughMemory
  | badParam
deriving DecidableEq, Repr

/-! ## Serializers -/

/-- A `Cdr` that writes to a `FastBuffer` of a fixed size. -/
structure Ser where
  endianness : ByteOrder
  max_size : Nat
  encapsulation : List UInt8
  body : List UInt8
deriving DecidableEq, Repr

/-- All bytes written, and their number `getSerializedDataLength()`. -/
def Ser.bytes (s : Ser) : List UInt8 := s.encapsulation ++ s.body

/-- A value is written by its format, if the buffer has room for it. -/
def Ser.put {α : Type} (c : Codec α) (a : α) (s : Ser) : Except CdrException Ser :=
  let bs := c.write s.endianness s.body.length a
  if s.bytes.length + bs.length ≤ s.max_size then .ok { s with body := s.body ++ bs }
  else .error .notEnoughMemory

/-- A `Cdr` that reads. -/
structure De where
  endianness : ByteOrder
  offset : Nat
  rest : List UInt8
deriving DecidableEq, Repr

/-- A value is read by its format, if the buffer has it. -/
def De.get {α : Type} (c : Codec α) (d : De) : Except CdrException (α × De) :=
  match c.read d.endianness d.offset d.rest with
  | some (a, rest) =>
    .ok (a, { d with offset := d.offset + (d.rest.length - rest.length), rest })
  | none => .error .notEnoughMemory

/-! ## The library -/

/-- The operators for a type, and their format. -/
structure Operators (α : Type) where
  format : Codec α
  /-- `operator<<` -/
  put : α → Ser → Except CdrException Ser
  /-- `operator>>` -/
  get : De → Except CdrException (α × De)

structure FastCdr where
  /-- `Cdr::alignment(current_alignment, dataSize)` -/
  alignment : (current_alignment dataSize : Nat) → Nat
  /-- `serialize_encapsulation` of a serializer for `DDS_CDR` -/
  serialize_encapsulation : ByteOrder → List UInt8
  read_encapsulation : List UInt8 → Except CdrException (ByteOrder × List UInt8)
  uint32 : Operators UInt32
  /-- `<<` of a `const char*`, and `>>` to a `std::string` -/
  string : Operators (List UInt8)
  array : (n : Nat) → Operators (Buffer n)

/-- Strings that can be written: they end at their first zero, and have a 32-bit length. -/
def Text (s : List UInt8) : Prop := 0 ∉ s ∧ s.length + 1 < 2 ^ 32

/-- The operators write and read the format of the values with `valid`. -/
structure Operators.Documented {α : Type} (op : Operators α) (valid : α → Prop) : Prop where
  lawful : op.format.Lawful valid
  put : ∀ a s, valid a → op.put a s = s.put op.format a
  get : ∀ d, op.get d = d.get op.format

structure FastCdr.Documented (cdr : FastCdr) : Prop where
  alignment : ∀ current_alignment dataSize, dataSize ∈ [1, 2, 4, 8] →
    cdr.alignment current_alignment dataSize = Codec.padding current_alignment dataSize
  encapsulation_length : ∀ order, (cdr.serialize_encapsulation order).length = 4
  read_encapsulation : ∀ order rest,
    cdr.read_encapsulation (cdr.serialize_encapsulation order ++ rest) = .ok (order, rest)
  short_encapsulation : ∀ bs, bs.length < 4 → cdr.read_encapsulation bs = .error .notEnoughMemory
  uint32 : cdr.uint32.Documented fun _ => True
  uint32_length : ∀ order offset v,
    (cdr.uint32.format.write order offset v).length = Codec.padding offset 4 + 4
  string : cdr.string.Documented Text
  string_length : ∀ order offset s, Text s →
    (cdr.string.format.write order offset s).length = Codec.padding offset 4 + 4 + s.length + 1
  array : ∀ n, (cdr.array n).Documented fun _ => True
  array_length : ∀ n order offset v, ((cdr.array n).format.write order offset v).length = n

/-! ## The format of the standard -/

/-- Operators that do just that. -/
def Operators.ofCodec {α : Type} (c : Codec α) : Operators α where
  format := c
  put a s := s.put c a
  get d := d.get c

theorem Operators.ofCodec_documented {α : Type} {c : Codec α} {valid : α → Prop}
    (hc : c.Lawful valid) : (Operators.ofCodec c).Documented valid where
  lawful := hc
  put _ _ _ := rfl
  get _ := rfl

/-- The second byte of the encapsulation tells the byte order, the last two are options. -/
def FastCdr.xcdr : FastCdr where
  alignment := Codec.padding
  serialize_encapsulation
    | .bigEndian => [0, 0, 0, 0]
    | .littleEndian => [0, 1, 0, 0]
  read_encapsulation
    | dummy :: kind :: _ :: _ :: rest =>
      if dummy ≠ 0 then .error .badParam
      else if kind = 0 then .ok (.bigEndian, rest)
      else if kind = 1 then .ok (.littleEndian, rest)
      else .error .badParam
    | _ => .error .notEnoughMemory
  uint32 := .ofCodec (Codec.uint32.aligned 4)
  string := .ofCodec (Codec.string.aligned 4)
  array n := .ofCodec (Codec.chars n)

theorem FastCdr.xcdr_documented : FastCdr.xcdr.Documented where
  alignment := fun _ _ _ => rfl
  encapsulation_length := by
    intro order
    cases order <;> rfl
  read_encapsulation := by
    intro order rest
    cases order <;> rfl
  short_encapsulation := by
    intro bs h
    match bs, h with
    | [], _ | [_], _ | [_, _], _ | [_, _, _], _ => rfl
    | _ :: _ :: _ :: _ :: rest, h =>
      simp only [List.length_cons] at h
      omega
  uint32 := Operators.ofCodec_documented (Codec.lawful_uint32.aligned 4)
  uint32_length := by
    intro order offset v
    show ((Codec.uint32.aligned 4).write order offset v).length = _
    rw [Codec.length_aligned, Codec.length_uint32]
  string := Operators.ofCodec_documented ((Codec.lawful_string.aligned 4).mono fun _ hs => hs.2)
  string_length := by
    intro order offset s _
    show ((Codec.string.aligned 4).write order offset s).length = _
    rw [Codec.length_aligned, Codec.length_string]
    omega
  array n := Operators.ofCodec_documented (Codec.lawful_chars n)
  array_length := fun _ _ _ v => v.toList_length

end DdsApps.Types
