import DdsApps.Infra.Bytes
import Mathlib.Data.Vector.Basic

/-!
# Codecs at an offset

Encodings that depend on the byte order and, by their alignment, on the offset they begin at. A
reader gets the bytes from its offset on and leaves those it has not used.

* `Codec` — a writer and a reader
* `Codec.Lawful` — what is written is read, and nothing is read from a part of it
* `Codec.seq`, `Codec.aligned` — one after the other, and behind padding
* `Codec.uint32`, `Codec.chars`, `Codec.string` — numbers, arrays of bytes, strings with their length

Nothing here is about a particular program.
-/

namespace DdsApps.Infra

inductive ByteOrder
  | bigEndian
  | littleEndian
deriving DecidableEq, Repr

structure Codec (α : Type*) where
  write : ByteOrder → (offset : Nat) → α → List UInt8
  read : ByteOrder → (offset : Nat) → List UInt8 → Option (α × List UInt8)

namespace Codec

variable {α β : Type*}

/-- It is a format for the values with `valid`. -/
structure Lawful (c : Codec α) (valid : α → Prop) : Prop where
  read_write : ∀ order offset a rest, valid a →
    c.read order offset (c.write order offset a ++ rest) = some (a, rest)
  truncated : ∀ order offset a part missing, valid a → part ++ missing = c.write order offset a →
    missing ≠ [] → c.read order offset part = none

theorem Lawful.mono {c : Codec α} {p q : α → Prop} (h : c.Lawful p) (hpq : ∀ a, q a → p a) :
    c.Lawful q where
  read_write order offset a rest ha := h.read_write order offset a rest (hpq a ha)
  truncated order offset a part missing ha := h.truncated order offset a part missing (hpq a ha)

/-! ## Bytes -/

/-- Splits off so many bytes, if there are so many. -/
def split (n : Nat) (bs : List UInt8) : Option (List UInt8 × List UInt8) :=
  if n ≤ bs.length then some (bs.take n, bs.drop n) else none

theorem split_append {n : Nat} {front : List UInt8} (h : front.length = n) (rest : List UInt8) :
    split n (front ++ rest) = some (front, rest) := by
  rw [split, if_pos (by rw [List.length_append]; omega), List.take_left' h, List.drop_left' h]

theorem split_eq_none {n : Nat} {bs : List UInt8} (h : bs.length < n) : split n bs = none :=
  if_neg (by omega)

/-- What is left out of a front part. -/
theorem length_lt_of_missing {part missing whole : List UInt8} (h : part ++ missing = whole)
    (hne : missing ≠ []) : part.length < whole.length := by
  have hpos := List.length_pos_of_ne_nil hne
  rw [← h, List.length_append]
  omega

/-- A part of two strings ends in the first, or behind it. -/
theorem part_cases {part missing x y : List UInt8} (h : part ++ missing = x ++ y) :
    (∃ more, part ++ more = x ∧ more ≠ []) ∨ ∃ part', part = x ++ part' ∧ part' ++ missing = y := by
  rcases List.append_eq_append_iff.mp h with ⟨more, hx, hmissing⟩ | ⟨part', hpart, hy⟩
  · by_cases hmore : more = []
    · subst hmore
      rw [List.append_nil] at hx
      exact Or.inr ⟨[], by rw [hx, List.append_nil], hmissing⟩
    · exact Or.inl ⟨more, hx.symm, hmore⟩
  · exact Or.inr ⟨part', hpart, hy.symm⟩

def chars (n : Nat) : Codec (List.Vector UInt8 n) where
  write _ _ v := v.toList
  read _ _ bs := if h : n ≤ bs.length then
      some (⟨bs.take n, List.length_take_of_le h⟩, bs.drop n) else none

theorem lawful_chars (n : Nat) : (chars n).Lawful fun _ => True where
  read_write := by
    rintro order offset ⟨v, hv⟩ rest -
    have hle : n ≤ (v ++ rest).length := by rw [List.length_append]; omega
    simp only [chars, List.Vector.toList_mk, dif_pos hle, List.take_left' hv, List.drop_left' hv]
  truncated := by
    rintro order offset ⟨v, hv⟩ part missing - h hne
    have hlt := length_lt_of_missing h hne
    have hlen : (((chars n).write order offset ⟨v, hv⟩)).length = n := hv
    exact dif_neg (by omega)

/-! ## Numbers -/

/-- The `n` bytes of a number, the least significant one first. -/
def leBytes : (n v : Nat) → List UInt8
  | 0, _ => []
  | n + 1, v => UInt8.ofNat v :: leBytes n (v / 256)

theorem length_leBytes : ∀ n v, (leBytes n v).length = n
  | 0, _ => rfl
  | n + 1, v => by rw [leBytes, List.length_cons, length_leBytes]

theorem leValue_leBytes : ∀ n v, leValue (leBytes n v) = v % 256 ^ n
  | 0, v => by simp [leBytes, leValue, Nat.mod_one]
  | n + 1, v => by
    have hbyte : (UInt8.ofNat v).toNat = v % 256 := UInt8.toNat_ofNat'
    have hmod : v % 256 ^ (n + 1) = v % 256 + 256 * (v / 256 % 256 ^ n) := by
      rw [Nat.pow_succ', Nat.mod_mul]
    rw [leBytes, leValue_cons, leValue_leBytes n (v / 256), hbyte, hmod]

/-- Bytes given from the least significant one on, in an order. -/
def ByteOrder.arrange : ByteOrder → List UInt8 → List UInt8
  | .littleEndian, bs => bs
  | .bigEndian, bs => bs.reverse

theorem length_arrange (order : ByteOrder) (bs : List UInt8) :
    (ByteOrder.arrange order bs).length = bs.length := by
  cases order with
  | littleEndian => rfl
  | bigEndian => exact List.length_reverse

theorem arrange_arrange (order : ByteOrder) (bs : List UInt8) :
    ByteOrder.arrange order (ByteOrder.arrange order bs) = bs := by
  cases order with
  | littleEndian => rfl
  | bigEndian => exact List.reverse_reverse bs

def uint32 : Codec UInt32 where
  write order _ v := ByteOrder.arrange order (leBytes 4 v.toNat)
  read order _ bs := (split 4 bs).map fun (front, rest) =>
    (UInt32.ofNat (leValue (ByteOrder.arrange order front)), rest)

theorem length_uint32 (order : ByteOrder) (offset : Nat) (v : UInt32) :
    (uint32.write order offset v).length = 4 := by
  rw [uint32, length_arrange, length_leBytes]

theorem lawful_uint32 : uint32.Lawful fun _ => True where
  read_write := by
    intro order offset v rest _
    have hsplit := split_append (length_uint32 order offset v) rest
    have hread : uint32.read order offset (uint32.write order offset v ++ rest)
        = some (UInt32.ofNat (leValue (ByteOrder.arrange order (uint32.write order offset v))),
            rest) := by
      simp only [uint32] at hsplit ⊢
      rw [hsplit, Option.map_some]
    have hlt : v.toNat < 256 ^ 4 := v.toNat_lt
    rw [hread, uint32, arrange_arrange, leValue_leBytes, Nat.mod_eq_of_lt hlt, UInt32.ofNat_toNat]
  truncated := by
    intro order offset v part missing _ h hne
    have hlt := length_lt_of_missing h hne
    rw [length_uint32] at hlt
    simp only [uint32, split_eq_none hlt, Option.map_none]

/-! ## One after the other -/

variable {c : Codec α} {d : Codec β} {p : α → Prop} {q : β → Prop}

def seq (c : Codec α) (d : Codec β) : Codec (α × β) where
  write order offset v :=
    c.write order offset v.1 ++
      d.write order (offset + (c.write order offset v.1).length) v.2
  read order offset bs :=
    (c.read order offset bs).bind fun (a, rest) =>
      (d.read order (offset + (bs.length - rest.length)) rest).map fun (b, rest) => ((a, b), rest)

/-- The offset behind what has been read. -/
theorem seq_read {order : ByteOrder} {offset : Nat} {a : α} {rest : List UInt8}
    (hc : c.Lawful p) (ha : p a) :
    (c.seq d).read order offset (c.write order offset a ++ rest)
      = (d.read order (offset + (c.write order offset a).length) rest).map
          fun (b, rest) => ((a, b), rest) := by
  have hlength : (c.write order offset a ++ rest).length - rest.length
      = (c.write order offset a).length := by
    rw [List.length_append, Nat.add_sub_cancel]
  simp only [seq, hc.read_write order offset a rest ha, Option.bind_some, hlength]

theorem Lawful.seq (hc : c.Lawful p) (hd : d.Lawful q) :
    (c.seq d).Lawful fun v => p v.1 ∧ q v.2 where
  read_write := by
    rintro order offset ⟨a, b⟩ rest ⟨ha, hb⟩
    have hwrite : (c.seq d).write order offset (a, b) ++ rest
        = c.write order offset a ++
          (d.write order (offset + (c.write order offset a).length) b ++ rest) :=
      List.append_assoc ..
    rw [hwrite, seq_read hc ha, hd.read_write _ _ _ _ hb, Option.map_some]
  truncated := by
    rintro order offset ⟨a, b⟩ part missing ⟨ha, hb⟩ h hne
    rcases part_cases h with ⟨more, hfirst, hmore⟩ | ⟨part', rfl, hsecond⟩
    · have hnone := hc.truncated order offset a part more ha hfirst hmore
      simp only [Codec.seq, hnone, Option.bind_none]
    · rw [seq_read hc ha, hd.truncated _ _ _ _ _ hb hsecond hne, Option.map_none]

/-! ## Padding -/

/-- The number of bytes from an offset up to a multiple of `n`. -/
def padding (offset n : Nat) : Nat := (n - offset % n) % n

def aligned (n : Nat) (c : Codec α) : Codec α where
  write order offset a :=
    List.replicate (padding offset n) 0 ++ c.write order (offset + padding offset n) a
  read order offset bs :=
    (split (padding offset n) bs).bind fun (_, rest) =>
      c.read order (offset + padding offset n) rest

theorem length_aligned (n : Nat) (c : Codec α) (order : ByteOrder) (offset : Nat) (a : α) :
    ((c.aligned n).write order offset a).length
      = padding offset n + (c.write order (offset + padding offset n) a).length := by
  simp only [aligned, List.length_append, List.length_replicate]

theorem Lawful.aligned (hc : c.Lawful p) (n : Nat) : (c.aligned n).Lawful p where
  read_write := by
    intro order offset a rest ha
    simp only [Codec.aligned, List.append_assoc]
    rw [split_append List.length_replicate, Option.bind_some, hc.read_write _ _ _ _ ha]
  truncated := by
    intro order offset a part missing ha h hne
    simp only [Codec.aligned] at h ⊢
    rcases part_cases h with ⟨more, hfirst, hmore⟩ | ⟨part', rfl, hsecond⟩
    · have hlt := length_lt_of_missing hfirst hmore
      rw [List.length_replicate] at hlt
      rw [split_eq_none hlt, Option.bind_none]
    · rw [split_append List.length_replicate, Option.bind_some,
        hc.truncated _ _ _ _ _ ha hsecond hne]

/-! ## Strings -/

/--
The length with the final zero, the bytes, and the zero. A reader takes a length of 0 for the empty
string, and bytes whose last one is no zero as they are.
-/
def string : Codec (List UInt8) where
  write order offset s := uint32.write order offset (UInt32.ofNat (s.length + 1)) ++ (s ++ [0])
  read order offset bs :=
    (uint32.read order offset bs).bind fun (length, rest) =>
      (split length.toNat rest).map fun (front, rest) =>
        (if front.getLast? = some 0 then front.dropLast else front, rest)

theorem length_string (order : ByteOrder) (offset : Nat) (s : List UInt8) :
    (string.write order offset s).length = 4 + s.length + 1 := by
  rw [string, List.length_append, length_uint32, List.length_append, List.length_singleton,
    Nat.add_assoc]

theorem toNat_length {s : List UInt8} (h : s.length + 1 < 2 ^ 32) :
    (UInt32.ofNat (s.length + 1)).toNat = (s ++ [0]).length := by
  rw [List.length_append, List.length_singleton]
  exact UInt32.toNat_ofNat_of_lt' h

/-- Strings whose length can be written. -/
theorem lawful_string : string.Lawful fun s => s.length + 1 < 2 ^ 32 where
  read_write := by
    intro order offset s rest hs
    have hlength := toNat_length hs
    simp only [string, List.append_assoc]
    rw [lawful_uint32.read_write _ _ _ _ trivial, Option.bind_some, hlength, ← List.append_assoc,
      split_append rfl, Option.map_some, List.getLast?_concat, if_pos rfl, List.dropLast_concat]
  truncated := by
    intro order offset s part missing hs h hne
    simp only [string] at h ⊢
    rcases part_cases h with ⟨more, hfirst, hmore⟩ | ⟨part', rfl, hsecond⟩
    · rw [lawful_uint32.truncated _ _ _ _ _ trivial hfirst hmore, Option.bind_none]
    · have hlt := length_lt_of_missing hsecond hne
      rw [lawful_uint32.read_write _ _ _ _ trivial, Option.bind_some, toNat_length hs,
        split_eq_none hlt, Option.map_none]

end Codec

end DdsApps.Infra
