import Mathlib.Data.Vector.Basic

/-!
# Strings in buffers

Fixed buffers of bytes with strings in them that end at the first zero, and the last position of a
byte in a string.

* `cString` — what a scan reads before the first zero; it may leave the buffer
* `strcpy` — a copy into a buffer, with its zero; it must fit
* `rfind` — the last position of a byte

Nothing here is about a particular program.
-/

namespace DdsApps.Infra

/-- A buffer of `n` bytes. -/
abbrev Buffer (n : Nat) := List.Vector UInt8 n

/-- A string literal of ASCII characters. -/
def bytes (s : String) : List UInt8 := s.toList.map Char.toUInt8

/-! ## Reading up to a zero -/

/-- The bytes before the first zero; `none` where there is no zero, and the scan goes on outside. -/
def cString : List UInt8 → Option (List UInt8)
  | [] => none
  | b :: rest => if b = 0 then some [] else (cString rest).map (b :: ·)

/-- What holds no zero is read before what follows. -/
theorem cString_append {s : List UInt8} (h : 0 ∉ s) (rest : List UInt8) :
    cString (s ++ rest) = (cString rest).map (s ++ ·) := by
  induction s with
  | nil => simp only [List.nil_append, Option.map_id']
  | cons b s ih =>
    obtain ⟨hb, hs⟩ := List.ne_and_not_mem_of_not_mem_cons h
    rw [List.cons_append, cString, if_neg (Ne.symm hb), ih hs, Option.map_map]
    rfl

/-- **A string is read up to its zero.** -/
theorem cString_zero {s : List UInt8} (h : 0 ∉ s) (rest : List UInt8) :
    cString (s ++ 0 :: rest) = some s := by
  rw [cString_append h, cString, if_pos rfl, Option.map_some, List.append_nil]

/-! ## Copying -/

variable {n : Nat}

/--
`strcpy(&dest[offset], src)`, for a `src` without zeros; `none` where the string or its zero does
not fit.
-/
def strcpy (dest : Buffer n) (offset : Nat) (src : List UInt8) : Option (Buffer n) :=
  if h : offset + src.length + 1 ≤ n then
    some ⟨dest.toList.take offset ++ (src ++ 0 :: dest.toList.drop (offset + src.length + 1)), by
      have hlen := dest.toList_length
      simp only [List.length_append, List.length_take, List.length_cons, List.length_drop, hlen]
      omega⟩
  else none

/-- What fits is copied. -/
theorem exists_strcpy (dest : Buffer n) {offset : Nat} {src : List UInt8}
    (h : offset + src.length + 1 ≤ n) : ∃ dest', strcpy dest offset src = some dest' := by
  unfold strcpy
  rw [dif_pos h]
  exact ⟨_, rfl⟩

/-- **The bytes before and behind the copy are what they were.** -/
theorem toList_of_strcpy {dest dest' : Buffer n} {offset : Nat} {src : List UInt8}
    (h : strcpy dest offset src = some dest') :
    (dest.toList.take offset).length = offset ∧
      dest'.toList = dest.toList.take offset ++
        (src ++ 0 :: dest.toList.drop (offset + src.length + 1)) := by
  unfold strcpy at h
  split at h
  · next hfits =>
    cases h
    refine ⟨List.length_take_of_le ?_, rfl⟩
    rw [dest.toList_length]
    omega
  · cases h

/-- What has been copied is read at the same place. -/
theorem cString_of_strcpy {dest dest' : Buffer n} {offset : Nat} {src : List UInt8}
    (hzero : 0 ∉ src) (h : strcpy dest offset src = some dest') :
    cString (dest'.toList.drop offset) = some src := by
  obtain ⟨hlen, htoList⟩ := toList_of_strcpy h
  rw [htoList, List.drop_left' hlen]
  exact cString_zero hzero _

theorem take_of_strcpy {dest dest' : Buffer n} {offset : Nat} {src : List UInt8}
    (h : strcpy dest offset src = some dest') :
    dest'.toList.take offset = dest.toList.take offset := by
  obtain ⟨hlen, htoList⟩ := toList_of_strcpy h
  rw [htoList, List.take_left' hlen]

/-! ## The last position of a byte -/

/-- `s.rfind(c)`, with `none` for `npos`. -/
def rfind (c : UInt8) : List UInt8 → Option Nat
  | [] => none
  | b :: rest =>
    match rfind c rest with
    | some i => some (i + 1)
    | none => if b = c then some 0 else none

theorem rfind_of_not_mem {c : UInt8} {s : List UInt8} (h : c ∉ s) : rfind c s = none := by
  induction s with
  | nil => rfl
  | cons b s ih =>
    obtain ⟨hb, hs⟩ := List.ne_and_not_mem_of_not_mem_cons h
    rw [rfind, ih hs]
    exact if_neg (Ne.symm hb)

/-- **The last position is the one with nothing like it behind.** -/
theorem rfind_append_cons {c : UInt8} {rest : List UInt8} (h : c ∉ rest) (s : List UInt8) :
    rfind c (s ++ c :: rest) = some s.length := by
  induction s with
  | nil =>
    rw [List.nil_append, rfind, rfind_of_not_mem h]
    exact if_pos rfl
  | cons b s ih =>
    rw [List.cons_append, rfind, ih]
    rfl

/-- A string with `c` in it, taken apart at the last one. -/
theorem exists_last {c : UInt8} {s : List UInt8} (h : c ∈ s) :
    ∃ pre rest, s = pre ++ c :: rest ∧ c ∉ rest := by
  induction s with
  | nil => cases h
  | cons b s ih =>
    by_cases hs : c ∈ s
    · obtain ⟨pre, rest, rfl, hrest⟩ := ih hs
      exact ⟨b :: pre, rest, rfl, hrest⟩
    · rcases List.mem_cons.mp h with rfl | hmem
      · exact ⟨[], s, rfl, hs⟩
      · exact absurd hmem hs

end DdsApps.Infra
