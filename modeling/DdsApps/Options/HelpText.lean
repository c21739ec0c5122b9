import Mathlib.Data.List.TakeWhile

/-!
# Help texts

The characters of a help text, as `PrintUsageImplementation` of `optionparser.h` reads them: UTF-8
whose correctness is not checked. A pointer into a text is what the text has from there on, and the
final zero is its end.

* `HelpText` — a text without the byte that `__builtin_clz` is undefined for
* `readChar` — the bytes of the first character, and the columns it takes on a screen
* `measure` — the length of a part of a text, in bytes and in columns
-/

namespace DdsApps.Options

/-- `0xFF` is in no UTF-8 text. -/
abbrev HelpText : Type := { s : List UInt8 // 0 ∉ s ∧ 0xFF ∉ s }

namespace Usage

/-! ## Characters -/

/-- `(b ^ 0x80) <= 0x3F` -/
def isContinuation (b : UInt8) : Bool := b ^^^ 0x80 ≤ 0x3F

/-- `__builtin_clz`, for a positive number -/
def clz (x : UInt32) : UInt32 := 31 - UInt32.ofNat (Nat.log2 x.toNat)

def isWideChar (ch : UInt32) : Bool :=
  if ch = 0x303F then false
  else
    (0x1100 ≤ ch && ch ≤ 0x115F) || (0x2329 ≤ ch && ch ≤ 0x232A) || (0x2E80 ≤ ch && ch ≤ 0xA4C6)
      || (0xA960 ≤ ch && ch ≤ 0xA97C) || (0xAC00 ≤ ch && ch ≤ 0xD7FB)
      || (0xF900 ≤ ch && ch ≤ 0xFAFF) || (0xFE10 ≤ ch && ch ≤ 0xFE6B)
      || (0xFF01 ≤ ch && ch ≤ 0xFF60) || (0xFFE0 ≤ ch && ch ≤ 0xFFE6) || 0x1B000 ≤ ch

/-- The code point of a start byte above `0xC1` and the bytes that continue it. -/
def codePoint (b : UInt8) (continuation : List UInt8) : UInt32 :=
  let ch := b.toUInt32
  let mask := 0xFFFFFFFF >>> clz (ch ^^^ 0xFF)
  continuation.foldl (fun ch b => (ch <<< 6) ^^^ b.toUInt32 ^^^ 0x80) (ch &&& mask)

/-- The number of bytes of a character that begins with `b`, and the columns it takes. -/
def readChar (b : UInt8) (rest : List UInt8) : Nat × Nat :=
  if b > 0xC1 then
    let continuation := rest.takeWhile isContinuation
    let ch := codePoint b continuation
    (1 + continuation.length, if 0x1100 ≤ ch && isWideChar ch then 2 else 1)
  else (1, 1)

/-! ## Parts -/

/-- A part ends before one of these. -/
def isEnd (b : UInt8) : Bool := b = 0 || b = 11 || b = 9 || b = 10

/-- `update_length`: `len` and `screenlen` of the part at `ptr` -/
def measure : (ptr : List UInt8) → Nat × Nat
  | [] => (0, 0)
  | b :: rest =>
    if isEnd b then (0, 0)
    else
      let (charbytes, columns) := readChar b rest
      let (len, screenlen) := measure (rest.drop (charbytes - 1))
      (charbytes + len, columns + screenlen)
termination_by ptr => ptr.length
decreasing_by
  simp only [List.length_drop, List.length_cons]
  omega

/-! ## What holds of them -/

theorem readChar_pos (b : UInt8) (rest : List UInt8) :
    1 ≤ (readChar b rest).1 ∧ 1 ≤ (readChar b rest).2 ∧ (readChar b rest).2 ≤ 2 := by
  unfold readChar
  split
  · refine ⟨Nat.le_add_right 1 _, ?_, ?_⟩
    · dsimp only
      split <;> omega
    · dsimp only
      split <;> omega
  · exact ⟨Nat.le_refl _, Nat.le_refl _, Nat.le_succ _⟩

theorem readChar_le (b : UInt8) (rest : List UInt8) : (readChar b rest).1 ≤ 1 + rest.length := by
  unfold readChar
  split
  · have hle := (List.takeWhile_sublist isContinuation (l := rest)).length_le
    dsimp only
    omega
  · omega

end Usage

end DdsApps.Options
