import DdsApps.Infra.CStrings
import DdsApps.Infra.CircularBuffer
import DdsApps.Options.HelpText

/-!
# The line wrapper of the help texts

`LineWrapper` of `optionparser.h` breaks the last column of a table, and the text between tables,
into pieces that fit a width. It writes a line at a time and queues the pieces that are left, in a
buffer with room for 15; where more are queued it writes further lines.

What is written is returned, together with the wrapper afterwards. A pair of a pointer and a length
is the bytes it stands for.
-/

namespace DdsApps.Options.Usage

open DdsApps.Infra

/-- `indent`: what is written, and `x` afterwards. It leaves `x` where it is if there is nothing to do. -/
def indent (x want_x : Int) : List UInt8 × Int :=
  let newline : List UInt8 := if want_x - x < 0 then [10] else []
  let indent := if want_x - x < 0 then want_x else want_x - x
  if indent > 0 then (newline ++ List.replicate indent.toNat 32, want_x) else (newline, x)

/-- The loop for the characters that fit: the number of their bytes. -/
def fits (width : Nat) : (utf8width : Nat) → (data : List UInt8) → Nat
  | _, [] => 0
  | utf8width, b :: rest =>
    if utf8width < width then
      let (charbytes, columns) := readChar b rest
      if columns = 2 ∧ utf8width + 2 > width then 0
      else charbytes + fits width (utf8width + columns) (rest.drop (charbytes - 1))
    else 0
termination_by _ data => data.length
decreasing_by
  simp only [List.length_drop, List.length_cons]
  omega

/-- One round of the loop in `process`: the piece that is put out, and the data left. -/
def nextPiece (width : Nat) (data : List UInt8) : List UInt8 × List UInt8 :=
  if data.length ≤ width then (data, [])
  else
    let maxi := fits width 0 data
    if maxi = data.length then (data, [])
    else
      -- the last space up to the first character that does not fit
      match rfind 32 (data.take (maxi + 1)) with
      | some i => (data.take i, data.drop (i + 1))
      | none => (data.take maxi, data.drop maxi)

/-- At least one character fits: a piece is put out, or a space is left out. -/
theorem nextPiece_lt {width : Nat} (hwidth : 2 ≤ width) {data : List UInt8} (hdata : data ≠ []) :
    (nextPiece width data).2.length < data.length := by
  have hpos := List.length_pos_of_ne_nil hdata
  unfold nextPiece
  split
  · exact hpos
  · dsimp only
    split
    · exact hpos
    · split
      · rw [List.length_drop]
        omega
      · rw [List.length_drop]
        have hfits : 1 ≤ fits width 0 data := by
          obtain ⟨b, rest, rfl⟩ := List.exists_cons_of_ne_nil hdata
          have hchar := (readChar_pos b rest).1
          have hnot : ¬((readChar b rest).2 = 2 ∧ 0 + 2 > width) := by omega
          rw [fits, if_pos (by omega)]
          dsimp only
          rw [if_neg hnot]
          omega
        omega

structure LineWrapper where
  buf : CircularBuffer (List UInt8) 16
  x : Nat
  width : Nat
  /-- a wide character must fit -/
  two_le_width : 2 ≤ width
  wrote_something : Bool

namespace LineWrapper

/-- For the columns `x1` to `x2`. -/
def init (x1 x2 : Nat) : LineWrapper :=
  { buf := .init 16 [], x := x1, width := max (x2 - x1) 2, two_le_width := le_max_right ..
    wrote_something := false }

def write_one_line (w : LineWrapper) : List UInt8 × LineWrapper :=
  let newline := if w.wrote_something then 10 :: (indent 0 w.x).1 else []
  if w.buf.empty then (newline, { w with wrote_something := true })
  else (newline ++ w.buf.next.current, { w with buf := w.buf.next, wrote_something := true })

def output (w : LineWrapper) (data : List UInt8) : List UInt8 × LineWrapper :=
  let (written, w) := if w.buf.full then w.write_one_line else ([], w)
  (written, { w with buf := w.buf.store data })

/-- The loop of `process`. -/
def outputAll (w : LineWrapper) (data : List UInt8) : List UInt8 × LineWrapper :=
  if h : data = [] then ([], w)
  else
    let (written, t) := w.output (nextPiece w.width data).1
    let (rest, t) := t.outputAll (nextPiece w.width data).2
    (written ++ rest, t)
termination_by data.length
decreasing_by exact nextPiece_lt w.two_le_width h

def process (w : LineWrapper) (data : List UInt8) : List UInt8 × LineWrapper :=
  let (written, w) := { w with wrote_something := false }.outputAll data
  if w.wrote_something then (written, w)
  else
    let (line, w) := w.write_one_line
    (written ++ line, w)

/-- The loop of `flush`; the buffer holds 15 pieces at most. -/
def flushAll : (rounds : Nat) → LineWrapper → List UInt8 × LineWrapper
  | 0, w => ([], w)
  | rounds + 1, w =>
    if w.buf.empty then ([], w)
    else
      let (line, w) := w.write_one_line
      let (rest, w) := flushAll rounds w
      (line ++ rest, w)

def flush (w : LineWrapper) : List UInt8 × LineWrapper :=
  if w.buf.empty then ([], w)
  else
    let (lines, t) := flushAll 16 { w with wrote_something := false }
    ((indent 0 w.x).1 ++ lines ++ [10], t)

end LineWrapper

end DdsApps.Options.Usage
