import Mathlib.Data.List.FinRange
import DdsApps.Infra.Fuel
import DdsApps.Options.LineWrapper
import DdsApps.Options.PartIterator

/-!
# Printing a usage

`PrintUsageImplementation::printUsage` of `optionparser.h`. For each table it goes over the rows to
find the widths of the columns, as often as it takes until all columns but the last one fit; then it
goes over them again and prints them. The last column is wrapped, and so is a row that is no part of
the table.

What is written is collected in the state. `None` comes where the fuel runs out.
-/

namespace DdsApps.Options.Usage

open DdsApps.Infra

/-! ## Widths of the columns -/

/-- `lastcolumn` and `col_width[maxcolumns]` -/
structure Widths where
  lastcolumn : Fin 8
  col_width : Fin 8 → Nat

/-- Not an interjection: rows without `\t` and `\v` have no influence on the layout. -/
def Part.inTable (part : Part) : Bool := part.column > 0 || part.line > 0 || part.separated

namespace Widths

def init : Widths := { lastcolumn := 0, col_width := fun _ => 0 }

/-- The body of the loop over the parts. -/
def widen (overlong_column_threshold : Nat) (w : Widths) (part : Part) : Widths :=
  if h : part.column < 8 then
    let column : Fin 8 := ⟨part.column, h⟩
    let w := { w with lastcolumn := max w.lastcolumn column }
    if part.screenLength < overlong_column_threshold && part.inTable then
      { w with
        col_width := Function.update w.col_width column
          (max (w.col_width column) part.screenLength) }
    else w
  else w

/-- `tabstop[i]` is the sum of the widths before it. -/
def tabstop (w : Widths) (i : Fin 8) : Nat :=
  (((List.finRange 8).take i).map w.col_width).foldl (· + ·) 0

/-- The widths of all columns but the last one. -/
def leftwidth (w : Widths) : Nat := w.tabstop w.lastcolumn

/-- The greatest of these widths. -/
def overlong_column_threshold (w : Widths) : Nat :=
  (((List.finRange 8).take w.lastcolumn).map w.col_width).foldl max 0

end Widths

/-- The two inner loops of the `do` loop. -/
def measureTable (overlong_column_threshold fuel : Nat) (part : LinePartIterator) :
    Option (LinePartIterator × Widths) :=
  whileLoop (onFst LinePartIterator.nextRow)
    (whileLoop (onFst LinePartIterator.next)
      fun _ s => some (s.1, s.2.widen overlong_column_threshold s.1.part))
    fuel (part.restartTable, .init)

/-- The `do` loop: parts that are too long are left out until the others fit. -/
def findWidths (width : Nat) :
    (fuel overlong_column_threshold : Nat) → LinePartIterator → Option (LinePartIterator × Widths)
  | 0, _, _ => none
  | fuel + 1, overlong_column_threshold, part =>
    (measureTable overlong_column_threshold fuel part).bind fun (part, w) =>
      if w.leftwidth > width then findWidths width fuel w.overlong_column_threshold part
      else some (part, w)

/-! ## Rows -/

/-- What is fixed in a table. -/
structure Layout where
  width : Nat
  lastcolumn : Fin 8
  tabstop : Fin 8 → Nat
  rightwidth : Nat
  print_last_column_on_own_line : Bool

def Widths.layout (w : Widths)
    (width last_column_min_width last_column_own_line_max_width : Nat) : Layout :=
  let rightwidth := width - w.tabstop w.lastcolumn
  let own_line := rightwidth < last_column_min_width
    && (w.col_width w.lastcolumn = 0 || rightwidth < w.col_width w.lastcolumn)
  { width, lastcolumn := w.lastcolumn, tabstop := w.tabstop
    rightwidth := if own_line then last_column_own_line_max_width else rightwidth
    print_last_column_on_own_line := own_line && w.lastcolumn ≠ 0 }

/-- What has been written, and what is queued. -/
structure Output where
  x : Int
  written : List UInt8
  lastColumnLineWrapper : LineWrapper
  interjectionLineWrapper : LineWrapper

namespace Output

def write (o : Output) (data : List UInt8) : Output := { o with written := o.written ++ data }

def processLastColumn (o : Output) (data : List UInt8) : Output :=
  let (written, wrapper) := o.lastColumnLineWrapper.process data
  { o.write written with lastColumnLineWrapper := wrapper }

def processInterjection (o : Output) (data : List UInt8) : Output :=
  let (written, wrapper) := o.interjectionLineWrapper.process data
  { o.write written with interjectionLineWrapper := wrapper }

def flushLastColumn (o : Output) : Output :=
  let (written, wrapper) := o.lastColumnLineWrapper.flush
  { o.write written with lastColumnLineWrapper := wrapper }

def flushInterjection (o : Output) : Output :=
  let (written, wrapper) := o.interjectionLineWrapper.flush
  { o.write written with interjectionLineWrapper := wrapper }

/-- `indent(write, x, want_x)` -/
def indentTo (o : Output) (want_x : Int) : Output :=
  let (written, x) := indent o.x want_x
  { o.write written with x }

/-- Column 0 begins a line. -/
def beginLine (o : Output) : Output :=
  { if o.x ≥ 0 then o.write [10] else o with x := 0 }

end Output

variable (l : Layout)

/-- The body of the loop over the parts of a row. -/
def printPart (o : Output) (part : Part) : Output :=
  -- excess columns are dropped
  if h : part.column ≤ l.lastcolumn.val then
    let o := if part.column = 0 then o.beginLine else o
    let o := o.indentTo (l.tabstop ⟨part.column, Nat.lt_of_le_of_lt h l.lastcolumn.isLt⟩)
    if part.column < l.lastcolumn.val && part.inTable then
      { o.write part.data with x := o.x + part.screenLength }
    else if !l.print_last_column_on_own_line || part.column ≠ l.lastcolumn.val then
      if part.column = 0 then o.processInterjection part.data else o.processLastColumn part.data
    else o
  else o

/-- The body of the second loop, for a last column on its own line. -/
def printLastColumn (o : Output) (part : Part) : Output :=
  if part.column = l.lastcolumn.val then
    (o.write (10 :: (indent 0 (l.width - l.rightwidth : Nat)).1)).processLastColumn part.data
  else o

def printRow (fuel : Nat) (s : LinePartIterator × Output) : Option (LinePartIterator × Output) :=
  let parts (f : Output → Part → Output) := whileLoop (onFst LinePartIterator.next)
    fun _ s => some (s.1, f s.2 s.1.part)
  (parts (printPart l) fuel (s.1, { s.2 with x := -1 })).bind fun (part, o) =>
    (if l.print_last_column_on_own_line then
      parts (printLastColumn l) fuel (part.restartRow, o) else some (part, o)).map fun (part, o) =>
        (part, (o.write [10]).flushLastColumn.flushInterjection)

/-! ## Tables -/

def printTable (width last_column_min_width last_column_own_line_max_width fuel : Nat)
    (s : LinePartIterator × List UInt8) : Option (LinePartIterator × List UInt8) :=
  (findWidths width fuel 10000 s.1).bind fun (part, w) =>
    let l := w.layout width last_column_min_width last_column_own_line_max_width
    let o : Output :=
      { x := -1, written := s.2
        lastColumnLineWrapper := .init (width - l.rightwidth) width
        interjectionLineWrapper := .init 0 width }
    (whileLoop (onFst LinePartIterator.nextRow) (printRow l) fuel (part.restartTable, o)).map
      fun (part, o) => (part, o.written)

/-- The width, protected against nonsense values. -/
def screenWidth (width : Int) : Nat :=
  (if width < 1 then 80 else if width > 10000 then 10000 else width).toNat

/-- `((width * percent) + 50) / 100` -/
def percentOf (width : Nat) (percent : Fin 101) : Nat := (width * percent + 50) / 100

/--
What is written for a usage. The percentages are not above 100, so that no width is negative; they
are 50 and 75 if the caller gives none.
-/
def printUsage (usage : HelpTexts) (width : Int)
    (last_column_min_percent last_column_own_line_max_percent : Fin 101) (fuel : Nat) :
    Option (List UInt8) :=
  let width := screenWidth width
  let last_column_own_line_max_width := percentOf width last_column_own_line_max_percent
  (whileLoop (onFst LinePartIterator.nextTable)
    (printTable width (percentOf width last_column_min_percent)
      (if last_column_own_line_max_width = 0 then 1 else last_column_own_line_max_width))
    fuel (.init usage, [])).map Prod.snd

end DdsApps.Options.Usage
