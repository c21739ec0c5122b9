import DdsApps.Options.HelpText

/-!
# The parts of a usage

`LinePartIterator` of `optionparser.h`. The help texts of a usage are tables; a null pointer is the
break between two of them. A table consists of rows, a row of cells, and a cell of lines. A part is
a line of a cell: the iterator goes through the first lines of all cells of a row, then through the
second ones, and so on, and fills up the cells that have fewer lines.

A pointer into an array or a text is what there is from there on; the usage is what it has before
its last entry, whose `help` is null too. `len` and `screenlen` are set where they are read.
-/

namespace DdsApps.Options.Usage

/-- `help`, for each descriptor before the last one. -/
abbrev HelpTexts := List (Option HelpText)

/-- `usage->help` -/
def help (usage : HelpTexts) : Option (List UInt8) := usage.head?.join.map Subtype.val

/-- `*ptr` -/
def deref (ptr : List UInt8) : UInt8 := ptr.headD 0

structure LinePartIterator where
  tablestart : HelpTexts
  /-- null before the first table -/
  rowdesc : Option HelpTexts
  rowstart : Option (List UInt8)
  ptr : Option (List UInt8)
  col : Int
  len : Nat
  screenlen : Nat
  max_line_in_block : Nat
  line_in_block : Nat
  target_line_in_block : Nat
  hit_target_line : Bool

/-- What can be asked of an iterator at a part. -/
structure Part where
  column : Nat
  line : Nat
  /-- `length()` bytes from `data()` on -/
  data : List UInt8
  screenLength : Nat
  /-- `data()[length()]` is `\t` or `\v` -/
  separated : Bool
deriving DecidableEq, Repr

namespace LinePartIterator

def init (usage : HelpTexts) : LinePartIterator :=
  { tablestart := usage, rowdesc := none, rowstart := none, ptr := none, col := -1, len := 0
    screenlen := 0, max_line_in_block := 0, line_in_block := 0, target_line_in_block := 0
    hit_target_line := true }

/-- `ptr`, and `update_length` -/
def moveTo (it : LinePartIterator) (ptr : List UInt8) : LinePartIterator :=
  { it with ptr := some ptr, len := (measure ptr).1, screenlen := (measure ptr).2 }

/-! ## Tables and rows -/

def restartTable (it : LinePartIterator) : LinePartIterator :=
  { it with rowdesc := some it.tablestart, rowstart := help it.tablestart, ptr := none }

def nextTable (it : LinePartIterator) : Bool × LinePartIterator :=
  let tablestart := if it.rowdesc.isSome then it.tablestart.dropWhile Option.isSome
    else it.tablestart
  let it := { it with tablestart := tablestart.dropWhile Option.isNone }.restartTable
  (it.rowstart.isSome, it)

def restartRow (it : LinePartIterator) : LinePartIterator :=
  { it with
    ptr := it.rowstart, col := -1, len := 0, screenlen := 0, max_line_in_block := 0
    line_in_block := 0, target_line_in_block := 0, hit_target_line := true }

def nextRow (it : LinePartIterator) : Bool × LinePartIterator :=
  match it.ptr with
  | none => (it.rowstart.isSome, it.restartRow)
  | some ptr =>
    match ptr.dropWhile fun b => b ≠ 0 && b ≠ 10 with
    | [] =>
      -- `rowdesc + 1`
      let rowdesc := (it.rowdesc.getD []).tail
      match help rowdesc with
      | none => (false, { it with ptr := some [] })
      | some text =>
        (true, { it with rowdesc := some rowdesc, rowstart := some text }.restartRow)
    | _ :: rest => (true, { it with rowstart := some rest }.restartRow)

/-! ## Parts -/

/-- The part at `ptr` is one for the caller. -/
def found (it : LinePartIterator) (ptr : List UInt8) : Bool × LinePartIterator :=
  (true, { it.moveTo ptr with hit_target_line := true })

/--
The loop of `next`. It goes back to `rowstart` with `hit_target_line` false, and does not come to
the end of the row without it once more.
-/
def scan (rowstart : List UInt8) (it : LinePartIterator) (ptr : List UInt8) :
    Bool × LinePartIterator :=
  if deref ptr = 11 then
    let line_in_block := it.line_in_block + 1
    let it := { it with
      line_in_block, max_line_in_block := max it.max_line_in_block line_in_block }
    if line_in_block = it.target_line_in_block then it.found ptr.tail
    else scan rowstart it ptr.tail
  else if deref ptr = 9 then
    -- a part without bytes for a cell without the target line
    if it.hit_target_line = false then it.found ptr
    else
      let it := { it with hit_target_line := false, line_in_block := 0, col := it.col + 1 }
      if 0 = it.target_line_in_block then it.found ptr.tail else scan rowstart it ptr.tail
  else if deref ptr = 0 ∨ deref ptr = 10 then
    if it.hit_target_line = false then it.found ptr
    else
      let target_line_in_block := it.target_line_in_block + 1
      let it := { it with target_line_in_block }
      if target_line_in_block > it.max_line_in_block then (false, it.moveTo ptr)
      else
        scan rowstart { it with hit_target_line := false, line_in_block := 0, col := 0 } rowstart
  else scan rowstart it ptr.tail
termination_by it.hit_target_line.toNat * (rowstart.length + 1) + ptr.length
decreasing_by all_goals cases ptr <;> simp_all [deref] <;> omega

def next (it : LinePartIterator) : Bool × LinePartIterator :=
  match it.ptr, it.rowstart with
  | some ptr, some rowstart =>
    if it.col = -1 then (true, { it with col := 0 }.moveTo ptr)
    else scan rowstart it (ptr.drop it.len)
  -- where `ptr` is not null, `rowstart` is not
  | _, _ => (false, it)

/-- `column()`, `line()`, `data()` and so on. -/
def part (it : LinePartIterator) : Part :=
  let ptr := it.ptr.getD []
  { column := it.col.toNat, line := it.target_line_in_block, data := ptr.take it.len
    screenLength := it.screenlen
    separated := deref (ptr.drop it.len) = 9 || deref (ptr.drop it.len) = 11 }

end LinePartIterator

end DdsApps.Options.Usage
