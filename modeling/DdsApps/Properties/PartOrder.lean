import Mathlib.Data.List.GetD
import DdsApps.Infra.Fuel
import DdsApps.Infra.Split
import DdsApps.Options.PartIterator
import DdsApps.Properties.LineWrapping

/-!
# The order of the parts

The iterator reads a row line by line: of each line all cells, one after the other, and nothing for
the cells that have ended before it.
-/

namespace DdsApps.Options.Usage

open DdsApps.Infra

/-! ## Parts -/

/-- No byte of it ends a part. -/
def Plain (text : List UInt8) : Prop := ∀ b ∈ text, isEnd b = false

/-- A part ends here. -/
def Stops (ptr : List UInt8) : Prop := isEnd (deref ptr) = true

theorem stops_cons {b : UInt8} {rest : List UInt8} (h : isEnd b = true) : Stops (b :: rest) := h

theorem isContinuation_of_isEnd {b : UInt8} (h : isEnd b = true) : isContinuation b = false := by
  simp only [isEnd, Bool.or_eq_true, decide_eq_true_eq] at h
  obtain ((rfl | rfl) | rfl) | rfl := h
  · decide
  · decide
  · decide
  · decide

/-- A character ends in the text, or goes on behind it. -/
theorem readChar_append_cases (b : UInt8) (text r : List UInt8) :
    readChar b (text ++ r) = readChar b text ∨
      (readChar b text).1 = 1 + text.length ∧ r.takeWhile isContinuation ≠ [] ∧
        (readChar b (text ++ r)).1 = 1 + text.length + (r.takeWhile isContinuation).length := by
  unfold readChar
  split
  · rw [List.takeWhile_append]
    split
    · next hall =>
      have htext : text.takeWhile isContinuation = text :=
        (List.takeWhile_prefix isContinuation).eq_of_length hall
      rw [htext]
      by_cases hnil : r.takeWhile isContinuation = []
      · rw [hnil, List.append_nil]
        exact .inl rfl
      · refine .inr ⟨rfl, hnil, ?_⟩
        dsimp only
        rw [List.length_append, Nat.add_assoc]
    · exact .inl rfl
  · exact .inl rfl

/-- What does not continue a character is not read with it. -/
theorem readChar_append {b : UInt8} {text r : List UInt8}
    (hr : ∀ c ∈ r.head?, isContinuation c = false) : readChar b (text ++ r) = readChar b text := by
  have hnone : r.takeWhile isContinuation = [] := by
    cases r with
    | nil => rfl
    | cons c r => rw [List.takeWhile_cons_of_neg (Bool.eq_false_iff.mp (hr c rfl))]
  exact (readChar_append_cases b text r).resolve_right fun h => h.2.1 hnone

theorem Stops.head? {r : List UInt8} (h : Stops r) : ∀ c ∈ r.head?, isContinuation c = false := by
  cases r with
  | nil => exact nofun
  | cons b r =>
    intro c hc
    cases hc
    exact isContinuation_of_isEnd h

/-- **A part is measured up to its end.** -/
theorem measure_append {text r : List UInt8} (htext : Plain text) (hr : Stops r) :
    measure (text ++ r) = (text.length, columns text) := by
  match text with
  | [] =>
    rw [List.nil_append, columns, List.length_nil]
    cases r with
    | nil => rw [measure]
    | cons b r =>
      have hend : isEnd b = true := hr
      rw [measure, if_pos hend]
  | b :: rest =>
    have hb : ¬isEnd b = true := Bool.eq_false_iff.mp (htext b List.mem_cons_self)
    have hle := readChar_le b rest
    have hpos := (readChar_pos b rest).1
    have hrest : Plain (rest.drop ((readChar b rest).1 - 1)) := fun c hc =>
      htext c (List.mem_cons_of_mem _ (List.mem_of_mem_drop hc))
    have hdrop : (rest ++ r).drop ((readChar b rest).1 - 1)
        = rest.drop ((readChar b rest).1 - 1) ++ r := List.drop_append_of_le_length (by omega)
    have ih := measure_append hrest hr
    rw [List.cons_append, measure, if_neg hb]
    dsimp only
    rw [readChar_append hr.head?, hdrop, ih, columns, List.length_drop, List.length_cons]
    refine Prod.ext ?_ rfl
    dsimp only
    omega
termination_by text.length
decreasing_by
  simp only [List.length_drop, List.length_cons]
  omega

namespace LinePartIterator

/-! ## One step -/

variable {it : LinePartIterator} {rowstart ptr rest : List UInt8}

/-- A row ends here. -/
def RowEnd (ptr : List UInt8) : Prop := deref ptr = 0 ∨ deref ptr = 10

theorem RowEnd.stops (h : RowEnd ptr) : Stops ptr := by
  unfold Stops
  obtain h | h := h
  · rw [h]
    rfl
  · rw [h]
    rfl

theorem RowEnd.ne (h : RowEnd ptr) : deref ptr ≠ 11 ∧ deref ptr ≠ 9 := by
  obtain h | h := h
  · rw [h]
    decide
  · rw [h]
    decide

/-- A cell ends here. -/
def CellEnd (ptr : List UInt8) : Prop := deref ptr = 9 ∨ RowEnd ptr

theorem CellEnd.stops (h : CellEnd ptr) : Stops ptr := by
  obtain h | h := h
  · unfold Stops
    rw [h]
    rfl
  · exact h.stops

/-- What the iterator is when it stops: the rest is the same in the whole row. -/
def stopAt (it : LinePartIterator) (ptr : List UInt8) (col : Int) (target max line : Nat) :
    LinePartIterator :=
  { it with
    ptr := some ptr, col, len := (measure ptr).1, screenlen := (measure ptr).2
    max_line_in_block := max, line_in_block := line, target_line_in_block := target
    hit_target_line := true }

theorem scan_plain {text : List UInt8} (htext : Plain text) (rest : List UInt8) :
    scan rowstart it (text ++ rest) = scan rowstart it rest := by
  induction text with
  | nil => rfl
  | cons b text ih =>
    have hb := htext b List.mem_cons_self
    simp only [isEnd, Bool.or_eq_false_iff, decide_eq_false_iff_not] at hb
    obtain ⟨⟨⟨hzero, hline⟩, htab⟩, hrow⟩ := hb
    have hderef : deref (b :: (text ++ rest)) = b := rfl
    rw [List.cons_append, scan, hderef, if_neg hline, if_neg htab, if_neg (by simp [hzero, hrow])]
    exact ih fun c hc => htext c (List.mem_cons_of_mem _ hc)

theorem scan_line :
    scan rowstart it (11 :: rest) = if it.line_in_block + 1 = it.target_line_in_block then
        (true, it.stopAt rest it.col it.target_line_in_block
          (max it.max_line_in_block (it.line_in_block + 1)) (it.line_in_block + 1))
      else scan rowstart { it with
        line_in_block := it.line_in_block + 1
        max_line_in_block := max it.max_line_in_block (it.line_in_block + 1) } rest := by
  have hderef : deref (11 :: rest) = 11 := rfl
  rw [scan, hderef, if_pos rfl]
  rfl

/-- A cell without the target line. -/
theorem scan_missing (h : it.hit_target_line = false) (hrest : CellEnd rest) :
    scan rowstart it rest = (true, it.stopAt rest it.col it.target_line_in_block
      it.max_line_in_block it.line_in_block) := by
  rw [scan]
  obtain hrest | hrest := hrest
  · rw [hrest, if_neg (by decide), if_pos rfl, if_pos h]
    rfl
  · have hor : deref rest = 0 ∨ deref rest = 10 := hrest
    rw [if_neg hrest.ne.1, if_neg hrest.ne.2, if_pos hor, if_pos h]
    rfl

theorem scan_tab (h : it.hit_target_line = true) :
    scan rowstart it (9 :: rest) = if 0 = it.target_line_in_block then
        (true, it.stopAt rest (it.col + 1) it.target_line_in_block it.max_line_in_block 0)
      else scan rowstart { it with
        hit_target_line := false, line_in_block := 0, col := it.col + 1 } rest := by
  have hderef : deref (9 :: rest) = 9 := rfl
  rw [scan, hderef, if_neg (by decide), if_pos rfl, if_neg (by simp [h])]
  rfl

theorem scan_end (h : it.hit_target_line = true) (hrest : RowEnd rest) :
    scan rowstart it rest = if it.target_line_in_block + 1 > it.max_line_in_block then
        (false, it.stopAt rest it.col (it.target_line_in_block + 1) it.max_line_in_block
          it.line_in_block)
      else scan rowstart { it with
        target_line_in_block := it.target_line_in_block + 1
        hit_target_line := false, line_in_block := 0, col := 0 } rowstart := by
  have hor : deref rest = 0 ∨ deref rest = 10 := hrest
  have hnot : ¬it.hit_target_line = false := by simp [h]
  have hmove : { it with target_line_in_block := it.target_line_in_block + 1 }.moveTo rest
      = it.stopAt rest it.col (it.target_line_in_block + 1) it.max_line_in_block
        it.line_in_block := by
    unfold moveTo stopAt
    rw [h]
  rw [scan, if_neg hrest.ne.1, if_neg hrest.ne.2, if_pos hor, if_neg hnot]
  dsimp only
  rw [hmove]

/-! ## Cells -/

variable {cell lines : List (List UInt8)} {cells : List (List (List UInt8))}

/-- A line after another. -/
def cellText (cell : List (List UInt8)) : List UInt8 := [11].intercalate cell

/-- What there is from a line on, and after the lines. -/
theorem cellText_drop (cell : List (List UInt8)) (l : Nat) :
    cellText (cell.drop l) = cell.getD l [] ++ (cell.drop (l + 1)).flatMap (11 :: ·) := by
  by_cases hl : l < cell.length
  · rw [List.drop_eq_getElem_cons hl, cellText, intercalate_cons, List.getD_eq_getElem _ _ hl]
  · have hle : cell.length ≤ l := Nat.le_of_not_lt hl
    rw [List.drop_of_length_le hle, List.drop_of_length_le (hle.trans (Nat.le_succ l)),
      List.getD_eq_default _ _ hle]
    rfl

/-- Behind the target line the loop goes to the end of the cell. -/
theorem scan_lines (hlines : ∀ line ∈ lines, Plain line)
    (htarget : lines = [] ∨ it.target_line_in_block ≤ it.line_in_block)
    (hmax : it.line_in_block ≤ it.max_line_in_block) :
    scan rowstart it (lines.flatMap (11 :: ·) ++ rest) = scan rowstart { it with
      line_in_block := it.line_in_block + lines.length
      max_line_in_block := max it.max_line_in_block (it.line_in_block + lines.length) } rest := by
  induction lines generalizing it with
  | nil =>
    rw [List.flatMap_nil, List.nil_append, List.length_nil, Nat.add_zero, Nat.max_eq_left hmax]
  | cons line lines ih =>
    have hle : it.target_line_in_block ≤ it.line_in_block := htarget.resolve_left nofun
    rw [List.flatMap_cons, List.append_assoc, List.cons_append, scan_line, if_neg (by omega),
      scan_plain (hlines line List.mem_cons_self),
      ih (fun line hline => hlines line (List.mem_cons_of_mem _ hline)) (.inr (by
        dsimp only
        omega)) (Nat.le_max_right ..)]
    have hline : it.line_in_block + 1 + lines.length
        = it.line_in_block + (line :: lines).length := by
      rw [List.length_cons]
      omega
    have hmax : max (max it.max_line_in_block (it.line_in_block + 1))
        (it.line_in_block + 1 + lines.length)
          = max it.max_line_in_block (it.line_in_block + (line :: lines).length) := by
      rw [List.length_cons]
      omega
    dsimp only
    rw [hmax, hline]

/-- **The loop stops at the target line, or at the end of a cell without it.** -/
theorem scan_seek (hlines : ∀ line ∈ lines, Plain line) (hhit : it.hit_target_line = false)
    (htarget : it.line_in_block < it.target_line_in_block)
    (hmax : it.line_in_block ≤ it.max_line_in_block) (hrest : CellEnd rest) :
    scan rowstart it (lines.flatMap (11 :: ·) ++ rest) = (true, it.stopAt
      (cellText (lines.drop (it.target_line_in_block - (it.line_in_block + 1))) ++ rest) it.col
      it.target_line_in_block
      (max it.max_line_in_block
        (min it.target_line_in_block (it.line_in_block + lines.length)))
      (min it.target_line_in_block (it.line_in_block + lines.length))) := by
  induction lines generalizing it with
  | nil =>
    rw [List.flatMap_nil, List.nil_append, scan_missing hhit hrest, List.drop_nil, List.length_nil,
      Nat.add_zero, Nat.min_eq_right (Nat.le_of_lt htarget), Nat.max_eq_left hmax]
    rfl
  | cons line lines ih =>
    rw [List.flatMap_cons, List.append_assoc, List.cons_append, scan_line]
    split
    · next hfound =>
      have hmin : min it.target_line_in_block (it.line_in_block + (line :: lines).length)
          = it.line_in_block + 1 := by
        rw [List.length_cons]
        omega
      rw [hmin, ← hfound, Nat.sub_self, List.drop_zero, cellText, intercalate_cons,
        List.append_assoc]
    · next hnot =>
      have hdrop : (line :: lines).drop (it.target_line_in_block - (it.line_in_block + 1))
          = lines.drop (it.target_line_in_block - (it.line_in_block + 1 + 1)) := by
        have hsucc : it.target_line_in_block - (it.line_in_block + 1)
            = it.target_line_in_block - (it.line_in_block + 1 + 1) + 1 := by omega
        rw [hsucc, List.drop_succ_cons]
      have hline : it.line_in_block + 1 + lines.length
          = it.line_in_block + (line :: lines).length := by
        rw [List.length_cons]
        omega
      have hnext := @ih { it with
          line_in_block := it.line_in_block + 1
          max_line_in_block := max it.max_line_in_block (it.line_in_block + 1) }
        (fun line hline => hlines line (List.mem_cons_of_mem _ hline)) hhit
        (by dsimp only; omega) (Nat.le_max_right ..)
      dsimp only at hnext
      rw [scan_plain (hlines line List.mem_cons_self), hnext, hdrop, hline]
      have hmax : max (max it.max_line_in_block (it.line_in_block + 1))
          (min it.target_line_in_block (it.line_in_block + (line :: lines).length))
            = max it.max_line_in_block
              (min it.target_line_in_block (it.line_in_block + (line :: lines).length)) := by
        rw [List.length_cons]
        omega
      rw [hmax]
      rfl

/-- The iterator at the line `l` of the cell `c`, if no cell before has a line behind `m`. -/
def atLine (it : LinePartIterator) (cell : List (List UInt8)) (rest : List UInt8) (c l m : Nat) :
    LinePartIterator :=
  it.stopAt (cellText (cell.drop l) ++ rest) c l (max m (min l (cell.length - 1)))
    (min l (cell.length - 1))

/-- The lines of a cell; there is one at least. -/
structure IsCell (cell : List (List UInt8)) : Prop where
  ne_nil : cell ≠ []
  plain : ∀ line ∈ cell, Plain line

theorem IsCell.plain_getD (hcell : IsCell cell) (l : Nat) : Plain (cell.getD l []) := by
  by_cases hl : l < cell.length
  · rw [List.getD_eq_getElem _ _ hl]
    exact hcell.plain _ (List.getElem_mem hl)
  · rw [List.getD_eq_default _ _ (Nat.le_of_not_lt hl)]
    exact nofun

theorem stops_lines (lines : List (List UInt8)) (hrest : CellEnd rest) :
    Stops (lines.flatMap (11 :: ·) ++ rest) := by
  cases lines with
  | nil => exact hrest.stops
  | cons line lines => exact stops_cons (by decide)

/-- What the iterator measures at a line. -/
theorem measure_line (hcell : IsCell cell) (hrest : CellEnd rest) (l : Nat) :
    measure (cellText (cell.drop l) ++ rest)
      = ((cell.getD l []).length, columns (cell.getD l [])) := by
  rw [cellText_drop, List.append_assoc]
  exact measure_append (hcell.plain_getD l) (stops_lines _ hrest)

theorem drop_line (cell : List (List UInt8)) (l : Nat) :
    (cellText (cell.drop l) ++ rest).drop (cell.getD l []).length
      = (cell.drop (l + 1)).flatMap (11 :: ·) ++ rest := by
  rw [cellText_drop, List.append_assoc, List.drop_left]

/-- **From a line on, the loop goes to the end of the cell.** -/
theorem next_atLine (hcell : IsCell cell) (hrest : CellEnd rest)
    (hstart : it.rowstart = some rowstart) (c l m : Nat) :
    next (it.atLine cell rest c l m) = scan rowstart { it.atLine cell rest c l m with
      line_in_block := cell.length - 1
      max_line_in_block := max m (cell.length - 1) } rest := by
  have hpos := List.length_pos_of_ne_nil hcell.ne_nil
  have hcol : ¬(it.atLine cell rest c l m).col = -1 := by
    unfold atLine stopAt
    dsimp only
    omega
  have hptr : (it.atLine cell rest c l m).ptr = some (cellText (cell.drop l) ++ rest) := rfl
  have hrow : (it.atLine cell rest c l m).rowstart = some rowstart := hstart
  have hdrop : (cellText (cell.drop l) ++ rest).drop (it.atLine cell rest c l m).len
      = (cell.drop (l + 1)).flatMap (11 :: ·) ++ rest := by
    have hlen : (it.atLine cell rest c l m).len = (cell.getD l []).length :=
      congrArg Prod.fst (measure_line hcell hrest l)
    rw [hlen, drop_line]
  have htarget : cell.drop (l + 1) = [] ∨ l ≤ min l (cell.length - 1) := by
    by_cases hl : l < cell.length
    · exact .inr (by omega)
    · exact .inl (List.drop_of_length_le (by omega))
  have hlines := @scan_lines (it.atLine cell rest c l m) rowstart rest (cell.drop (l + 1))
    (fun line hline => hcell.plain line (List.mem_of_mem_drop hline)) htarget (Nat.le_max_right ..)
  have hline : (it.atLine cell rest c l m).line_in_block + (cell.drop (l + 1)).length
      = cell.length - 1 := by
    unfold atLine stopAt
    rw [List.length_drop]
    dsimp only
    omega
  have hmax : max (it.atLine cell rest c l m).max_line_in_block (cell.length - 1)
      = max m (cell.length - 1) := by
    unfold atLine stopAt
    dsimp only
    omega
  rw [next, hptr, hrow]
  dsimp only
  rw [if_neg hcol, hdrop, hlines, hline, hmax]

/-- From the start of a cell on, the loop goes to its target line. -/
theorem scan_cell (hcell : IsCell cell) (hrest : CellEnd rest) (hhit : it.hit_target_line = false)
    (hline : it.line_in_block = 0) {c : Nat} (hcol : it.col = c)
    (htarget : 0 < it.target_line_in_block) : scan rowstart it (cellText cell ++ rest)
      = (true, it.atLine cell rest c it.target_line_in_block it.max_line_in_block) := by
  obtain ⟨line, lines, rfl⟩ := List.exists_cons_of_ne_nil hcell.ne_nil
  obtain ⟨l, hl⟩ := Nat.exists_eq_add_of_le' htarget
  have hseek := @scan_seek it rowstart rest lines
    (fun line hline => hcell.plain line (List.mem_cons_of_mem _ hline)) hhit
    (by rw [hline]; exact htarget) (by rw [hline]; exact Nat.zero_le _) hrest
  rw [cellText, intercalate_cons, List.append_assoc, scan_plain (hcell.plain line List.mem_cons_self),
    hseek, hline, hcol, hl, Nat.zero_add, Nat.add_sub_cancel, Nat.zero_add]
  rfl

/-- **To the next cell.** -/
theorem next_tab {cell' : List (List UInt8)} {rest' : List UInt8}
    (hcell : IsCell cell) (hcell' : IsCell cell') (hrest' : CellEnd rest')
    (hstart : it.rowstart = some rowstart) (c l m : Nat) :
    next (it.atLine cell (9 :: (cellText cell' ++ rest')) c l m)
      = (true, it.atLine cell' rest' (c + 1) l (max m (cell.length - 1))) := by
  rw [next_atLine hcell (.inl rfl) hstart, scan_tab rfl]
  split
  · next hl =>
    have hzero : l = 0 := hl.symm
    subst hzero
    simp only [atLine, stopAt, Nat.zero_min, Nat.max_zero, List.drop_zero]
    rfl
  · next hl =>
    exact scan_cell (c := c + 1) hcell' hrest' rfl rfl rfl
      (by exact Nat.pos_of_ne_zero (Ne.symm hl))

/-- **To the next line, or to the end of the row.** -/
theorem next_end {first : List (List UInt8)} {rest' : List UInt8}
    (hcell : IsCell cell) (hrest : RowEnd rest) (hfirst : IsCell first) (hrest' : CellEnd rest')
    (hstart : it.rowstart = some (cellText first ++ rest')) (c l m : Nat) :
    next (it.atLine cell rest c l m) = if l + 1 > max m (cell.length - 1) then
        (false, it.stopAt rest c (l + 1) (max m (cell.length - 1)) (cell.length - 1))
      else (true, it.atLine first rest' 0 (l + 1) (max m (cell.length - 1))) := by
  have htarget : (it.atLine cell rest c l m).target_line_in_block = l := rfl
  rw [next_atLine hcell (.inr hrest) hstart, scan_end rfl hrest]
  dsimp only
  rw [htarget]
  split
  · rfl
  · exact scan_cell (c := 0) hfirst hrest' rfl rfl rfl (by exact Nat.succ_pos l)

/-! ## Rows -/

/-- The cells of a row, and what is behind the row. -/
def rowRest (cells : List (List (List UInt8))) (tail : List UInt8) : List UInt8 :=
  cells.flatMap (fun cell => 9 :: cellText cell) ++ tail

theorem rowRest_cons (cell : List (List UInt8)) (cells : List (List (List UInt8)))
    (tail : List UInt8) :
    rowRest (cell :: cells) tail = 9 :: (cellText cell ++ rowRest cells tail) := by
  rw [rowRest, List.flatMap_cons, List.append_assoc, List.cons_append]
  rfl

theorem cellEnd_rowRest (cells : List (List (List UInt8))) {tail : List UInt8}
    (htail : RowEnd tail) : CellEnd (rowRest cells tail) := by
  cases cells with
  | nil => exact .inr htail
  | cons cell cells => exact .inl rfl

/-- The line `l` of the cell `c`, which is followed by other cells. -/
def linePart (l c : Nat) (cell : List (List UInt8)) (cells : List (List (List UInt8))) : Part :=
  { column := c, line := l, data := cell.getD l [], screenLength := columns (cell.getD l [])
    separated := l + 1 < cell.length || !cells.isEmpty }

/-- The lines `l` of the cells from `c` on. -/
def lineParts (l : Nat) : (c : Nat) → List (List (List UInt8)) → List Part
  | _, [] => []
  | c, cell :: cells => linePart l c cell cells :: lineParts l (c + 1) cells

/-- A part is in a table if there is a line or a cell after it. -/
theorem separated_line {tail : List UInt8} (htail : RowEnd tail) (l : Nat) :
    (deref ((cell.drop (l + 1)).flatMap (11 :: ·) ++ rowRest cells tail) = 9 ||
      deref ((cell.drop (l + 1)).flatMap (11 :: ·) ++ rowRest cells tail) = 11)
        = (decide (l + 1 < cell.length) || !cells.isEmpty) := by
  by_cases hl : l + 1 < cell.length
  · rw [List.drop_eq_getElem_cons hl, decide_eq_true hl]
    rfl
  · rw [List.drop_of_length_le (Nat.le_of_not_lt hl), decide_eq_false hl]
    cases cells with
    | nil =>
      have hnine := decide_eq_false htail.ne.2
      have heleven := decide_eq_false htail.ne.1
      exact congrArg₂ or hnine heleven
    | cons cell' cells => rfl

theorem part_atLine (it : LinePartIterator) (hcell : IsCell cell)
    (cells : List (List (List UInt8))) {tail : List UInt8} (htail : RowEnd tail) (c l m : Nat) :
    (it.atLine cell (rowRest cells tail) c l m).part :: lineParts l (c + 1) cells
      = lineParts l c (cell :: cells) := by
  have hrest : CellEnd (rowRest cells tail) := cellEnd_rowRest cells htail
  have hlen : (it.atLine cell (rowRest cells tail) c l m).len = (cell.getD l []).length :=
    congrArg Prod.fst (measure_line hcell hrest l)
  have hscreenlen : (it.atLine cell (rowRest cells tail) c l m).screenlen
      = columns (cell.getD l []) := congrArg Prod.snd (measure_line hcell hrest l)
  have hdata : (cellText (cell.drop l) ++ rowRest cells tail).take (cell.getD l []).length
      = cell.getD l [] := by
    rw [cellText_drop, List.append_assoc, List.take_left]
  have hptr : (it.atLine cell (rowRest cells tail) c l m).ptr.getD []
      = cellText (cell.drop l) ++ rowRest cells tail := rfl
  rw [lineParts, linePart, part, hlen, hscreenlen, hptr, hdata, drop_line, separated_line htail]
  rfl

/-- The last line of a cell is not behind this one. -/
def maxLine : List (List (List UInt8)) → Nat
  | [] => 0
  | cell :: cells => max (cell.length - 1) (maxLine cells)

/-- The parts of a row: its lines one after the other, each with all cells. -/
def cellParts (cells : List (List (List UInt8))) : List Part :=
  (List.range' 0 (maxLine cells + 1)).flatMap fun l => lineParts l 0 cells

/-- From `s` on, these are the parts; then the iterator is at the end of the row. -/
def Gives (it s : LinePartIterator) (tail : List UInt8) (parts : List Part) : Prop :=
  ∃ states t, Iterates next s states t ∧ states.map part = parts ∧
    ∃ col target max line, t = it.stopAt tail col target max line

variable {first : List (List UInt8)} {others : List (List (List UInt8))} {tail : List UInt8}

/-- One line: the cells from `c` on, and what comes after the last one. -/
theorem gives_cells (htail : RowEnd tail) (hstart : it.rowstart = some rowstart) (l last : Nat)
    {later : List Part}
    (hlast : ∀ (cell : List (List UInt8)) (c m : Nat), IsCell cell →
      max m (cell.length - 1) = last → it.Gives (it.atLine cell tail c l m) tail later)
    (hcells : ∀ cell' ∈ cell :: cells, IsCell cell') {c m : Nat}
    (hm : max m (maxLine (cell :: cells)) = last) :
    ∃ parts, it.Gives (it.atLine cell (rowRest cells tail) c l m) tail parts ∧
      (it.atLine cell (rowRest cells tail) c l m).part :: parts
        = lineParts l c (cell :: cells) ++ later := by
  induction cells generalizing cell c m with
  | nil =>
    have hcell := hcells cell List.mem_cons_self
    have hpart := part_atLine it hcell [] htail c l m
    refine ⟨later, hlast cell c m hcell ?_, ?_⟩
    · simpa [maxLine] using hm
    · rw [← hpart]
      rfl
  | cons cell' cells ih =>
    have hcell := hcells cell List.mem_cons_self
    have hcell' := hcells cell' (List.mem_cons_of_mem _ List.mem_cons_self)
    have hpart := part_atLine it hcell (cell' :: cells) htail c l m
    obtain ⟨parts, ⟨states, t, hrun, hparts, hend⟩, heq⟩ :=
      ih (fun cell hcell => hcells cell (List.mem_cons_of_mem _ hcell)) (c := c + 1)
        (m := max m (cell.length - 1)) (by
          rw [← hm]
          simp only [maxLine]
          omega)
    have hnext := next_tab hcell hcell' (cellEnd_rowRest cells htail) hstart c l m
    rw [← rowRest_cons] at hnext
    refine ⟨_ :: parts, ⟨_ :: states, t, .step hnext hrun, congrArg _ hparts, hend⟩, ?_⟩
    rw [heq, ← List.cons_append, hpart]

/-- **All lines of a row.** -/
theorem gives_atLine (htail : RowEnd tail) (hcells : ∀ cell ∈ first :: others, IsCell cell)
    (hstart : it.rowstart = some (cellText first ++ rowRest others tail)) {k l m : Nat}
    (hk : maxLine (first :: others) = l + k) (hm : m ≤ l + k) :
    ∃ parts, it.Gives (it.atLine first (rowRest others tail) 0 l m) tail parts ∧
      (it.atLine first (rowRest others tail) 0 l m).part :: parts
        = (List.range' l (k + 1)).flatMap fun l => lineParts l 0 (first :: others) := by
  have hfirst := hcells first List.mem_cons_self
  induction k generalizing l m with
  | zero =>
    rw [List.range'_succ, List.flatMap_cons]
    refine gives_cells htail hstart l l (fun cell c m hcell hlast => ?_) hcells (by omega)
    have hnext := next_end hcell htail hfirst (cellEnd_rowRest others htail) hstart c l m
    rw [if_pos (by omega)] at hnext
    exact ⟨[], _, .done hnext, rfl, _, _, _, _, rfl⟩
  | succ k ih =>
    rw [List.range'_succ, List.flatMap_cons]
    refine gives_cells htail hstart l (l + (k + 1)) (fun cell c m hcell hlast => ?_) hcells
      (by omega)
    have hnext := next_end hcell htail hfirst (cellEnd_rowRest others htail) hstart c l m
    rw [if_neg (by omega)] at hnext
    obtain ⟨parts, ⟨states, t, hrun, hparts, hend⟩, heq⟩ :=
      ih (l := l + 1) (m := max m (cell.length - 1)) (by omega) (by omega)
    refine ⟨_ :: states, t, .step hnext hrun, ?_, hend⟩
    rw [← heq, ← hparts]
    rfl

/-- `\t` is between two cells, and `\v` between two lines of a cell. -/
def rowCells (row : List UInt8) : List (List (List UInt8)) :=
  (row.splitOn 9).map fun cell => cell.splitOn 11

def rowParts (row : List UInt8) : List Part := cellParts (rowCells row)

/-- No byte of it ends a row. -/
def IsRow (row : List UInt8) : Prop := ∀ b ∈ row, b ≠ 0 ∧ b ≠ 10

theorem IsRow.isCell {row : List UInt8} (hrow : IsRow row) :
    ∀ cell ∈ rowCells row, IsCell cell := by
  intro cell hcell
  obtain ⟨text, htext, rfl⟩ := List.mem_map.mp hcell
  refine ⟨List.splitOn_ne_nil 11 text, fun line hline b hb => ?_⟩
  have hmem := mem_of_mem_splitOn hline hb
  obtain ⟨hzero, hten⟩ := hrow b (mem_of_mem_splitOn htext hmem)
  have hnine : b ≠ 9 := fun h => not_mem_of_mem_splitOn htext (h ▸ hmem)
  have heleven : b ≠ 11 := fun h => not_mem_of_mem_splitOn hline (h ▸ hb)
  simp [isEnd, hzero, hten, hnine, heleven]

theorem append_eq_rowRest (row tail : List UInt8) :
    ∃ first others, rowCells row = first :: others ∧
      row ++ tail = cellText first ++ rowRest others tail := by
  obtain ⟨text, texts, hsplit⟩ := List.exists_cons_of_ne_nil (List.splitOn_ne_nil 9 row)
  have hjoin : [9].intercalate (row.splitOn 9) = row := List.intercalate_splitOn 9
  have hcell : ∀ text : List UInt8, cellText (text.splitOn 11) = text := fun text =>
    List.intercalate_splitOn 11
  refine ⟨text.splitOn 11, texts.map fun cell => cell.splitOn 11, ?_, ?_⟩
  · rw [rowCells, hsplit, List.map_cons]
  · rw [rowRest, List.flatMap_map]
    simp only [hcell]
    rw [← List.append_assoc, ← intercalate_cons, ← hsplit, hjoin]

/-- **The parts of a row come line by line.** -/
theorem gives_row {row : List UInt8} (hrow : IsRow row) (htail : RowEnd tail)
    (hstart : it.rowstart = some (row ++ tail)) : it.Gives it.restartRow tail (rowParts row) := by
  obtain ⟨first, others, hcells, htext⟩ := append_eq_rowRest row tail
  have hcell := hrow.isCell
  rw [hcells] at hcell
  rw [htext] at hstart
  obtain ⟨parts, ⟨states, t, hrun, hparts, hend⟩, heq⟩ :=
    gives_atLine htail hcell hstart (l := 0) (m := 0) (Nat.zero_add _).symm (Nat.zero_le _)
  have hnext : next it.restartRow
      = (true, it.atLine first (rowRest others tail) 0 0 0) := by
    have hptr : it.restartRow.ptr = some (cellText first ++ rowRest others tail) := hstart
    have hrow : it.restartRow.rowstart = some (cellText first ++ rowRest others tail) := hstart
    unfold next
    split
    · next ptr rowstart hptr' hrow' =>
      cases hptr.symm.trans hptr'
      simp only [atLine, Nat.zero_min, Nat.max_zero, List.drop_zero]
      rfl
    · next hnone => exact absurd hrow (hnone _ _ hptr)
  refine ⟨_ :: states, t, .step hnext hrun, ?_, hend⟩
  rw [List.map_cons, hparts, heq, rowParts, cellParts, hcells]

/-! ## Rows of a table -/

/-- Rows end at `\n` and at the end of their text; a table ends before a null pointer. -/
def tableRows : HelpTexts → List (List UInt8)
  | some text :: usage => text.val.splitOn 10 ++ tableRows usage
  | _ => []

/-- The rows behind one that is followed by `tail`. -/
def rowsBehind (tail : List UInt8) (more : HelpTexts) : List (List UInt8) :=
  match tail with
  | [] => tableRows more
  | _ :: text => text.splitOn 10 ++ tableRows more

/-- What follows a row: nothing, or `\n` and further rows. -/
def RowTail (tail : List UInt8) : Prop := tail = [] ∨ ∃ text, tail = 10 :: text ∧ 0 ∉ text

theorem RowTail.rowEnd (h : RowTail tail) : RowEnd tail := by
  obtain rfl | ⟨text, rfl, -⟩ := h
  · exact .inl rfl
  · exact .inr rfl

/-- The first row of a text. -/
theorem exists_row {text : List UInt8} (htext : 0 ∉ text) (more : HelpTexts) :
    ∃ row tail, text = row ++ tail ∧ IsRow row ∧ RowTail tail ∧
      text.splitOn 10 ++ tableRows more = row :: rowsBehind tail more := by
  have hzero : ∀ b ∈ text, b ≠ 0 := fun b hb h => htext (h ▸ hb)
  obtain ⟨hten, hsplit⟩ | ⟨row, rest, hten, rfl, hsplit⟩ := splitOn_cases 10 text
  · refine ⟨text, [], (List.append_nil text).symm, fun b hb => ?_, .inl rfl, ?_⟩
    · exact ⟨hzero b hb, fun h => hten (h ▸ hb)⟩
    · rw [hsplit]
      rfl
  · refine ⟨row, 10 :: rest, rfl, fun b hb => ?_, .inr ⟨rest, rfl, fun h => ?_⟩, ?_⟩
    · exact ⟨hzero b (List.mem_append_left _ hb), fun h => hten (h ▸ hb)⟩
    · exact htext (List.mem_append_right _ (List.mem_cons_of_mem _ h))
    · rw [hsplit]
      rfl

/-- The iterator is in a row of a table, and these rows are behind it. -/
structure InRow (table : HelpTexts) (row tail : List UInt8) (rows : List (List UInt8))
    (u : LinePartIterator) : Prop where
  tablestart : u.tablestart = table
  rowdesc : ∃ desc more, u.rowdesc = some (desc :: more) ∧ rows = rowsBehind tail more
  rowstart : u.rowstart = some (row ++ tail)
  row : IsRow row
  tail : RowTail tail

/-- The iterator is between two rows, or before the first one. -/
def RowsLeft (table : HelpTexts) (rows : List (List UInt8)) (s : LinePartIterator) : Prop :=
  (∃ row tail rest, InRow table row tail rest s ∧ s.ptr = none ∧ rows = row :: rest) ∨
    ∃ row tail, InRow table row tail rows s ∧ s.ptr = some tail

variable {table more : HelpTexts} {row : List UInt8} {rows : List (List UInt8)}
  {s u : LinePartIterator}

/-- A row begins at `rowstart`. -/
theorem exists_inRow {text : List UInt8} {desc : Option HelpText} (htext : 0 ∉ text)
    (htable : u.tablestart = table) (hdesc : u.rowdesc = some (desc :: more))
    (hstart : u.rowstart = some text) :
    ∃ row tail rest, InRow table row tail rest u ∧
      text.splitOn 10 ++ tableRows more = row :: rest := by
  obtain ⟨row, tail, rfl, hrow, htail, hrows⟩ := exists_row htext more
  exact ⟨row, tail, _, ⟨htable, ⟨desc, more, hdesc, rfl⟩, hstart, hrow, htail⟩, hrows⟩

theorem exists_of_tableRows (h : tableRows more = row :: rows) :
    ∃ text more', more = some text :: more' := by
  match more, h with
  | some text :: more', _ => exact ⟨text, more', rfl⟩

theorem help_of_tableRows (h : tableRows more = []) : help more = none := by
  match more, h with
  | [], _ => rfl
  | none :: _, _ => rfl
  | some text :: more, h =>
    rw [tableRows, List.append_eq_nil_iff] at h
    exact absurd h.1 (List.splitOn_ne_nil 10 text.val)

/-- **The iterator goes to the next row**, and to its start. -/
theorem nextRow_cons (h : RowsLeft table (row :: rows) s) :
    ∃ u tail, nextRow s = (true, u.restartRow) ∧ InRow table row tail rows u := by
  obtain ⟨row', tail, rest, hin, hptr, hrows⟩ | ⟨row', tail, hin, hptr⟩ := h
  · cases hrows
    refine ⟨s, tail, ?_, hin⟩
    rw [nextRow, hptr]
    simp only [hin.rowstart, Option.isSome_some]
  · obtain ⟨desc, more, hdesc, hrows⟩ := hin.rowdesc
    obtain rfl | ⟨text, rfl, htext⟩ := hin.tail
    · obtain ⟨text, more, rfl⟩ := exists_of_tableRows hrows.symm
      let u : LinePartIterator :=
        { s with rowdesc := some (some text :: more), rowstart := some text.val }
      obtain ⟨row'', tail, rest, hin', hrows'⟩ :=
        exists_inRow (u := u) text.property.1 hin.tablestart rfl rfl
      cases hrows.trans hrows'
      refine ⟨u, tail, ?_, hin'⟩
      rw [nextRow, hptr]
      simp only [List.dropWhile_nil, hdesc, Option.getD_some, List.tail_cons]
      rfl
    · let u : LinePartIterator := { s with rowstart := some text }
      obtain ⟨row'', tail, rest, hin', hrows'⟩ :=
        exists_inRow (u := u) htext hin.tablestart hdesc rfl
      cases hrows.trans hrows'
      refine ⟨u, tail, ?_, hin'⟩
      rw [nextRow, hptr]
      rfl

/-- **The table ends behind its last row.** -/
theorem nextRow_nil (h : RowsLeft table [] s) :
    ∃ t, nextRow s = (false, t) ∧ t.tablestart = table ∧ t.rowdesc.isSome = true := by
  obtain ⟨row', tail, rest, hin, hptr, hrows⟩ | ⟨row', tail, hin, hptr⟩ := h
  · cases hrows
  · obtain ⟨desc, more, hdesc, hrows⟩ := hin.rowdesc
    obtain rfl | ⟨text, rfl, htext⟩ := hin.tail
    · have hhelp := help_of_tableRows hrows.symm
      refine ⟨{ s with ptr := some [] }, ?_, hin.tablestart, ?_⟩
      · rw [nextRow, hptr]
        simp only [List.dropWhile_nil, hdesc, Option.getD_some, List.tail_cons, hhelp]
      · simp only [hdesc, Option.isSome_some]
    · rw [rowsBehind, eq_comm, List.append_eq_nil_iff] at hrows
      exact absurd hrows.1 (List.splitOn_ne_nil 10 text)

/-- **All parts of a row**, and then the rows behind it are left. -/
theorem InRow.parts {tail : List UInt8} (h : InRow table row tail rows u) :
    ∃ states t, Iterates next u.restartRow states t ∧ states.map part = rowParts row ∧
      InRow table row tail rows t ∧ t.ptr = some tail := by
  obtain ⟨states, t, hrun, hparts, _, _, _, _, rfl⟩ := gives_row h.row h.tail.rowEnd h.rowstart
  exact ⟨states, _, hrun, hparts, ⟨h.tablestart, h.rowdesc, h.rowstart, h.row, h.tail⟩, rfl⟩

/-! ## Tables -/

/-- Null pointers are between two tables. -/
def tables (usage : HelpTexts) : List HelpTexts :=
  match h : usage.dropWhile Option.isNone with
  | [] => []
  | text :: more => (text :: more) :: tables (more.dropWhile Option.isSome)
termination_by usage.length
decreasing_by
  have hlength := (List.dropWhile_suffix Option.isNone (l := usage)).length_le
  have hmore := (List.dropWhile_suffix Option.isSome (l := more)).length_le
  rw [h, List.length_cons] at hlength
  omega

theorem dropWhile_of_tables_nil {usage : HelpTexts} (h : tables usage = []) :
    usage.dropWhile Option.isNone = [] := by
  rw [tables] at h
  split at h
  · next hnil => exact hnil
  · cases h

theorem dropWhile_of_tables_cons {usage : HelpTexts} {left : List HelpTexts}
    (h : tables usage = table :: left) :
    usage.dropWhile Option.isNone = table ∧ left = tables (table.dropWhile Option.isSome) ∧
      ∃ text more, table = some text :: more := by
  rw [tables] at h
  split at h
  · cases h
  · next desc more hdrop =>
    have hhead := List.head?_dropWhile_not Option.isNone usage
    cases h
    cases desc with
    | none => simp [hdrop] at hhead
    | some text => exact ⟨hdrop, rfl, text, more, rfl⟩

/-- These tables are behind the one that the iterator is in. -/
def TablesLeft (left : List HelpTexts) (s : LinePartIterator) : Prop :=
  left = tables (if s.rowdesc.isSome then s.tablestart.dropWhile Option.isSome else s.tablestart)

/-- In a table, at any of its rows. -/
structure InTable (table : HelpTexts) (left : List HelpTexts) (s : LinePartIterator) : Prop where
  tablestart : s.tablestart = table
  rowdesc : s.rowdesc.isSome = true
  nonempty : ∃ text more, table = some text :: more
  left : left = tables (table.dropWhile Option.isSome)

theorem InTable.tablesLeft {left : List HelpTexts} (h : InTable table left s) :
    TablesLeft left s := by
  rw [TablesLeft, if_pos h.rowdesc, h.tablestart]
  exact h.left

/-- **The first row of the table is the next one again.** -/
theorem InTable.restartTable {left : List HelpTexts} (h : InTable table left s) :
    RowsLeft table (tableRows table) s.restartTable := by
  obtain ⟨text, more, rfl⟩ := h.nonempty
  have hdesc : s.restartTable.rowdesc = some (some text :: more) := congrArg some h.tablestart
  have hstart : s.restartTable.rowstart = some text.val := congrArg help h.tablestart
  obtain ⟨row, tail, rest, hin, hrows⟩ :=
    exists_inRow text.property.1 (u := s.restartTable) h.tablestart hdesc hstart
  exact .inl ⟨row, tail, rest, hin, rfl, hrows⟩

theorem nextTable_cons {left : List HelpTexts} (h : TablesLeft (table :: left) s) :
    ∃ u : LinePartIterator, nextTable s = (true, u.restartTable) ∧ InTable table left u.restartTable := by
  obtain ⟨hdrop, hleft, text, more, rfl⟩ := dropWhile_of_tables_cons h.symm
  refine ⟨{ s with tablestart := some text :: more }, ?_, rfl, rfl, ⟨text, more, rfl⟩, hleft⟩
  rw [nextTable, hdrop]
  rfl

theorem nextTable_nil (h : TablesLeft [] s) : ∃ t, nextTable s = (false, t) := by
  have hdrop := dropWhile_of_tables_nil h.symm
  refine ⟨{ s with tablestart := [] }.restartTable, ?_⟩
  rw [nextTable, hdrop]
  rfl

theorem tablesLeft_init (usage : HelpTexts) : TablesLeft (tables usage) (init usage) := rfl

/-! ## Loops -/

variable {α : Type} {left : List HelpTexts}

/-- **A loop over the parts of a row is a fold.** -/
theorem parts_converge {tail : List UInt8} (h : InRow table row tail rows u) (f : α → Part → α)
    (a : α) :
    ∃ t, Converges (fun fuel => whileLoop (onFst next) (fun _ s => some (s.1, f s.2 s.1.part))
        fuel (u.restartRow, a)) (t, (rowParts row).foldl f a) ∧
      InRow table row tail rows t ∧ RowsLeft table rows t := by
  obtain ⟨states, t, hrun, hparts, hin, hptr⟩ := h.parts
  have hloop := hrun.converges (fun s a => f a s.part) a
  rw [← hparts, List.foldl_map]
  exact ⟨t, hloop, hin, .inr ⟨row, tail, hin, hptr⟩⟩

/-- **A loop over the rows of a table**, by an invariant of its body. -/
theorem rows_converge (body : Nat → LinePartIterator × α → Option (LinePartIterator × α))
    (Inv : List (List UInt8) → α → Prop)
    (hbody : ∀ row rest tail u a, InRow table row tail rest u → Inv (row :: rest) a →
      ∃ t b, Converges (fun fuel => body fuel (u.restartRow, a)) (t, b) ∧ RowsLeft table rest t ∧
        Inv rest b)
    (h : InTable table left s) {a : α} (ha : Inv (tableRows table) a) :
    ∃ t b, Converges (fun fuel => whileLoop (onFst nextRow) body fuel (s.restartTable, a)) (t, b) ∧
      InTable table left t ∧ Inv [] b := by
  let Left (rows : List (List UInt8)) (s : LinePartIterator × α) : Prop :=
    RowsLeft table rows s.1 ∧ Inv rows s.2
  let Done (t : LinePartIterator × α) : Prop := InTable table left t.1 ∧ Inv [] t.2
  have hstart : Left (tableRows table) (s.restartTable, a) := ⟨h.restartTable, ha⟩
  have hloop : ∃ t, Converges (fun fuel => whileLoop (onFst nextRow) body fuel
      (s.restartTable, a)) t ∧ Done t := by
    refine Converges.while_list Left Done ?_ ?_ hstart
    · rintro s ⟨hs, hinv⟩
      obtain ⟨t, hnext, htable, hdesc⟩ := nextRow_nil hs
      refine ⟨(t, s.2), ?_, ⟨htable, hdesc, h.nonempty, h.left⟩, hinv⟩
      rw [onFst, hnext]
    · rintro row rest s ⟨hs, hinv⟩
      obtain ⟨u, tail, hnext, hin⟩ := nextRow_cons hs
      obtain ⟨t, b, hrow, ht, hb⟩ := hbody row rest tail u s.2 hin hinv
      refine ⟨(u.restartRow, s.2), (t, b), ?_, hrow, ht, hb⟩
      rw [onFst, hnext]
  obtain ⟨⟨t, b⟩, hconv, ht, hb⟩ := hloop
  exact ⟨t, b, hconv, ht, hb⟩

/-- **A loop over the tables of a usage**, by an invariant of its body. -/
theorem tables_converge (body : Nat → LinePartIterator × α → Option (LinePartIterator × α))
    (Inv : List HelpTexts → α → Prop)
    (hbody : ∀ table left s a, InTable table left s → Inv (table :: left) a →
      ∃ t b, Converges (fun fuel => body fuel (s, a)) (t, b) ∧ InTable table left t ∧ Inv left b)
    {usage : HelpTexts} {a : α} (ha : Inv (tables usage) a) :
    ∃ t b, Converges (fun fuel => whileLoop (onFst nextTable) body fuel (init usage, a)) (t, b) ∧
      Inv [] b := by
  let Left (left : List HelpTexts) (s : LinePartIterator × α) : Prop :=
    TablesLeft left s.1 ∧ Inv left s.2
  let Done (t : LinePartIterator × α) : Prop := Inv [] t.2
  have hstart : Left (tables usage) (init usage, a) := ⟨tablesLeft_init usage, ha⟩
  have hloop : ∃ t, Converges (fun fuel => whileLoop (onFst nextTable) body fuel
      (init usage, a)) t ∧ Done t := by
    refine Converges.while_list Left Done ?_ ?_ hstart
    · rintro s ⟨hs, hinv⟩
      obtain ⟨t, hnext⟩ := nextTable_nil hs
      refine ⟨(t, s.2), ?_, hinv⟩
      rw [onFst, hnext]
    · rintro table left s ⟨hs, hinv⟩
      obtain ⟨u, hnext, hin⟩ := nextTable_cons hs
      obtain ⟨t, b, htable, ht, hb⟩ := hbody table left u.restartTable s.2 hin hinv
      refine ⟨(u.restartTable, s.2), (t, b), ?_, htable, ht.tablesLeft, hb⟩
      rw [onFst, hnext]
  obtain ⟨⟨t, b⟩, hconv, hb⟩ := hloop
  exact ⟨t, b, hconv, hb⟩

/-! ## Main result -/

def traverseRow (fuel : Nat) (s : LinePartIterator × List (List Part)) :
    Option (LinePartIterator × List (List Part)) :=
  (whileLoop (onFst next) (fun _ s => some (s.1, s.2 ++ [s.1.part])) fuel (s.1, [])).map fun r =>
    (r.1, s.2 ++ [r.2])

def traverseTable (fuel : Nat) (s : LinePartIterator × List (List (List Part))) :
    Option (LinePartIterator × List (List (List Part))) :=
  (whileLoop (onFst nextRow) traverseRow fuel (s.1.restartTable, [])).map fun r =>
    (r.1, s.2 ++ [r.2])

/-- All parts that the iterator gives, by table and row. -/
def traverse (usage : HelpTexts) (fuel : Nat) : Option (List (List (List Part))) :=
  (whileLoop (onFst nextTable) traverseTable fuel (init usage, [])).map Prod.snd

theorem foldl_part (parts parts' : List Part) :
    parts'.foldl (fun parts part => parts ++ [part]) parts = parts ++ parts' := by
  induction parts' generalizing parts with
  | nil => rw [List.foldl_nil, List.append_nil]
  | cons part parts' ih => rw [List.foldl_cons, ih, List.append_assoc, List.singleton_append]

theorem traverseTable_converges (h : InTable table left s) (done : List (List (List Part))) :
    ∃ t, Converges (fun fuel => traverseTable fuel (s, done))
      (t, done ++ [(tableRows table).map rowParts]) ∧ InTable table left t := by
  let Inv (rows : List (List UInt8)) (parts : List (List Part)) : Prop :=
    parts ++ rows.map rowParts = (tableRows table).map rowParts
  obtain ⟨t, parts, hconv, ht, hparts⟩ := rows_converge traverseRow Inv
    (fun row rest tail u parts hin hparts => by
      obtain ⟨t, hrow, -, ht⟩ := parts_converge hin (fun parts part => parts ++ [part]) []
      rw [foldl_part, List.nil_append] at hrow
      refine ⟨t, parts ++ [rowParts row], hrow.map fun r => (r.1, parts ++ [r.2]), ht, ?_⟩
      exact (List.append_assoc parts [rowParts row] _).trans hparts) h (a := []) rfl
  have hall : parts = (tableRows table).map rowParts := (List.append_nil parts).symm.trans hparts
  subst hall
  exact ⟨t, hconv.map _, ht⟩

/--
**The parts come by table, row and line.**

Tables are between null pointers, rows between `\n` and the ends of the texts, cells between `\t` and
lines between `\v`. Of each line of a row all cells come one after the other, and a part without
bytes for a cell that has ended before it. No part is left out, and none comes twice.
-/
theorem parts_in_order (usage : HelpTexts) :
    Converges (traverse usage) ((tables usage).map fun table => (tableRows table).map rowParts) := by
  let Inv (left : List HelpTexts) (done : List (List (List Part))) : Prop :=
    done ++ left.map (fun table => (tableRows table).map rowParts)
      = (tables usage).map fun table => (tableRows table).map rowParts
  obtain ⟨t, parts, hconv, hparts⟩ := tables_converge traverseTable Inv
    (fun table left s done hin hdone => by
      obtain ⟨t, htable, ht⟩ := traverseTable_converges hin done
      exact ⟨t, _, htable, ht, (List.append_assoc done [_] _).trans hdone⟩) (a := []) rfl
  rw [← hparts, List.map_nil, List.append_nil]
  exact hconv.map Prod.snd

/-- `1\v3\t2\v4` -/
example : (rowParts [49, 11, 51, 9, 50, 11, 52]).map Part.data = [[49], [50], [51], [52]] := by
  decide +kernel

end LinePartIterator

end DdsApps.Options.Usage
