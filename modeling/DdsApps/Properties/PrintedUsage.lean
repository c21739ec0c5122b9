import Mathlib.Algebra.Order.BigOperators.Group.List
import Mathlib.Algebra.BigOperators.Group.Multiset.Basic
import Mathlib.Tactic.Abel
import DdsApps.Options.PrintUsage
import DdsApps.Properties.PartOrder

/-!
# What is printed of a usage

Printing comes to an end for every width, since the threshold for parts that are too long decreases
from round to round. What it has printed then are the characters of the help texts, each as often as
it is there; only white space is added and left out, and the cells behind the eighth one of a row.

* `findWidths_converges` — the columns fit in the end
* `Queued` — what has been written, and what is still in the line wrappers
* `printUsage_visible` — nothing is lost
-/

namespace DdsApps.Options.Usage

open DdsApps.Infra LinePartIterator

variable {table : HelpTexts} {left : List HelpTexts} {s : LinePartIterator}

/-! ## Widths of the columns -/

def tableParts (table : HelpTexts) : List Part := (tableRows table).flatMap rowParts

/-- The widths after one round over the table. -/
def tableWidths (threshold : Nat) (table : HelpTexts) : Widths :=
  (tableParts table).foldl (Widths.widen threshold) .init

theorem measureTable_converges (h : InTable table left s) (threshold : Nat) :
    ∃ t, Converges (fun fuel => measureTable threshold fuel s) (t, tableWidths threshold table) ∧
      InTable table left t := by
  let Inv (rows : List (List UInt8)) (w : Widths) : Prop :=
    (rows.flatMap rowParts).foldl (Widths.widen threshold) w = tableWidths threshold table
  obtain ⟨t, w, hconv, ht, rfl⟩ := rows_converge
    (whileLoop (onFst LinePartIterator.next) fun _ s => some (s.1, s.2.widen threshold s.1.part)) Inv
    (fun row rest tail u w hin hw => by
      obtain ⟨t, hrow, -, ht⟩ := parts_converge hin (Widths.widen threshold) w
      refine ⟨t, _, hrow, ht, ?_⟩
      simpa only [Inv, List.flatMap_cons, List.foldl_append] using hw) h rfl
  exact ⟨t, hconv, ht⟩

namespace Widths

variable {w : Widths} {part : Part} {parts : List Part} {threshold : Nat}

/-- No column is narrower for a further part, and none is left out. -/
theorem le_widen (threshold : Nat) (w : Widths) (part : Part) :
    w.lastcolumn ≤ (w.widen threshold part).lastcolumn ∧
      ∀ i, w.col_width i ≤ (w.widen threshold part).col_width i := by
  unfold widen
  split
  · dsimp only
    split
    · refine ⟨le_max_left .., fun i => ?_⟩
      dsimp only
      by_cases hi : i = ⟨part.column, by assumption⟩
      · rw [hi, Function.update_self]
        exact Nat.le_max_left ..
      · rw [Function.update_of_ne hi]
    · exact ⟨le_max_left .., fun i => Nat.le_refl _⟩
  · exact ⟨le_refl _, fun i => Nat.le_refl _⟩

/-- The widths are wide enough for a part. -/
structure Covers (threshold : Nat) (w : Widths) (part : Part) : Prop where
  lastcolumn : part.column < 8 → part.column ≤ w.lastcolumn
  col_width : ∀ i : Fin 8, part.column = i → part.screenLength < threshold →
    part.inTable = true → part.screenLength ≤ w.col_width i

theorem covers_widen (threshold : Nat) (w : Widths) (part : Part) :
    Covers threshold (w.widen threshold part) part := by
  unfold widen
  split
  · next hcolumn =>
    dsimp only
    split
    · next hcond =>
      refine ⟨fun _ => ?_, fun i hi _ _ => ?_⟩
      · exact (le_max_right w.lastcolumn ⟨part.column, hcolumn⟩ : _)
      · have hplace : i = ⟨part.column, hcolumn⟩ := Fin.ext hi.symm
        dsimp only
        rw [hplace, Function.update_self]
        exact Nat.le_max_right ..
    · next hcond =>
      refine ⟨fun _ => ?_, fun i hi hlt hin => absurd ?_ hcond⟩
      · exact (le_max_right w.lastcolumn ⟨part.column, hcolumn⟩ : _)
      · rw [decide_eq_true hlt, hin, Bool.and_self]
  · next hcolumn =>
    exact ⟨fun h => absurd h hcolumn, fun i hi => absurd (hi ▸ i.isLt) hcolumn⟩

theorem Covers.widen (h : Covers threshold w part) (threshold' : Nat) (other : Part) :
    Covers threshold (w.widen threshold' other) part := by
  obtain ⟨hlast, hwidth⟩ := le_widen threshold' w other
  exact ⟨fun hcolumn => (h.lastcolumn hcolumn).trans hlast,
    fun i hi hlt hin => (h.col_width i hi hlt hin).trans (hwidth i)⟩

theorem Covers.foldl (h : Covers threshold w part) (threshold' : Nat) (others : List Part) :
    Covers threshold (others.foldl (Widths.widen threshold') w) part := by
  induction others generalizing w with
  | nil => exact h
  | cons other others ih => exact ih (h.widen threshold' other)

theorem covers_foldl (threshold : Nat) (w : Widths) :
    ∀ part ∈ parts, Covers threshold (parts.foldl (Widths.widen threshold) w) part := by
  induction parts generalizing w with
  | nil => exact nofun
  | cons part parts ih =>
    intro other hother
    cases hother with
    | head => exact (covers_widen threshold w part).foldl threshold parts
    | tail _ hother => exact ih _ other hother

/-- No column is as wide as a part that is too long. -/
def Below (threshold : Nat) (w : Widths) : Prop := ∀ i, w.col_width i = 0 ∨ w.col_width i < threshold

theorem Below.widen (h : Below threshold w) (part : Part) :
    Below threshold (w.widen threshold part) := by
  intro i
  unfold Widths.widen
  split
  · next hcolumn =>
    dsimp only
    split
    · next hcond =>
      have hlt : part.screenLength < threshold :=
        of_decide_eq_true (Bool.and_eq_true_iff.mp hcond).1
      dsimp only
      by_cases hi : i = ⟨part.column, hcolumn⟩
      · rw [hi, Function.update_self]
        have hbelow := h ⟨part.column, hcolumn⟩
        omega
      · rw [Function.update_of_ne hi]
        exact h i
    · exact h i
  · exact h i

theorem Below.foldl (h : Below threshold w) (parts : List Part) :
    Below threshold (parts.foldl (Widths.widen threshold) w) := by
  induction parts generalizing w with
  | nil => exact h
  | cons part parts ih => exact ih (h.widen part)

/-- The widths whose sum is `leftwidth`. -/
def leftwidths (w : Widths) : List Nat := ((List.finRange 8).take w.lastcolumn).map w.col_width

theorem foldl_max_lt {widths : List Nat} {m : Nat} (hm : m < threshold)
    (h : ∀ width ∈ widths, width < threshold) : widths.foldl max m < threshold := by
  induction widths generalizing m with
  | nil => exact hm
  | cons width widths ih =>
    exact ih (Nat.max_lt.mpr ⟨hm, h width List.mem_cons_self⟩)
      fun width hwidth => h width (List.mem_cons_of_mem _ hwidth)

theorem foldl_add_of_zero {widths : List Nat} (h : ∀ width ∈ widths, width = 0) :
    widths.foldl (· + ·) 0 = 0 := by
  induction widths with
  | nil => rfl
  | cons width widths ih =>
    rw [List.foldl_cons, h width List.mem_cons_self]
    exact ih fun width hwidth => h width (List.mem_cons_of_mem _ hwidth)

/-- **The threshold decreases**, if a column takes part at all. -/
theorem overlong_column_threshold_lt (h : Below threshold w) (hpos : 0 < w.leftwidth) :
    w.overlong_column_threshold < threshold := by
  have hbelow : ∀ width ∈ w.leftwidths, width = 0 ∨ width < threshold := by
    intro width hwidth
    obtain ⟨i, -, rfl⟩ := List.mem_map.mp hwidth
    exact h i
  have hthreshold : 0 < threshold := by
    by_contra hzero
    have hall : ∀ width ∈ w.leftwidths, width = 0 := fun width hwidth => by
      have hcases := hbelow width hwidth
      omega
    exact absurd (foldl_add_of_zero hall) (Nat.ne_of_gt hpos)
  exact foldl_max_lt hthreshold fun width hwidth => by
    have hcases := hbelow width hwidth
    omega

end Widths

/-- **The columns fit in the end.** -/
theorem findWidths_converges (width : Nat) (h : InTable table left s) (threshold : Nat) :
    ∃ t last, Converges (fun fuel => findWidths width fuel threshold s)
        (t, tableWidths last table) ∧ InTable table left t ∧
      (tableWidths last table).leftwidth ≤ width ∧
      ((tableWidths threshold table).leftwidth ≤ width → last = threshold) := by
  induction threshold using Nat.strong_induction_on generalizing s with
  | _ threshold ih =>
    obtain ⟨t, hround, ht⟩ := measureTable_converges h threshold
    by_cases hfits : (tableWidths threshold table).leftwidth ≤ width
    · refine ⟨t, threshold, .of_succ (fun fuel => rfl) (hround.bind ?_), ht, hfits, fun _ => rfl⟩
      simp only [gt_iff_lt, Nat.not_lt.mpr hfits, if_false]
      exact .some _
    · have hbelow : Widths.Below threshold (tableWidths threshold table) :=
        Widths.Below.foldl (fun _ => .inl rfl) _
      have hlt := Widths.overlong_column_threshold_lt hbelow (by omega)
      obtain ⟨t', last, hloop, ht', hlast, -⟩ := ih _ hlt ht
      refine ⟨t', last, .of_succ (fun fuel => rfl) (hround.bind ?_), ht', hlast, fun h => ?_⟩
      · simp only [gt_iff_lt, Nat.not_le.mp hfits, if_true]
        exact hloop
      · exact absurd h hfits

/-! ## Visible characters -/

/-- What may be added and left out. -/
def isBlank (b : UInt8) : Bool := b = 32 || b = 9 || b = 10 || b = 11

/-- The bytes of a text that are not blank, in any order. -/
def visible (text : List UInt8) : Multiset UInt8 := ↑(text.filter fun b => !isBlank b)

theorem visible_nil : visible [] = 0 := rfl

theorem visible_append (text text' : List UInt8) :
    visible (text ++ text') = visible text + visible text' := by
  rw [visible, List.filter_append, ← Multiset.coe_add]
  rfl

theorem visible_cons_blank {b : UInt8} (hb : isBlank b = true) (text : List UInt8) :
    visible (b :: text) = visible text := by
  rw [visible, List.filter_cons_of_neg (by simp [hb])]
  rfl

theorem visible_spaces (n : Nat) : visible (List.replicate n 32) = 0 := by
  induction n with
  | zero => rfl
  | succ n ih =>
    rw [List.replicate_succ, visible_cons_blank (by decide)]
    exact ih

theorem visible_flatten (texts : List (List UInt8)) :
    visible texts.flatten = (texts.map visible).sum := by
  induction texts with
  | nil => rfl
  | cons text texts ih => rw [List.flatten_cons, visible_append, ih, List.map_cons, List.sum_cons]

theorem visible_intercalate {sep : UInt8} (hsep : isBlank sep = true) (texts : List (List UInt8)) :
    visible ([sep].intercalate texts) = (texts.map visible).sum := by
  cases texts with
  | nil => rfl
  | cons text texts =>
    have hflat : visible (texts.flatMap (sep :: ·)) = (texts.map visible).sum := by
      induction texts with
      | nil => rfl
      | cons text texts ih =>
        rw [List.flatMap_cons, visible_append, visible_cons_blank hsep, ih, List.map_cons,
          List.sum_cons]
    rw [intercalate_cons, visible_append, hflat, List.map_cons, List.sum_cons]

theorem visible_splitOn {sep : UInt8} (hsep : isBlank sep = true) (text : List UInt8) :
    ((text.splitOn sep).map visible).sum = visible text := by
  have hjoin : [sep].intercalate (text.splitOn sep) = text := List.intercalate_splitOn sep
  rw [← visible_intercalate hsep, hjoin]

theorem visible_joined (x : Nat) (wrote_something : Bool) (lines : List (List UInt8)) :
    visible (joined x wrote_something lines) = visible lines.flatten := by
  induction lines generalizing wrote_something with
  | nil =>
    cases wrote_something with
    | false => rfl
    | true => rfl
  | cons line lines ih =>
    cases wrote_something with
    | false => rw [joined, visible_append, ih, List.flatten_cons, visible_append]
    | true =>
      rw [joined, visible_append, visible_append, ih, List.flatten_cons, visible_append,
        visible_cons_blank (by decide), visible_spaces, zero_add]

theorem Wrapped.visible {width : Nat} {text : List UInt8} {pieces : List (List UInt8)}
    (h : Wrapped width text pieces) : visible pieces.flatten = visible text := by
  induction h with
  | nil => rfl
  | last => rw [List.flatten_singleton]
  | space _ _ _ _ ih =>
    rw [List.flatten_cons, visible_append, visible_append, visible_cons_blank (by decide), ih]
  | cut _ _ _ _ _ _ ih => rw [List.flatten_cons, visible_append, visible_append, ih]

theorem visible_indent (x want_x : Int) : visible (indent x want_x).1 = 0 := by
  have hnewline : visible (if want_x - x < 0 then [10] else []) = 0 := by
    split
    · exact visible_cons_blank (by decide) []
    · rfl
  unfold indent
  dsimp only
  generalize (if want_x - x < 0 then [10] else [] : List UInt8) = newline at hnewline ⊢
  generalize (if want_x - x < 0 then want_x else want_x - x) = indent
  split
  · rw [visible_append, hnewline, visible_spaces, add_zero]
  · exact hnewline

/-! ## The cells that are shown -/

/-- The first eight cells of a row. -/
def shownRow (row : List UInt8) : List UInt8 := ((row.splitOn 9).take 8).flatten

/-- A part that is not in an excess column. -/
def shownPart (part : Part) : Multiset UInt8 := if part.column < 8 then visible part.data else 0

theorem sum_lineParts (l c : Nat) (cells : List (List (List UInt8))) :
    ((lineParts l c cells).map shownPart).sum
      = ((cells.take (8 - c)).map fun cell => visible (cell.getD l [])).sum := by
  induction cells generalizing c with
  | nil => rw [lineParts, List.take_nil, List.map_nil, List.map_nil]
  | cons cell cells ih =>
    rw [lineParts, List.map_cons, List.sum_cons, ih, shownPart, linePart]
    by_cases hc : c < 8
    · have hsucc : 8 - c = 8 - (c + 1) + 1 := by omega
      rw [if_pos hc, hsucc, List.take_succ_cons, List.map_cons, List.sum_cons]
    · have hzero : 8 - c = 0 := by omega
      have hzero' : 8 - (c + 1) = 0 := by omega
      rw [if_neg hc, hzero, hzero', List.take_zero, List.take_zero, zero_add]

theorem sum_getD {cell : List (List UInt8)} {n : Nat} (h : cell.length ≤ n) :
    ((List.range n).map fun l => visible (cell.getD l [])).sum = (cell.map visible).sum := by
  induction cell generalizing n with
  | nil =>
    refine List.sum_eq_zero fun text htext => ?_
    obtain ⟨l, -, rfl⟩ := List.mem_map.mp htext
    rfl
  | cons line cell ih =>
    obtain ⟨m, rfl⟩ : ∃ m, n = m + 1 := Nat.exists_eq_add_of_le' (Nat.le_of_add_left_le h)
    rw [List.range_succ_eq_map, List.map_cons, List.map_map, List.sum_cons, List.map_cons,
      List.sum_cons, ← ih (Nat.le_of_succ_le_succ h)]
    rfl

/-- By line or by cell, it is the same. -/
theorem sum_transpose {n : Nat} {cells : List (List (List UInt8))}
    (h : ∀ cell ∈ cells, cell.length ≤ n) :
    ((List.range n).map fun l => (cells.map fun cell => visible (cell.getD l [])).sum).sum
      = (cells.map fun cell => (cell.map visible).sum).sum := by
  induction cells with
  | nil =>
    refine List.sum_eq_zero fun text htext => ?_
    obtain ⟨l, -, rfl⟩ := List.mem_map.mp htext
    rfl
  | cons cell cells ih =>
    have hcell := sum_getD (h cell List.mem_cons_self)
    have hcells := ih fun cell hcell => h cell (List.mem_cons_of_mem _ hcell)
    simp only [List.map_cons, List.sum_cons, List.sum_map_add]
    rw [hcell, hcells]

theorem length_le_maxLine {cells : List (List (List UInt8))} :
    ∀ cell ∈ cells, cell.length ≤ maxLine cells + 1 := by
  induction cells with
  | nil => exact nofun
  | cons first cells ih =>
    intro cell hcell
    rw [maxLine]
    cases hcell with
    | head => omega
    | tail _ hcell =>
      have hle := ih cell hcell
      omega

/-- **The parts of a row are its first eight cells.** -/
theorem sum_rowParts (row : List UInt8) :
    ((rowParts row).map shownPart).sum = visible (shownRow row) := by
  have hlength : ∀ cell ∈ (rowCells row).take 8, cell.length ≤ maxLine (rowCells row) + 1 :=
    fun cell hcell => length_le_maxLine cell (List.mem_of_mem_take hcell)
  have hcells : ((rowCells row).take 8).map (fun cell => (cell.map visible).sum)
      = ((row.splitOn 9).take 8).map visible := by
    rw [rowCells, ← List.map_take, List.map_map]
    refine List.map_congr_left fun text _ => ?_
    exact visible_splitOn (by decide) text
  rw [rowParts, cellParts, List.map_flatMap, ← List.range_eq_range', shownRow, visible_flatten,
    ← hcells, ← sum_transpose hlength, List.flatMap_def, List.sum_flatten, List.map_map]
  refine congrArg List.sum (List.map_congr_left fun l _ => ?_)
  exact sum_lineParts l 0 (rowCells row)

/-- The rows of all texts. -/
def allRows (usage : HelpTexts) : List (List UInt8) :=
  usage.reduceOption.flatMap fun text => text.val.splitOn 10

theorem allRows_dropWhile_isNone (usage : HelpTexts) :
    allRows (usage.dropWhile Option.isNone) = allRows usage := by
  induction usage with
  | nil => rfl
  | cons text usage ih =>
    cases text with
    | none =>
      rw [List.dropWhile_cons_of_pos rfl, ih]
      rfl
    | some text => rw [List.dropWhile_cons_of_neg (by simp)]

theorem tableRows_append_allRows (table : HelpTexts) :
    tableRows table ++ allRows (table.dropWhile Option.isSome) = allRows table := by
  induction table with
  | nil => rfl
  | cons text table ih =>
    cases text with
    | none =>
      rw [List.dropWhile_cons_of_neg (by decide)]
      rfl
    | some text =>
      have hrows : allRows (some text :: table) = text.val.splitOn 10 ++ allRows table := rfl
      rw [List.dropWhile_cons_of_pos rfl, tableRows, List.append_assoc, ih, hrows]

/-- **No row is outside the tables.** -/
theorem tables_flatMap_tableRows (usage : HelpTexts) :
    (tables usage).flatMap tableRows = allRows usage := by
  rw [← allRows_dropWhile_isNone usage]
  cases htables : tables usage with
  | nil => rw [dropWhile_of_tables_nil htables]; rfl
  | cons table left =>
    obtain ⟨hdrop, rfl, text, more, rfl⟩ := dropWhile_of_tables_cons htables
    have hlength := (List.dropWhile_suffix Option.isNone (l := usage)).length_le
    have hmore := (List.dropWhile_suffix Option.isSome (l := more)).length_le
    have hlt : ((some text :: more).dropWhile Option.isSome).length < usage.length := by
      rw [hdrop, List.length_cons] at hlength
      rw [List.dropWhile_cons_of_pos rfl]
      omega
    rw [List.flatMap_cons, tables_flatMap_tableRows, hdrop, tableRows_append_allRows]
termination_by usage.length

/-! ## Rows -/

/-- So much has been written or is queued. -/
def Queued (v : Multiset UInt8) (o : Output) : Prop :=
  ∃ lastColumn interjection, o.lastColumnLineWrapper.buf.Holds lastColumn ∧
    o.interjectionLineWrapper.buf.Holds interjection ∧
    visible o.written + visible lastColumn.flatten + visible interjection.flatten = v

/-- So much has been written, and nothing is queued. -/
structure Settled (v : Multiset UInt8) (o : Output) : Prop where
  lastColumn : o.lastColumnLineWrapper.buf.Holds []
  interjection : o.interjectionLineWrapper.buf.Holds []
  written : visible o.written = v

theorem Settled.queued {v : Multiset UInt8} {o : Output} (h : Settled v o) : Queued v o :=
  ⟨[], [], h.lastColumn, h.interjection, by
    rw [List.flatten_nil, visible_nil, add_zero, add_zero, h.written]⟩

/-- What `process` writes and queues. -/
theorem process_visible {w : LineWrapper} {queue : List (List UInt8)} (h : w.buf.Holds queue)
    (data : List UInt8) :
    ∃ left, (w.process data).2.buf.Holds left ∧
      visible (w.process data).1 + visible left.flatten = visible queue.flatten + visible data := by
  obtain ⟨lines, left, hwritten, -, -, hholds, heq, -⟩ := LineWrapper.process_spec h data
  have hpieces := (wrapped_pieces w.width w.two_le_width data).visible
  have hflat := congrArg (fun lines => visible lines.flatten) heq
  simp only [List.flatten_append, visible_append] at hflat
  refine ⟨left, hholds, ?_⟩
  rw [hwritten, visible_joined, hflat, hpieces]

/-- `flush` writes what is queued. -/
theorem flush_visible {w : LineWrapper} {queue : List (List UInt8)} (h : w.buf.Holds queue) :
    w.flush.2.buf.Holds [] ∧ visible w.flush.1 = visible queue.flatten := by
  obtain ⟨hwritten, -, -, hholds⟩ := LineWrapper.flush_spec h
  refine ⟨hholds, ?_⟩
  rw [hwritten]
  split
  · next hqueue =>
    rw [hqueue]
    rfl
  · rw [visible_append, visible_append, visible_spaces, visible_joined, zero_add,
      visible_cons_blank (by decide), visible_nil, add_zero]

namespace Queued

variable {v : Multiset UInt8} {o : Output} {data : List UInt8}

theorem write (h : Queued v o) (data : List UInt8) : Queued (v + visible data) (o.write data) := by
  obtain ⟨lastColumn, interjection, hlast, hinterjection, rfl⟩ := h
  refine ⟨lastColumn, interjection, hlast, hinterjection, ?_⟩
  have hwritten : (o.write data).written = o.written ++ data := rfl
  rw [hwritten, visible_append]
  abel

theorem write_blank (h : Queued v o) (hdata : visible data = 0) : Queued v (o.write data) := by
  have hwrite := h.write data
  rwa [hdata, add_zero] at hwrite

theorem beginLine (h : Queued v o) : Queued v o.beginLine := by
  unfold Output.beginLine
  split
  · exact h.write_blank (visible_cons_blank (by decide) [])
  · exact h

theorem indentTo (h : Queued v o) (want_x : Int) : Queued v (o.indentTo want_x) :=
  h.write_blank (visible_indent o.x want_x)

theorem processLastColumn (h : Queued v o) (data : List UInt8) :
    Queued (v + visible data) (o.processLastColumn data) := by
  obtain ⟨lastColumn, interjection, hlast, hinterjection, rfl⟩ := h
  obtain ⟨left, hleft, hvisible⟩ := process_visible hlast data
  have hwritten : (o.processLastColumn data).written
      = o.written ++ (o.lastColumnLineWrapper.process data).1 := rfl
  refine ⟨left, interjection, hleft, hinterjection, ?_⟩
  rw [hwritten, visible_append, add_assoc (visible o.written), hvisible]
  abel

theorem processInterjection (h : Queued v o) (data : List UInt8) :
    Queued (v + visible data) (o.processInterjection data) := by
  obtain ⟨lastColumn, interjection, hlast, hinterjection, rfl⟩ := h
  obtain ⟨left, hleft, hvisible⟩ := process_visible hinterjection data
  have hwritten : (o.processInterjection data).written
      = o.written ++ (o.interjectionLineWrapper.process data).1 := rfl
  refine ⟨lastColumn, left, hlast, hleft, ?_⟩
  rw [hwritten, visible_append, add_right_comm, add_assoc (visible o.written), hvisible]
  abel

/-- **At the end of a row everything is written.** -/
theorem flush (h : Queued v o) : Settled v (o.write [10]).flushLastColumn.flushInterjection := by
  have hnewline : visible [10] = 0 := visible_cons_blank (by decide) []
  obtain ⟨lastColumn, interjection, hlast, hinterjection, hv⟩ := h.write_blank hnewline
  generalize o.write [10] = o at *
  obtain ⟨hlast', hwritten⟩ := flush_visible hlast
  have hfirst : o.flushLastColumn.written = o.written ++ o.lastColumnLineWrapper.flush.1 := rfl
  have hsame : o.flushLastColumn.interjectionLineWrapper = o.interjectionLineWrapper := rfl
  have hflushed : o.flushLastColumn.lastColumnLineWrapper.buf.Holds [] := hlast'
  rw [← hsame] at hinterjection
  generalize o.flushLastColumn = o' at *
  obtain ⟨hinterjection', hwritten'⟩ := flush_visible hinterjection
  have hsecond : o'.flushInterjection.written
      = o'.written ++ o'.interjectionLineWrapper.flush.1 := rfl
  refine ⟨hflushed, hinterjection', ?_⟩
  rw [hsecond, visible_append, hwritten', hfirst, visible_append, hwritten, hv]

theorem foldl {f : Output → Part → Output} {g : Part → Multiset UInt8}
    (hf : ∀ v o part, Queued v o → Queued (v + g part) (f o part)) (parts : List Part)
    (h : Queued v o) : Queued (v + (parts.map g).sum) (parts.foldl f o) := by
  induction parts generalizing v o with
  | nil => rwa [List.map_nil, List.sum_nil, add_zero]
  | cons part parts ih =>
    rw [List.map_cons, List.sum_cons, ← add_assoc]
    exact ih (hf v o part h)

variable {l : Layout}

/-- What a part adds in the first pass, and in the second one. -/
def firstPass (l : Layout) (part : Part) : Multiset UInt8 :=
  if part.column < l.lastcolumn.val ∨
      part.column = l.lastcolumn.val ∧ l.print_last_column_on_own_line = false then
    visible part.data
  else 0

def secondPass (l : Layout) (part : Part) : Multiset UInt8 :=
  if part.column = l.lastcolumn.val then visible part.data else 0

theorem printPart (v : Multiset UInt8) (o : Output) (part : Part) (h : Queued v o) :
    Queued (v + firstPass l part) (printPart l o part) := by
  unfold Usage.printPart
  split
  · next hcolumn =>
    have hbegin : Queued v (if part.column = 0 then o.beginLine else o) := by
      split
      · exact h.beginLine
      · exact h
    have hindent := hbegin.indentTo
      (l.tabstop ⟨part.column, Nat.lt_of_le_of_lt hcolumn l.lastcolumn.isLt⟩)
    dsimp only
    generalize Output.indentTo _ _ = o at hindent ⊢
    split
    · next hcond =>
      have hlt := of_decide_eq_true (Bool.and_eq_true_iff.mp hcond).1
      rw [firstPass, if_pos (.inl hlt)]
      exact hindent.write part.data
    · split
      · next hcond =>
        have hshown : firstPass l part = visible part.data := by
          simp only [Bool.or_eq_true, Bool.not_eq_true', decide_eq_true_eq] at hcond
          obtain hlt | heq := Nat.lt_or_eq_of_le hcolumn
          · exact if_pos (.inl hlt)
          · exact if_pos (.inr ⟨heq, hcond.resolve_right (not_not_intro heq)⟩)
        rw [hshown]
        split
        · exact hindent.processInterjection part.data
        · exact hindent.processLastColumn part.data
      · next hcond =>
        have hnone : firstPass l part = 0 := by
          simp only [Bool.or_eq_true, Bool.not_eq_true', decide_eq_true_eq, not_or, not_not,
            Bool.not_eq_false] at hcond
          obtain ⟨hown, heq⟩ := hcond
          refine if_neg ?_
          rintro (hlt | ⟨-, hown'⟩)
          · omega
          · rw [hown] at hown'
            cases hown'
        rwa [hnone, add_zero]
  · next hcolumn =>
    have hnone : firstPass l part = 0 := if_neg (by omega)
    rwa [hnone, add_zero]

theorem printLastColumn (v : Multiset UInt8) (o : Output) (part : Part) (h : Queued v o) :
    Queued (v + secondPass l part) (printLastColumn l o part) := by
  unfold Usage.printLastColumn secondPass
  split
  · have hindent : visible (10 :: (indent 0 (l.width - l.rightwidth : Nat)).1) = 0 := by
      rw [visible_cons_blank (by decide), visible_indent]
    exact (h.write_blank hindent).processLastColumn part.data
  · rwa [add_zero]

end Queued

/-- Both passes together, if no column before the excess ones is behind the last one. -/
theorem sum_passes (l : Layout) {parts : List Part}
    (hparts : ∀ part ∈ parts, part.column < 8 → part.column ≤ l.lastcolumn.val) :
    (parts.map (Queued.firstPass l)).sum
        + (if l.print_last_column_on_own_line then (parts.map (Queued.secondPass l)).sum else 0)
      = (parts.map shownPart).sum := by
  cases hown : l.print_last_column_on_own_line with
  | false =>
    rw [if_neg (by decide), add_zero]
    refine congrArg List.sum (List.map_congr_left fun part hpart => ?_)
    have hle := hparts part hpart
    have hlt := l.lastcolumn.isLt
    refine if_congr ?_ rfl rfl
    rw [hown]
    constructor
    · rintro (hbefore | ⟨heq, -⟩)
      · omega
      · omega
    · intro hcolumn
      obtain hbefore | heq := Nat.lt_or_eq_of_le (hle hcolumn)
      · exact .inl hbefore
      · exact .inr ⟨heq, rfl⟩
  | true =>
    rw [if_pos rfl, ← List.sum_map_add]
    refine congrArg List.sum (List.map_congr_left fun part hpart => ?_)
    have hle := hparts part hpart
    have hlt := l.lastcolumn.isLt
    have hfirst : Queued.firstPass l part
        = if part.column < l.lastcolumn.val then visible part.data else 0 := by
      refine if_congr ?_ rfl rfl
      simp [hown]
    rw [hfirst, Queued.secondPass, shownPart]
    obtain hbefore | heq | hafter := Nat.lt_trichotomy part.column l.lastcolumn.val
    · rw [if_pos hbefore, if_neg (by omega), if_pos (by omega), add_zero]
    · rw [if_neg (by omega), if_pos heq, if_pos (by omega), zero_add]
    · rw [if_neg (by omega), if_neg (by omega), if_neg (by omega), zero_add]

/-- **A row is printed.** -/
theorem printRow_converges {l : Layout} {row tail : List UInt8} {rest : List (List UInt8)}
    {u : LinePartIterator} {v : Multiset UInt8} {o : Output}
    (hin : LinePartIterator.InRow table row tail rest u)
    (hlast : ∀ part ∈ rowParts row, part.column < 8 → part.column ≤ l.lastcolumn.val)
    (h : Settled v o) :
    ∃ t b, Converges (fun fuel => printRow l fuel (u.restartRow, o)) (t, b) ∧
      RowsLeft table rest t ∧ Settled (v + visible (shownRow row)) b := by
  have hstart : Queued v { o with x := -1 } := h.queued
  obtain ⟨t, hfirst, hin', hleft⟩ := parts_converge hin (printPart l) { o with x := -1 }
  have hqueued := Queued.foldl (Queued.printPart (l := l)) (rowParts row) hstart
  have hsum := sum_passes l hlast
  rw [sum_rowParts] at hsum
  cases hown : l.print_last_column_on_own_line with
  | false =>
    rw [hown, if_neg (by decide), add_zero] at hsum
    rw [hsum] at hqueued
    refine ⟨t, _, hfirst.bind ?_, hleft, hqueued.flush⟩
    simp only [hown, Bool.false_eq_true, if_false]
    exact (Converges.some _).map _
  | true =>
    obtain ⟨t', hsecond, -, hleft'⟩ := parts_converge hin' (printLastColumn l)
      ((rowParts row).foldl (printPart l) { o with x := -1 })
    have hqueued' := Queued.foldl (Queued.printLastColumn (l := l)) (rowParts row) hqueued
    rw [hown, if_pos rfl] at hsum
    rw [add_assoc, hsum] at hqueued'
    refine ⟨t', _, hfirst.bind ?_, hleft', hqueued'.flush⟩
    simp only [hown, if_true]
    exact hsecond.map _

/-! ## Tables -/

/-- What is shown of some rows. -/
def shown (rows : List (List UInt8)) : List UInt8 := rows.flatMap shownRow

theorem visible_shown_cons (row : List UInt8) (rows : List (List UInt8)) :
    visible (shown (row :: rows)) = visible (shownRow row) + visible (shown rows) := by
  rw [shown, List.flatMap_cons, visible_append]
  rfl

theorem visible_shown_append (rows rows' : List (List UInt8)) :
    visible (shown (rows ++ rows')) = visible (shown rows) + visible (shown rows') := by
  rw [shown, List.flatMap_append, visible_append]
  rfl

/-- **A table is printed.** -/
theorem printTable_converges (h : InTable table left s)
    (width last_column_min_width last_column_own_line_max_width : Nat) (written : List UInt8) :
    ∃ t written', Converges (fun fuel => printTable width last_column_min_width
        last_column_own_line_max_width fuel (s, written)) (t, written') ∧
      InTable table left t ∧
      visible written' = visible written + visible (shown (tableRows table)) := by
  obtain ⟨t, last, hwidths, ht, -, -⟩ := findWidths_converges width h 10000
  let l := (tableWidths last table).layout width last_column_min_width
    last_column_own_line_max_width
  let o : Output :=
    { x := -1, written, lastColumnLineWrapper := .init (width - l.rightwidth) width
      interjectionLineWrapper := .init 0 width }
  let Inv (rows : List (List UInt8)) (o : Output) : Prop :=
    (∀ row ∈ rows, row ∈ tableRows table) ∧ ∃ v, Settled v o ∧
      v + visible (shown rows) = visible written + visible (shown (tableRows table))
  have hcovered : ∀ row ∈ tableRows table, ∀ part ∈ rowParts row,
      part.column < 8 → part.column ≤ l.lastcolumn.val := fun row hrow part hpart =>
    (Widths.covers_foldl last .init part (List.mem_flatMap.mpr ⟨row, hrow, hpart⟩)).lastcolumn
  have hstart : Inv (tableRows table) o :=
    ⟨fun row hrow => hrow, visible written,
      ⟨CircularBuffer.holds_init (by decide) [], CircularBuffer.holds_init (by decide) [], rfl⟩, rfl⟩
  obtain ⟨t', o', hrows, ht', -, v, hsettled, hv⟩ := rows_converge (printRow l) Inv
    (fun row rest tail u o hin ⟨hmem, v, hsettled, hv⟩ => by
      obtain ⟨t, b, hrow, hleft, hsettled'⟩ :=
        printRow_converges hin (hcovered row (hmem row List.mem_cons_self)) hsettled
      refine ⟨t, b, hrow, hleft, fun row hrow => hmem row (List.mem_cons_of_mem _ hrow), _,
        hsettled', ?_⟩
      rw [add_assoc, ← visible_shown_cons, hv]) ht hstart
  refine ⟨t', o'.written, hwidths.bind (hrows.map _), ht', ?_⟩
  rw [hsettled.written, ← hv]
  exact (add_zero v).symm

/-- **All tables are printed.** -/
theorem printTables_converge (usage : HelpTexts)
    (width last_column_min_width last_column_own_line_max_width : Nat) :
    ∃ t written, Converges (fun fuel => whileLoop (onFst LinePartIterator.nextTable)
        (printTable width last_column_min_width last_column_own_line_max_width) fuel
        (.init usage, [])) (t, written) ∧
      visible written = visible (shown (allRows usage)) := by
  let Inv (left : List HelpTexts) (written : List UInt8) : Prop :=
    visible written + visible (shown (left.flatMap tableRows)) = visible (shown (allRows usage))
  have hstart : Inv (tables usage) [] := by
    refine (zero_add _).trans ?_
    rw [tables_flatMap_tableRows]
  obtain ⟨t, written, hconv, hwritten⟩ := tables_converge
    (printTable width last_column_min_width last_column_own_line_max_width) Inv
    (fun table left s written hin hwritten => by
      obtain ⟨t, written', htable, ht, hvisible⟩ := printTable_converges hin width
        last_column_min_width last_column_own_line_max_width written
      refine ⟨t, written', htable, ht, Eq.trans ?_ hwritten⟩
      rw [hvisible, List.flatMap_cons, visible_shown_append, add_assoc]) hstart
  exact ⟨t, written, hconv, (add_zero _).symm.trans hwritten⟩

/-! ## Main result -/

/--
**Nothing of a usage is lost, and nothing is made up.**

Whatever the width and the percentages are, printing comes to an end, and then each visible character
of the first eight cells of each row has been printed as often as it is there, and no other one. That
holds for overlong cells, columns on their own line and lines that are queued in a full buffer too.
-/
theorem printUsage_visible (usage : HelpTexts) (width : Int)
    (last_column_min_percent last_column_own_line_max_percent : Fin 101) :
    ∃ written, Converges (printUsage usage width last_column_min_percent
        last_column_own_line_max_percent) written ∧
      visible written = visible (shown (allRows usage)) := by
  obtain ⟨t, written, hconv, hvisible⟩ := printTables_converge usage _ _ _
  exact ⟨written, hconv.map Prod.snd, hvisible⟩

end DdsApps.Options.Usage
