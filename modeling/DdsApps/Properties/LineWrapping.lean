import DdsApps.Options.LineWrapper

/-!
# Wrapped lines

A text that does not fit is broken at the last space up to which it fits, or where there is none
before the first character that does not fit; and the pieces come out in the order they went in,
one a line.

* `columns` — the width of a text on a screen
* `Boundary` — the places between two characters
* `Wrapped` — a text, and the pieces it is broken into
-/

namespace DdsApps.Options.Usage

open DdsApps.Infra

/-! ## Characters -/

def columns : List UInt8 → Nat
  | [] => 0
  | b :: rest => (readChar b rest).2 + columns (rest.drop ((readChar b rest).1 - 1))
termination_by data => data.length
decreasing_by
  simp only [List.length_drop, List.length_cons]
  omega

/-- So many bytes of a text are whole characters. -/
inductive Boundary : List UInt8 → Nat → Prop
  | zero (data : List UInt8) : Boundary data 0
  | char {b : UInt8} {rest : List UInt8} {n : Nat}
    (h : Boundary (rest.drop ((readChar b rest).1 - 1)) n) :
    Boundary (b :: rest) ((readChar b rest).1 + n)

/-- The bytes behind the first one of a character continue it. -/
theorem isContinuation_of_lt {b : UInt8} {rest : List UInt8} {i : Nat}
    (h : i + 1 < (readChar b rest).1) : ∃ c ∈ rest[i]?, isContinuation c = true := by
  unfold readChar at h
  split at h
  · have hi : i < (rest.takeWhile isContinuation).length := by
      dsimp only at h
      omega
    have hmem := List.getElem_mem hi
    obtain ⟨behind, hbehind⟩ := List.takeWhile_prefix isContinuation (l := rest)
    have hget : (rest.takeWhile isContinuation ++ behind)[i]? = _ := List.getElem?_append_left hi
    rw [hbehind, List.getElem?_eq_getElem hi] at hget
    exact ⟨_, hget, List.mem_takeWhile_imp hmem⟩
  · omega

/-- **Between two bytes there is one between two characters**, unless the second continues one. -/
theorem boundary_of_not_continuation {data : List UInt8} {i : Nat} (hi : i ≤ data.length)
    (h : ∀ c ∈ data[i]?, isContinuation c = false) : Boundary data i := by
  match data, i with
  | data, 0 => exact .zero data
  | b :: rest, i + 1 =>
    have hpos := (readChar_pos b rest).1
    have hle := readChar_le b rest
    by_cases hlt : i + 1 < (readChar b rest).1
    · obtain ⟨c, hc, hcontinues⟩ := isContinuation_of_lt hlt
      rw [List.getElem?_cons_succ] at h
      exact absurd (hcontinues.symm.trans (h c hc)) (by decide)
    · obtain ⟨n, hn⟩ := Nat.exists_eq_add_of_le (Nat.le_of_not_lt hlt)
      rw [hn]
      refine .char (boundary_of_not_continuation ?_ ?_)
      · rw [List.length_drop]
        simp only [List.length_cons] at hi
        omega
      · rw [List.getElem?_drop]
        have hplace : (readChar b rest).1 - 1 + n = i := by omega
        rw [hplace]
        exact h
termination_by data.length
decreasing_by
  simp only [List.length_drop, List.length_cons]
  omega

/-- A character is read without what follows it. -/
theorem readChar_take {b : UInt8} {rest : List UInt8} {m : Nat}
    (h : (readChar b rest).1 ≤ m + 1) : readChar b (rest.take m) = readChar b rest := by
  unfold readChar at h ⊢
  split
  · next hb =>
    rw [if_pos hb] at h
    have hsame : (rest.take m).takeWhile isContinuation = rest.takeWhile isContinuation := by
      rw [← List.take_takeWhile]
      refine List.take_of_length_le ?_
      dsimp only at h
      omega
    rw [hsame]
  · rfl

theorem columns_take_char {b : UInt8} {rest : List UInt8} (n : Nat) :
    columns ((b :: rest).take ((readChar b rest).1 + n))
      = (readChar b rest).2 + columns ((rest.drop ((readChar b rest).1 - 1)).take n) := by
  have hpos := (readChar_pos b rest).1
  obtain ⟨k, hk⟩ := Nat.exists_eq_add_of_le' hpos
  have htake : (b :: rest).take ((readChar b rest).1 + n) = b :: rest.take (k + n) := by
    rw [hk, Nat.add_right_comm, List.take_succ_cons]
  have hchar : readChar b (rest.take (k + n)) = readChar b rest := readChar_take (by omega)
  rw [htake, columns, hchar, hk, Nat.add_sub_cancel, List.drop_take, Nat.add_sub_cancel_left]

/-- **The widths of two texts add up**, if they are put together between two characters. -/
theorem Boundary.columns_add {data : List UInt8} {n : Nat} (h : Boundary data n) :
    columns (data.take n) + columns (data.drop n) = columns data := by
  induction h with
  | zero data => rw [List.take_zero, List.drop_zero, columns, Nat.zero_add]
  | @char b rest n h ih =>
    have hpos := (readChar_pos b rest).1
    obtain ⟨k, hk⟩ := Nat.exists_eq_add_of_le' hpos
    have hdrop : (b :: rest).drop ((readChar b rest).1 + n)
        = (rest.drop ((readChar b rest).1 - 1)).drop n := by
      rw [List.drop_drop, hk, Nat.add_right_comm, List.drop_succ_cons, Nat.add_sub_cancel]
    rw [columns_take_char, hdrop, Nat.add_assoc, ih, columns]

/-- A character has at least as many bytes as it takes columns. -/
theorem readChar_columns_le (b : UInt8) (rest : List UInt8) :
    (readChar b rest).2 ≤ (readChar b rest).1 := by
  unfold readChar
  split
  · cases hcontinuation : rest.takeWhile isContinuation with
    | nil =>
      -- a start byte alone is below the wide characters
      have hsmall : ¬0x1100 ≤ codePoint b [] := by
        have hle : (codePoint b []).toNat ≤ b.toNat := Nat.and_le_left
        have hlt := b.toNat_lt
        rw [UInt32.le_iff_toNat_le]
        have hwide : (0x1100 : UInt32).toNat = 0x1100 := rfl
        omega
      simp [hsmall]
    | cons c continuation =>
      simp only [List.length_cons]
      split <;> omega
  · exact Nat.le_refl _

theorem columns_le_length : ∀ data : List UInt8, columns data ≤ data.length
  | [] => by rw [columns]; exact Nat.zero_le _
  | b :: rest => by
    have hpos := (readChar_pos b rest).1
    have hcolumns := readChar_columns_le b rest
    have hle := readChar_le b rest
    have ih := columns_le_length (rest.drop ((readChar b rest).1 - 1))
    rw [List.length_drop] at ih
    rw [columns, List.length_cons]
    omega
termination_by data => data.length
decreasing_by
  simp only [List.length_drop, List.length_cons]
  omega

/-! ## Pieces -/

/-- **What is taken fits**, and ends between two characters. -/
theorem fits_spec {width used : Nat} (hused : used ≤ width) (data : List UInt8) :
    Boundary data (fits width used data) ∧ fits width used data ≤ data.length ∧
      used + columns (data.take (fits width used data)) ≤ width := by
  match data with
  | [] =>
    rw [fits, List.take_zero, columns]
    exact ⟨.zero [], Nat.le_refl _, hused⟩
  | b :: rest =>
    have hstop : Boundary (b :: rest) 0 ∧ 0 ≤ (b :: rest).length ∧
        used + columns ((b :: rest).take 0) ≤ width := by
      rw [List.take_zero, columns]
      exact ⟨.zero _, Nat.zero_le _, hused⟩
    have hpos := readChar_pos b rest
    have hle := readChar_le b rest
    rw [fits]
    split
    · next hlt =>
      dsimp only
      split
      · exact hstop
      · next hfits =>
        have hused' : used + (readChar b rest).2 ≤ width := by omega
        have ih := fits_spec hused' (rest.drop ((readChar b rest).1 - 1))
        rw [List.length_drop] at ih
        obtain ⟨hboundary, hlength, hcolumns⟩ := ih
        refine ⟨.char hboundary, ?_, ?_⟩
        · rw [List.length_cons]
          omega
        · rw [columns_take_char]
          omega
    · exact hstop
termination_by data.length
decreasing_by
  simp only [List.length_drop, List.length_cons]
  omega

/-- **No more is taken that fits.** -/
theorem fits_max {width used n : Nat} {data : List UInt8} (h : Boundary data n)
    (hlt : fits width used data < n) : width < used + columns (data.take n) := by
  induction h generalizing used with
  | zero => exact absurd hlt (Nat.not_lt_zero _)
  | @char b rest n h ih =>
    have hpos := readChar_pos b rest
    rw [columns_take_char]
    rw [fits] at hlt
    split at hlt
    · dsimp only at hlt
      split at hlt
      · omega
      · have hrest : fits width (used + (readChar b rest).2)
            (rest.drop ((readChar b rest).1 - 1)) < n := by omega
        have hwide := ih hrest
        omega
    · omega

/-- A text ends between two characters. -/
theorem boundary_length (data : List UInt8) : Boundary data data.length := by
  refine boundary_of_not_continuation (Nat.le_refl _) ?_
  rw [List.getElem?_eq_none (Nat.le_refl _)]
  exact nofun

/-- A space begins a character. -/
theorem boundary_of_space {data : List UInt8} {i : Nat} (h : data[i]? = some 32) :
    Boundary data i := by
  refine boundary_of_not_continuation (List.getElem?_eq_some_iff.mp h).1.le ?_
  rw [h]
  intro c hc
  cases hc
  decide

/-- A front part up to a space is no wider than one that goes further. -/
theorem columns_take_space {data : List UInt8} {i n : Nat} (hi : i ≤ n)
    (hspace : data[i]? = some 32) : columns (data.take i) ≤ columns (data.take n) := by
  obtain hlt | rfl := Nat.lt_or_eq_of_le hi
  · rw [← List.getElem?_take_of_lt hlt] at hspace
    have hadd := (boundary_of_space hspace).columns_add
    rw [List.take_take, Nat.min_eq_left hi] at hadd
    omega
  · exact Nat.le_refl _

/-- There is no space from `n` on up to which the text fits. -/
def NoBreak (width : Nat) (text : List UInt8) (n : Nat) : Prop :=
  ∀ i ≥ n, text[i]? = some 32 → width < columns (text.take i)

/--
A text, and the pieces it is broken into: a text that fits is not broken. Others are broken at the
last space up to which they fit, which is left out; where there is none, before the first character
that does not fit.
-/
inductive Wrapped (width : Nat) : List UInt8 → List (List UInt8) → Prop
  | nil : Wrapped width [] []
  | last {piece : List UInt8} (hne : piece ≠ []) (hfits : columns piece ≤ width) :
    Wrapped width piece [piece]
  | space {piece rest : List UInt8} {pieces : List (List UInt8)}
    (hlong : width < columns (piece ++ 32 :: rest)) (hfits : columns piece ≤ width)
    (hlast : NoBreak width (piece ++ 32 :: rest) (piece.length + 1))
    (h : Wrapped width rest pieces) : Wrapped width (piece ++ 32 :: rest) (piece :: pieces)
  | cut {piece rest : List UInt8} {pieces : List (List UInt8)}
    (hlong : width < columns (piece ++ rest)) (hfits : columns piece ≤ width)
    (hnone : NoBreak width (piece ++ rest) 0)
    (hboundary : Boundary (piece ++ rest) piece.length)
    (hmax : ∀ n > piece.length, Boundary (piece ++ rest) n →
      width < columns ((piece ++ rest).take n))
    (h : Wrapped width rest pieces) : Wrapped width (piece ++ rest) (piece :: pieces)

/-- The pieces that `process` puts out. -/
def pieces (width : Nat) (hwidth : 2 ≤ width) (data : List UInt8) : List (List UInt8) :=
  if h : data = [] then []
  else (nextPiece width data).1 :: pieces width hwidth (nextPiece width data).2
termination_by data.length
decreasing_by exact nextPiece_lt hwidth h

/-- What is behind the last space has none. -/
theorem not_mem_of_rfind_none {c : UInt8} {s : List UInt8} (h : rfind c s = none) : c ∉ s := by
  intro hmem
  obtain ⟨pre, rest, rfl, hrest⟩ := exists_last hmem
  rw [rfind_append_cons hrest] at h
  cases h

theorem getElem?_of_rfind {c : UInt8} {s : List UInt8} {i : Nat} (h : rfind c s = some i) :
    s[i]? = some c ∧ ∀ j > i, s[j]? ≠ some c := by
  have hmem : c ∈ s := by
    by_contra hnot
    rw [rfind_of_not_mem hnot] at h
    cases h
  obtain ⟨pre, rest, rfl, hrest⟩ := exists_last hmem
  rw [rfind_append_cons hrest] at h
  cases h
  constructor
  · rw [List.getElem?_append_right (Nat.le_refl _), Nat.sub_self, List.getElem?_cons_zero]
  · intro j hj hget
    obtain ⟨k, rfl⟩ := Nat.exists_eq_add_of_lt hj
    have hplace : pre.length + k + 1 - pre.length = k + 1 := by omega
    rw [List.getElem?_append_right (by omega), hplace, List.getElem?_cons_succ] at hget
    exact hrest (List.mem_of_getElem? hget)

/-- Behind what is taken no space is in time. -/
theorem noBreak_of_fits {width n : Nat} {data : List UInt8}
    (h : ∀ i ≥ n, (data.take (fits width 0 data + 1))[i]? ≠ some 32) : NoBreak width data n := by
  intro i hi hspace
  by_cases hlt : i < fits width 0 data + 1
  · have hnone := h i hi
    rw [List.getElem?_take_of_lt hlt] at hnone
    exact absurd hspace hnone
  · have hwide := fits_max (boundary_of_space hspace) (Nat.lt_of_succ_le (Nat.le_of_not_lt hlt))
    rwa [Nat.zero_add] at hwide

theorem wrapped_nextPiece {width : Nat} {data : List UInt8} {rest : List (List UInt8)}
    (hdata : data ≠ []) (h : Wrapped width (nextPiece width data).2 rest)
    (hrest : (nextPiece width data).2 = [] → rest = []) :
    Wrapped width data ((nextPiece width data).1 :: rest) := by
  obtain ⟨hboundary, hle, hcolumns⟩ := fits_spec (Nat.zero_le width) data
  have hmax : ∀ n > fits width 0 data, Boundary data n → width < columns (data.take n) := by
    intro n hn hboundary
    have hwide := fits_max hboundary hn
    rwa [Nat.zero_add] at hwide
  rw [Nat.zero_add] at hcolumns
  unfold nextPiece at h hrest ⊢
  split
  · next hshort =>
    rw [if_pos hshort] at hrest
    rw [hrest rfl]
    exact .last hdata ((columns_le_length data).trans hshort)
  · next hlong =>
    rw [if_neg hlong] at h hrest
    dsimp only at h hrest ⊢
    split
    · next hall =>
      rw [if_pos hall] at hrest
      rw [hall, List.take_length] at hcolumns
      rw [hrest rfl]
      exact .last hdata hcolumns
    · next hsome =>
      rw [if_neg hsome] at h
      have hwide := hmax _ (by omega) (boundary_length data)
      rw [List.take_length] at hwide
      split
      · next i hi =>
        rw [hi] at h
        obtain ⟨hget, hlast⟩ := getElem?_of_rfind hi
        have hlt : i < fits width 0 data + 1 := by
          have hlength := (List.getElem?_eq_some_iff.mp hget).1
          rw [List.length_take] at hlength
          omega
        rw [List.getElem?_take_of_lt hlt] at hget
        obtain ⟨hlength, hvalue⟩ := List.getElem?_eq_some_iff.mp hget
        have hsplit : data.take i ++ 32 :: data.drop (i + 1) = data := by
          rw [← hvalue, ← List.drop_eq_getElem_cons hlength, List.take_append_drop]
        have hwidth : columns (data.take i) ≤ width :=
          (columns_take_space (Nat.le_of_lt_succ hlt) hget).trans hcolumns
        have hspaced := @Wrapped.space width (data.take i) (data.drop (i + 1)) rest
        rw [hsplit, List.length_take_of_le hlength.le] at hspaced
        exact hspaced hwide hwidth (noBreak_of_fits fun j hj => hlast j hj) h
      · next hi =>
        rw [hi] at h
        have hnone : NoBreak width data 0 := noBreak_of_fits fun i _ hspace =>
          not_mem_of_rfind_none hi (List.mem_of_getElem? hspace)
        have hcut := @Wrapped.cut width (data.take (fits width 0 data))
          (data.drop (fits width 0 data)) rest
        rw [List.take_append_drop, List.length_take_of_le hle] at hcut
        exact hcut hwide hcolumns hnone hboundary hmax h

theorem wrapped_pieces (width : Nat) (hwidth : 2 ≤ width) (data : List UInt8) :
    Wrapped width data (pieces width hwidth data) := by
  rw [pieces]
  split
  · next hdata =>
    rw [hdata]
    exact .nil
  · next hdata =>
    have hlt := nextPiece_lt hwidth hdata
    refine wrapped_nextPiece hdata (wrapped_pieces width hwidth _) fun hnil => ?_
    rw [hnil, pieces]
    exact dif_pos rfl
termination_by data.length

/-! ## Lines -/

/-- Lines in a column that begins at `x`; the first one where the cursor is, if nothing has been
written yet. -/
def joined (x : Nat) : (wrote_something : Bool) → List (List UInt8) → List UInt8
  | _, [] => []
  | false, line :: lines => line ++ joined x true lines
  | true, line :: lines => 10 :: List.replicate x 32 ++ line ++ joined x true lines

theorem joined_append (x : Nat) (wrote_something : Bool) (lines lines' : List (List UInt8)) :
    joined x wrote_something (lines ++ lines')
      = joined x wrote_something lines ++ joined x (wrote_something || !lines.isEmpty) lines' := by
  induction lines generalizing wrote_something with
  | nil =>
    cases wrote_something with
    | false => rfl
    | true => rfl
  | cons line lines ih =>
    cases wrote_something with
    | false =>
      simp only [List.cons_append, joined, ih, List.isEmpty_cons, Bool.true_or, Bool.not_false,
        Bool.or_true, List.append_assoc]
    | true =>
      simp only [List.cons_append, joined, ih, List.isEmpty_cons, Bool.true_or, List.append_assoc]

theorem indent_zero (x : Nat) : (indent 0 x).1 = List.replicate x 32 := by
  cases x with
  | zero => rfl
  | succ x =>
    have hnot : ¬((x + 1 : Nat) : Int) < 0 := by omega
    have hpos : ((x + 1 : Nat) : Int) > 0 := by omega
    simp only [indent, Int.sub_zero, if_neg hnot, if_pos hpos, List.nil_append, Int.toNat_natCast]

namespace LineWrapper

variable {w t u : LineWrapper} {queue : List (List UInt8)}

/-- From `w` to `t` these lines have been written. -/
structure Writes (w : LineWrapper) (lines : List (List UInt8)) (r : List UInt8 × LineWrapper) :
    Prop where
  written : r.1 = joined w.x w.wrote_something lines
  x : r.2.x = w.x
  width : r.2.width = w.width
  wrote_something : r.2.wrote_something = (w.wrote_something || !lines.isEmpty)

theorem Writes.trans {lines lines' : List (List UInt8)} {r r' : List UInt8 × LineWrapper}
    (h : Writes w lines r) (h' : Writes r.2 lines' r') :
    Writes w (lines ++ lines') (r.1 ++ r'.1, r'.2) where
  written := by
    rw [joined_append, h.written, h'.written, h.x, h.wrote_something]
  x := h'.x.trans h.x
  width := h'.width.trans h.width
  wrote_something := by
    rw [h'.wrote_something, h.wrote_something]
    cases lines with
    | nil => simp
    | cons line lines => simp

theorem Writes.nil : Writes w [] ([], w) where
  written := by
    cases w.wrote_something with
    | false => rfl
    | true => rfl
  x := rfl
  width := rfl
  wrote_something := (Bool.or_false _).symm

theorem write_one_line_cons {line : List UInt8} (h : w.buf.Holds (line :: queue)) :
    Writes w [line] w.write_one_line ∧ w.write_one_line.2.buf.Holds queue := by
  have hempty : w.buf.empty = false :=
    Bool.eq_false_iff.mpr fun hempty => List.cons_ne_nil _ _ (h.empty_iff.mp hempty)
  obtain ⟨hnext, hcurrent⟩ := h.next
  have hline : w.write_one_line = (joined w.x w.wrote_something [line],
      { w with buf := w.buf.next, wrote_something := true }) := by
    rw [write_one_line, hempty, hcurrent, indent_zero]
    cases w.wrote_something with
    | false => simp [joined]
    | true => simp [joined]
  rw [hline]
  exact ⟨⟨rfl, rfl, rfl, (Bool.or_true _).symm⟩, hnext⟩

/-- **A piece is queued; the oldest one goes out if there is no room.** -/
theorem output_spec (h : w.buf.Holds queue) (data : List UInt8) :
    ∃ lines left, Writes w lines (w.output data) ∧ (w.output data).2.buf.Holds left ∧
      lines ++ left = queue ++ [data] := by
  unfold output
  cases hfull : w.buf.full with
  | false =>
    refine ⟨[], queue ++ [data], ?_, h.store hfull data, rfl⟩
    exact ⟨Writes.nil.written, rfl, rfl, (Bool.or_false _).symm⟩
  | true =>
    have hlength := h.full_iff.mp hfull
    obtain ⟨line, rest, rfl⟩ : ∃ line rest, queue = line :: rest :=
      List.exists_cons_of_length_pos (by omega)
    obtain ⟨hwrites, hholds⟩ := write_one_line_cons h
    have hroom : w.write_one_line.2.buf.full = false := by
      refine Bool.eq_false_iff.mpr fun hfull' => ?_
      have hlength' := hholds.full_iff.mp hfull'
      rw [List.length_cons] at hlength
      omega
    refine ⟨[line], rest ++ [data], ?_, hholds.store hroom data, rfl⟩
    exact ⟨hwrites.written, hwrites.x, hwrites.width, hwrites.wrote_something⟩

theorem pieces_congr {width width' : Nat} (h : width = width') (hwidth : 2 ≤ width)
    (data : List UInt8) : pieces width hwidth data = pieces width' (h ▸ hwidth) data := by
  subst h
  rfl

theorem outputAll_of_ne_nil (w : LineWrapper) {data : List UInt8} (hdata : data ≠ []) :
    w.outputAll data
      = ((w.output (nextPiece w.width data).1).1 ++
          ((w.output (nextPiece w.width data).1).2.outputAll (nextPiece w.width data).2).1,
        ((w.output (nextPiece w.width data).1).2.outputAll (nextPiece w.width data).2).2) := by
  rw [outputAll, dif_neg hdata]

theorem outputAll_spec {w : LineWrapper} {queue : List (List UInt8)} (h : w.buf.Holds queue)
    (data : List UInt8) :
    ∃ lines left, Writes w lines (w.outputAll data) ∧ (w.outputAll data).2.buf.Holds left ∧
      lines ++ left = queue ++ pieces w.width w.two_le_width data := by
  by_cases hdata : data = []
  · rw [outputAll, pieces, dif_pos hdata, dif_pos hdata]
    exact ⟨[], queue, .nil, h, (List.append_nil _).symm⟩
  · have hlt := nextPiece_lt w.two_le_width hdata
    obtain ⟨lines, left, hwrites, hholds, heq⟩ := output_spec h (nextPiece w.width data).1
    obtain ⟨lines', left', hwrites', hholds', heq'⟩ :=
      outputAll_spec hholds (nextPiece w.width data).2
    rw [pieces_congr hwrites.width] at heq'
    rw [outputAll_of_ne_nil w hdata, pieces, dif_neg hdata]
    refine ⟨lines ++ lines', left', hwrites.trans hwrites', hholds', ?_⟩
    rw [List.append_assoc, heq', ← List.append_assoc, heq, List.append_assoc,
      List.singleton_append]
termination_by data.length

/-- **`process` writes a line at least**, if it has one; the pieces go out in the order they come. -/
theorem process_spec (h : w.buf.Holds queue) (data : List UInt8) :
    ∃ lines left, (w.process data).1 = joined w.x false lines ∧
      (w.process data).2.x = w.x ∧ (w.process data).2.width = w.width ∧
      (w.process data).2.buf.Holds left ∧
      lines ++ left = queue ++ pieces w.width w.two_le_width data ∧ (lines = [] → left = []) := by
  let w' : LineWrapper := { w with wrote_something := false }
  have h' : w'.buf.Holds queue := h
  obtain ⟨lines, left, hwrites, hholds, heq⟩ := outputAll_spec h' data
  have hprocess : w.process data = if (w'.outputAll data).2.wrote_something then w'.outputAll data
      else ((w'.outputAll data).1 ++ (w'.outputAll data).2.write_one_line.1,
        (w'.outputAll data).2.write_one_line.2) := rfl
  rw [hprocess]
  split
  · next hwrote =>
    refine ⟨lines, left, hwrites.written, hwrites.x, hwrites.width, hholds, heq, ?_⟩
    rintro rfl
    rw [hwrites.wrote_something] at hwrote
    cases hwrote
  · next hwrote =>
    have hnone : lines = [] := by
      rw [hwrites.wrote_something] at hwrote
      simpa [w'] using hwrote
    subst hnone
    cases left with
    | nil =>
      have hempty := hholds.empty_iff.mpr rfl
      have hline : (w'.outputAll data).2.write_one_line
          = ([], { (w'.outputAll data).2 with wrote_something := true }) := by
        rw [write_one_line, if_pos hempty, if_neg hwrote]
      refine ⟨[], [], ?_, ?_, ?_, ?_, heq, fun _ => rfl⟩
      · rw [hline, hwrites.written]
        rfl
      · rw [hline]
        exact hwrites.x
      · rw [hline]
        exact hwrites.width
      · rw [hline]
        exact hholds
    | cons line left =>
      obtain ⟨hwrites', hholds'⟩ := write_one_line_cons hholds
      have hall := hwrites.trans hwrites'
      exact ⟨[line], left, hall.written, hall.x, hall.width, hholds', heq, nofun⟩

theorem flushAll_spec : ∀ (rounds : Nat) {w : LineWrapper} {queue : List (List UInt8)},
    w.buf.Holds queue → queue.length < rounds →
    Writes w queue (flushAll rounds w) ∧ (flushAll rounds w).2.buf.Holds []
  | 0, w, queue, _, hlength => absurd hlength (Nat.not_lt_zero _)
  | rounds + 1, w, [], h, _ => by
    rw [flushAll, if_pos (h.empty_iff.mpr rfl)]
    exact ⟨.nil, h⟩
  | rounds + 1, w, line :: queue, h, hlength => by
    have hempty : ¬w.buf.empty = true := fun hempty => List.cons_ne_nil _ _ (h.empty_iff.mp hempty)
    obtain ⟨hwrites, hholds⟩ := write_one_line_cons h
    obtain ⟨hwrites', hholds'⟩ := flushAll_spec rounds hholds (Nat.lt_of_succ_lt_succ hlength)
    rw [flushAll, if_neg hempty]
    exact ⟨hwrites.trans hwrites', hholds'⟩

/-- **`flush` writes what is left.** -/
theorem flush_spec (h : w.buf.Holds queue) :
    w.flush.1 = (if queue = [] then []
      else List.replicate w.x 32 ++ joined w.x false queue ++ [10]) ∧
    w.flush.2.x = w.x ∧ w.flush.2.width = w.width ∧ w.flush.2.buf.Holds [] := by
  unfold flush
  by_cases hqueue : queue = []
  · subst hqueue
    rw [if_pos (h.empty_iff.mpr rfl), if_pos rfl]
    exact ⟨rfl, rfl, rfl, h⟩
  · have hlength : queue.length < 16 := h.length_lt
    have hempty : ¬w.buf.empty = true := fun hempty => hqueue (h.empty_iff.mp hempty)
    have hholds : { w with wrote_something := false : LineWrapper }.buf.Holds queue := h
    obtain ⟨hwrites, hleft⟩ := flushAll_spec 16 hholds hlength
    rw [if_neg hempty, if_neg hqueue, indent_zero]
    refine ⟨?_, hwrites.x, hwrites.width, hleft⟩
    exact congrArg (List.replicate w.x 32 ++ · ++ [10]) hwrites.written

/-! ## Main result -/

/-- One call of `process` for each of the texts: what each of them writes. -/
def processAll (w : LineWrapper) : List (List UInt8) → List (List UInt8) × LineWrapper
  | [] => ([], w)
  | text :: texts =>
    ((w.process text).1 :: ((w.process text).2.processAll texts).1,
      ((w.process text).2.processAll texts).2)

theorem processAll_spec {w : LineWrapper} {queue : List (List UInt8)} (h : w.buf.Holds queue)
    (texts : List (List UInt8)) :
    ∃ (lines broken : List (List (List UInt8))) (left : List (List UInt8)),
      (w.processAll texts).1 = lines.map (joined w.x false) ∧
      (w.processAll texts).2.x = w.x ∧ (w.processAll texts).2.buf.Holds left ∧
      List.Forall₂ (Wrapped w.width) texts broken ∧
      lines.flatten ++ left = queue ++ broken.flatten := by
  induction texts generalizing w queue with
  | nil => exact ⟨[], [], queue, rfl, rfl, h, .nil, (List.append_nil _).symm⟩
  | cons text texts ih =>
    obtain ⟨line, left, hwritten, hx, hwidth, hholds, heq, -⟩ := process_spec h text
    obtain ⟨lines, broken, left', hwritten', hx', hholds', hbroken, heq'⟩ := ih hholds
    refine ⟨line :: lines, pieces w.width w.two_le_width text :: broken, left', ?_,
      hx'.trans hx, hholds', .cons (wrapped_pieces ..) (hwidth ▸ hbroken), ?_⟩
    · rw [processAll, hwritten, hwritten', hx, List.map_cons]
    · rw [List.flatten_cons, List.flatten_cons, List.append_assoc, heq', ← List.append_assoc, heq,
        List.append_assoc]

/--
**Texts come out in the pieces they are broken into, in their order and all of them**, a line for
each piece.

The lines that the calls write, and those of the flush, are the pieces of the texts one after the
other; however many of them are queued, none is lost in the buffer.
-/
theorem wrapped_lines (x1 x2 : Nat) (texts : List HelpText) :
    ∃ (lines broken : List (List (List UInt8))) (left : List (List UInt8)),
      ((init x1 x2).processAll (texts.map Subtype.val)).1 = lines.map (joined x1 false) ∧
      ((init x1 x2).processAll (texts.map Subtype.val)).2.flush.1 = (if left = [] then []
        else List.replicate x1 32 ++ joined x1 false left ++ [10]) ∧
      List.Forall₂ (fun text pieces => Wrapped (max (x2 - x1) 2) text.val pieces) texts broken ∧
      lines.flatten ++ left = broken.flatten := by
  have hinit : (init x1 x2).buf.Holds [] := CircularBuffer.holds_init (by decide) []
  obtain ⟨lines, broken, left, hwritten, hx, hholds, hbroken, heq⟩ :=
    processAll_spec hinit (texts.map Subtype.val)
  refine ⟨lines, broken, left, hwritten, ?_, List.forall₂_map_left_iff.mp hbroken, heq⟩
  rw [(flush_spec hholds).1, hx]
  rfl

/-- A word that does not fit any more goes to the next line, and the space before it is left out. -/
example : ((init 4 9).processAll [[97, 98, 32, 99, 100, 101, 102]]).1 = [[97, 98]] := by
  decide +kernel

end LineWrapper

end DdsApps.Options.Usage
