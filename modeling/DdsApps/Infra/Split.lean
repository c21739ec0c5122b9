import Mathlib.Tactic.TypeStar

/-!
# Lists split at a separator

* `intercalate_cons` — the first piece, and each of the others with a separator before it
* `not_mem_of_mem_splitOn`, `mem_of_mem_splitOn` — what the pieces have
* `splitOn_append` — more of the last piece

Nothing here is about a particular program.
-/

namespace DdsApps.Infra

variable {α : Type*}

theorem intercalate_cons (sep : α) (piece : List α) (pieces : List (List α)) :
    [sep].intercalate (piece :: pieces) = piece ++ pieces.flatMap (sep :: ·) := by
  induction pieces generalizing piece with
  | nil => rw [List.intercalate_singleton, List.flatMap_nil, List.append_nil]
  | cons piece' pieces ih =>
    rw [List.intercalate_cons_cons, ih, List.flatMap_cons, List.append_assoc]
    rfl

theorem mem_intercalate {sep a : α} {piece : List α} {pieces : List (List α)}
    (hpiece : piece ∈ pieces) (ha : a ∈ piece) : a ∈ [sep].intercalate pieces := by
  cases pieces with
  | nil => cases hpiece
  | cons first pieces =>
    rw [intercalate_cons, List.mem_append]
    cases hpiece with
    | head => exact .inl ha
    | tail _ hpiece => exact .inr (List.mem_flatMap.mpr ⟨piece, hpiece, List.mem_cons_of_mem _ ha⟩)

variable [BEq α] [LawfulBEq α]

/-- A text without the separator, or what is before its first one. -/
theorem splitOn_cases (sep : α) (text : List α) :
    sep ∉ text ∧ text.splitOn sep = [text] ∨
      ∃ piece rest, sep ∉ piece ∧ text = piece ++ sep :: rest ∧
        text.splitOn sep = piece :: rest.splitOn sep := by
  by_cases h : sep ∈ text
  · obtain ⟨piece, rest, rfl, hpiece⟩ := List.eq_append_cons_of_mem h
    exact .inr ⟨piece, rest, hpiece, rfl, List.splitOn_append_cons_self_of_not_mem hpiece rest⟩
  · exact .inl ⟨h, List.splitOn_eq_singleton h⟩

theorem not_mem_of_mem_splitOn {sep : α} {text piece : List α} (h : piece ∈ text.splitOn sep) :
    sep ∉ piece := by
  rcases splitOn_cases sep text with ⟨hnot, htext⟩ | ⟨first, rest, hnot, hsplit, htext⟩
  · rw [htext, List.mem_singleton] at h
    exact h ▸ hnot
  · have hlt : rest.length < text.length := by
      rw [hsplit, List.length_append, List.length_cons]
      omega
    rw [htext, List.mem_cons] at h
    cases h with
    | inl h => exact h ▸ hnot
    | inr h => exact not_mem_of_mem_splitOn h
termination_by text.length

theorem mem_of_mem_splitOn {sep a : α} {text piece : List α} (h : piece ∈ text.splitOn sep)
    (ha : a ∈ piece) : a ∈ text := by
  have hjoin : [sep].intercalate (text.splitOn sep) = text := List.intercalate_splitOn sep
  exact hjoin ▸ mem_intercalate h ha

/-- **What has no separator goes to the end of the last piece.** -/
theorem splitOn_append {sep : α} {text rest last : List α} {pieces : List (List α)}
    (hrest : sep ∉ rest) (h : text.splitOn sep = pieces ++ [last]) :
    (text ++ rest).splitOn sep = pieces ++ [last ++ rest] := by
  induction pieces generalizing text with
  | nil =>
    have htext : sep ∉ text ∧ text = last := by
      rcases splitOn_cases sep text with ⟨hnot, hsplit⟩ | ⟨first, tail, -, -, hsplit⟩
      · exact ⟨hnot, List.singleton_inj.mp (hsplit.symm.trans h)⟩
      · rw [hsplit, List.nil_append, List.cons.injEq] at h
        exact absurd h.2 (List.splitOn_ne_nil sep tail)
    obtain ⟨hnot, rfl⟩ := htext
    exact List.splitOn_eq_singleton fun hmem => (List.mem_append.mp hmem).elim hnot hrest
  | cons piece pieces ih =>
    rcases splitOn_cases sep text with ⟨-, hsplit⟩ | ⟨first, tail, hnot, rfl, hsplit⟩
    · rw [hsplit, List.cons_append, List.cons.injEq] at h
      exact absurd h.2.symm (List.append_ne_nil_of_right_ne_nil pieces (List.cons_ne_nil last []))
    · rw [hsplit, List.cons_append, List.cons.injEq] at h
      rw [List.append_assoc, List.cons_append, List.splitOn_append_cons_self_of_not_mem hnot,
        ih h.2, h.1, List.cons_append]

end DdsApps.Infra
