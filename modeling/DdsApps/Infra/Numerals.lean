import DdsApps.Infra.CLib
import Mathlib.Data.List.TakeWhile

/-!
# Decimal numerals

The texts `strtol` reads to their end, and what it makes of them.

* `Denotes` — the grammar: blanks, perhaps a sign, digits; with the exact integer denoted
* `strtol_of_denotes` — `strtol` reads a numeral to its end, and saturates
* `readToEnd_iff` — and no other text
* `atoi_of_digits` — what is left of a row of digits in an `int`

Nothing here is about a particular program.
-/

namespace DdsApps.Infra

/-! ## The grammar -/

/-- One digit or more, and nothing else. -/
structure Digits (ds : List Char) : Prop where
  ne_nil : ds ≠ []
  isDigit : ∀ d ∈ ds, d.isDigit = true

-- `List.all`, so that no instance that goes through all characters is found
instance (ds : List Char) : Decidable (Digits ds) :=
  decidable_of_iff (ds ≠ [] ∧ ds.all Char.isDigit = true)
    ⟨fun h => ⟨h.1, List.all_eq_true.mp h.2⟩, fun h => ⟨h.1, List.all_eq_true.mpr h.2⟩⟩

/-- The text is a numeral, and this is the integer it denotes. -/
inductive Denotes : List Char → Int → Prop
  | blank {c : Char} {s : List Char} {z : Int} (hc : isSpace c = true) (h : Denotes s z) :
    Denotes (c :: s) z
  | digits {ds : List Char} (h : Digits ds) : Denotes ds (decimalValue ds)
  | plus {ds : List Char} (h : Digits ds) : Denotes ('+' :: ds) (decimalValue ds)
  | minus {ds : List Char} (h : Digits ds) : Denotes ('-' :: ds) (-(decimalValue ds : Int))

/-! ## Where the parts of a numeral end -/

theorem isSpace_of_isDigit {c : Char} (h : c.isDigit = true) : isSpace c = false := by
  simp only [Char.isDigit, Bool.and_eq_true, decide_eq_true_eq, UInt32.le_iff_toNat_le] at h
  have hlo : 48 ≤ c.toNat := h.1
  have hne : c ≠ ' ' := by
    rintro rfl
    exact absurd hlo (by decide)
  have hgt : ¬c.toNat ≤ 0x0D := by omega
  simp only [isSpace, Bool.or_eq_false_iff, beq_eq_false_iff_ne, Bool.and_eq_false_iff,
    decide_eq_false_iff_not]
  exact ⟨hne, Or.inr hgt⟩

theorem readSign_of_isDigit {c : Char} (h : c.isDigit = true) (s : List Char) :
    readSign (c :: s) = (false, c :: s) := by
  unfold readSign
  split
  · next heq =>
    cases heq
    exact absurd h (by decide)
  · next heq =>
    cases heq
    exact absurd h (by decide)
  · rfl

theorem Digits.dropWhile_isSpace {ds : List Char} (h : Digits ds) : ds.dropWhile isSpace = ds := by
  cases ds with
  | nil => rfl
  | cons d rest =>
    have hd := isSpace_of_isDigit (h.isDigit d (List.mem_cons_self ..))
    rw [List.dropWhile_cons, hd, if_neg Bool.false_ne_true]

theorem Digits.readSign {ds : List Char} (h : Digits ds) : readSign ds = (false, ds) := by
  cases ds with
  | nil => rfl
  | cons d rest => exact readSign_of_isDigit (h.isDigit d (List.mem_cons_self ..)) rest

/-- The value of digits behind a sign. -/
def signed (negative : Bool) (ds : List Char) : Int :=
  if negative then -(decimalValue ds : Int) else decimalValue ds

/-- **A numeral is what `strtol` takes apart**: past the blanks and the sign there are digits. -/
theorem denotes_iff {s : List Char} {z : Int} :
    Denotes s z ↔ ∃ negative ds,
      readSign (s.dropWhile isSpace) = (negative, ds) ∧ Digits ds ∧ z = signed negative ds := by
  constructor
  · intro h
    induction h with
    | blank hc _ ih =>
      rw [List.dropWhile_cons, hc, if_pos rfl]
      exact ih
    | @digits ds h => exact ⟨false, ds, by rw [h.dropWhile_isSpace, h.readSign], h, rfl⟩
    | @plus ds h => exact ⟨false, ds, rfl, h, rfl⟩
    | @minus ds h => exact ⟨true, ds, rfl, h, rfl⟩
  · rintro ⟨negative, ds, hsign, hds, rfl⟩
    induction s with
    | nil =>
      cases hsign
      exact absurd rfl hds.ne_nil
    | cons c s ih =>
      by_cases hc : isSpace c = true
      · rw [List.dropWhile_cons, hc, if_pos rfl] at hsign
        exact .blank hc (ih hsign)
      · rw [List.dropWhile_cons, if_neg hc] at hsign
        unfold Infra.readSign at hsign
        split at hsign
        · next heq =>
          cases heq
          cases hsign
          exact .minus hds
        · next heq =>
          cases heq
          cases hsign
          exact .plus hds
        · cases hsign
          exact .digits hds

/-! ## `strtol` and `atoi` on numerals -/

theorem Digits.takeWhile {ds : List Char} (h : Digits ds) : ds.takeWhile Char.isDigit = ds :=
  List.takeWhile_eq_self_iff.mpr h.isDigit

theorem Digits.dropWhile {ds : List Char} (h : Digits ds) : ds.dropWhile Char.isDigit = [] :=
  List.dropWhile_eq_nil_iff.mpr h.isDigit

/-- **`strtol` reads a numeral to its end.** -/
theorem strtol_of_denotes {s : List Char} {z : Int} (h : Denotes s z) :
    strtol s = (clampLong z, []) := by
  obtain ⟨negative, ds, hsign, hds, rfl⟩ := denotes_iff.mp h
  have hne : ds.isEmpty = false := List.isEmpty_eq_false_iff.mpr hds.ne_nil
  simp only [strtol, hsign, hds.takeWhile, hds.dropWhile, hne, Bool.false_eq_true, if_false,
    signed]

/-- `endptr != s && *endptr == 0` -/
def ReadToEnd (s : List Char) : Prop := (strtol s).2 ≠ s ∧ (strtol s).2 = []

instance (s : List Char) : Decidable (ReadToEnd s) := inferInstanceAs (Decidable (_ ∧ _))

/-- **`strtol` reads the numerals to their end, and no other text.** -/
theorem readToEnd_iff {s : List Char} : ReadToEnd s ↔ ∃ z, Denotes s z := by
  constructor
  · rintro ⟨hmoved, hend⟩
    cases hsign : readSign (s.dropWhile isSpace) with
    | mk negative t =>
      simp only [strtol, hsign] at hmoved hend
      split at hmoved
      · exact absurd rfl hmoved
      · next hne =>
        rw [if_neg hne] at hend
        have hall : ∀ d ∈ t, d.isDigit = true := List.dropWhile_eq_nil_iff.mp hend
        have htake : t.takeWhile Char.isDigit = t := List.takeWhile_eq_self_iff.mpr hall
        rw [htake, List.isEmpty_iff] at hne
        exact ⟨_, denotes_iff.mpr ⟨negative, t, hsign, ⟨hne, hall⟩, rfl⟩⟩
  · rintro ⟨z, h⟩
    unfold ReadToEnd
    rw [strtol_of_denotes h]
    refine ⟨?_, rfl⟩
    rintro rfl
    obtain ⟨negative, ds, hsign, hds, -⟩ := denotes_iff.mp h
    cases hsign
    exact hds.ne_nil rfl

theorem clampLong_of_range {z : Int} (h1 : -9223372036854775808 ≤ z)
    (h2 : z ≤ 9223372036854775807) : clampLong z = z := by
  unfold clampLong
  omega

/-- **A row of digits that is a positive `int` is read as it is.** -/
theorem atoi_of_digits {ds : List Char} (h : Digits ds) (hle : decimalValue ds ≤ 2147483647) :
    atoi ds = decimalValue ds := by
  unfold atoi
  rw [strtol_of_denotes (.digits h), clampLong_of_range (by omega) (by omega),
    wrapInt_of_range (by omega) (by omega)]

end DdsApps.Infra
