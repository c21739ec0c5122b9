import DdsApps.Properties.NumericOptions

/-!
# The old positional syntax

`publisher <count> <sleep>` goes through `atoi`, which is happy with any text;
`publisher -s <count> -i <sleep>` goes through a checker and `strtol`.

* `optionMain_positional`, `optionMain_options` — what each of the two comes to
* `positional_same_iff` — they come to the same exactly for numerals of non-negative numbers
* `text_starts_endless` — a text that is no number starts a publisher in the old syntax only
-/

namespace DdsApps.Options

open DdsApps.Infra

/-! ## What each of them comes to -/

/-- A numeral of a number that is not negative. -/
def IsCount (a : List Char) : Prop := ∃ z, Denotes a z ∧ 0 ≤ z

/-- Going through an `int` makes no difference in an `uint32_t`. -/
theorem ofInt_atoi (a : List Char) : UInt32.ofInt (atoi a) = UInt32.ofInt (strtol a).1 := by
  obtain ⟨k, hk⟩ := wrapInt_eq_sub (strtol a).1
  rw [← UInt32.toNat_inj]
  have hatoi := toNat_uint32OfInt (atoi a)
  have hstrtol := toNat_uint32OfInt (strtol a).1
  unfold atoi at hatoi ⊢
  rw [hk] at hatoi ⊢
  omega

theorem publisher_isNonOption (place : Nat) :
    (Token.mk place "publisher".toList).text.head? ≠ some '-' := by
  show some 'p' ≠ some '-'
  decide

variable {s i : List Char}

theorem parse_positional (hs : s.head? ≠ some '-') (hi : i.head? ≠ some '-') :
    parse ["publisher".toList, s, i]
      = some ⟨[], [⟨0, "publisher".toList⟩, ⟨1, s⟩, ⟨2, i⟩]⟩ := by
  show Parser.workhorse true usage false [⟨0, "publisher".toList⟩, ⟨1, s⟩, ⟨2, i⟩] = _
  rw [Parser.workhorse_nonOption (publisher_isNonOption 0), Parser.workhorse_nonOption hs,
    Parser.workhorse_nonOption hi]
  rfl

theorem parse_positional_one (hs : s.head? ≠ some '-') :
    parse ["publisher".toList, s] = some ⟨[], [⟨0, "publisher".toList⟩, ⟨1, s⟩]⟩ := by
  show Parser.workhorse true usage false [⟨0, "publisher".toList⟩, ⟨1, s⟩] = _
  rw [Parser.workhorse_nonOption (publisher_isNonOption 0), Parser.workhorse_nonOption hs]
  rfl

/-- **The old syntax always starts the publisher**, with whatever `atoi` makes of its texts. -/
theorem optionMain_positional (hs : s.head? ≠ some '-') (hi : i.head? ≠ some '-') :
    optionMain ["publisher".toList, s, i]
      = .publisher false (UInt32.ofInt (atoi s)) (UInt32.ofInt (atoi i)) := by
  unfold optionMain
  rw [parse_positional hs hi]
  rfl

theorem optionMain_positional_one (hs : s.head? ≠ some '-') :
    optionMain ["publisher".toList, s] = .publisher false (UInt32.ofInt (atoi s)) 100 := by
  unfold optionMain
  rw [parse_positional_one hs]
  rfl

/-- The checker answers nothing but yes and no. -/
theorem numericRange_illegal {a : List Char} (h : ¬IsCount a) :
    Arg.NumericRangeDefault (some a) = .illegal :=
  if_neg fun hok => h (numericRange_ok_iff.mp (if_pos hok))

/-- The table entries for `-s` and `-i`. -/
theorem findShort_samples :
    Parser.findShort usage 's' = some ⟨.SAMPLES, "s", "samples", Arg.NumericRangeDefault⟩ := rfl

theorem findShort_interval :
    Parser.findShort usage 'i' = some ⟨.INTERVAL, "i", "interval", Arg.NumericRangeDefault⟩ := rfl

theorem parse_options (hs : IsCount s) (hi : IsCount i) :
    parse ["publisher".toList, "-s".toList, s, "-i".toList, i]
      = some ⟨[⟨.SAMPLES, 1, some s⟩, ⟨.INTERVAL, 3, some i⟩], [⟨0, "publisher".toList⟩]⟩ := by
  show Parser.workhorse true usage false
    [⟨0, "publisher".toList⟩, ⟨1, ['-', 's']⟩, ⟨2, s⟩, ⟨3, ['-', 'i']⟩, ⟨4, i⟩] = _
  rw [Parser.workhorse_nonOption (publisher_isNonOption 0),
    Parser.workhorse_option (by decide) findShort_samples (numericRange_ok_iff.mpr hs),
    Parser.workhorse_option (by decide) findShort_interval (numericRange_ok_iff.mpr hi)]
  rfl

theorem parse_options_illegal (h : ¬(IsCount s ∧ IsCount i)) :
    parse ["publisher".toList, "-s".toList, s, "-i".toList, i] = none := by
  show Parser.workhorse true usage false
    [⟨0, "publisher".toList⟩, ⟨1, ['-', 's']⟩, ⟨2, s⟩, ⟨3, ['-', 'i']⟩, ⟨4, i⟩] = _
  rw [Parser.workhorse_nonOption (publisher_isNonOption 0)]
  by_cases hs : IsCount s
  · have hi : ¬IsCount i := fun hi => h ⟨hs, hi⟩
    rw [Parser.workhorse_option (by decide) findShort_samples (numericRange_ok_iff.mpr hs),
      Parser.workhorse_illegal (by decide) findShort_interval (numericRange_illegal hi)]
    rfl
  · rw [Parser.workhorse_illegal (by decide) findShort_samples (numericRange_illegal hs)]
    rfl

theorem parse_option_one (hs : IsCount s) :
    parse ["publisher".toList, "-s".toList, s]
      = some ⟨[⟨.SAMPLES, 1, some s⟩], [⟨0, "publisher".toList⟩]⟩ := by
  show Parser.workhorse true usage false
    [⟨0, "publisher".toList⟩, ⟨1, ['-', 's']⟩, ⟨2, s⟩] = _
  rw [Parser.workhorse_nonOption (publisher_isNonOption 0),
    Parser.workhorse_option (by decide) findShort_samples (numericRange_ok_iff.mpr hs)]
  rfl

theorem parse_option_one_illegal (hs : ¬IsCount s) :
    parse ["publisher".toList, "-s".toList, s] = none := by
  show Parser.workhorse true usage false
    [⟨0, "publisher".toList⟩, ⟨1, ['-', 's']⟩, ⟨2, s⟩] = _
  rw [Parser.workhorse_nonOption (publisher_isNonOption 0),
    Parser.workhorse_illegal (by decide) findShort_samples (numericRange_illegal hs)]
  rfl

/-- **The new syntax starts the publisher with counts, and with nothing else.** -/
theorem optionMain_options (hs : IsCount s) (hi : IsCount i) :
    optionMain ["publisher".toList, "-s".toList, s, "-i".toList, i]
      = .publisher false (UInt32.ofInt (strtol s).1) (UInt32.ofInt (strtol i).1) := by
  unfold optionMain
  rw [parse_options hs hi]
  rfl

theorem optionMain_options_illegal (h : ¬(IsCount s ∧ IsCount i)) :
    optionMain ["publisher".toList, "-s".toList, s, "-i".toList, i] = .refused 1 := by
  unfold optionMain
  rw [parse_options_illegal h]

theorem optionMain_option_one (hs : IsCount s) :
    optionMain ["publisher".toList, "-s".toList, s]
      = .publisher false (UInt32.ofInt (strtol s).1) 100 := by
  unfold optionMain
  rw [parse_option_one hs]
  rfl

theorem optionMain_option_one_illegal (hs : ¬IsCount s) :
    optionMain ["publisher".toList, "-s".toList, s] = .refused 1 := by
  unfold optionMain
  rw [parse_option_one_illegal hs]

/-! ## Main result -/

/-- Both start the publisher with the same `run`, or both are refused. -/
structure SameRun (old new : Started) : Prop where
  runs : ∀ count sleep,
    (∃ e, old = .publisher e count sleep) ↔ ∃ e, new = .publisher e count sleep
  refused : (∃ status, old = .refused status) ↔ ∃ status, new = .refused status

theorem SameRun.rfl (started : Started) : SameRun started started := ⟨fun _ _ => Iff.rfl, Iff.rfl⟩

/-- What is started on one side cannot be refused on the other. -/
theorem not_sameRun_refused {e : Bool} {count sleep : UInt32} {status : Int} :
    ¬SameRun (.publisher e count sleep) (.refused status) := by
  intro h
  obtain ⟨_, hstart⟩ := (h.runs count sleep).mp ⟨e, Eq.refl _⟩
  cases hstart

/--
**Old and new syntax agree exactly on numerals of numbers that are not negative.**

This is so in all five programs, with one number and with two.
-/
theorem positional_same_iff :
    ∀ main ∈ mains, ∀ s : List Char, s.head? ≠ some '-' →
      (SameRun (main ["publisher".toList, s]) (main ["publisher".toList, "-s".toList, s]) ↔
        IsCount s) ∧
      ∀ i : List Char, i.head? ≠ some '-' →
        (SameRun (main ["publisher".toList, s, i])
            (main ["publisher".toList, "-s".toList, s, "-i".toList, i]) ↔
          IsCount s ∧ IsCount i) := by
  refine forall_mains ?_
  intro s hs
  constructor
  · rw [optionMain_positional_one hs]
    by_cases hcount : IsCount s
    · rw [optionMain_option_one hcount, ofInt_atoi]
      exact iff_of_true (SameRun.rfl _) hcount
    · rw [optionMain_option_one_illegal hcount]
      exact iff_of_false not_sameRun_refused hcount
  · intro i hi
    rw [optionMain_positional hs hi]
    by_cases hcount : IsCount s ∧ IsCount i
    · rw [optionMain_options hcount.1 hcount.2, ofInt_atoi, ofInt_atoi]
      exact iff_of_true (SameRun.rfl _) hcount
    · rw [optionMain_options_illegal hcount]
      exact iff_of_false not_sameRun_refused hcount

theorem isCount_five : IsCount "5".toList := ⟨5, .digits (by decide), by decide⟩

theorem fiveSamples_same :
    SameRun (optionMain ["publisher".toList, "5".toList, "5".toList])
      (optionMain ["publisher".toList, "-s".toList, "5".toList, "-i".toList, "5".toList]) :=
  ((positional_same_iff HelloWorldExample.main (List.mem_cons_self ..) "5".toList (by decide)).2
    "5".toList (by decide)).mpr ⟨isCount_five, isCount_five⟩

/-- **A text that is no number starts an endless publisher in the old syntax only.** -/
theorem text_starts_endless :
    ¬∃ main ∈ mains, ∀ s i : List Char, s.head? ≠ some '-' → i.head? ≠ some '-' →
      SameRun (main ["publisher".toList, s, i])
        (main ["publisher".toList, "-s".toList, s, "-i".toList, i]) := by
  rintro ⟨main, hmem, hall⟩
  revert main
  refine forall_mains ?_
  intro hall
  have hsame := hall "x".toList "5".toList (by decide) (by decide)
  have hold : optionMain ["publisher".toList, "x".toList, "5".toList] = .publisher false 0 5 := by
    decide +kernel
  have hnew : optionMain ["publisher".toList, "-s".toList, "x".toList, "-i".toList, "5".toList]
      = .refused 1 := by
    decide +kernel
  rw [hold, hnew] at hsame
  exact not_sameRun_refused hsame

end DdsApps.Options
