import DdsApps.Infra.Loops
import DdsApps.Options.Main

/-!
# The numbers given as options

The checkers look at a `long`, which `strtol` has saturated; the variables behind them have 32 or
16 bits, some of them after two conversions.

* `numericRange_ok_iff`, `numeric_ok_iff` — the arguments that are accepted
* `numeric_options_reach_iff` — exactly when the number of an accepted argument is the one used
* `large_numbers_change` — a sample count that becomes 0, and a port that becomes another port
-/

namespace DdsApps.Options

open DdsApps.Infra

/-! ## Accepted arguments -/

/-- `NumericRange<>` accepts the numerals that denote no negative number, however large. -/
theorem numericRange_ok_iff {a : List Char} :
    Arg.NumericRangeDefault (some a) = .ok ↔ ∃ z, Denotes a z ∧ 0 ≤ z := by
  have hread : Arg.NumericRangeDefault (some a) = .ok ↔
      ReadToEnd a ∧ 0 ≤ (strtol a).1 ∧ (strtol a).1 ≤ longMax := by
    unfold Arg.NumericRangeDefault Arg.NumericRange ReadToEnd
    simp only [ite_eq_left_iff, reduceCtorEq, imp_false, Decidable.not_not, and_assoc]
  rw [hread, readToEnd_iff]
  constructor
  · rintro ⟨⟨z, hz⟩, hmin, -⟩
    rw [strtol_of_denotes hz] at hmin
    refine ⟨z, hz, ?_⟩
    unfold clampLong at hmin
    omega
  · rintro ⟨z, hz, hmin⟩
    refine ⟨⟨z, hz⟩, ?_⟩
    rw [strtol_of_denotes hz]
    unfold clampLong longMax
    omega

/-- `Numeric` accepts all numerals. -/
theorem numeric_ok_iff {a : List Char} : Arg.Numeric (some a) = .ok ↔ ∃ z, Denotes a z := by
  rw [← readToEnd_iff]
  unfold Arg.Numeric ReadToEnd
  simp only [ite_eq_left_iff, reduceCtorEq, imp_false, Decidable.not_not]

/-! ## Conversions -/

theorem toNat_uint32OfInt (z : Int) : ((UInt32.ofInt z).toNat : Int) = z % 4294967296 := by
  unfold UInt32.ofInt
  rw [UInt32.toNat_ofNat']
  omega

theorem toNat_uint16OfInt (z : Int) : ((UInt16.ofInt z).toNat : Int) = z % 65536 := by
  unfold UInt16.ofInt
  rw [UInt16.toNat_ofNat']
  omega

/-- `strtol` in an `uint32_t` -/
theorem uint32_eq_iff {a : List Char} {z : Int} (hz : Denotes a z) :
    ((UInt32.ofInt (strtol a).1).toNat : Int) = z ↔ 0 ≤ z ∧ z < 4294967296 := by
  rw [strtol_of_denotes hz, toNat_uint32OfInt]
  unfold clampLong
  omega

/-- `strtol` in an `int`, and that in an `uint32_t` -/
theorem uint32_of_int_eq_iff {a : List Char} {z : Int} (hz : Denotes a z) :
    ((UInt32.ofInt (wrapInt (strtol a).1)).toNat : Int) = z ↔ 0 ≤ z ∧ z < 4294967296 := by
  obtain ⟨k, hk⟩ := wrapInt_eq_sub (strtol a).1
  rw [toNat_uint32OfInt, hk, strtol_of_denotes hz]
  unfold clampLong
  omega

/-- `strtol` in an `int`, and that in an `uint16_t` -/
theorem uint16_of_int_eq_iff {a : List Char} {z : Int} (hz : Denotes a z) :
    ((UInt16.ofInt (wrapInt (strtol a).1)).toNat : Int) = z ↔ 0 ≤ z ∧ z < 65536 := by
  obtain ⟨k, hk⟩ := wrapInt_eq_sub (strtol a).1
  rw [toNat_uint16OfInt, hk, strtol_of_denotes hz]
  unfold clampLong
  omega

/-- `strtol` in a `long` -/
theorem long_eq_iff {a : List Char} {z : Int} (hz : Denotes a z) :
    (strtol a).1 = z ↔ -9223372036854775808 ≤ z ∧ z ≤ longMax := by
  rw [strtol_of_denotes hz]
  unfold clampLong longMax
  omega

/-! ## The options of the five programs -/

theorem Parsed.option_spec {ι : Type} [DecidableEq ι] {p : Parsed ι} {index : ι} {opt : Opt ι}
    (h : p.option index = some opt) : opt ∈ p.options ∧ opt.index = index := by
  unfold Parsed.option at h
  exact ⟨List.mem_of_find?_eq_some h, by simpa using List.find?_some h⟩

theorem check_of_index {d : Descriptor OptionIndex} (hd : d ∈ usage)
    (hindex : d.index = .SAMPLES ∨ d.index = .INTERVAL) :
    d.check_arg = Arg.NumericRangeDefault := by
  revert d
  simp [usage]

/-- An argument of `-s` or `-i` denotes a number, and not a negative one. -/
theorem option_denotes {args : List (List Char)} {p : Parsed OptionIndex}
    (hp : parse args = some p) {index : OptionIndex} (hindex : index = .SAMPLES ∨ index = .INTERVAL)
    {opt : Opt OptionIndex} (hopt : p.option index = some opt) :
    ∃ a z, opt.arg = some a ∧ Denotes a z ∧ 0 ≤ z := by
  obtain ⟨hmem, rfl⟩ := Parsed.option_spec hopt
  obtain ⟨d, hd, hsame, hchecked⟩ := Parser.checked_of_workhorse hp opt hmem
  rw [check_of_index hd (hsame ▸ hindex)] at hchecked
  rcases hchecked with hok | ⟨arg, hnone⟩
  · cases harg : opt.arg with
    | none =>
      rw [harg] at hok
      cases hok
    | some a =>
      rw [harg] at hok
      obtain ⟨z, hz, hpos⟩ := numericRange_ok_iff.mp hok
      exact ⟨a, z, rfl, hz, hpos⟩
  · -- the checker answers nothing but yes and no
    unfold Arg.NumericRangeDefault Arg.NumericRange at hnone
    split at hnone
    · split at hnone <;> simp at hnone
    · simp at hnone

/-- With an option, `run` gets what the variables of the new syntax hold. -/
theorem optionMain_publisher {args : List (List Char)} {p : Parsed OptionIndex}
    (hp : parse args = some p) (hoptions : p.options ≠ []) {e : Bool} {count sleep : UInt32}
    (hmain : optionMain args = .publisher e count sleep) :
    count = numericOption p .SAMPLES 10 ∧ sleep = numericOption p .INTERVAL 100 := by
  unfold optionMain at hmain
  simp only [hp] at hmain
  split at hmain
  · cases hmain
  · split at hmain
    · cases hmain
    · split at hmain
      · cases hmain
      · split at hmain
        · cases hmain
        · next type _ =>
          unfold startWith at hmain
          split at hmain
          · -- the old syntax has no options
            rw [if_pos (Or.inr (List.length_pos_iff.mpr hoptions))] at hmain
            cases hmain
          · cases type with
            | publisher =>
              cases hmain
              exact ⟨rfl, rfl⟩
            | subscriber => cases hmain

/--
The option, if there is one, has an argument that denotes a number, and `value` is that number
exactly when it meets the condition.
-/
def ReachesWhen {ι : Type} (condition : Int → Prop) (opt : Option (Opt ι)) (value : Int) : Prop :=
  ∀ o, opt = some o → ∃ a z, o.arg = some a ∧ Denotes a z ∧ (value = z ↔ condition z)

theorem numericOption_reaches {args : List (List Char)} {p : Parsed OptionIndex}
    (hp : parse args = some p) {index : OptionIndex} (hindex : index = .SAMPLES ∨ index = .INTERVAL)
    (default : UInt32) :
    ReachesWhen (· < 4294967296) (p.option index) (numericOption p index default).toNat := by
  intro opt hopt
  obtain ⟨a, z, harg, hz, hpos⟩ := option_denotes hp hindex hopt
  refine ⟨a, z, harg, hz, ?_⟩
  have hvalue : numericOption p index default = UInt32.ofInt (strtol a).1 := by
    simp only [numericOption, hopt, Option.bind_some, harg]
  rw [hvalue, uint32_eq_iff hz]
  exact and_iff_right hpos

theorem optionMain_reaches {args : List (List Char)} {p : Parsed OptionIndex}
    (hp : parse args = some p) {e : Bool} {count sleep : UInt32}
    (hmain : optionMain args = .publisher e count sleep) :
    ReachesWhen (· < 4294967296) (p.option .SAMPLES) count.toNat ∧
      ReachesWhen (· < 4294967296) (p.option .INTERVAL) sleep.toNat := by
  by_cases hoptions : p.options = []
  · have hnone : ∀ index, p.option index = none := by
      intro index
      rw [Parsed.option, hoptions]
      rfl
    rw [hnone, hnone]
    constructor
    all_goals
      intro o h
      cases h
  · obtain ⟨rfl, rfl⟩ := optionMain_publisher hp hoptions hmain
    exact ⟨numericOption_reaches hp (Or.inl rfl) _, numericOption_reaches hp (Or.inr rfl) _⟩

/-! ## The options of `HelloWorldExampleTCP` -/

namespace HelloWorldExampleTCP

theorem Parsed.last_spec {p : Parsed OptionIndex} {index : OptionIndex} {opt : Opt OptionIndex}
    (h : p.last index = some opt) : opt ∈ p.options ∧ opt.index = index := by
  obtain ⟨hmem, hindex⟩ := List.mem_filter.mp (List.mem_of_getLast? h)
  exact ⟨hmem, of_decide_eq_true hindex⟩

/-- The options whose arguments become numbers. -/
def Numeric (index : OptionIndex) : Prop := index = .SAMPLES ∨ index = .INTERVAL ∨ index = .PORT

theorem check_of_numeric {d : Descriptor OptionIndex} (hd : d ∈ usage) (hindex : Numeric d.index) :
    d.check_arg = Arg.Numeric := by
  revert d
  simp [usage, Numeric]

theorem arg_denotes {args : List (List Char)} {p : Parsed OptionIndex} (hp : parse args = some p)
    {opt : Opt OptionIndex} (hmem : opt ∈ p.options) (hindex : Numeric opt.index) :
    ∃ a z, opt.arg = some a ∧ Denotes a z := by
  obtain ⟨d, hd, hsame, hchecked⟩ := Parser.checked_of_workhorse hp opt hmem
  rw [check_of_numeric hd (hsame ▸ hindex)] at hchecked
  rcases hchecked with hok | ⟨arg, hnone⟩
  · cases harg : opt.arg with
    | none =>
      rw [harg] at hok
      cases hok
    | some a =>
      rw [harg] at hok
      obtain ⟨z, hz⟩ := numeric_ok_iff.mp hok
      exact ⟨a, z, rfl, hz⟩
  · unfold Arg.Numeric at hnone
    split at hnone
    · split at hnone <;> simp at hnone
    · simp at hnone

/-- A numeric variable holds what the last of its options has set. -/
theorem field_of_last {args : List (List Char)} {p : Parsed OptionIndex} (hp : parse args = some p)
    {s t : Settings} (hfold : p.options.foldlM applyOption s = some t) {index : OptionIndex}
    (hindex : Numeric index) {f : Settings → Int} {v : List Char → Int}
    (hset : ∀ s opt t, applyOption s opt = some t → ∀ a, opt.arg = some a →
      opt.index = index → f t = v a)
    (hkeep : ∀ s opt t, applyOption s opt = some t → opt.index ≠ index → f t = f s)
    {opt : Opt OptionIndex} (hopt : p.last index = some opt) :
    ∃ a z, opt.arg = some a ∧ Denotes a z ∧ f t = v a := by
  have hwrite : ∀ o ∈ p.options, ∀ s t, applyOption s o = some t →
      f t = if decide (o.index = index) then v (o.arg.getD []) else f s := by
    intro o hmem s t happly
    by_cases ho : o.index = index
    · obtain ⟨a, z, harg, -⟩ := arg_denotes hp hmem (ho ▸ hindex)
      rw [decide_eq_true ho, if_pos rfl, hset s o t happly a harg ho, harg]
      rfl
    · rw [decide_eq_false ho, if_neg Bool.false_ne_true, hkeep s o t happly ho]
  have hlast := foldlM_last_write (p := fun o => decide (o.index = index)) hwrite hfold
  obtain ⟨hmem, hsame⟩ := Parsed.last_spec hopt
  obtain ⟨a, z, harg, hz⟩ := arg_denotes hp hmem (hsame ▸ hindex)
  have hfilter : (p.options.filter fun o => decide (o.index = index)).getLast? = some opt := hopt
  refine ⟨a, z, harg, hz, ?_⟩
  rw [hlast, hfilter, Option.map_some, Option.getD_some, harg, Option.getD_some]

/-- Each of the three is set by its own option only. -/
theorem applyOption_keeps {s t : Settings} {opt : Opt OptionIndex}
    (h : applyOption s opt = some t) :
    (opt.index ≠ .SAMPLES → t.count = s.count) ∧ (opt.index ≠ .INTERVAL → t.sleep = s.sleep) ∧
      (opt.index ≠ .PORT → t.port = s.port) := by
  unfold applyOption at h
  split at h
  all_goals cases h
  case h_2 heq _ => exact ⟨absurd heq, fun _ => rfl, fun _ => rfl⟩
  case h_3 heq _ => exact ⟨fun _ => rfl, absurd heq, fun _ => rfl⟩
  case h_6 heq _ => exact ⟨fun _ => rfl, fun _ => rfl, absurd heq⟩
  all_goals exact ⟨fun _ => rfl, fun _ => rfl, fun _ => rfl⟩

/-- What a sample count has to be in, to arrive as it is. -/
def IsUInt32 (z : Int) : Prop := 0 ≤ z ∧ z < 4294967296

def IsLong (z : Int) : Prop := -9223372036854775808 ≤ z ∧ z ≤ longMax

def IsUInt16 (z : Int) : Prop := 0 ≤ z ∧ z < 65536

theorem settings_reach {args : List (List Char)} {p : Parsed OptionIndex}
    (hp : parse args = some p) {s : Settings}
    (hfold : p.options.foldlM applyOption Settings.initial = some s) :
    ReachesWhen IsUInt32 (p.last .SAMPLES) (UInt32.ofInt s.count).toNat ∧
      ReachesWhen IsLong (p.last .INTERVAL) s.sleep ∧
      ReachesWhen IsUInt16 (p.last .PORT) (UInt16.ofInt s.port).toNat := by
  refine ⟨fun opt hopt => ?_, fun opt hopt => ?_, fun opt hopt => ?_⟩
  · obtain ⟨a, z, harg, hz, hfield⟩ := field_of_last hp hfold (f := Settings.count)
      (v := fun a => wrapInt (strtol a).1) (Or.inl rfl)
      (fun s opt t h a harg hindex => by
        simp only [applyOption, hindex, harg, Option.some.injEq] at h
        rw [← h])
      (fun _ _ _ h => (applyOption_keeps h).1) hopt
    exact ⟨a, z, harg, hz, hfield ▸ uint32_of_int_eq_iff hz⟩
  · obtain ⟨a, z, harg, hz, hfield⟩ := field_of_last hp hfold (f := Settings.sleep)
      (v := fun a => (strtol a).1) (Or.inr (Or.inl rfl))
      (fun s opt t h a harg hindex => by
        simp only [applyOption, hindex, harg, Option.some.injEq] at h
        rw [← h])
      (fun _ _ _ h => (applyOption_keeps h).2.1) hopt
    exact ⟨a, z, harg, hz, hfield ▸ long_eq_iff hz⟩
  · obtain ⟨a, z, harg, hz, hfield⟩ := field_of_last hp hfold (f := Settings.port)
      (v := fun a => wrapInt (strtol a).1) (Or.inr (Or.inr rfl))
      (fun s opt t h a harg hindex => by
        simp only [applyOption, hindex, harg, Option.some.injEq] at h
        rw [← h])
      (fun _ _ _ h => (applyOption_keeps h).2.2) hopt
    exact ⟨a, z, harg, hz, hfield ▸ uint16_of_int_eq_iff hz⟩

/-- What is started is started with the settings the options leave. -/
theorem main_eq_start {type_name : List Char} {args : List (List Char)} {p : Parsed OptionIndex}
    (hp : parse args = some p) (hmain : ∀ status, main (type_name :: args) ≠ .returned status) :
    ∃ s, p.options.foldlM applyOption Settings.initial = some s ∧
      main (type_name :: args) = start type_name s := by
  unfold main at hmain ⊢
  simp only [hp] at hmain ⊢
  split at hmain
  · exact absurd rfl (hmain 0)
  · next hhelp =>
    rw [if_neg hhelp]
    split at hmain
    · exact absurd rfl (hmain 0)
    · next s hs =>
      rw [hs]
      exact ⟨s, rfl, rfl⟩

end HelloWorldExampleTCP

/-! ## Main result -/

/--
**The number an accepted argument denotes is the one used, exactly in the range of what holds it.**

For the five programs that is an `uint32_t` for both options, and negative numbers are not accepted.
For `HelloWorldExampleTCP` it is an `uint32_t` for the samples, a `long` for the interval and an
`uint16_t` for the port, in a publisher as in a subscriber.
-/
theorem numeric_options_reach_iff (args : List (List Char)) :
    (∀ main ∈ mains, ∀ p e count sleep, parse args = some p →
      main args = .publisher e count sleep →
        ReachesWhen (· < 4294967296) (p.option .SAMPLES) count.toNat ∧
        ReachesWhen (· < 4294967296) (p.option .INTERVAL) sleep.toNat) ∧
    (∀ type_name p ip port tls list samples sleep_ms,
      HelloWorldExampleTCP.parse args = some p →
      HelloWorldExampleTCP.main (type_name :: args) = .publisher ip port tls list samples sleep_ms →
        ReachesWhen HelloWorldExampleTCP.IsUInt32 (p.last .SAMPLES) samples.toNat ∧
        ReachesWhen HelloWorldExampleTCP.IsLong (p.last .INTERVAL) sleep_ms ∧
        ReachesWhen HelloWorldExampleTCP.IsUInt16 (p.last .PORT) port.toNat) ∧
    ∀ type_name p ip port tls list, HelloWorldExampleTCP.parse args = some p →
      HelloWorldExampleTCP.main (type_name :: args) = .subscriber ip port tls list →
        ReachesWhen HelloWorldExampleTCP.IsUInt16 (p.last .PORT) port.toNat := by
  refine ⟨?_, ?_, ?_⟩
  · refine forall_mains ?_
    intro p e count sleep hp hmain
    exact optionMain_reaches hp hmain
  · intro type_name p ip port tls list samples sleep_ms hp hmain
    obtain ⟨s, hs, hstart⟩ := HelloWorldExampleTCP.main_eq_start hp (fun status => by
      rw [hmain]
      exact fun h => nomatch h)
    rw [hstart] at hmain
    unfold HelloWorldExampleTCP.start at hmain
    split at hmain
    · cases hmain
    · cases hmain
      exact HelloWorldExampleTCP.settings_reach hp hs
  · intro type_name p ip port tls list hp hmain
    obtain ⟨s, hs, hstart⟩ := HelloWorldExampleTCP.main_eq_start hp (fun status => by
      rw [hmain]
      exact fun h => nomatch h)
    rw [hstart] at hmain
    unfold HelloWorldExampleTCP.start at hmain
    split at hmain
    · cases hmain
      exact (HelloWorldExampleTCP.settings_reach hp hs).2.2
    · cases hmain

/-- The command line of a publisher with one option. -/
def withOption (option arg : String) : List (List Char) :=
  ["publisher".toList, option.toList, arg.toList]

theorem smallNumbers_reach :
    ReachesWhen (· < 4294967296) (some ⟨OptionIndex.SAMPLES, 1, some "5".toList⟩)
      (5 : UInt32).toNat ∧
    ReachesWhen HelloWorldExampleTCP.IsUInt16
      (some ⟨HelloWorldExampleTCP.OptionIndex.PORT, 0, some "99".toList⟩) (99 : UInt16).toNat ∧
    ReachesWhen HelloWorldExampleTCP.IsUInt16
      (some ⟨HelloWorldExampleTCP.OptionIndex.PORT, 0, some "99".toList⟩) (99 : UInt16).toNat := by
  have hparse : parse (withOption "-s" "5")
      = some ⟨[⟨.SAMPLES, 1, some "5".toList⟩], [⟨0, "publisher".toList⟩]⟩ := by
    decide +kernel
  have hport : HelloWorldExampleTCP.parse ["-p".toList, "99".toList]
      = some ⟨[⟨.PORT, 0, some "99".toList⟩], []⟩ := by
    decide +kernel
  refine ⟨?_, ?_, ?_⟩
  · exact ((numeric_options_reach_iff (withOption "-s" "5")).1 HelloWorldExample.main
      (List.mem_cons_self ..) _ false 5 100 hparse (by decide +kernel)).1
  · exact ((numeric_options_reach_iff _).2.1 "publisher".toList _ [] 99 false [] 0 100 hport
      (by decide +kernel)).2.2
  · exact (numeric_options_reach_iff _).2.2 "subscriber".toList _ [] 99 false [] hport
      (by decide +kernel)

/--
**A sample count of 2^32 becomes 0, and the port 70000 the port 4464.**
-/
theorem large_numbers_change :
    (¬∃ main ∈ mains, ∀ args p e count sleep opt a z, parse args = some p →
      main args = .publisher e count sleep → p.option .SAMPLES = some opt → opt.arg = some a →
        Denotes a z → (count.toNat : Int) = z) ∧
    ¬∀ args p ip port tls list samples sleep_ms opt a z, HelloWorldExampleTCP.parse args = some p →
      HelloWorldExampleTCP.main ("publisher".toList :: args)
        = .publisher ip port tls list samples sleep_ms →
      p.last .PORT = some opt → opt.arg = some a → Denotes a z → (port.toNat : Int) = z := by
  constructor
  · rintro ⟨main, hmem, hall⟩
    revert main
    refine forall_mains ?_
    intro hall
    have hzero := hall (withOption "-s" "4294967296")
      ⟨[⟨.SAMPLES, 1, some "4294967296".toList⟩], [⟨0, "publisher".toList⟩]⟩ false 0 100 _ _ _
      (by decide +kernel) (by decide +kernel) rfl rfl (.digits (by decide))
    exact absurd hzero (by decide +kernel)
  · intro hall
    have hother := hall ["-p".toList, "70000".toList] ⟨[⟨.PORT, 0, some "70000".toList⟩], []⟩
      [] 4464 false [] 0 100 _ _ _
      (by decide +kernel) (by decide +kernel) rfl rfl (.digits (by decide))
    exact absurd hother (by decide +kernel)

end DdsApps.Options
