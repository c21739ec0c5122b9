import DdsApps.Options.ArgvMain

/-!
# `main` reads the arrays that the parser has filled

The programs with options compute the same on the arrays as on what the pass without an action
finds, and read no null pointer.
-/

namespace DdsApps.Options

open DdsApps.Infra Argv

/-! ## Checkers -/

theorem definite_of_none {ι : Type} {d : Descriptor ι} (h : d.check_arg = Arg.None) :
    Definite d :=
  Or.inl ⟨.none, nofun, fun _ => by rw [h]; rfl⟩

theorem definite_of_string {ι : Type} {d : Descriptor ι} (h : d.check_arg = Arg.String) :
    Definite d :=
  Or.inr ⟨by rw [h]; rfl, fun _ => by rw [h]; exact Or.inl rfl⟩

theorem definite_of_numeric {ι : Type} {d : Descriptor ι} (h : d.check_arg = Arg.Numeric) :
    Definite d := by
  refine Or.inr ⟨by rw [h]; rfl, fun arg => ?_⟩
  rw [h, Arg.Numeric]
  split
  · exact Or.inl rfl
  · exact Or.inr rfl

theorem definite_of_numericRange {ι : Type} {d : Descriptor ι} {min max : Int}
    (h : d.check_arg = Arg.NumericRange min max) : Definite d := by
  refine Or.inr ⟨by rw [h]; rfl, fun arg => ?_⟩
  rw [h, Arg.NumericRange]
  split
  · exact Or.inl rfl
  · exact Or.inr rfl

theorem definite_usage : ∀ d ∈ usage, Definite d := by
  simp only [usage, List.forall_mem_cons, List.not_mem_nil, false_implies, implies_true, and_true]
  exact ⟨definite_of_none rfl, definite_of_none rfl, definite_of_none rfl,
    definite_of_numericRange rfl, definite_of_numericRange rfl, definite_of_none rfl⟩

theorem HelloWorldExampleTCP.definite_usage : ∀ d ∈ HelloWorldExampleTCP.usage, Definite d := by
  simp only [HelloWorldExampleTCP.usage, List.forall_mem_cons, List.not_mem_nil, false_implies,
    implies_true, and_true]
  exact ⟨definite_of_none rfl, definite_of_none rfl, definite_of_none rfl, definite_of_string rfl,
    definite_of_none rfl, definite_of_numeric rfl, definite_of_numeric rfl, definite_of_string rfl,
    definite_of_numeric rfl, definite_of_none rfl, definite_of_string rfl, definite_of_numeric rfl⟩

/-! ## Reading the arrays -/

theorem characters_tokens (args : List (List Char)) :
    characters (Parser.tokens args) = args.flatten.length := by
  rw [characters, Parser.tokens, List.flatMap_map]
  have htexts : args.zipIdx.map Prod.fst = args := List.zipIdx_map_fst 0 args
  calc (args.zipIdx.flatMap Prod.fst).length
      = (args.zipIdx.map Prod.fst).flatten.length := by rw [List.flatMap_def]
    _ = args.flatten.length := by rw [htexts]

theorem OptionIndex.value_inj {a b : OptionIndex} : a.value = b.value ↔ a = b := by
  cases a <;> cases b <;> simp [OptionIndex.value]

theorem HelloWorldExampleTCP.OptionIndex.value_inj {a b : HelloWorldExampleTCP.OptionIndex} :
    a.value = b.value ↔ a = b := by
  cases a <;> cases b <;> simp [OptionIndex.value]

/-- A descriptor that refuses a missing argument, and never lets go of one. -/
def NeedsArg {ι : Type} (d : Descriptor ι) : Prop :=
  d.check_arg none = .illegal ∧
    ∀ arg, d.check_arg (some arg) = .ok ∨ d.check_arg (some arg) = .illegal

/-- Its options have an argument. -/
theorem isSome_arg {ι : Type} {usage : List (Descriptor ι)} {opt : Opt ι}
    (h : Parser.Checked usage opt) (hneeds : ∀ d ∈ usage, d.index = opt.index → NeedsArg d) :
    opt.arg.isSome := by
  obtain ⟨d, hd, hindex, hcheck⟩ := h
  obtain ⟨hnone, hsome⟩ := hneeds d hd hindex
  rcases hcheck with hok | ⟨optarg, hstatus⟩
  · cases harg : opt.arg with
    | some arg => rfl
    | none =>
      rw [harg, hnone] at hok
      cases hok
  · cases optarg with
    | none =>
      rw [hnone] at hstatus
      rcases hstatus with h | h <;> cases h
    | some arg => rcases hsome arg with h | h <;> rw [h] at hstatus <;> simp at hstatus

theorem needsArg_of_numericRange {ι : Type} {d : Descriptor ι} {min max : Int}
    (h : d.check_arg = Arg.NumericRange min max) : NeedsArg d := by
  refine ⟨by rw [h]; rfl, fun arg => ?_⟩
  rw [h, Arg.NumericRange]
  split
  · exact Or.inl rfl
  · exact Or.inr rfl

theorem exists_mem_usage (index : OptionIndex) : ∃ d ∈ usage, d.index = index := by
  cases index <;> simp [usage]

theorem needsArg_usage {index : OptionIndex} (hindex : index = .SAMPLES ∨ index = .INTERVAL) :
    ∀ d ∈ usage, d.index = index → NeedsArg d := by
  simp only [usage, List.forall_mem_cons, List.not_mem_nil, false_implies, implies_true, and_true]
  refine ⟨?_, ?_, ?_, fun _ => needsArg_of_numericRange rfl, fun _ => needsArg_of_numericRange rfl,
    ?_⟩
  all_goals
    rintro rfl
    simp at hindex

theorem typeAfterOption_eq {ι : Type} {indexOf : ι → Nat} {usage : List (Descriptor ι)}
    {p : Parse ι} {parsed : Parsed ι} (hp : Holds indexOf usage p parsed) {type_name : Token}
    (htype : parsed.nonOptions[0]? = some type_name) :
    p.typeAfterOption type_name = some parsed.typeAfterOption := by
  obtain ⟨rest, hrest⟩ : ∃ rest, parsed.nonOptions = type_name :: rest := by
    cases hnonOptions : parsed.nonOptions with
    | nil => simp [hnonOptions] at htype
    | cons t rest =>
      rw [hnonOptions] at htype
      cases htype
      exact ⟨rest, rfl⟩
  rw [Parse.typeAfterOption, hp.op_count, Parsed.typeAfterOption, hrest]
  cases hoptions : parsed.options with
  | nil => rfl
  | cons opt opts =>
    have hbuffer := hp.buffer 0 (by rw [hoptions]; exact Nat.succ_pos _)
    rw [hoptions] at hbuffer
    rw [if_neg (by simp), hbuffer]
    rfl

section Main

variable {p : Parse OptionIndex} {parsed : Parsed OptionIndex}
  (hp : Holds OptionIndex.value usage p parsed)
  (hchecked : ∀ opt ∈ parsed.options, Parser.Checked usage opt)

include hp

theorem options_eq (index : OptionIndex) :
    p.options index.value = some (parsed.option index) := by
  obtain ⟨d, hd, rfl⟩ := exists_mem_usage index
  rw [hp.options d hd, Parsed.option]
  simp only [OptionIndex.value_inj]

include hchecked

theorem numericOption_eq {index : OptionIndex} (hindex : index = .SAMPLES ∨ index = .INTERVAL)
    (default : UInt32) :
    p.numericOption index default = some (numericOption parsed index default) := by
  rw [Parse.numericOption, options_eq hp index, numericOption]
  cases hopt : parsed.option index with
  | none => rfl
  | some opt =>
    have hfind : parsed.options.find? (fun opt => opt.index = index) = some opt := hopt
    have hmem := List.mem_of_find?_eq_some hfind
    have heq : opt.index = index := by simpa using List.find?_some hfind
    obtain ⟨arg, harg⟩ := Option.isSome_iff_exists.mp
      (isSome_arg (hchecked opt hmem) (heq.symm ▸ needsArg_usage hindex))
    simp [harg]

theorem startWith_eq (type : EntityType) : p.startWith type = some (startWith parsed type) := by
  rw [Parse.startWith, startWith, hp.nonop_count, hp.op_count]
  by_cases hold : parsed.nonOptions.length > 1
  · rw [if_pos hold, if_pos hold]
    by_cases hmixed : type ≠ .publisher ∨ parsed.options.length > 0
    · rw [if_pos hmixed, if_pos hmixed]
    · rw [if_neg hmixed, if_neg hmixed, hp.nonOption 1 hold, Parsed.nonOption, Parsed.nonOption]
      simp only [List.getElem?_eq_getElem hold, Option.bind_some]
      by_cases hthree : parsed.nonOptions.length = 3
      · have htwo : 2 < parsed.nonOptions.length := by omega
        simp only [if_pos hthree, hp.nonOption 2 htwo, List.getElem?_eq_getElem htwo,
          Option.map_some]
      · simp only [if_neg hthree]
  · rw [if_neg hold, if_neg hold, numericOption_eq hp hchecked (Or.inl rfl), Option.bind_some,
      numericOption_eq hp hchecked (Or.inr rfl), Option.bind_some, options_eq hp, Option.map_some]
    rfl

end Main

/-- **The five programs start the same** as on the pass without an action, on every command line. -/
theorem argvMain_eq {args : List (List Char)} (hlimit : args.flatten.length < limit) :
    argvMain args = some (optionMain args) := by
  rw [← characters_tokens] at hlimit
  rw [argvMain, optionMain]
  cases hparse : parse args with
  | none =>
    obtain ⟨p, hp, herr⟩ := ofArgv_of_none OptionIndex.value definite_usage hlimit hparse
    rw [hp, Option.bind_some, if_pos herr]
  | some parsed =>
    obtain ⟨p, hp, hholds, -⟩ := ofArgv_of_some OptionIndex.value definite_usage hlimit hparse
    have hchecked := Parser.checked_of_workhorse hparse
    rw [hp, Option.bind_some, if_neg (by rw [hholds.err]; exact Bool.false_ne_true),
      options_eq hholds, Option.bind_some, options_eq hholds, Option.bind_some]
    have hhas : ((parsed.option .HELP).isSome || (parsed.option .UNKNOWN_OPT).isSome)
        = (parsed.has .HELP || parsed.has .UNKNOWN_OPT) := rfl
    rw [hhas, hholds.nonop_count]
    dsimp only
    by_cases hhelp : (parsed.has .HELP || parsed.has .UNKNOWN_OPT) = true
    · rw [if_pos hhelp, if_pos hhelp]
    · rw [if_neg hhelp, if_neg hhelp]
      by_cases hcount : parsed.nonOptions.length > 3 ∨ parsed.nonOptions.length = 0
      · rw [if_pos hcount, if_pos hcount]
      · rw [if_neg hcount, if_neg hcount]
        have hpos : 0 < parsed.nonOptions.length := by omega
        have htype : parsed.nonOptions[0]? = some parsed.nonOptions[0] :=
          List.getElem?_eq_getElem hpos
        have hname : parsed.nonOption 0 = parsed.nonOptions[0].text := by
          rw [Parsed.nonOption, htype]
        rw [hholds.nonOption 0 hpos, htype, Option.bind_some, typeAfterOption_eq hholds htype,
          Option.bind_some, hname]
        cases parsed.typeAfterOption with
        | true => rfl
        | false =>
          cases typeOf parsed.nonOptions[0].text with
          | none => rfl
          | some type => exact startWith_eq hholds hchecked type

/-! ## `HelloWorldExampleTCP` -/

namespace HelloWorldExampleTCP

theorem needsArg_of_numeric {d : Descriptor OptionIndex} (h : d.check_arg = Arg.Numeric) :
    NeedsArg d := by
  refine ⟨by rw [h]; rfl, fun arg => ?_⟩
  rw [h, Arg.Numeric]
  split
  · exact Or.inl rfl
  · exact Or.inr rfl

theorem needsArg_of_string {d : Descriptor OptionIndex} (h : d.check_arg = Arg.String) :
    NeedsArg d :=
  ⟨by rw [h]; rfl, fun _ => by rw [h]; exact Or.inl rfl⟩

theorem needsArg_usage {index : OptionIndex}
    (hindex : index ≠ .UNKNOWN_OPT ∧ index ≠ .HELP ∧ index ≠ .TLS) :
    ∀ d ∈ usage, d.index = index → NeedsArg d := by
  simp only [usage, List.forall_mem_cons, List.not_mem_nil, false_implies, implies_true, and_true]
  refine ⟨fun h => absurd h.symm hindex.1, fun h => absurd h.symm hindex.2.1,
    fun h => absurd h.symm hindex.2.2, fun _ => needsArg_of_string rfl,
    fun h => absurd h.symm hindex.1, fun _ => needsArg_of_numeric rfl,
    fun _ => needsArg_of_numeric rfl, fun _ => needsArg_of_string rfl,
    fun _ => needsArg_of_numeric rfl, fun h => absurd h.symm hindex.1,
    fun _ => needsArg_of_string rfl, fun _ => needsArg_of_numeric rfl⟩

/-- A checked option is read without a null pointer. -/
theorem readOption_eq {opt : Opt OptionIndex} (h : Parser.Checked usage opt) (s : Settings) :
    readOption s opt = some (applyOption s opt) := by
  have harg : opt.index ≠ .UNKNOWN_OPT ∧ opt.index ≠ .HELP ∧ opt.index ≠ .TLS →
      opt.arg.isSome := fun hindex => isSome_arg h (needsArg_usage hindex)
  obtain ⟨index, place, arg⟩ := opt
  cases index <;> cases arg <;> first | rfl | simp at harg

variable {p : Parse OptionIndex} {parsed : Parsed OptionIndex}
  (hp : Holds OptionIndex.value usage p parsed)
  (hchecked : ∀ opt ∈ parsed.options, Parser.Checked usage opt)
include hp hchecked

/-- The loop over `buffer` goes over the options in their order. -/
theorem readOptions_eq : ∀ (rounds : Nat) (s : Settings), rounds ≤ parsed.options.length →
    readOptions p rounds s
      = some ((parsed.options.drop (parsed.options.length - rounds)).foldlM applyOption s)
  | 0, s, _ => by
    rw [Nat.sub_zero, List.drop_length]
    rfl
  | rounds + 1, s, hrounds => by
    have hlt : parsed.options.length - (rounds + 1) < parsed.options.length := by omega
    have hsub : parsed.options.length - (rounds + 1) + 1 = parsed.options.length - rounds := by
      omega
    rw [readOptions, hp.op_count, hp.buffer _ hlt, List.getElem?_eq_getElem hlt, Option.bind_some,
      List.drop_eq_getElem_cons hlt, List.foldlM_cons, hsub]
    simp only
    rw [readOption_eq (hchecked _ (List.getElem_mem hlt)), Option.bind_some]
    cases applyOption s parsed.options[parsed.options.length - (rounds + 1)] with
    | none => rfl
    | some s' => exact readOptions_eq rounds s' (by omega)

omit hp hchecked in
theorem argvMain_eq {args : List (List Char)} (hlimit : args.flatten.length < limit) :
    argvMain args = some (main args) := by
  cases args with
  | nil => rfl
  | cons type_name args =>
    have hrest : characters (Parser.tokens args) < limit := by
      rw [List.flatten_cons, List.length_append] at hlimit
      rw [characters_tokens]
      omega
    rw [argvMain, main]
    cases hparse : parse args with
    | none =>
      obtain ⟨p, hp, herr⟩ := ofArgv_of_none OptionIndex.value definite_usage hrest hparse
      rw [hp, Option.bind_some, if_pos herr]
    | some parsed =>
      obtain ⟨p, hp, hholds, -⟩ := ofArgv_of_some OptionIndex.value definite_usage hrest hparse
      have hchecked := Parser.checked_of_workhorse hparse
      have hhelp : p.options OptionIndex.HELP.value = some (parsed.option .HELP) := by
        rw [hholds.options ⟨.HELP, "h", "help", Arg.None⟩ (by simp [usage]), Parsed.option]
        simp only [OptionIndex.value_inj]
      have hhas : (parsed.option .HELP).isSome = parsed.has .HELP := rfl
      have hread := readOptions_eq hholds hchecked parsed.options.length Settings.initial (le_refl _)
      rw [Nat.sub_self, List.drop_zero] at hread
      rw [hp, Option.bind_some, if_neg (by rw [hholds.err]; exact Bool.false_ne_true), hhelp,
        Option.bind_some, hhas, hholds.op_count, hread]
      dsimp only
      by_cases h : parsed.has .HELP = true
      · rw [if_pos h, if_pos h]
      · rw [if_neg h]
        refine Eq.trans ?_ (congrArg some (if_neg h).symm)
        cases parsed.options.foldlM applyOption Settings.initial <;> rfl

end HelloWorldExampleTCP

/--
**The arrays hold what `main` relies on.** On every command line of less than 2^31 - 1 characters, each
of the programs starts what it starts on the pass without an action, without a read outside of the
arrays or through a null pointer.
-/
theorem argv_mains_start {args : List (List Char)} (hlimit : args.flatten.length < limit) :
    argvMain args = some (optionMain args) ∧
      HelloWorldExampleTCP.argvMain args = some (HelloWorldExampleTCP.main args) :=
  ⟨argvMain_eq hlimit, HelloWorldExampleTCP.argvMain_eq hlimit⟩

theorem argv_mains_start_publisher :
    argvMain ["publisher".toList, "-i".toList, "7".toList]
        = some (optionMain ["publisher".toList, "-i".toList, "7".toList]) ∧
      HelloWorldExampleTCP.argvMain ["publisher".toList, "-i".toList, "7".toList]
        = some (HelloWorldExampleTCP.main ["publisher".toList, "-i".toList, "7".toList]) :=
  argv_mains_start (by decide)

end DdsApps.Options
