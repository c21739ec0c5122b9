import Mathlib.Data.List.Basic

/-!
# The bundled option parser

`optionparser.h`, as the applications use it: full names of long options, no long options behind a
single minus. Its table of options is a list of descriptors, each with the function that checks the
argument.

`Stats` runs the same loop once before to count. It moves the options to the front of `argv`, where
the second run finds them again, in the same order and with the same arguments.

* `Parser.workhorse` — the loop over the command line
* `Parser.checked_of_workhorse` — no option gets past it whose argument was not checked
* `Parser.workhorse_nonOption`, `Parser.workhorse_option` — what it does with a token
-/

namespace DdsApps.Options

/-! ## Tables of options -/

/-- `ARG_NONE`, `ARG_OK`, `ARG_IGNORE`, `ARG_ILLEGAL` -/
inductive ArgStatus
  | none
  | ok
  | ignore
  | illegal
deriving DecidableEq, Repr

/-- What `check_arg` looks at is the argument; a missing one is a null pointer. -/
structure Descriptor (ι : Type) where
  index : ι
  shortopt : String
  longopt : String
  check_arg : Option (List Char) → ArgStatus

/-- One string of `argv`, and where it is: they lie one after the other in memory. -/
structure Token where
  place : Nat
  text : List Char
deriving DecidableEq, Repr

/-- An option that was found; `name` points into the token at `place`. -/
structure Opt (ι : Type) where
  index : ι
  place : Nat
  arg : Option (List Char)
deriving DecidableEq, Repr

/-- What `Parser` holds after a parse without errors. -/
structure Parsed (ι : Type) where
  options : List (Opt ι)
  nonOptions : List Token
deriving DecidableEq, Repr

namespace Parser

variable {ι : Type}

/-! ## Finding a descriptor -/

/-- `streq(st1, st2)`: the first is the second, or all of it up to a `=`. -/
def streq : List Char → List Char → Bool
  | [], [] => true
  | [], c :: _ => c == '='
  | _ :: _, [] => false
  | a :: st1, b :: st2 => a == b && streq st1 st2

/-- The entry for unknown options. -/
def dummy (usage : List (Descriptor ι)) : Option (Descriptor ι) :=
  usage.find? fun d => d.shortopt == "" && d.longopt == ""

def findShort (usage : List (Descriptor ι)) (c : Char) : Option (Descriptor ι) :=
  (usage.find? fun d => d.shortopt.toList.contains c).or (dummy usage)

def findLong (usage : List (Descriptor ι)) (longopt_name : List Char) : Option (Descriptor ι) :=
  (usage.find? fun d => streq d.longopt.toList longopt_name).or (dummy usage)

/-! ## One token -/

/--
The option for a descriptor, and whether it has taken `optarg` as its argument. `none` is the
fatal `ARG_ILLEGAL`.
-/
def perform (d : Descriptor ι) (place : Nat) (optarg : Option (List Char)) :
    Option (Opt ι × Bool) :=
  match d.check_arg optarg with
  | .illegal => none
  | .ok => some (⟨d.index, place, optarg⟩, true)
  | .ignore | .none => some (⟨d.index, place, none⟩, false)

/-- A group of short options: those found, and whether the last one has taken the next token. -/
def shortOptions (usage : List (Descriptor ι)) (place : Nat) (next : Option (List Char)) :
    List Char → Option (List (Opt ι) × Bool)
  | [] => some ([], false)
  | c :: rest =>
    match findShort usage c with
    | none => shortOptions usage place next rest
    | some d =>
      match perform d place (if rest.isEmpty then next else some rest) with
      | none => none
      -- no further short options are possible after an argument
      | some (opt, true) => some ([opt], rest.isEmpty && next.isSome)
      | some (opt, false) =>
        (shortOptions usage place next rest).map fun (opts, taken) => (opt :: opts, taken)

/-- What follows the `=` of a long option. -/
def attached (longopt_name : List Char) : Option (List Char) :=
  match longopt_name.dropWhile (· ≠ '=') with
  | [] => none
  | _ :: arg => some arg

def longOption (usage : List (Descriptor ι)) (place : Nat) (next : Option (List Char))
    (longopt_name : List Char) : Option (List (Opt ι) × Bool) :=
  match findLong usage longopt_name with
  | none => some ([], false)
  | some d =>
    (perform d place ((attached longopt_name).or next)).map fun (opt, taken) =>
      ([opt], taken && (attached longopt_name).isNone && next.isSome)

/-! ## The command line -/

/--
`workhorse`. Without `gnu` the first non-option ends the options.

`taken` tells that the first token is the argument of the option before it.
-/
def workhorse (gnu : Bool) (usage : List (Descriptor ι)) :
    (taken : Bool) → List Token → Option (Parsed ι)
  | _, [] => some ⟨[], []⟩
  | true, _ :: rest => workhorse gnu usage false rest
  | false, t :: rest =>
    match t.text with
    | ['-', '-'] => some ⟨[], rest⟩
    | '-' :: '-' :: longopt_name =>
      match longOption usage t.place (rest.head?.map Token.text) longopt_name with
      | none => none
      | some (opts, taken) =>
        (workhorse gnu usage taken rest).map fun p => { p with options := opts ++ p.options }
    | '-' :: c :: group =>
      match shortOptions usage t.place (rest.head?.map Token.text) (c :: group) with
      | none => none
      | some (opts, taken) =>
        (workhorse gnu usage taken rest).map fun p => { p with options := opts ++ p.options }
    | _ =>
      if gnu then
        (workhorse gnu usage false rest).map fun p => { p with nonOptions := t :: p.nonOptions }
      else some ⟨[], t :: rest⟩

/-- The strings of `argv`, in their places. -/
def tokens (argv : List (List Char)) : List Token :=
  argv.zipIdx.map fun (text, place) => ⟨place, text⟩

/-! ## What is found has been checked -/

/-- Its descriptor has accepted the argument, or has none. -/
def Checked (usage : List (Descriptor ι)) (opt : Opt ι) : Prop :=
  ∃ d ∈ usage, d.index = opt.index ∧
    (d.check_arg opt.arg = .ok ∨
      ∃ optarg, d.check_arg optarg = .none ∨ d.check_arg optarg = .ignore)

variable {usage : List (Descriptor ι)}

theorem mem_of_findShort {c : Char} {d : Descriptor ι} (h : findShort usage c = some d) :
    d ∈ usage := by
  rcases Option.or_eq_some_iff.mp h with h | ⟨-, h⟩
  · exact List.mem_of_find?_eq_some h
  · exact List.mem_of_find?_eq_some h

theorem mem_of_findLong {name : List Char} {d : Descriptor ι} (h : findLong usage name = some d) :
    d ∈ usage := by
  rcases Option.or_eq_some_iff.mp h with h | ⟨-, h⟩
  · exact List.mem_of_find?_eq_some h
  · exact List.mem_of_find?_eq_some h

theorem checked_of_perform {d : Descriptor ι} (hd : d ∈ usage) {place : Nat}
    {optarg : Option (List Char)} {opt : Opt ι} {taken : Bool}
    (h : perform d place optarg = some (opt, taken)) : Checked usage opt := by
  unfold perform at h
  split at h
  · cases h
  · next hok =>
    cases h
    exact ⟨d, hd, rfl, Or.inl hok⟩
  · next hignore =>
    cases h
    exact ⟨d, hd, rfl, Or.inr ⟨optarg, Or.inr hignore⟩⟩
  · next hnone =>
    cases h
    exact ⟨d, hd, rfl, Or.inr ⟨optarg, Or.inl hnone⟩⟩

theorem checked_of_shortOptions {place : Nat} {next : Option (List Char)} :
    ∀ {group : List Char} {opts : List (Opt ι)} {taken : Bool},
      shortOptions usage place next group = some (opts, taken) → ∀ opt ∈ opts, Checked usage opt
  | [], _, _, h => by
    cases h
    intro opt hmem
    cases hmem
  | c :: rest, opts, taken, h => by
    unfold shortOptions at h
    split at h
    · exact checked_of_shortOptions h
    · next d hd =>
      split at h
      · cases h
      · next opt hperform =>
        cases h
        rw [List.forall_mem_singleton]
        exact checked_of_perform (mem_of_findShort hd) hperform
      · next opt hperform =>
        obtain ⟨⟨opts', taken'⟩, hrest, heq⟩ := Option.map_eq_some_iff.mp h
        cases heq
        rw [List.forall_mem_cons]
        exact ⟨checked_of_perform (mem_of_findShort hd) hperform, checked_of_shortOptions hrest⟩

theorem checked_of_longOption {place : Nat} {next : Option (List Char)} {name : List Char}
    {opts : List (Opt ι)} {taken : Bool}
    (h : longOption usage place next name = some (opts, taken)) :
    ∀ opt ∈ opts, Checked usage opt := by
  unfold longOption at h
  split at h
  · cases h
    intro opt hmem
    cases hmem
  · next d hd =>
    obtain ⟨⟨opt, taken'⟩, hperform, heq⟩ := Option.map_eq_some_iff.mp h
    cases heq
    rw [List.forall_mem_singleton]
    exact checked_of_perform (mem_of_findLong hd) hperform

/-- **Every option the loop finds has been checked.** -/
theorem checked_of_workhorse {gnu : Bool} : ∀ {argv : List Token} {taken : Bool} {p : Parsed ι},
    workhorse gnu usage taken argv = some p → ∀ opt ∈ p.options, Checked usage opt
  | [], taken, p, h => by
    cases taken
    all_goals
      cases h
      intro opt hmem
      cases hmem
  | _ :: rest, true, p, h => by
    have hrest : workhorse gnu usage false rest = some p := h
    exact checked_of_workhorse hrest
  | t :: rest, false, p, h => by
    unfold workhorse at h
    split at h
    · cases h
      intro opt hmem
      cases hmem
    · split at h
      · cases h
      · next opts taken' hopts =>
        obtain ⟨p', hrest, rfl⟩ := Option.map_eq_some_iff.mp h
        rw [List.forall_mem_append]
        exact ⟨checked_of_longOption hopts, checked_of_workhorse hrest⟩
    · split at h
      · cases h
      · next opts taken' hopts =>
        obtain ⟨p', hrest, rfl⟩ := Option.map_eq_some_iff.mp h
        rw [List.forall_mem_append]
        exact ⟨checked_of_shortOptions hopts, checked_of_workhorse hrest⟩
    · split at h
      · obtain ⟨p', hrest, rfl⟩ := Option.map_eq_some_iff.mp h
        exact checked_of_workhorse (p := p') hrest
      · cases h
        intro opt hmem
        cases hmem

/-! ## One token at a time, with `gnu` -/

/-- A token that does not begin with `-` is a non-option. -/
theorem workhorse_nonOption {t : Token} (ht : t.text.head? ≠ some '-') (rest : List Token) :
    workhorse true usage false (t :: rest) = (workhorse true usage false rest).map fun p =>
      { p with nonOptions := t :: p.nonOptions } := by
  have hne : ∀ s, t.text ≠ '-' :: s := by
    intro s hs
    rw [hs] at ht
    exact ht rfl
  rw [workhorse]
  split
  · next h => exact absurd h (hne _)
  · next h => exact absurd h (hne _)
  · next h => exact absurd h (hne _)
  · rfl

/-- A token of short options. -/
theorem workhorse_short {c : Char} (hc : c ≠ '-') (place : Nat) (group : List Char)
    (rest : List Token) :
    workhorse true usage false (⟨place, '-' :: c :: group⟩ :: rest)
      = (shortOptions usage place (rest.head?.map Token.text) (c :: group)).bind fun found =>
          (workhorse true usage found.2 rest).map fun p =>
            { p with options := found.1 ++ p.options } := by
  rw [workhorse]
  split
  · next h =>
    cases h
    exact absurd rfl hc
  · next h =>
    cases h
    exact absurd rfl hc
  · next h =>
    cases h
    cases shortOptions usage place (rest.head?.map Token.text) (c :: group) <;> rfl
  · next h => exact absurd rfl (h c group)

variable {c : Char} {d : Descriptor ι} {place next : Nat} {arg : List Char}

/-- A short option alone, whose checker accepts the token behind it. -/
theorem workhorse_option (hc : c ≠ '-') (hd : findShort usage c = some d)
    (hok : d.check_arg (some arg) = .ok) (rest : List Token) :
    workhorse true usage false (⟨place, ['-', c]⟩ :: ⟨next, arg⟩ :: rest)
      = (workhorse true usage false rest).map fun p =>
          { p with options := ⟨d.index, place, some arg⟩ :: p.options } := by
  have hfound : shortOptions usage place (some arg) [c]
      = some ([⟨d.index, place, some arg⟩], true) := by
    simp only [shortOptions, hd, perform, List.isEmpty_nil, if_true, hok, Bool.true_and,
      Option.isSome_some]
  rw [workhorse_short hc, List.head?_cons, Option.map_some, hfound, Option.bind_some]
  rfl

/-- The same, where it does not. -/
theorem workhorse_illegal (hc : c ≠ '-') (hd : findShort usage c = some d)
    (hillegal : d.check_arg (some arg) = .illegal) (rest : List Token) :
    workhorse true usage false (⟨place, ['-', c]⟩ :: ⟨next, arg⟩ :: rest) = none := by
  have hfound : shortOptions usage place (some arg) [c] = none := by
    simp only [shortOptions, hd, perform, List.isEmpty_nil, if_true, hillegal]
  rw [workhorse_short hc, List.head?_cons, Option.map_some, hfound, Option.bind_none]

end Parser

end DdsApps.Options
