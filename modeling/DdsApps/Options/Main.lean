import DdsApps.Infra.Numerals
import DdsApps.Options.Parser

/-!
# `main` of the programs with options

`HelloWorldExample`, `ImageTest`, `PointCloudTest`, `HeaderTest` and `TransformStampedTest` have one
`main`, up to the names of what it starts; `HelloWorldExampleTCP` has its own. Command lines are
given without the name of the program; their strings contain no zero.
-/

namespace DdsApps.Options

open DdsApps.Infra

/-! ## Checkers -/

def Arg.None (_ : Option (List Char)) : ArgStatus := .none

def Arg.String (arg : Option (List Char)) : ArgStatus := if arg.isSome then .ok else .illegal

/-- `Numeric` of `HelloWorldExampleTCP` -/
def Arg.Numeric : Option (List Char) → ArgStatus
  | some arg => if (strtol arg).2 ≠ arg ∧ (strtol arg).2 = [] then .ok else .illegal
  | none => .illegal

/-- `NumericRange<min, max>` -/
def Arg.NumericRange (min max : Int) : Option (List Char) → ArgStatus
  | some arg =>
    if (strtol arg).2 ≠ arg ∧ (strtol arg).2 = [] ∧ min ≤ (strtol arg).1 ∧ (strtol arg).1 ≤ max
    then .ok else .illegal
  | none => .illegal

/-- `std::numeric_limits<long>::max()` -/
def longMax : Int := 9223372036854775807

/-- `NumericRange<>` -/
def Arg.NumericRangeDefault : Option (List Char) → ArgStatus := Arg.NumericRange 0 longMax

/-! ## What the parser is asked -/

section Parsed

variable {ι : Type} [DecidableEq ι]

/-- `options[index]`: the first of its kind. -/
def Parsed.option (p : Parsed ι) (index : ι) : Option (Opt ι) :=
  p.options.find? fun opt => opt.index = index

def Parsed.has (p : Parsed ι) (index : ι) : Bool := (p.option index).isSome

/-- The last of its kind. -/
def Parsed.last (p : Parsed ι) (index : ι) : Option (Opt ι) :=
  (p.options.filter fun opt => opt.index = index).getLast?

/-- `nonOption(i)` -/
def Parsed.nonOption (p : Parsed ι) (i : Nat) : List Char :=
  match p.nonOptions[i]? with
  | some t => t.text
  | none => []

/-- `type_name >= buffer[0].name`: the first non-option comes after the first option. -/
def Parsed.typeAfterOption (p : Parsed ι) : Bool :=
  match p.nonOptions, p.options with
  | type_name :: _, opt :: _ => opt.place ≤ type_name.place
  | _, _ => false

end Parsed

inductive EntityType
  | publisher
  | subscriber
deriving DecidableEq, Repr

/-! ## The programs with sample ranges -/

inductive OptionIndex
  | UNKNOWN_OPT
  | HELP
  | SAMPLES
  | INTERVAL
  | ENVIRONMENT
deriving DecidableEq, Repr

def usage : List (Descriptor OptionIndex) :=
  [⟨.UNKNOWN_OPT, "", "", Arg.None⟩,
    ⟨.HELP, "h", "help", Arg.None⟩,
    ⟨.UNKNOWN_OPT, "", "", Arg.None⟩,
    ⟨.SAMPLES, "s", "samples", Arg.NumericRangeDefault⟩,
    ⟨.INTERVAL, "i", "interval", Arg.NumericRangeDefault⟩,
    ⟨.ENVIRONMENT, "e", "env", Arg.None⟩]

/-- What `main` comes to. -/
inductive Started
  /-- it has printed the usage, and returns this -/
  | refused (status : Int)
  /-- `mypub.init(use_environment_qos)` and, if that succeeds, `mypub.run(count, sleep)` -/
  | publisher (use_environment_qos : Bool) (count sleep : UInt32)
  /-- the same of `mysub`, whose `run` takes nothing -/
  | subscriber (use_environment_qos : Bool)
deriving DecidableEq, Repr

def parse (args : List (List Char)) : Option (Parsed OptionIndex) :=
  Parser.workhorse true usage false (Parser.tokens args)

/-- The `strtol` of an option's argument in an `uint32_t` that starts with a default. -/
def numericOption (p : Parsed OptionIndex) (index : OptionIndex) (default : UInt32) : UInt32 :=
  match (p.option index).bind Opt.arg with
  | some arg => UInt32.ofInt (strtol arg).1
  | none => default

/-- The `switch` over `type`. -/
def start (type : EntityType) (use_environment_qos : Bool) (count sleep : UInt32) : Started :=
  match type with
  | .publisher => .publisher use_environment_qos count sleep
  | .subscriber => .subscriber use_environment_qos

def typeOf (type_name : List Char) : Option EntityType :=
  if type_name = "publisher".toList then some .publisher
  else if type_name = "subscriber".toList then some .subscriber
  else none

/-- The choice between the old and the new syntax. -/
def startWith (p : Parsed OptionIndex) (type : EntityType) : Started :=
  if p.nonOptions.length > 1 then
    -- old and new syntax cannot be mixed
    if type ≠ .publisher ∨ p.options.length > 0 then .refused 1
    else
      let count := UInt32.ofInt (atoi (p.nonOption 1))
      let sleep := if p.nonOptions.length = 3 then UInt32.ofInt (atoi (p.nonOption 2)) else 100
      start type false count sleep
  else
    start type (p.has .ENVIRONMENT) (numericOption p .SAMPLES 10) (numericOption p .INTERVAL 100)

def optionMain (args : List (List Char)) : Started :=
  match parse args with
  | none => .refused 1
  | some p =>
    if p.has .HELP || p.has .UNKNOWN_OPT then .refused 1
    -- count and sleep may be given positionally
    else if p.nonOptions.length > 3 ∨ p.nonOptions.length = 0 then .refused 2
    else if p.typeAfterOption then .refused 2
    else
      match typeOf (p.nonOption 0) with
      | none => .refused 2
      | some type => startWith p type

def HelloWorldExample.main := optionMain

def ImageTest.main := optionMain

def PointCloudTest.main := optionMain

def HeaderTest.main := optionMain

def TransformStampedTest.main := optionMain

/-- All of them, for what holds of each. -/
def mains : List (List (List Char) → Started) :=
  [HelloWorldExample.main, ImageTest.main, PointCloudTest.main, HeaderTest.main,
    TransformStampedTest.main]

theorem forall_mains {P : (List (List Char) → Started) → Prop} (h : P optionMain) :
    ∀ main ∈ mains, P main := by
  simp only [mains, List.forall_mem_cons, List.not_mem_nil, false_implies, implies_true, and_true]
  exact ⟨h, h, h, h, h⟩

/-! ## `HelloWorldExampleTCP` -/

namespace HelloWorldExampleTCP

inductive OptionIndex
  | UNKNOWN_OPT
  | HELP
  | SAMPLES
  | INTERVAL
  | IP
  | PORT
  | TLS
  | WHITELIST
deriving DecidableEq, Repr

def usage : List (Descriptor OptionIndex) :=
  [⟨.UNKNOWN_OPT, "", "", Arg.None⟩,
    ⟨.HELP, "h", "help", Arg.None⟩,
    ⟨.TLS, "t", "tls", Arg.None⟩,
    ⟨.WHITELIST, "w", "whitelist", Arg.String⟩,
    ⟨.UNKNOWN_OPT, "", "", Arg.None⟩,
    ⟨.SAMPLES, "s", "samples", Arg.Numeric⟩,
    ⟨.INTERVAL, "i", "interval", Arg.Numeric⟩,
    ⟨.IP, "a", "address", Arg.String⟩,
    ⟨.PORT, "p", "port", Arg.Numeric⟩,
    ⟨.UNKNOWN_OPT, "", "", Arg.None⟩,
    ⟨.IP, "a", "address", Arg.String⟩,
    ⟨.PORT, "p", "port", Arg.Numeric⟩]

/-- The variables the options set. -/
structure Settings where
  /-- an `int` -/
  count : Int
  /-- a `long` -/
  sleep : Int
  wan_ip : List Char
  /-- an `int` -/
  port : Int
  use_tls : Bool
  whitelist : List (List Char)
deriving DecidableEq, Repr

def Settings.initial : Settings :=
  { count := 0, sleep := 100, wan_ip := [], port := 5100, use_tls := false, whitelist := [] }

/-- One option of the loop over `buffer`; `none` where it prints the usage and returns 0. -/
def applyOption (s : Settings) (opt : Opt OptionIndex) : Option Settings :=
  match opt.index, opt.arg with
  | .HELP, _ => some s
  | .SAMPLES, some arg => some { s with count := wrapInt (strtol arg).1 }
  | .INTERVAL, some arg => some { s with sleep := (strtol arg).1 }
  | .IP, some arg => some { s with wan_ip := arg }
  | .IP, none => none
  | .PORT, some arg => some { s with port := wrapInt (strtol arg).1 }
  | .TLS, _ => some { s with use_tls := true }
  | .WHITELIST, some arg => some { s with whitelist := s.whitelist ++ [arg] }
  | .UNKNOWN_OPT, _ => none
  -- their checkers accept no null pointer
  | .SAMPLES, none | .INTERVAL, none | .PORT, none | .WHITELIST, none => some s

/-- What `main` comes to. -/
inductive Started
  | returned (status : Int)
  /-- `mypub.init(..)` and, if that succeeds, `mypub.run(samples, sleep_ms)` -/
  | publisher (wan_ip : List Char) (port : UInt16) (use_tls : Bool)
    (whitelist : List (List Char)) (samples : UInt32) (sleep_ms : Int)
  /-- the same of `mysub`, whose `run` takes nothing -/
  | subscriber (wan_ip : List Char) (port : UInt16) (use_tls : Bool)
    (whitelist : List (List Char))
deriving DecidableEq, Repr

/-- The options follow the `publisher` or `subscriber`, which nothing else checks. -/
def parse (args : List (List Char)) : Option (Parsed OptionIndex) :=
  Parser.workhorse false usage false (Parser.tokens args)

def start (type_name : List Char) (s : Settings) : Started :=
  if type_name = "subscriber".toList then
    .subscriber s.wan_ip (UInt16.ofInt s.port) s.use_tls s.whitelist
  else
    .publisher s.wan_ip (UInt16.ofInt s.port) s.use_tls s.whitelist (UInt32.ofInt s.count) s.sleep

def main : List (List Char) → Started
  | [] => .returned 0
  | type_name :: args =>
    match parse args with
    | none => .returned 1
    | some p =>
      if p.has .HELP then .returned 0
      else
        match p.options.foldlM applyOption Settings.initial with
        | none => .returned 0
        | some s => start type_name s

end HelloWorldExampleTCP

end DdsApps.Options
