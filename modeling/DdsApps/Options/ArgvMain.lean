import DdsApps.Options.Main
import DdsApps.Options.Store

/-!
# `main` on memory

The programs with options once more, with the parser's arrays. An access outside of them, or one
through a null pointer, comes to `none`.
-/

namespace DdsApps.Options

open DdsApps.Infra Argv

/-! ## The programs with sample ranges -/

def OptionIndex.value : OptionIndex → Nat
  | .UNKNOWN_OPT => 0
  | .HELP => 1
  | .SAMPLES => 2
  | .INTERVAL => 3
  | .ENVIRONMENT => 4

/-- `strtol(opt->arg, nullptr, 10)` in an `uint32_t`, if there is such an option. -/
def Argv.Parse.numericOption (parse : Parse OptionIndex) (index : OptionIndex)
    (default : UInt32) : Option UInt32 :=
  (parse.options index.value).bind fun opt =>
    match opt with
    | none => some default
    | some opt => opt.arg.map fun arg => UInt32.ofInt (strtol arg).1

/-- `parse.optionsCount() && type_name >= buffer[0].name` -/
def Argv.Parse.typeAfterOption {ι : Type} (parse : Parse ι) (type_name : Token) : Option Bool :=
  if parse.op_count = 0 then some false
  else (parse.buffer 0).bind fun opt => opt.map fun opt => opt.place ≤ type_name.place

/-- The choice between the old and the new syntax. -/
def Argv.Parse.startWith (parse : Parse OptionIndex) (type : EntityType) : Option Started :=
  if parse.nonop_count > 1 then
    if type ≠ .publisher ∨ parse.op_count > 0 then some (.refused 1)
    else
      (parse.nonOption 1).bind fun count =>
        if parse.nonop_count = 3 then
          (parse.nonOption 2).map fun sleep =>
            start type false (UInt32.ofInt (atoi count.text)) (UInt32.ofInt (atoi sleep.text))
        else some (start type false (UInt32.ofInt (atoi count.text)) 100)
  else
    (parse.numericOption .SAMPLES 10).bind fun count =>
      (parse.numericOption .INTERVAL 100).bind fun sleep =>
        (parse.options OptionIndex.ENVIRONMENT.value).map fun opt =>
          start type opt.isSome count sleep

def argvMain (args : List (List Char)) : Option Started :=
  (Parse.ofArgv OptionIndex.value true usage (Parser.tokens args)).bind fun parse =>
    if parse.err then some (.refused 1)
    else
      (parse.options OptionIndex.HELP.value).bind fun help =>
        (parse.options OptionIndex.UNKNOWN_OPT.value).bind fun unknown =>
          if help.isSome || unknown.isSome then some (.refused 1)
          else if parse.nonop_count > 3 ∨ parse.nonop_count = 0 then some (.refused 2)
          else
            (parse.nonOption 0).bind fun type_name =>
              (parse.typeAfterOption type_name).bind fun after =>
                if after then some (.refused 2)
                else
                  match typeOf type_name.text with
                  | none => some (.refused 2)
                  | some type => parse.startWith type

/-! ## `HelloWorldExampleTCP` -/

namespace HelloWorldExampleTCP

def OptionIndex.value : OptionIndex → Nat
  | .UNKNOWN_OPT => 0
  | .HELP => 1
  | .SAMPLES => 2
  | .INTERVAL => 3
  | .IP => 4
  | .PORT => 5
  | .TLS => 6
  | .WHITELIST => 7

/--
The body of the loop; `some none` where it prints the usage and returns 0. Only the address is
compared with a null pointer before it is read.
-/
def readOption (s : Settings) (opt : Opt OptionIndex) : Option (Option Settings) :=
  match opt.index, opt.arg with
  | .HELP, _ => some (some s)
  | .SAMPLES, some arg => some (some { s with count := wrapInt (strtol arg).1 })
  | .INTERVAL, some arg => some (some { s with sleep := (strtol arg).1 })
  | .IP, some arg => some (some { s with wan_ip := arg })
  | .IP, none => some none
  | .PORT, some arg => some (some { s with port := wrapInt (strtol arg).1 })
  | .TLS, _ => some (some { s with use_tls := true })
  | .WHITELIST, some arg => some (some { s with whitelist := s.whitelist ++ [arg] })
  | .UNKNOWN_OPT, _ => some none
  | .SAMPLES, none | .INTERVAL, none | .PORT, none | .WHITELIST, none => none

/-- `for (int i = 0; i < parse.optionsCount(); ++i)`, from the last `rounds` on. -/
def readOptions (parse : Parse OptionIndex) : (rounds : Nat) → Settings → Option (Option Settings)
  | 0, s => some (some s)
  | rounds + 1, s =>
    (parse.buffer (parse.op_count - (rounds + 1))).bind fun opt =>
      match opt with
      -- an option without a descriptor has the index -1
      | none => readOptions parse rounds s
      | some opt =>
        (readOption s opt).bind fun s =>
          match s with
          | none => some none
          | some s => readOptions parse rounds s

def argvMain : List (List Char) → Option Started
  | [] => some (.returned 0)
  | type_name :: args =>
    (Parse.ofArgv OptionIndex.value false usage (Parser.tokens args)).bind fun parse =>
      if parse.err then some (.returned 1)
      else
        (parse.options OptionIndex.HELP.value).bind fun help =>
          if help.isSome then some (.returned 0)
          else
            (readOptions parse parse.op_count Settings.initial).map fun s =>
              match s with
              | none => .returned 0
              | some s => start type_name s

end HelloWorldExampleTCP

end DdsApps.Options
