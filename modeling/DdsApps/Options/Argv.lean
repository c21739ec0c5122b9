import Mathlib.Data.List.Induction
import DdsApps.Options.Parser

/-!
# The option loop on `argv`

`Parser::workhorse` as it works on memory. It goes over `argv` with a pointer, calls an action for
each option it finds, and moves options and their arguments in front of the non-options it has
passed. A read or write outside `argv` comes to `none`, and so does one of the action.

`argc` is the length of `argv`, which contains no null pointer before its end.

* `shift` — one string is moved back over the non-options
* `workhorse` — the loop
* `scan` — the options it finds, and in which order it leaves `argv`, in one pass over the strings
* `exists_workhorse` — the loop, by way of `scan`
-/

namespace DdsApps.Options.Argv

variable {ι σ : Type}

/-! ## The loop -/

/-- `Parser::Action`: `perform` may return `false`, which ends the loop. -/
structure Action (ι σ : Type) where
  perform : Opt ι → σ → Option (Bool × σ)

/-- `args` and `nonops`, the strings passed over; `args` is a place in `argv`. -/
structure Cursor where
  argv : List Token
  args : Nat
  nonops : Nat
deriving DecidableEq, Repr

/-- What the loop leaves: the arguments of `finished`, or that it has returned `false` before. -/
structure Run (σ : Type) where
  argv : List Token
  state : σ
  finished : Option (Nat × Nat)
deriving DecidableEq, Repr

/-- Swaps `args[0]` and `args[-1]`, `args[-1]` and `args[-2]`, and so on, `count` times. -/
def shift : (count args : Nat) → List Token → Option (List Token)
  | 0, _, argv => some argv
  | _ + 1, 0, _ => none
  | count + 1, args + 1, argv =>
    match argv[args + 1]?, argv[args]? with
    | some temp, some before => shift count args ((argv.set (args + 1) before).set args temp)
    | _, _ => none

/-- `shift(args, nonops)` and `++args` -/
def Cursor.advance (c : Cursor) : Option Cursor :=
  (shift c.nonops c.args c.argv).map fun argv => { c with argv, args := c.args + 1 }

/-- What has happened in the loop over a group. -/
structure Handled (σ : Type) where
  /-- it has not returned `false` -/
  ok : Bool
  /-- the next string was the argument of the last option -/
  taken : Bool
  state : σ
deriving DecidableEq, Repr

/-- One option: checks it, and passes it to the action if it is legal. -/
def handleOption (action : Action ι σ) (d : Descriptor ι) (place : Nat)
    (optarg : Option (List Char)) (separate : Bool) (st : σ) : Option (Handled σ × Bool) :=
  match d.check_arg optarg with
  | .illegal => some (⟨false, false, st⟩, false)
  | .ok =>
    (action.perform ⟨d.index, place, optarg⟩ st).map fun r =>
      (⟨r.1, separate && optarg.isSome, r.2⟩, false)
  | .ignore | .none =>
    (action.perform ⟨d.index, place, none⟩ st).map fun r => (⟨r.1, false, r.2⟩, r.1)

/-- The loop over the characters of a group. -/
def handleShort (action : Action ι σ) (usage : List (Descriptor ι)) (place : Nat)
    (next : Option (List Char)) : List Char → σ → Option (Handled σ)
  | [], st => some ⟨true, false, st⟩
  | c :: rest, st =>
    match Parser.findShort usage c with
    | none => handleShort action usage place next rest st
    | some d =>
      (handleOption action d place (if rest.isEmpty then next else some rest) rest.isEmpty st).bind
        fun (handled, more) =>
          if more then handleShort action usage place next rest handled.state else some handled

def handleLong (action : Action ι σ) (usage : List (Descriptor ι)) (place : Nat)
    (next : Option (List Char)) (longopt_name : List Char) (st : σ) : Option (Handled σ) :=
  match Parser.findLong usage longopt_name with
  | none => some ⟨true, false, st⟩
  | some d =>
    (handleOption action d place ((Parser.attached longopt_name).or next)
      (Parser.attached longopt_name).isNone st).map Prod.fst

/-- A string that begins with a minus and is not `-` or `--`; `text` is what follows the minus. -/
def handle (action : Action ι σ) (usage : List (Descriptor ι)) (place : Nat)
    (next : Option (List Char)) (text : List Char) (st : σ) : Option (Handled σ) :=
  match text with
  | '-' :: longopt_name => handleLong action usage place next longopt_name st
  | group => handleShort action usage place next group st

/-- The string behind `*args`, if there is one. -/
def Cursor.next (c : Cursor) (have_more_args : Bool) : Option (Option (List Char)) :=
  if have_more_args then (c.argv[c.args + 1]?).map fun t => some t.text else some none

def workhorse (action : Action ι σ) (gnu : Bool) (usage : List (Descriptor ι)) :
    (numargs : Nat) → Cursor → σ → Option (Run σ)
  | 0, c, st => some ⟨c.argv, st, some (c.nonops, c.args - c.nonops)⟩
  | numargs + 1, c, st =>
    (c.argv[c.args]?).bind fun param =>
      match param.text with
      | ['-', '-'] =>
        c.advance.map fun c => ⟨c.argv, st, some (numargs + c.nonops, c.args - c.nonops)⟩
      | '-' :: ch :: text =>
        (c.next (numargs > 0)).bind fun next =>
          (handle action usage param.place next (ch :: text) st).bind fun handled =>
            if handled.taken then
              match numargs with
              | 0 => none
              | numargs + 1 =>
                c.advance.bind fun c =>
                  if handled.ok then
                    c.advance.bind fun c => workhorse action gnu usage numargs c handled.state
                  else some ⟨c.argv, handled.state, none⟩
            else if handled.ok then
              c.advance.bind fun c => workhorse action gnu usage numargs c handled.state
            else some ⟨c.argv, handled.state, none⟩
      | _ =>
        if gnu then
          workhorse action gnu usage numargs { c with args := c.args + 1, nonops := c.nonops + 1 } st
        else some ⟨c.argv, st, some (numargs + 1 + c.nonops, c.args - c.nonops)⟩

/-! ## One pass over the strings -/

/-- What a string comes to: the options in it that are legal, up to the first that is not. -/
structure Group (ι : Type) where
  ok : Bool
  taken : Bool
  performed : List (Opt ι)
deriving DecidableEq, Repr

def scanShort (usage : List (Descriptor ι)) (place : Nat) (next : Option (List Char)) :
    List Char → Group ι
  | [] => ⟨true, false, []⟩
  | c :: rest =>
    match Parser.findShort usage c with
    | none => scanShort usage place next rest
    | some d =>
      match Parser.perform d place (if rest.isEmpty then next else some rest) with
      | none => ⟨false, false, []⟩
      | some (opt, true) => ⟨true, rest.isEmpty && next.isSome, [opt]⟩
      | some (opt, false) =>
        let group := scanShort usage place next rest
        { group with performed := opt :: group.performed }

def scanLong (usage : List (Descriptor ι)) (place : Nat) (next : Option (List Char))
    (longopt_name : List Char) : Group ι :=
  match Parser.findLong usage longopt_name with
  | none => ⟨true, false, []⟩
  | some d =>
    match Parser.perform d place ((Parser.attached longopt_name).or next) with
    | none => ⟨false, false, []⟩
    | some (opt, taken) =>
      ⟨true, taken && (Parser.attached longopt_name).isNone && next.isSome, [opt]⟩

def scanGroup (usage : List (Descriptor ι)) (place : Nat) (next : Option (List Char))
    (text : List Char) : Group ι :=
  match text with
  | '-' :: longopt_name => scanLong usage place next longopt_name
  | group => scanShort usage place next group

/-- What the loop comes to. -/
structure Scan (ι : Type) where
  ok : Bool
  performed : List (Opt ι)
  /-- the options and their arguments -/
  front : List Token
  /-- the non-options, or what is left where an option was illegal -/
  back : List Token
deriving DecidableEq, Repr

def Scan.prepend (s : Scan ι) (performed : List (Opt ι)) (front : List Token) : Scan ι :=
  { s with performed := performed ++ s.performed, front := front ++ s.front }

def scan (gnu : Bool) (usage : List (Descriptor ι)) : List Token → Scan ι
  | [] => ⟨true, [], [], []⟩
  | t :: rest =>
    match t.text with
    | ['-', '-'] => ⟨true, [], [t], rest⟩
    | '-' :: ch :: text =>
      let group := scanGroup usage t.place (rest.head?.map Token.text) (ch :: text)
      if group.ok then
        if group.taken then
          match rest with
          | [] => ⟨true, group.performed, [t], []⟩
          | arg :: rest => (scan gnu usage rest).prepend group.performed [t, arg]
        else (scan gnu usage rest).prepend group.performed [t]
      else ⟨false, group.performed, [], t :: rest⟩
    | _ =>
      if gnu then
        let s := scan gnu usage rest
        { s with back := t :: s.back }
      else ⟨true, [], [], t :: rest⟩

/-- The action on one option after the other, up to the first for which it returns `false`. -/
def performAll (action : Action ι σ) : List (Opt ι) → σ → Option (Bool × σ)
  | [], st => some (true, st)
  | opt :: opts, st =>
    (action.perform opt st).bind fun r =>
      if r.1 then performAll action opts r.2 else some (false, r.2)

/-! ## The loop does what the pass says -/

theorem shift_succ (p r : List Token) (x y : Token) (count : Nat) :
    shift (count + 1) (p.length + 1) (p ++ y :: x :: r)
      = shift count p.length (p ++ x :: y :: r) := by
  simp [shift]

/-- A string is moved back over those before it. -/
theorem shift_eq (d r : List Token) (x : Token) (n : List Token) :
    shift n.length (d.length + n.length) (d ++ n ++ x :: r) = some (d ++ x :: n ++ r) := by
  induction n using List.reverseRecOn generalizing r with
  | nil => simp [shift]
  | append_singleton n y ih =>
    have hshape : d ++ (n ++ [y]) ++ x :: r = (d ++ n) ++ y :: x :: r := by simp
    have hlength : d.length + (n ++ [y]).length = (d ++ n).length + 1 := by simp; omega
    rw [hshape, hlength, List.length_append, List.length_singleton, shift_succ, List.length_append,
      ih]
    simp

variable {action : Action ι σ} {usage : List (Descriptor ι)} {gnu : Bool}

theorem advance_eq (d n r : List Token) (x : Token) :
    Cursor.advance ⟨d ++ n ++ x :: r, d.length + n.length, n.length⟩
      = some ⟨(d ++ [x]) ++ n ++ r, (d ++ [x]).length + n.length, n.length⟩ := by
  rw [Cursor.advance, shift_eq, Option.map_some]
  simp
  omega

theorem next_eq (p rest : List Token) (t : Token) (nonops : Nat) :
    Cursor.next ⟨p ++ t :: rest, p.length, nonops⟩ (rest.length > 0)
      = some (rest.head?.map Token.text) := by
  cases rest with
  | nil => simp [Cursor.next]
  | cons a rest => simp [Cursor.next]

/-! ### A group -/

theorem performAll_cons_eq_some {opt : Opt ι} {opts : List (Opt ι)} {st st' : σ} {ok : Bool}
    (h : performAll action (opt :: opts) st = some (ok, st')) :
    (∃ st₁, action.perform opt st = some (true, st₁) ∧
        performAll action opts st₁ = some (ok, st')) ∨
      action.perform opt st = some (false, st') ∧ ok = false := by
  obtain ⟨⟨ok₁, st₁⟩, hperform, hrest⟩ := Option.bind_eq_some_iff.mp h
  cases ok₁ with
  | true => exact Or.inl ⟨st₁, hperform, hrest⟩
  | false =>
    cases hrest
    exact Or.inr ⟨hperform, rfl⟩

theorem handleOption_eq (d : Descriptor ι) (place : Nat) (optarg : Option (List Char))
    (separate : Bool) (st : σ) :
    handleOption action d place optarg separate st =
      match Parser.perform d place optarg with
      | none => some (⟨false, false, st⟩, false)
      | some (opt, true) => (action.perform opt st).map fun r =>
        (⟨r.1, separate && optarg.isSome, r.2⟩, false)
      | some (opt, false) => (action.perform opt st).map fun r => (⟨r.1, false, r.2⟩, r.1) := by
  rw [handleOption, Parser.perform]
  cases d.check_arg optarg <;> rfl

theorem handleShort_eq {place : Nat} {next : Option (List Char)} {st' : σ} {ok : Bool} :
    ∀ {group : List Char} {st : σ},
      performAll action (scanShort usage place next group).performed st = some (ok, st') →
      ∃ taken, handleShort action usage place next group st
          = some ⟨ok && (scanShort usage place next group).ok, taken, st'⟩ ∧
        (ok → taken = (scanShort usage place next group).taken) ∧
        (taken → (scanShort usage place next group).taken)
  | [], st, h => by
    cases h
    exact ⟨false, rfl, fun _ => rfl, id⟩
  | c :: rest, st, h => by
    rw [scanShort] at h ⊢
    rw [handleShort]
    cases hfind : Parser.findShort usage c with
    | none =>
      simp only [hfind] at h ⊢
      exact handleShort_eq h
    | some d =>
      simp only [hfind] at h ⊢
      generalize hoptarg : (if rest.isEmpty then next else some rest) = optarg at h ⊢
      rw [handleOption_eq]
      cases hperform : Parser.perform d place optarg with
      | none =>
        simp only [hperform] at h ⊢
        cases h
        exact ⟨false, rfl, fun _ => rfl, nofun⟩
      | some found =>
        obtain ⟨opt, optTaken⟩ := found
        cases optTaken with
        | true =>
          simp only [hperform] at h ⊢
          refine ⟨rest.isEmpty && optarg.isSome, ?_, ?_, ?_⟩
          · rcases performAll_cons_eq_some h with ⟨st₁, hst₁, hrest⟩ | ⟨hst₁, rfl⟩
            · cases hrest
              simp [hst₁]
            · simp [hst₁]
          all_goals
            intro _
            cases rest with
            | nil => simp_all
            | cons => simp_all
        | false =>
          simp only [hperform] at h ⊢
          rcases performAll_cons_eq_some h with ⟨st₁, hst₁, hrest⟩ | ⟨hst₁, rfl⟩
          · obtain ⟨taken, hshort, htaken⟩ := handleShort_eq hrest
            refine ⟨taken, ?_, htaken⟩
            rw [hst₁, Option.map_some, Option.bind_some, if_pos rfl, hshort]
          · refine ⟨false, ?_, nofun, nofun⟩
            rw [hst₁, Option.map_some, Option.bind_some, if_neg Bool.false_ne_true, Bool.false_and]

theorem handleLong_eq {place : Nat} {next : Option (List Char)} {name : List Char} {st st' : σ}
    {ok : Bool}
    (h : performAll action (scanLong usage place next name).performed st = some (ok, st')) :
    ∃ taken, handleLong action usage place next name st
        = some ⟨ok && (scanLong usage place next name).ok, taken, st'⟩ ∧
      (ok → taken = (scanLong usage place next name).taken) ∧
      (taken → (scanLong usage place next name).taken) := by
  rw [scanLong] at h ⊢
  rw [handleLong]
  cases hfind : Parser.findLong usage name with
  | none =>
    simp only [hfind] at h ⊢
    cases h
    exact ⟨false, rfl, fun _ => rfl, id⟩
  | some d =>
    simp only [hfind] at h ⊢
    rw [handleOption_eq]
    cases hperform : Parser.perform d place ((Parser.attached name).or next) with
    | none =>
      simp only [hperform] at h ⊢
      cases h
      exact ⟨false, rfl, fun _ => rfl, nofun⟩
    | some found =>
      obtain ⟨opt, optTaken⟩ := found
      simp only [hperform] at h ⊢
      refine ⟨optTaken && (Parser.attached name).isNone && next.isSome, ?_, fun _ => rfl, id⟩
      rcases performAll_cons_eq_some h with ⟨st₁, hst₁, hrest⟩ | ⟨hst₁, rfl⟩
      · cases hrest
        cases optTaken <;> cases Parser.attached name <;> simp [hst₁]
      · cases optTaken <;> cases Parser.attached name <;> simp [hst₁]

/-- **A group is handled as the pass over it says.** -/
theorem handle_eq {place : Nat} {next : Option (List Char)} {text : List Char} {st st' : σ}
    {ok : Bool}
    (h : performAll action (scanGroup usage place next text).performed st = some (ok, st')) :
    ∃ taken, handle action usage place next text st
        = some ⟨ok && (scanGroup usage place next text).ok, taken, st'⟩ ∧
      (ok → taken = (scanGroup usage place next text).taken) ∧
      (taken → (scanGroup usage place next text).taken) := by
  unfold scanGroup at h ⊢
  unfold handle
  split at h
  · exact handleLong_eq h
  · exact handleShort_eq h

/-! ### A string -/

/-- It does not begin with a minus, or is nothing else. -/
def IsNonOption (t : Token) : Prop := ∀ ch text, t.text ≠ '-' :: ch :: text

/-- `--`, one that may be an option, or a non-option. -/
theorem token_cases (t : Token) :
    t.text = ['-', '-'] ∨
      (∃ ch text, t.text = '-' :: ch :: text ∧ t.text ≠ ['-', '-']) ∨ IsNonOption t := by
  by_cases hterm : t.text = ['-', '-']
  · exact Or.inl hterm
  · by_cases hoption : ∃ ch text, t.text = '-' :: ch :: text
    · obtain ⟨ch, text, htext⟩ := hoption
      exact Or.inr (Or.inl ⟨ch, text, htext, hterm⟩)
    · exact Or.inr (Or.inr fun ch text htext => hoption ⟨ch, text, htext⟩)

theorem scan_terminator {t : Token} (ht : t.text = ['-', '-']) (rest : List Token) :
    scan gnu usage (t :: rest) = ⟨true, [], [t], rest⟩ := by
  rw [scan]
  simp [ht]

theorem scan_nonOption {t : Token} (ht : IsNonOption t) (rest : List Token) :
    scan gnu usage (t :: rest)
      = if gnu then { scan gnu usage rest with back := t :: (scan gnu usage rest).back }
        else ⟨true, [], [], t :: rest⟩ := by
  rw [scan]
  split
  · next h => exact absurd h (ht _ _)
  · next h => exact absurd h (ht _ _)
  · rfl

section Option

variable {t : Token} {ch : Char} {text : List Char} (ht : t.text = '-' :: ch :: text)
  (hterm : t.text ≠ ['-', '-'])
include ht hterm

theorem scan_illegal {rest : List Token}
    (hok : (scanGroup usage t.place (rest.head?.map Token.text) (ch :: text)).ok = false) :
    scan gnu usage (t :: rest)
      = ⟨false, (scanGroup usage t.place (rest.head?.map Token.text) (ch :: text)).performed, [],
          t :: rest⟩ := by
  -- not the text that ends the options
  have htext : ch = '-' → text ≠ [] := by
    rintro rfl rfl
    exact hterm ht
  rw [scan]
  simp [ht, hok]

theorem scan_option {rest : List Token}
    (hok : (scanGroup usage t.place (rest.head?.map Token.text) (ch :: text)).ok = true)
    (htaken : (scanGroup usage t.place (rest.head?.map Token.text) (ch :: text)).taken = false) :
    scan gnu usage (t :: rest)
      = (scan gnu usage rest).prepend
          (scanGroup usage t.place (rest.head?.map Token.text) (ch :: text)).performed [t] := by
  -- not the text that ends the options
  have htext : ch = '-' → text ≠ [] := by
    rintro rfl rfl
    exact hterm ht
  rw [scan]
  simp [ht, hok, htaken]

theorem scan_taken {arg : Token} {rest : List Token}
    (hok : (scanGroup usage t.place (some arg.text) (ch :: text)).ok = true)
    (htaken : (scanGroup usage t.place (some arg.text) (ch :: text)).taken = true) :
    scan gnu usage (t :: arg :: rest)
      = (scan gnu usage rest).prepend
          (scanGroup usage t.place (some arg.text) (ch :: text)).performed [t, arg] := by
  -- not the text that ends the options
  have htext : ch = '-' → text ≠ [] := by
    rintro rfl rfl
    exact hterm ht
  rw [scan]
  simp [ht, hok, htaken]

end Option

theorem isSome_of_taken_short {place : Nat} {next : Option (List Char)} :
    ∀ {group : List Char}, (scanShort usage place next group).taken → next.isSome
  | [], h => nomatch h
  | c :: rest, h => by
    unfold scanShort at h
    split at h
    · exact isSome_of_taken_short h
    · split at h
      · cases h
      · exact (Bool.and_eq_true_iff.mp h).2
      · exact isSome_of_taken_short h

/-- What is taken is there. -/
theorem isSome_of_taken {place : Nat} {next : Option (List Char)} {text : List Char}
    (h : (scanGroup usage place next text).taken) : next.isSome := by
  unfold scanGroup at h
  split at h
  · unfold scanLong at h
    split at h
    · cases h
    · split at h
      · cases h
      · exact (Bool.and_eq_true_iff.mp h).2
  · exact isSome_of_taken_short h

section Option

variable {t : Token} {ch : Char} {text : List Char} (ht : t.text = '-' :: ch :: text)
  (hterm : t.text ≠ ['-', '-'])
include ht hterm

/-- It is illegal, takes nothing, or takes the next string. -/
theorem scan_option_cases (rest : List Token) :
    ((scanGroup usage t.place (rest.head?.map Token.text) (ch :: text)).ok = false ∧
      scan gnu usage (t :: rest)
        = ⟨false, (scanGroup usage t.place (rest.head?.map Token.text) (ch :: text)).performed,
            [], t :: rest⟩) ∨
    ((scanGroup usage t.place (rest.head?.map Token.text) (ch :: text)).ok = true ∧
      (scanGroup usage t.place (rest.head?.map Token.text) (ch :: text)).taken = false ∧
      scan gnu usage (t :: rest)
        = (scan gnu usage rest).prepend
            (scanGroup usage t.place (rest.head?.map Token.text) (ch :: text)).performed [t]) ∨
    ∃ arg rest', rest = arg :: rest' ∧
      (scanGroup usage t.place (some arg.text) (ch :: text)).ok = true ∧
      (scanGroup usage t.place (some arg.text) (ch :: text)).taken = true ∧
      scan gnu usage (t :: rest)
        = (scan gnu usage rest').prepend
            (scanGroup usage t.place (some arg.text) (ch :: text)).performed [t, arg] := by
  by_cases hok : (scanGroup usage t.place (rest.head?.map Token.text) (ch :: text)).ok = true
  · by_cases htaken :
        (scanGroup usage t.place (rest.head?.map Token.text) (ch :: text)).taken = true
    · cases rest with
      | nil => exact absurd (isSome_of_taken htaken) (by simp)
      | cons arg rest =>
        exact Or.inr (Or.inr ⟨arg, rest, rfl, hok, htaken, scan_taken ht hterm hok htaken⟩)
    · rw [Bool.not_eq_true] at htaken
      exact Or.inr (Or.inl ⟨hok, htaken, scan_option ht hterm hok htaken⟩)
  · rw [Bool.not_eq_true] at hok
    exact Or.inl ⟨hok, scan_illegal ht hterm hok⟩

end Option

theorem taken_of_illegal_short {place : Nat} {next : Option (List Char)} :
    ∀ {group : List Char}, (scanShort usage place next group).ok = false →
      (scanShort usage place next group).taken = false
  | [], h => nomatch h
  | c :: rest, h => by
    unfold scanShort at h ⊢
    split at h
    · exact taken_of_illegal_short h
    · split at h
      · rfl
      · cases h
      · exact taken_of_illegal_short h

/-- An option that is illegal takes nothing, and neither do those before it. -/
theorem taken_of_illegal {place : Nat} {next : Option (List Char)} {text : List Char}
    (h : (scanGroup usage place next text).ok = false) :
    (scanGroup usage place next text).taken = false := by
  unfold scanGroup at h ⊢
  split at h
  · unfold scanLong at h ⊢
    split at h
    · rfl
    · split at h
      · rfl
      · cases h
  · exact taken_of_illegal_short h

theorem performAll_append {opts opts' : List (Opt ι)} {st st' : σ} {ok : Bool}
    (h : performAll action (opts ++ opts') st = some (ok, st')) :
    (∃ st₁, performAll action opts st = some (true, st₁) ∧
        performAll action opts' st₁ = some (ok, st')) ∨
      performAll action opts st = some (false, st') ∧ ok = false := by
  induction opts generalizing st with
  | nil => exact Or.inl ⟨st, rfl, h⟩
  | cons opt opts ih =>
    rw [List.cons_append] at h
    rcases performAll_cons_eq_some h with ⟨st₁, hst₁, hrest⟩ | ⟨hst₁, rfl⟩
    · rcases ih hrest with ⟨st₂, hst₂, hrest⟩ | ⟨hst₂, rfl⟩
      · exact Or.inl ⟨st₂, by rw [performAll, hst₁, Option.bind_some, if_pos rfl, hst₂], hrest⟩
      · exact Or.inr ⟨by rw [performAll, hst₁, Option.bind_some, if_pos rfl, hst₂], rfl⟩
    · refine Or.inr ⟨?_, rfl⟩
      rw [performAll, hst₁, Option.bind_some, if_neg Bool.false_ne_true]

/-- The state of `argv` when `finished` is called, or when an option is refused. -/
structure Outcome (s : Scan ι) (d n tokens : List Token) (ok : Bool) (st : σ) (run : Run σ) :
    Prop where
  state : run.state = st
  finished : run.finished = if ok && s.ok
    then some (n.length + s.back.length, d.length + s.front.length) else none
  argv : ok → run.argv = d ++ s.front ++ n ++ s.back
  perm : run.argv.Perm (d ++ n ++ tokens)

theorem getElem?_args (d n rest : List Token) (t : Token) :
    (d ++ n ++ t :: rest)[d.length + n.length]? = some t := by
  rw [← List.length_append, List.getElem?_append_right (Nat.le_refl _), Nat.sub_self,
    List.getElem?_cons_zero]

/-- The next string, at the cursor behind the strings passed over. -/
theorem next_args (d n rest : List Token) (t : Token) :
    Cursor.next ⟨d ++ n ++ t :: rest, d.length + n.length, n.length⟩ (rest.length > 0)
      = some (rest.head?.map Token.text) := by
  rw [← List.length_append]
  exact next_eq ..

theorem workhorse_terminator {d n rest : List Token} {t : Token} {st : σ}
    (ht : t.text = ['-', '-']) :
    workhorse action gnu usage (rest.length + 1)
        ⟨d ++ n ++ t :: rest, d.length + n.length, n.length⟩ st
      = some ⟨d ++ [t] ++ n ++ rest, st, some (rest.length + n.length, d.length + 1)⟩ := by
  rw [workhorse, getElem?_args, Option.bind_some]
  simp only [ht, advance_eq, Option.map_some]
  simp

theorem workhorse_nonOption {d n rest : List Token} {t : Token} {st : σ} (ht : IsNonOption t) :
    workhorse action gnu usage (rest.length + 1)
        ⟨d ++ n ++ t :: rest, d.length + n.length, n.length⟩ st
      = if gnu then workhorse action gnu usage rest.length
          ⟨d ++ (n ++ [t]) ++ rest, d.length + (n ++ [t]).length, (n ++ [t]).length⟩ st
        else some ⟨d ++ n ++ t :: rest, st, some (rest.length + 1 + n.length, d.length)⟩ := by
  rw [workhorse, getElem?_args, Option.bind_some]
  split
  · next h => exact absurd h (ht _ _)
  · next h => exact absurd h (ht _ _)
  · simp [Nat.add_assoc]

theorem workhorse_option {d n rest : List Token} {t : Token} {ch : Char} {text : List Char}
    {st : σ} {handled : Handled σ} (ht : t.text = '-' :: ch :: text) (hterm : t.text ≠ ['-', '-'])
    (hhandled : handle action usage t.place (rest.head?.map Token.text) (ch :: text) st
      = some handled) :
    workhorse action gnu usage (rest.length + 1)
        ⟨d ++ n ++ t :: rest, d.length + n.length, n.length⟩ st
      = if handled.taken then
          match rest with
          | [] => none
          | arg :: rest =>
            if handled.ok then workhorse action gnu usage rest.length
              ⟨d ++ [t, arg] ++ n ++ rest, (d ++ [t, arg]).length + n.length, n.length⟩
              handled.state
            else some ⟨d ++ [t] ++ n ++ arg :: rest, handled.state, none⟩
        else if handled.ok then workhorse action gnu usage rest.length
          ⟨d ++ [t] ++ n ++ rest, (d ++ [t]).length + n.length, n.length⟩ handled.state
        else some ⟨d ++ n ++ t :: rest, handled.state, none⟩ := by
  rw [workhorse, getElem?_args, Option.bind_some]
  split
  · next h => exact absurd h hterm
  · next ch' text' h =>
    rw [ht] at h
    cases h
    simp only [next_args, hhandled, Option.bind_some, advance_eq]
    cases rest with
    | nil => rfl
    | cons arg rest =>
      simp only [List.length_cons, advance_eq, Option.bind_some]
      simp
  · next h => exact absurd ht (h _ _)

theorem perm_front (d n f rest : List Token) :
    (d ++ f ++ n ++ rest).Perm (d ++ n ++ (f ++ rest)) := by
  simp only [List.append_assoc]
  exact (List.perm_append_comm_assoc f n rest).append_left d

/-- Where the action, or the check, refuses an option. -/
theorem workhorse_refused {d n rest : List Token} {t : Token} {ch : Char} {text : List Char}
    {st : σ} {handled : Handled σ} (ht : t.text = '-' :: ch :: text) (hterm : t.text ≠ ['-', '-'])
    (hhandled : handle action usage t.place (rest.head?.map Token.text) (ch :: text) st
      = some handled)
    (hok : handled.ok = false) (htaken : handled.taken → rest ≠ []) :
    ∃ run, workhorse action gnu usage (rest.length + 1)
        ⟨d ++ n ++ t :: rest, d.length + n.length, n.length⟩ st = some run ∧
      run.state = handled.state ∧ run.finished = none ∧ run.argv.Perm (d ++ n ++ t :: rest) ∧
      (handled.taken = false → run.argv = d ++ n ++ t :: rest) := by
  rw [workhorse_option ht hterm hhandled]
  by_cases htaken' : handled.taken = true
  · rw [if_pos htaken']
    obtain ⟨arg, rest, rfl⟩ := List.exists_cons_of_ne_nil (htaken htaken')
    refine ⟨_, if_neg (by rw [hok]; exact Bool.false_ne_true), rfl, rfl, ?_, ?_⟩
    · exact perm_front d n [t] (arg :: rest)
    · intro hfalse
      rw [hfalse] at htaken'
      cases htaken'
  · rw [if_neg htaken', if_neg (by rw [hok]; exact Bool.false_ne_true)]
    exact ⟨_, rfl, rfl, rfl, List.Perm.refl _, fun _ => rfl⟩

/-- The outcome of the rest, after an option and its argument in `f`. -/
theorem Outcome.prepend {s : Scan ι} {d n f rest : List Token} {ok : Bool} {st : σ} {run : Run σ}
    (h : Outcome s (d ++ f) n rest ok st run) (performed : List (Opt ι)) :
    Outcome (s.prepend performed f) d n (f ++ rest) ok st run where
  state := h.state
  finished := by
    rw [h.finished, Scan.prepend]
    simp [Nat.add_assoc]
  argv := by
    intro hok
    rw [h.argv hok, Scan.prepend]
    simp
  perm := h.perm.trans (perm_front d n f rest)

/--
**The loop does what the pass says**: it passes the action the same options, and leaves the
non-options behind the options and their arguments. Where the action refuses one of them, the
strings of `argv` are still all there.
-/
theorem exists_workhorse : ∀ (tokens d n : List Token) {st st' : σ} {ok : Bool},
    performAll action (scan gnu usage tokens).performed st = some (ok, st') →
    ∃ run, workhorse action gnu usage tokens.length
        ⟨d ++ n ++ tokens, d.length + n.length, n.length⟩ st = some run ∧
      Outcome (scan gnu usage tokens) d n tokens ok st' run
  | [], d, n, st, st', ok, h => by
    cases h
    exact ⟨_, rfl, rfl, by simp [scan], fun _ => by simp [scan], List.Perm.refl _⟩
  | t :: rest, d, n, st, st', ok, h => by
    rcases token_cases t with hterm | ⟨ch, text, htext, hterm⟩ | hnon
    · rw [scan_terminator hterm] at h ⊢
      cases h
      refine ⟨_, workhorse_terminator hterm, rfl, ?_, fun _ => rfl, ?_⟩
      · simp [Nat.add_comm]
      · exact perm_front d n [t] rest
    · rcases scan_option_cases htext hterm rest with
        ⟨hok, hscan⟩ | ⟨hok, htaken, hscan⟩ | ⟨arg, rest, rfl, hok, htaken, hscan⟩
      · rw [hscan] at h ⊢
        have htaken := taken_of_illegal hok
        obtain ⟨taken, hhandle, htaken', htaken''⟩ := handle_eq h
        obtain ⟨run, hrun, hstate, hfinished, hperm, hargv⟩ :=
          workhorse_refused (d := d) (n := n) htext hterm hhandle
            (by rw [hok, Bool.and_false])
            fun hpos => absurd (htaken'' hpos) (by rw [htaken]; exact Bool.false_ne_true)
        refine ⟨run, hrun, hstate, ?_, ?_, hperm⟩
        · rw [hfinished, Bool.and_false, if_neg Bool.false_ne_true]
        · intro hpos
          rw [hargv ((htaken' hpos).trans htaken)]
          simp
      · rw [hscan] at h ⊢
        rcases performAll_append h with ⟨st₁, hst₁, hrest⟩ | ⟨hst₁, rfl⟩
        · obtain ⟨taken, hhandle, htaken', -⟩ := handle_eq hst₁
          rw [htaken' rfl, htaken] at hhandle
          obtain ⟨run, hrun, houtcome⟩ := exists_workhorse rest (d ++ [t]) n hrest
          refine ⟨run, ?_, houtcome.prepend _⟩
          rw [List.length_cons, workhorse_option htext hterm hhandle, if_neg Bool.false_ne_true]
          simp only [hok, Bool.and_self, if_true, hrun]
        · obtain ⟨taken, hhandle, -, htaken'⟩ := handle_eq hst₁
          obtain ⟨run, hrun, hstate, hfinished, hperm, -⟩ :=
            workhorse_refused (d := d) (n := n) htext hterm hhandle rfl
              fun hpos => absurd (htaken' hpos) (by rw [htaken]; exact Bool.false_ne_true)
          exact ⟨run, hrun, hstate, hfinished, nofun, hperm⟩
      · rw [hscan] at h ⊢
        rcases performAll_append h with ⟨st₁, hst₁, hrest⟩ | ⟨hst₁, rfl⟩
        · obtain ⟨taken, hhandle, htaken', -⟩ := handle_eq hst₁
          rw [htaken' rfl, htaken] at hhandle
          obtain ⟨run, hrun, houtcome⟩ := exists_workhorse rest (d ++ [t, arg]) n hrest
          refine ⟨run, ?_, houtcome.prepend _⟩
          rw [List.length_cons, workhorse_option htext hterm hhandle, if_pos rfl]
          simp only [hok, Bool.and_self, if_true, hrun]
        · obtain ⟨taken, hhandle, -, -⟩ := handle_eq hst₁
          obtain ⟨run, hrun, hstate, hfinished, hperm, -⟩ :=
            workhorse_refused (d := d) (n := n) htext hterm hhandle rfl
              fun _ => List.cons_ne_nil arg rest
          exact ⟨run, hrun, hstate, hfinished, nofun, hperm⟩
    · rw [scan_nonOption hnon] at h ⊢
      rw [List.length_cons, workhorse_nonOption hnon]
      by_cases hgnu : gnu = true
      · simp only [if_pos hgnu] at h ⊢
        obtain ⟨run, hrun, houtcome⟩ := exists_workhorse rest d (n ++ [t]) h
        refine ⟨run, hrun, houtcome.state, ?_, ?_, ?_⟩
        · rw [houtcome.finished, List.length_append, List.length_singleton, List.length_cons,
            Nat.add_assoc, Nat.add_comm 1]
        · intro hok
          rw [houtcome.argv hok]
          simp
        · simpa using houtcome.perm
      · simp only [if_neg hgnu] at h ⊢
        cases h
        refine ⟨_, rfl, rfl, ?_, ?_, List.Perm.refl _⟩
        · simp [Nat.add_comm]
        · simp

end DdsApps.Options.Argv
