import DdsApps.Options.Argv

/-!
# The two passes over `argv`

`Stats` counts the options in a first pass, `Parser` stores them in a second one, over the `argv`
that the first has reordered.

* `Argv.workhorse_eq_scan` — the pass without an action, and what it finds
* `Argv.Definite` — what of a table makes the passes agree
* `Argv.scan_scan` — a second pass over what the first has left finds the same, and moves nothing
-/

namespace DdsApps.Options.Argv

variable {ι σ : Type} {action : Action ι σ} {usage : List (Descriptor ι)} {gnu : Bool}

/-! ## The pass without an action -/

theorem shortOptions_eq_scanShort {place : Nat} {next : Option (List Char)} :
    ∀ group : List Char, Parser.shortOptions usage place next group
      = if (scanShort usage place next group).ok then
          some ((scanShort usage place next group).performed,
            (scanShort usage place next group).taken)
        else none
  | [] => rfl
  | c :: rest => by
    rw [Parser.shortOptions, scanShort]
    cases hfind : Parser.findShort usage c with
    | none => exact shortOptions_eq_scanShort rest
    | some d =>
      simp only [shortOptions_eq_scanShort rest]
      cases hperform : Parser.perform d place (if rest.isEmpty then next else some rest) with
      | none => rfl
      | some found =>
        obtain ⟨opt, optTaken⟩ := found
        cases optTaken with
        | true => rfl
        | false =>
          simp only
          split <;> rfl

theorem longOption_eq_scanLong (place : Nat) (next : Option (List Char)) (name : List Char) :
    Parser.longOption usage place next name
      = if (scanLong usage place next name).ok then
          some ((scanLong usage place next name).performed, (scanLong usage place next name).taken)
        else none := by
  rw [Parser.longOption, scanLong]
  cases hfind : Parser.findLong usage name with
  | none => rfl
  | some d =>
    cases hperform : Parser.perform d place ((Parser.attached name).or next) with
    | none => simp [hperform]
    | some found => simp [hperform]

theorem workhorse_taken (t : Token) (rest : List Token) :
    Parser.workhorse gnu usage true (t :: rest) = Parser.workhorse gnu usage false rest := by
  rw [Parser.workhorse]

theorem workhorse_option_eq {t : Token} {ch : Char} {text : List Char}
    (ht : t.text = '-' :: ch :: text) (hterm : t.text ≠ ['-', '-']) (rest : List Token) :
    Parser.workhorse gnu usage false (t :: rest)
      = (if (scanGroup usage t.place (rest.head?.map Token.text) (ch :: text)).ok then
          some (scanGroup usage t.place (rest.head?.map Token.text) (ch :: text)) else none).bind
        fun group => (Parser.workhorse gnu usage group.taken rest).map fun p =>
          { p with options := group.performed ++ p.options } := by
  rw [Parser.workhorse]
  split
  · next h => exact absurd h hterm
  · next name h =>
    rw [ht] at h
    cases h
    rw [longOption_eq_scanLong, scanGroup]
    split <;> simp_all
  · next hdash h =>
    rw [ht] at h
    cases h
    have hgroup : scanGroup usage t.place (rest.head?.map Token.text) (ch :: text)
        = scanShort usage t.place (rest.head?.map Token.text) (ch :: text) := by
      rw [scanGroup]
      intro name hname
      exact hdash (List.head_eq_of_cons_eq hname)
    rw [shortOptions_eq_scanShort, hgroup]
    split <;> simp_all
  · next h => exact absurd ht (h _ _)

/-- What a parser finds whose action refuses no option. -/
def Scan.parsed (s : Scan ι) : Option (Parsed ι) :=
  if s.ok then some ⟨s.performed, s.back⟩ else none

theorem Scan.parsed_prepend (s : Scan ι) (performed : List (Opt ι)) (front : List Token) :
    (s.prepend performed front).parsed
      = s.parsed.map fun p => { p with options := performed ++ p.options } := by
  rw [parsed, parsed, prepend]
  cases s.ok <;> rfl

/-- **The pass without an action finds the same.** -/
theorem workhorse_eq_scan : ∀ tokens : List Token,
    Parser.workhorse gnu usage false tokens = (scan gnu usage tokens).parsed
  | [] => rfl
  | t :: rest => by
    rcases token_cases t with hterm | ⟨ch, text, htext, hterm⟩ | hnon
    · rw [scan_terminator hterm, Parser.workhorse]
      simp [hterm, Scan.parsed]
    · rw [workhorse_option_eq htext hterm]
      rcases scan_option_cases htext hterm rest with
        ⟨hok, hscan⟩ | ⟨hok, htaken, hscan⟩ | ⟨arg, rest, rfl, hok, htaken, hscan⟩
      · rw [hscan, hok, if_neg Bool.false_ne_true, Option.bind_none]
        rfl
      · rw [hscan, if_pos hok, Option.bind_some, htaken, workhorse_eq_scan rest,
          Scan.parsed_prepend]
      · rw [hscan, List.head?_cons, Option.map_some, if_pos hok, Option.bind_some, htaken,
          workhorse_taken, workhorse_eq_scan rest, Scan.parsed_prepend]
    · rw [scan_nonOption hnon, Parser.workhorse]
      split
      · next h => exact absurd h (hnon _ _)
      · next h => exact absurd h (hnon _ _)
      · next h => exact absurd h (hnon _ _)
      · rw [workhorse_eq_scan rest]
        simp only [Scan.parsed]
        cases gnu <;> cases (scan true usage rest).ok <;> rfl

/-! ## What is found is in the table -/

/-- Some descriptor has its index. -/
def InTable (usage : List (Descriptor ι)) (opt : Opt ι) : Prop := ∃ d ∈ usage, d.index = opt.index

theorem inTable_of_perform {d : Descriptor ι} (hd : d ∈ usage) {place : Nat}
    {optarg : Option (List Char)} {found : Opt ι × Bool}
    (h : Parser.perform d place optarg = some found) : InTable usage found.1 := by
  refine ⟨d, hd, ?_⟩
  rw [Parser.perform] at h
  split at h <;> cases h <;> rfl

theorem inTable_scanShort {place : Nat} {next : Option (List Char)} :
    ∀ group : List Char, ∀ opt ∈ (scanShort usage place next group).performed, InTable usage opt
  | [] => fun _ h => absurd h List.not_mem_nil
  | c :: rest => by
    rw [scanShort]
    cases hfind : Parser.findShort usage c with
    | none => exact inTable_scanShort rest
    | some d =>
      simp only
      cases hperform : Parser.perform d place (if rest.isEmpty then next else some rest) with
      | none => exact fun _ h => absurd h List.not_mem_nil
      | some found =>
        have hfound := inTable_of_perform (Parser.mem_of_findShort hfind) hperform
        obtain ⟨opt, optTaken⟩ := found
        cases optTaken with
        | true => exact List.forall_mem_singleton.mpr hfound
        | false => exact List.forall_mem_cons.mpr ⟨hfound, inTable_scanShort rest⟩

theorem inTable_scanGroup (place : Nat) (next : Option (List Char)) (text : List Char) :
    ∀ opt ∈ (scanGroup usage place next text).performed, InTable usage opt := by
  unfold scanGroup
  split
  · unfold scanLong
    split
    · exact nofun
    · next d hfind =>
      split
      · exact nofun
      · next hperform =>
        exact List.forall_mem_singleton.mpr
          (inTable_of_perform (Parser.mem_of_findLong hfind) hperform)
  · exact inTable_scanShort _

/-- **Every option that a pass finds is in the table.** -/
theorem inTable_scan : ∀ tokens : List Token,
    ∀ opt ∈ (scan gnu usage tokens).performed, InTable usage opt
  | [] => nofun
  | t :: rest => by
    rcases token_cases t with hterm | ⟨ch, text, htext, hterm⟩ | hnon
    · rw [scan_terminator hterm]
      exact nofun
    · rcases scan_option_cases htext hterm rest with
        ⟨-, hscan⟩ | ⟨-, -, hscan⟩ | ⟨arg, rest, rfl, -, -, hscan⟩
      · rw [hscan]
        exact inTable_scanGroup _ _ _
      · rw [hscan]
        exact List.forall_mem_append.mpr ⟨inTable_scanGroup _ _ _, inTable_scan rest⟩
      · rw [hscan]
        exact List.forall_mem_append.mpr ⟨inTable_scanGroup _ _ _, inTable_scan rest⟩
    · rw [scan_nonOption hnon]
      split
      · exact inTable_scan rest
      · exact nofun

/-! ## A second pass -/

/--
Whether it takes an argument does not depend on what the argument is: it never does, or a missing
one is illegal.
-/
def Definite (d : Descriptor ι) : Prop :=
  (∃ status, status ≠ .ok ∧ ∀ arg, d.check_arg arg = status) ∨
    d.check_arg none = .illegal ∧
      ∀ arg, d.check_arg (some arg) = .ok ∨ d.check_arg (some arg) = .illegal

theorem perform_definite {d : Descriptor ι} (hd : Definite d) {place : Nat}
    {optarg : Option (List Char)} {opt : Opt ι}
    (h : Parser.perform d place optarg = some (opt, false)) (optarg' : Option (List Char)) :
    Parser.perform d place optarg' = some (opt, false) := by
  rcases hd with ⟨status, -, hstatus⟩ | ⟨hnone, hsome⟩
  · rw [Parser.perform, hstatus] at h ⊢
    cases status <;> simp_all
  · cases optarg with
    | none =>
      rw [Parser.perform, hnone] at h
      cases h
    | some arg =>
      rw [Parser.perform] at h
      rcases hsome arg with harg | harg
      · rw [harg] at h
        cases h
      · rw [harg] at h
        cases h

/-- One that takes its argument has been given one. -/
theorem isSome_of_perform {d : Descriptor ι} (hd : Definite d) {place : Nat}
    {optarg : Option (List Char)} {opt : Opt ι}
    (h : Parser.perform d place optarg = some (opt, true)) : optarg.isSome := by
  cases optarg with
  | some => rfl
  | none =>
    rcases hd with ⟨status, hstatus, hall⟩ | ⟨hnone, -⟩
    · rw [Parser.perform, hall] at h
      cases status <;> simp_all
    · rw [Parser.perform, hnone] at h
      cases h

variable {place : Nat} {next : Option (List Char)}

theorem scanShort_next (husage : ∀ d ∈ usage, Definite d) (next' : Option (List Char)) :
    ∀ {group : List Char}, (scanShort usage place next group).ok = true →
      (scanShort usage place next group).taken = false →
      scanShort usage place next' group = scanShort usage place next group
  | [], _, _ => rfl
  | c :: rest, hok, htaken => by
    unfold scanShort at hok htaken ⊢
    cases hfind : Parser.findShort usage c with
    | none =>
      simp only [hfind] at hok htaken ⊢
      exact scanShort_next husage next' hok htaken
    | some d =>
      have hd := husage d (Parser.mem_of_findShort hfind)
      simp only [hfind] at hok htaken ⊢
      cases rest with
      | nil =>
        simp only [List.isEmpty_nil, if_true] at hok htaken ⊢
        cases hperform : Parser.perform d place next with
        | none =>
          rw [hperform] at hok
          cases hok
        | some found =>
          obtain ⟨opt, optTaken⟩ := found
          cases optTaken with
          | true =>
            rw [hperform] at htaken
            simp [isSome_of_perform hd hperform] at htaken
          | false => rw [perform_definite hd hperform next']; rfl
      | cons a rest =>
        simp only [List.isEmpty_cons, Bool.false_eq_true, if_false] at hok htaken ⊢
        cases hperform : Parser.perform d place (some (a :: rest)) with
        | none => rfl
        | some found =>
          obtain ⟨opt, optTaken⟩ := found
          cases optTaken with
          | true => simp
          | false =>
            simp only [hperform] at hok htaken ⊢
            rw [scanShort_next husage next' hok htaken]

theorem scanLong_next (husage : ∀ d ∈ usage, Definite d) (next' : Option (List Char))
    {name : List Char} (hok : (scanLong usage place next name).ok = true)
    (htaken : (scanLong usage place next name).taken = false) :
    scanLong usage place next' name = scanLong usage place next name := by
  unfold scanLong at hok htaken ⊢
  cases hfind : Parser.findLong usage name with
  | none => rfl
  | some d =>
    have hd := husage d (Parser.mem_of_findLong hfind)
    simp only [hfind] at hok htaken ⊢
    cases hattached : Parser.attached name with
    | some arg =>
      simp only [Option.some_or, Option.isNone_some, Bool.and_false, Bool.false_and]
    | none =>
      simp only [hattached, Option.none_or] at hok htaken ⊢
      cases hperform : Parser.perform d place next with
      | none =>
        rw [hperform] at hok
        cases hok
      | some found =>
        obtain ⟨opt, optTaken⟩ := found
        cases optTaken with
        | true =>
          rw [hperform] at htaken
          simp [isSome_of_perform hd hperform] at htaken
        | false => rw [perform_definite hd hperform next']; rfl

/-- **A string that has not taken the next one does not depend on it.** -/
theorem scanGroup_next (husage : ∀ d ∈ usage, Definite d) (next' : Option (List Char))
    {text : List Char} (hok : (scanGroup usage place next text).ok = true)
    (htaken : (scanGroup usage place next text).taken = false) :
    scanGroup usage place next' text = scanGroup usage place next text := by
  revert hok htaken
  unfold scanGroup
  split
  · exact scanLong_next husage next'
  · exact scanShort_next husage next'

theorem scan_nonOptions : ∀ {n : List Token}, (∀ x ∈ n, gnu = true ∧ IsNonOption x) →
    ∀ rest : List Token, scan gnu usage (n ++ rest)
      = { scan gnu usage rest with back := n ++ (scan gnu usage rest).back }
  | [], _, _ => rfl
  | x :: n, hn, rest => by
    rw [List.forall_mem_cons] at hn
    rw [List.cons_append, scan_nonOption hn.1.2, if_pos hn.1.1, scan_nonOptions hn.2]
    rfl

/-- The pass over what a pass has left, with more non-options between front and back. -/
theorem scan_front (husage : ∀ d ∈ usage, Definite d) :
    ∀ (tokens : List Token) {n : List Token}, (∀ x ∈ n, gnu = true ∧ IsNonOption x) →
      scan gnu usage ((scan gnu usage tokens).front ++ n ++ (scan gnu usage tokens).back)
        = { scan gnu usage tokens with back := n ++ (scan gnu usage tokens).back }
  | [], n, hn => by
    have hshape : (scan gnu usage []).front ++ n ++ (scan gnu usage []).back = n ++ [] := rfl
    rw [hshape, scan_nonOptions hn]
  | t :: rest, n, hn => by
    rcases token_cases t with hterm | ⟨ch, text, htext, hterm⟩ | hnon
    · rw [scan_terminator hterm, List.append_assoc, List.singleton_append, scan_terminator hterm]
    · rcases scan_option_cases htext hterm rest with
        ⟨hok, hscan⟩ | ⟨hok, htaken, hscan⟩ | ⟨arg, rest, rfl, hok, htaken, hscan⟩
      · rw [hscan, List.nil_append, scan_nonOptions hn, hscan]
      · rw [hscan]
        have hrest := scan_front husage rest hn
        simp only [Scan.prepend, List.cons_append, List.nil_append, List.append_assoc]
          at hrest ⊢
        -- behind the option there may be another string than before
        have hnext := fun next' => scanGroup_next husage next' hok htaken
        rw [scan_option htext hterm (by rw [hnext]; exact hok) (by rw [hnext]; exact htaken),
          hnext, hrest]
        rfl
      · rw [hscan]
        have hrest := scan_front husage rest hn
        simp only [Scan.prepend, List.cons_append, List.nil_append, List.append_assoc]
          at hrest ⊢
        rw [scan_taken htext hterm hok htaken, hrest]
        rfl
    · rw [scan_nonOption hnon]
      by_cases hgnu : gnu = true
      · simp only [if_pos hgnu]
        have hmore : ∀ x ∈ n ++ [t], gnu = true ∧ IsNonOption x := by
          rw [List.forall_mem_append, List.forall_mem_singleton]
          exact ⟨hn, hgnu, hnon⟩
        have hrest := scan_front husage rest hmore
        simp only [List.append_assoc, List.singleton_append] at hrest ⊢
        exact hrest
      · simp only [if_neg hgnu, List.nil_append]
        rw [scan_nonOptions hn, scan_nonOption hnon, if_neg hgnu]

/-- **A second pass finds the same, and moves nothing.** -/
theorem scan_scan (husage : ∀ d ∈ usage, Definite d) (tokens : List Token) :
    scan gnu usage ((scan gnu usage tokens).front ++ (scan gnu usage tokens).back)
      = scan gnu usage tokens := by
  have hnone : ∀ x ∈ ([] : List Token), gnu = true ∧ IsNonOption x := nofun
  have h := scan_front husage tokens hnone
  rwa [List.append_nil] at h

end DdsApps.Options.Argv
