import Mathlib.Data.List.Zip
import DdsApps.Infra.Ring
import DdsApps.Options.Passes

/-!
# How the parser stores options

The program gives the parser two arrays, of the sizes that `Stats` has counted: `buffer` takes the
options one after the other, and `options` has a list for each index, whose head is a copy of the
first of its options. What is read or written outside of them comes to `none`.

* `Stats.add`, `Parse.parse` — the two passes
* `Stored` — what the arrays hold after some options
* `Stored.storeOption` — the step of one option
* `Holds` — a parser that holds what the pass without an action finds
* `ofArgv_of_some`, `ofArgv_of_none` — the two passes and the pass without an action
-/

namespace DdsApps.Options.Argv

open DdsApps.Infra

variable {ι : Type}

/-! ## Counting -/

/-- The largest number of options. -/
def limit : Nat := 0x7fffffff

/-- `CountOptionsAction` -/
def countOptions : Action ι Nat where
  perform _ buffer_max :=
    some (if buffer_max = limit then (false, buffer_max) else (true, buffer_max + 1))

/-- What the first pass leaves. -/
structure Stats where
  options_max : Nat
  buffer_max : Nat
  argv : List Token
deriving DecidableEq, Repr

/-- One more than the greatest index and the sentinel need. -/
def optionsMax (indexOf : ι → Nat) (usage : List (Descriptor ι)) : Nat :=
  usage.foldl (fun options_max d =>
    if indexOf d.index + 1 ≥ options_max then indexOf d.index + 1 + 1 else options_max) 1

def Stats.add (indexOf : ι → Nat) (gnu : Bool) (usage : List (Descriptor ι)) (argv : List Token) :
    Option Stats :=
  (workhorse countOptions gnu usage argv.length ⟨argv, 0, 0⟩ 1).map fun run =>
    { options_max := optionsMax indexOf usage, buffer_max := run.state, argv := run.argv }

/-! ## Storing -/

/-- Where an option may be. -/
inductive Slot
  | options (index : Nat)
  | buffer (place : Nat)
deriving DecidableEq, Repr

/-- The arrays; a node without a value is an option whose `desc` is null. -/
abbrev Memory (ι : Type) := RingHeap Slot (Option (Opt ι))

/-- `std::vector<Option> options(options_max)` and `buffer(buffer_max)` -/
def Memory.fresh (options_max buffer_max : Nat) : Memory ι :=
  ⟨fun slot =>
    match slot with
    | .options index => if index < options_max then some (RingHeap.single slot none) else none
    | .buffer place => if place < buffer_max then some (RingHeap.single slot none) else none⟩

/-- The fields that `StoreOptionAction` changes. -/
structure Storage (ι : Type) where
  heap : Memory ι
  op_count : Nat

/--
`StoreOptionAction`, whose `bufmax` is -1. A walk along a list that has not ended after as many
nodes as there are does not end.
-/
def storeOption (indexOf : ι → Nat) (nodes : Nat) : Action ι (Storage ι) where
  perform option s :=
    if s.op_count = limit then some (false, s)
    else
      (s.heap.assign (.buffer s.op_count) (some option)).bind fun heap =>
        (heap.valueOf (.buffer s.op_count)).bind fun stored =>
          stored.bind fun stored =>
            (heap.valueOf (.options (indexOf stored.index))).bind fun first =>
              (if first.isSome then
                heap.append nodes (.options (indexOf stored.index)) (.buffer s.op_count)
              else heap.assign (.options (indexOf stored.index)) (some stored)).map fun heap =>
                (true, ⟨heap, s.op_count + 1⟩)

/-- The first empty slot of `buffer`, where the constructor of the action begins. -/
def firstEmpty (heap : Memory ι) : (fuel place : Nat) → Option Nat
  | 0, _ => none
  | fuel + 1, place =>
    (heap.valueOf (.buffer place)).bind fun stored =>
      if stored.isSome then firstEmpty heap fuel (place + 1) else some place

/-- A `Parser`, and `argv`; `nonop_args` is a place in `argv`, or null. -/
structure Parse (ι : Type) where
  heap : Memory ι
  op_count : Nat
  nonop_count : Nat
  nonop_args : Option Nat
  err : Bool
  argv : List Token

def Parse.parse (indexOf : ι → Nat) (gnu : Bool) (usage : List (Descriptor ι)) (stats : Stats) :
    Option (Parse ι) :=
  let heap : Memory ι := Memory.fresh stats.options_max stats.buffer_max
  let nodes := stats.options_max + stats.buffer_max
  (firstEmpty heap nodes 0).bind fun op_count =>
    (workhorse (storeOption indexOf nodes) gnu usage stats.argv.length ⟨stats.argv, 0, 0⟩
      ⟨heap, op_count⟩).map fun run =>
        { heap := run.state.heap
          op_count := run.state.op_count
          -- the old list is kept where there are no new non-options
          nonop_count := (run.finished.map Prod.fst).getD 0
          nonop_args :=
            run.finished.bind fun finished => if finished.1 > 0 then some finished.2 else none
          err := run.finished.isNone
          argv := run.argv }

/-- `Stats stats(..); Parser parse(..);` -/
def Parse.ofArgv (indexOf : ι → Nat) (gnu : Bool) (usage : List (Descriptor ι))
    (argv : List Token) : Option (Parse ι) :=
  (Stats.add indexOf gnu usage argv).bind fun stats => Parse.parse indexOf gnu usage stats

/-! ## Reading -/

/-- `options[index]`, an element of the array. -/
def Parse.options (p : Parse ι) (index : Nat) : Option (Option (Opt ι)) :=
  p.heap.valueOf (.options index)

/-- `buffer[place]` -/
def Parse.buffer (p : Parse ι) (place : Nat) : Option (Option (Opt ι)) :=
  p.heap.valueOf (.buffer place)

/-- `nonOption(i)` -/
def Parse.nonOption (p : Parse ι) (i : Nat) : Option Token :=
  p.nonop_args.bind fun nonop_args => p.argv[nonop_args + i]?

/-- The options of an index, from `options[index]` on along `next()`. -/
def Parse.chain (p : Parse ι) (nodes index : Nat) : Option (List (Option (Opt ι))) :=
  (p.heap.elements nodes (.options index)).bind fun slots =>
    slots.mapM fun slot => p.heap.valueOf slot

/-! ## What the arrays hold -/

/-- The places of the options of an index. -/
def positions (indexOf : ι → Nat) (opts : List (Opt ι)) (index : Nat) : List Nat :=
  (opts.zipIdx.filter fun p => indexOf p.1.index = index).map Prod.snd

/-- The list of an index: the copy of its first option, and the others where they are stored. -/
def slots (indexOf : ι → Nat) (opts : List (Opt ι)) (index : Nat) : List Slot :=
  .options index :: (positions indexOf opts index).tail.map Slot.buffer

variable {indexOf : ι → Nat} {opts : List (Opt ι)} {opt : Opt ι} {index : Nat}

theorem positions_concat (opts : List (Opt ι)) (opt : Opt ι) (index : Nat) :
    positions indexOf (opts ++ [opt]) index
      = positions indexOf opts index ++ if indexOf opt.index = index then [opts.length] else [] := by
  rw [positions, List.zipIdx_append, List.filter_append, List.map_append, positions]
  congr 1
  by_cases h : indexOf opt.index = index <;> simp [h]

theorem lt_of_mem_positions {j : Nat} (h : j ∈ positions indexOf opts index) :
    j < opts.length := by
  obtain ⟨p, hp, rfl⟩ := List.mem_map.mp h
  have hlt := List.snd_lt_of_mem_zipIdx (List.mem_filter.mp hp).1
  omega

theorem positions_eq_nil (h : opts.find? (fun opt => indexOf opt.index = index) = none) :
    positions indexOf opts index = [] := by
  rw [positions, List.map_eq_nil_iff, List.filter_eq_nil_iff]
  intro p hp
  exact List.find?_eq_none.mp h p.1 (List.fst_mem_of_mem_zipIdx hp)

/-- The options of an index are at its places. -/
theorem map_positions (opts : List (Opt ι)) (index : Nat) :
    (positions indexOf opts index).map (fun j => opts[j]?)
      = (opts.filter fun opt => indexOf opt.index = index).map some := by
  induction opts using List.reverseRecOn with
  | nil => rfl
  | append_singleton opts opt ih =>
    have hold : (positions indexOf opts index).map (fun j => (opts ++ [opt])[j]?)
        = (positions indexOf opts index).map fun j => opts[j]? := by
      refine List.map_congr_left fun j hj => ?_
      rw [List.getElem?_append_left (lt_of_mem_positions hj)]
    rw [positions_concat, List.map_append, hold, ih, List.filter_append, List.map_append]
    congr 1
    by_cases h : indexOf opt.index = index <;> simp [h]

/-- The arrays, of these sizes, after some options. -/
structure Stored (indexOf : ι → Nat) (options_max buffer_max : Nat) (s : Storage ι)
    (opts : List (Opt ι)) : Prop where
  op_count : s.op_count = opts.length
  buffer : ∀ j < buffer_max, s.heap.valueOf (.buffer j) = some opts[j]?
  head : ∀ i < options_max,
    s.heap.valueOf (.options i) = some (opts.find? fun opt => indexOf opt.index = i)
  chain : ∀ i < options_max, IsRing s.heap (slots indexOf opts i)

variable {options_max buffer_max : Nat} {s : Storage ι}

theorem stored_fresh (indexOf : ι → Nat) (options_max buffer_max : Nat) :
    Stored indexOf options_max buffer_max ⟨Memory.fresh options_max buffer_max, 0⟩ [] where
  op_count := rfl
  buffer := by
    intro j hj
    simp [RingHeap.valueOf, Memory.fresh, hj, RingHeap.single]
  head := by
    intro i hi
    simp [RingHeap.valueOf, Memory.fresh, hi, RingHeap.single]
  chain := by
    intro i hi
    have hnode : (Memory.fresh options_max buffer_max : Memory ι).node (.options i)
        = some (RingHeap.single (.options i) none) := if_pos hi
    exact isRing_single hnode

theorem not_mem_slots {j : Nat} (h : opts.length ≤ j) :
    Slot.buffer j ∉ slots indexOf opts index := by
  simp only [slots, List.mem_cons, reduceCtorEq, false_or, List.mem_map, Slot.buffer.injEq,
    exists_eq_right]
  intro hmem
  have hlt := lt_of_mem_positions (List.mem_of_mem_tail hmem)
  omega

theorem length_slots_le : (slots indexOf opts index).length ≤ opts.length + 1 := by
  have hle : (positions indexOf opts index).length ≤ opts.length := by
    rw [positions, List.length_map]
    exact (List.length_filter_le ..).trans_eq List.length_zipIdx
  simp only [slots, List.length_cons, List.length_map, List.length_tail]
  omega

theorem mem_positions {j : Nat} :
    j ∈ positions indexOf opts index ↔ ∃ opt, opts[j]? = some opt ∧ indexOf opt.index = index := by
  rw [positions, List.mem_map]
  constructor
  · rintro ⟨⟨opt, j'⟩, hmem, rfl⟩
    obtain ⟨hzip, hindex⟩ := List.mem_filter.mp hmem
    exact ⟨opt, List.mem_zipIdx_iff_getElem?.mp hzip, of_decide_eq_true hindex⟩
  · rintro ⟨opt, hopt, hindex⟩
    refine ⟨(opt, j), List.mem_filter.mpr ⟨List.mem_zipIdx_iff_getElem?.mpr hopt, ?_⟩, rfl⟩
    exact decide_eq_true hindex

/-- The lists of different indices have no element in common. -/
theorem not_mem_slots_of_ne {index' : Nat} {a : Slot} (ha : a ∈ slots indexOf opts index)
    (hne : index ≠ index') : a ∉ slots indexOf opts index' := by
  intro ha'
  rcases List.mem_cons.mp ha with rfl | ha
  · rcases List.mem_cons.mp ha' with heq | ha'
    · exact hne (Slot.options.inj heq)
    · obtain ⟨j, -, heq⟩ := List.mem_map.mp ha'
      cases heq
  · obtain ⟨j, hj, rfl⟩ := List.mem_map.mp ha
    rcases List.mem_cons.mp ha' with heq | ha'
    · cases heq
    · obtain ⟨j', hj', heq⟩ := List.mem_map.mp ha'
      cases heq
      obtain ⟨opt, hopt, rfl⟩ := mem_positions.mp (List.mem_of_mem_tail hj)
      obtain ⟨opt', hopt', rfl⟩ := mem_positions.mp (List.mem_of_mem_tail hj')
      rw [Option.some.inj (hopt.symm.trans hopt')] at hne
      exact hne rfl

theorem slots_concat_ne (hne : indexOf opt.index ≠ index) :
    slots indexOf (opts ++ [opt]) index = slots indexOf opts index := by
  rw [slots, slots, positions_concat, if_neg hne, List.append_nil]

theorem slots_concat_first (h : opts.find? (fun o => indexOf o.index = indexOf opt.index) = none) :
    slots indexOf (opts ++ [opt]) (indexOf opt.index) = [.options (indexOf opt.index)] := by
  rw [slots, positions_concat, if_pos rfl, positions_eq_nil h]
  rfl

theorem slots_concat_more {first : Opt ι}
    (h : opts.find? (fun o => indexOf o.index = indexOf opt.index) = some first) :
    slots indexOf (opts ++ [opt]) (indexOf opt.index)
      = slots indexOf opts (indexOf opt.index) ++ [.buffer opts.length] := by
  have hne : positions indexOf opts (indexOf opt.index) ≠ [] := by
    obtain ⟨j, hj⟩ := List.getElem?_of_mem (List.mem_of_find?_eq_some h)
    have hindex := List.find?_some h
    exact List.ne_nil_of_mem (mem_positions.mpr ⟨first, hj, of_decide_eq_true hindex⟩)
  rw [slots, slots, positions_concat, if_pos rfl, List.tail_append_of_ne_nil hne, List.map_append]
  rfl

theorem getElem?_concat (opts : List (Opt ι)) (opt : Opt ι) (j : Nat) :
    (opts ++ [opt])[j]? = if j = opts.length then some opt else opts[j]? := by
  rcases Nat.lt_trichotomy j opts.length with h | h | h
  · rw [List.getElem?_append_left h, if_neg h.ne]
  · rw [h, List.getElem?_concat_length, if_pos rfl]
  · rw [if_neg h.ne', List.getElem?_eq_none h.le, List.getElem?_eq_none]
    rw [List.length_append, List.length_singleton]
    exact h

theorem find?_concat (p : Opt ι → Bool) (opts : List (Opt ι)) (opt : Opt ι) :
    (opts ++ [opt]).find? p = (opts.find? p).or (if p opt then some opt else none) := by
  rw [List.find?_append, List.find?_singleton]

/-- **One more option.** -/
theorem Stored.storeOption (hs : Stored indexOf options_max buffer_max s opts)
    (hbuffer : opts.length < buffer_max) (hindex : indexOf opt.index < options_max)
    (hlimit : opts.length < limit) {nodes : Nat} (hnodes : opts.length < nodes) :
    ∃ s', (Argv.storeOption indexOf nodes).perform opt s = some (true, s') ∧
      Stored indexOf options_max buffer_max s' (opts ++ [opt]) := by
  have hnode : (s.heap.node (.buffer opts.length)).isSome := by
    have hvalue := hs.buffer opts.length hbuffer
    obtain ⟨n, hn, -⟩ := Option.map_eq_some_iff.mp hvalue
    rw [hn, Option.isSome_some]
  obtain ⟨heap₁, hassign₁, hnode₁⟩ := RingHeap.exists_assign hnode (some opt)
  have hvalue₁ : ∀ slot, heap₁.valueOf slot
      = if slot = .buffer opts.length then some (some opt) else s.heap.valueOf slot := by
    intro slot
    rw [RingHeap.valueOf, hnode₁]
    split <;> rfl
  have hring₁ : ∀ i < options_max, IsRing heap₁ (slots indexOf opts i) := by
    intro i hi
    refine (hs.chain i hi).of_agree fun a ha => ?_
    rw [hnode₁, if_neg]
    rintro rfl
    exact not_mem_slots (le_refl _) ha
  have hfirst : heap₁.valueOf (.options (indexOf opt.index))
      = some (opts.find? fun o => indexOf o.index = indexOf opt.index) := by
    rw [hvalue₁, if_neg (by simp), hs.head _ hindex]
  have hperform : (Argv.storeOption indexOf nodes).perform opt s
      = (if (opts.find? fun o => indexOf o.index = indexOf opt.index).isSome then
          heap₁.append nodes (.options (indexOf opt.index)) (.buffer opts.length)
        else heap₁.assign (.options (indexOf opt.index)) (some opt)).map fun heap =>
          (true, ⟨heap, opts.length + 1⟩) := by
    rw [Argv.storeOption]
    simp only [hs.op_count, if_neg hlimit.ne, hassign₁, Option.bind_some, hvalue₁, if_true]
    rw [← hvalue₁, hfirst]
    rfl
  rw [hperform]
  cases hfind : opts.find? fun o => indexOf o.index = indexOf opt.index with
  | some first =>
    -- it goes behind the others of its index
    have hnodeb : (heap₁.node (.buffer opts.length)).isSome := by rw [hnode₁, if_pos rfl]; rfl
    obtain ⟨heap, happend, hring, hframe, hvalue⟩ := (hring₁ _ hindex).append
      List.mem_cons_self (not_mem_slots (le_refl _)) hnodeb
      (length_slots_le.trans hnodes)
    refine ⟨⟨heap, opts.length + 1⟩, by rw [Option.isSome_some, if_pos rfl, happend]; rfl,
      ?_, ?_, ?_, ?_⟩
    · rw [List.length_append, List.length_singleton]
    · intro j hj
      rw [hvalue, hvalue₁, getElem?_concat, hs.buffer j hj]
      by_cases h : j = opts.length <;> simp [h]
    · intro i hi
      rw [hvalue, hvalue₁, if_neg (by simp), hs.head i hi, find?_concat]
      by_cases h : indexOf opt.index = i
      · subst h
        rw [hfind]
        rfl
      · simp [h]
    · intro i hi
      by_cases h : indexOf opt.index = i
      · subst h
        rw [slots_concat_more hfind]
        exact hring
      · rw [slots_concat_ne h]
        refine (hring₁ i hi).of_agree fun a ha => hframe a (not_mem_slots_of_ne ha (Ne.symm h)) ?_
        rintro rfl
        exact not_mem_slots (le_refl _) ha
  | none =>
    have hnodeo : (heap₁.node (.options (indexOf opt.index))).isSome := by
      obtain ⟨n, hn, -⟩ := Option.map_eq_some_iff.mp hfirst
      rw [hn, Option.isSome_some]
    obtain ⟨heap, hassign, hnode⟩ := RingHeap.exists_assign hnodeo (some opt)
    have hvalue : ∀ slot, heap.valueOf slot
        = if slot = .options (indexOf opt.index) then some (some opt) else heap₁.valueOf slot := by
      intro slot
      rw [RingHeap.valueOf, hnode]
      split <;> rfl
    refine ⟨⟨heap, opts.length + 1⟩, by rw [if_neg (by simp), hassign]; rfl, ?_, ?_, ?_, ?_⟩
    · rw [List.length_append, List.length_singleton]
    · intro j hj
      rw [hvalue, if_neg (by simp), hvalue₁, getElem?_concat, hs.buffer j hj]
      by_cases h : j = opts.length <;> simp [h]
    · intro i hi
      rw [hvalue, hvalue₁, find?_concat]
      by_cases h : indexOf opt.index = i
      · subst h
        simp [hfind]
      · simp [h, Ne.symm h, hs.head i hi]
    · intro i hi
      by_cases h : indexOf opt.index = i
      · subst h
        rw [slots_concat_first hfind]
        exact isRing_single (by rw [hnode, if_pos rfl])
      · rw [slots_concat_ne h]
        refine (hring₁ i hi).of_agree fun a ha => ?_
        rw [hnode, if_neg]
        rintro rfl
        exact not_mem_slots_of_ne ha (Ne.symm h) List.mem_cons_self

/-! ## Both passes -/

/-- `Stats` counts up to the limit. -/
theorem performAll_countOptions : ∀ (opts : List (Opt ι)) {buffer_max : Nat}, buffer_max ≤ limit →
    performAll countOptions opts buffer_max
      = some (decide (buffer_max + opts.length ≤ limit), min (buffer_max + opts.length) limit)
  | [], buffer_max, h => by
    simp [performAll, h]
  | opt :: opts, buffer_max, h => by
    by_cases hmax : buffer_max = limit
    · simp [performAll, countOptions, hmax]
    · have hle : buffer_max + 1 ≤ limit := by omega
      have hrest := performAll_countOptions opts hle
      have hperform : countOptions.perform opt buffer_max = some (true, buffer_max + 1) := by
        simp only [countOptions, if_neg hmax]
      rw [performAll, hperform, Option.bind_some, if_pos rfl, hrest, List.length_cons,
        Nat.add_assoc, Nat.add_comm 1]

/-- **What fits in is stored**, up to the limit of the parser. -/
theorem Stored.performAll {nodes : Nat} : ∀ (more : List (Opt ι)) {opts : List (Opt ι)}
    {s : Storage ι}, Stored indexOf options_max buffer_max s opts →
    (∀ opt ∈ more, indexOf opt.index < options_max) → opts.length ≤ limit →
    min (opts.length + more.length) limit ≤ buffer_max → buffer_max ≤ nodes →
    ∃ s', Argv.performAll (Argv.storeOption indexOf nodes) more s
        = some (decide (opts.length + more.length ≤ limit), s') ∧
      Stored indexOf options_max buffer_max s' (opts ++ more.take (limit - opts.length))
  | [], opts, s, hs, _, hlimit, _, _ => by
    refine ⟨s, by simp [Argv.performAll, hlimit], ?_⟩
    rwa [List.take_nil, List.append_nil]
  | opt :: more, opts, s, hs, hindex, hlimit, hbuffer, hnodes => by
    rw [List.forall_mem_cons] at hindex
    rw [List.length_cons] at hbuffer
    by_cases hmax : opts.length = limit
    · refine ⟨s, ?_, ?_⟩
      · have hperform : (Argv.storeOption indexOf nodes).perform opt s = some (false, s) := by
          simp only [Argv.storeOption, hs.op_count, hmax, if_true]
        rw [Argv.performAll, hperform]
        simp [hmax]
      · rwa [hmax, Nat.sub_self, List.take_zero, List.append_nil]
    · have hnodes₁ : opts.length < nodes := by omega
      obtain ⟨s₁, hperform, hs₁⟩ := hs.storeOption (by omega) hindex.1 (by omega) hnodes₁
      have hlength : (opts ++ [opt]).length = opts.length + 1 := by simp
      obtain ⟨s', hall, hs'⟩ := Stored.performAll more hs₁ hindex.2 (by omega) (by omega) hnodes
      refine ⟨s', ?_, ?_⟩
      · rw [Argv.performAll, hperform, Option.bind_some, if_pos rfl, hall, hlength,
          List.length_cons, Nat.add_assoc, Nat.add_comm 1]
      · obtain ⟨k, hk⟩ : ∃ k, limit - opts.length = k + 1 := ⟨limit - opts.length - 1, by omega⟩
        rw [hk, List.take_succ_cons]
        rw [hlength, List.append_assoc, List.singleton_append] at hs'
        have hk' : limit - (opts.length + 1) = k := by omega
        rwa [hk'] at hs'

theorem le_foldl_optionsMax : ∀ (usage : List (Descriptor ι)) (options_max : Nat),
    options_max ≤ usage.foldl (fun options_max d =>
      if indexOf d.index + 1 ≥ options_max then indexOf d.index + 1 + 1 else options_max)
      options_max
  | [], _ => le_refl _
  | d :: usage, options_max => by
    refine le_trans ?_ (le_foldl_optionsMax usage _)
    dsimp only
    split <;> omega

theorem lt_optionsMax_from : ∀ (usage : List (Descriptor ι)) (options_max : Nat), ∀ d ∈ usage,
    indexOf d.index < usage.foldl (fun options_max d =>
      if indexOf d.index + 1 ≥ options_max then indexOf d.index + 1 + 1 else options_max)
      options_max
  | d :: usage, options_max, d', hd' => by
    rw [List.foldl_cons]
    rcases List.mem_cons.mp hd' with rfl | hd'
    · refine lt_of_lt_of_le ?_ (le_foldl_optionsMax usage _)
      split <;> omega
    · exact lt_optionsMax_from usage _ d' hd'

variable {usage : List (Descriptor ι)} {gnu : Bool}

theorem lt_optionsMax {d : Descriptor ι} (hd : d ∈ usage) :
    indexOf d.index < optionsMax indexOf usage :=
  lt_optionsMax_from usage 1 d hd

theorem firstEmpty_fresh {nodes : Nat} (hnodes : 0 < nodes) (hbuffer : 0 < buffer_max) :
    firstEmpty (Memory.fresh options_max buffer_max : Memory ι) nodes 0 = some 0 := by
  obtain ⟨fuel, rfl⟩ := Nat.exists_eq_add_of_lt hnodes
  have hvalue : (Memory.fresh options_max buffer_max : Memory ι).valueOf (.buffer 0)
      = some none := by
    simp [RingHeap.valueOf, Memory.fresh, hbuffer, RingHeap.single]
  rw [Nat.zero_add, firstEmpty, hvalue]
  rfl

/-- The loop from the beginning of `argv`. -/
theorem exists_run {σ : Type} {action : Action ι σ} {st st' : σ} {ok : Bool} {argv : List Token}
    (h : performAll action (scan gnu usage argv).performed st = some (ok, st')) :
    ∃ run, workhorse action gnu usage argv.length ⟨argv, 0, 0⟩ st = some run ∧
      Outcome (scan gnu usage argv) [] [] argv ok st' run :=
  exists_workhorse argv [] [] h

/-- The second pass stays in the arrays when they are large enough. -/
theorem exists_parse {stats : Stats} (hoptions : stats.options_max = optionsMax indexOf usage)
    (hpos : 0 < stats.buffer_max)
    (hbuffer : min (scan gnu usage stats.argv).performed.length limit ≤ stats.buffer_max) :
    ∃ p s' run, Parse.parse indexOf gnu usage stats = some p ∧
      Stored indexOf stats.options_max stats.buffer_max s'
        ((scan gnu usage stats.argv).performed.take limit) ∧
      Outcome (scan gnu usage stats.argv) [] [] stats.argv
        (decide ((scan gnu usage stats.argv).performed.length ≤ limit)) s' run ∧
      p = { heap := s'.heap, op_count := s'.op_count,
            nonop_count := (run.finished.map Prod.fst).getD 0
            nonop_args :=
              run.finished.bind fun finished => if finished.1 > 0 then some finished.2 else none
            err := run.finished.isNone, argv := run.argv } := by
  have hindex : ∀ opt ∈ (scan gnu usage stats.argv).performed,
      indexOf opt.index < stats.options_max := by
    intro opt hopt
    obtain ⟨d, hd, hindex⟩ := inTable_scan stats.argv opt hopt
    rw [hoptions, ← hindex]
    exact lt_optionsMax hd
  have hnodes : stats.buffer_max ≤ stats.options_max + stats.buffer_max := Nat.le_add_left _ _
  obtain ⟨s', hall, hstored⟩ := (stored_fresh indexOf stats.options_max stats.buffer_max).performAll
    _ hindex (Nat.zero_le _) (by simpa using hbuffer) hnodes
  rw [List.length_nil, Nat.zero_add] at hall
  rw [List.length_nil, Nat.sub_zero, List.nil_append] at hstored
  obtain ⟨run, hrun, houtcome⟩ := exists_run hall
  refine ⟨_, s', run, ?_, hstored, houtcome, rfl⟩
  rw [Parse.parse]
  simp only [firstEmpty_fresh (Nat.add_pos_right _ hpos) hpos, Option.bind_some, hrun,
    Option.map_some, houtcome.state]

/-- The first pass counts, and reorders `argv`. -/
theorem exists_stats (indexOf : ι → Nat) (gnu : Bool) (usage : List (Descriptor ι))
    (argv : List Token) :
    ∃ stats, Stats.add indexOf gnu usage argv = some stats ∧
      stats.options_max = optionsMax indexOf usage ∧
      stats.buffer_max = min (1 + (scan gnu usage argv).performed.length) limit ∧
      ((scan gnu usage argv).performed.length < limit →
        stats.argv = (scan gnu usage argv).front ++ (scan gnu usage argv).back) := by
  have hone : 1 ≤ limit := by decide
  have hcount := performAll_countOptions (scan gnu usage argv).performed hone
  obtain ⟨run, hrun, houtcome⟩ := exists_run hcount
  refine ⟨_, by rw [Stats.add, hrun, Option.map_some], rfl, houtcome.state, ?_⟩
  intro hlt
  have hargv := houtcome.argv (by rw [decide_eq_true_eq]; omega)
  rwa [List.nil_append, List.append_nil] at hargv

section Both

variable (indexOf) (gnu) (husage : ∀ d ∈ usage, Definite d) (argv : List Token)
include husage

/-- What the parser holds, unless there are more options than it can count. -/
theorem exists_ofArgv (hlimit : (scan gnu usage argv).performed.length < limit) :
    ∃ p, Parse.ofArgv indexOf gnu usage argv = some p ∧
      Stored indexOf (optionsMax indexOf usage) ((scan gnu usage argv).performed.length + 1)
        ⟨p.heap, p.op_count⟩ (scan gnu usage argv).performed ∧
      p.err = !(scan gnu usage argv).ok ∧
      p.argv = (scan gnu usage argv).front ++ (scan gnu usage argv).back ∧
      ((scan gnu usage argv).ok →
        p.nonop_count = (scan gnu usage argv).back.length ∧
        ∀ i < (scan gnu usage argv).back.length,
          p.nonOption i = (scan gnu usage argv).back[i]?) := by
  obtain ⟨stats, hstats, hoptions, hbuffer, hargv⟩ := exists_stats indexOf gnu usage argv
  have hscan : scan gnu usage stats.argv = scan gnu usage argv := by
    rw [hargv hlimit, scan_scan husage]
  have hmax : stats.buffer_max = (scan gnu usage argv).performed.length + 1 := by omega
  have hfits : min (scan gnu usage argv).performed.length limit ≤ stats.buffer_max := by omega
  obtain ⟨p, s', run, hparse, hstored, houtcome, rfl⟩ :=
    exists_parse hoptions (by omega) (hscan.symm ▸ hfits)
  rw [hscan] at hstored houtcome
  have hle : decide ((scan gnu usage argv).performed.length ≤ limit) = true :=
    decide_eq_true hlimit.le
  have hfinished := houtcome.finished
  have hrunargv := houtcome.argv hle
  rw [hle, Bool.true_and] at hfinished
  rw [List.take_of_length_le hlimit.le, hoptions, hmax] at hstored
  refine ⟨_, by rw [Parse.ofArgv, hstats, Option.bind_some, hparse], hstored, ?_, ?_, ?_⟩
  · rw [hfinished]
    cases (scan gnu usage argv).ok <;> rfl
  · rwa [List.nil_append, List.append_nil] at hrunargv
  · intro hok
    rw [hok, if_pos rfl] at hfinished
    simp only [Parse.nonOption, hfinished, hrunargv]
    refine ⟨by simp, ?_⟩
    intro i hi
    have hpos : 0 < (scan gnu usage argv).back.length := by omega
    simp only [hpos, if_true, List.length_nil, Nat.zero_add, Option.bind_some, List.nil_append,
      List.append_nil]
    rw [List.getElem?_append_right (Nat.le_add_right _ _), Nat.add_sub_cancel_left]

end Both

/-! ## The parser and the pass without an action -/

/-- A parser without an error that holds this. -/
structure Holds (indexOf : ι → Nat) (usage : List (Descriptor ι)) (p : Parse ι)
    (parsed : Parsed ι) : Prop where
  err : p.err = false
  op_count : p.op_count = parsed.options.length
  buffer : ∀ j, j < parsed.options.length → p.buffer j = some parsed.options[j]?
  options : ∀ d ∈ usage, p.options (indexOf d.index)
    = some (parsed.options.find? fun opt => indexOf opt.index = indexOf d.index)
  nonop_count : p.nonop_count = parsed.nonOptions.length
  nonOption : ∀ i < parsed.nonOptions.length, p.nonOption i = parsed.nonOptions[i]?

/-- The characters of the command line. -/
def characters (argv : List Token) : Nat := (argv.flatMap Token.text).length

theorem characters_cons (t : Token) (rest : List Token) :
    characters (t :: rest) = t.text.length + characters rest := by
  rw [characters, characters, List.flatMap_cons, List.length_append]

theorem length_performed_scanGroup (place : Nat) (next : Option (List Char)) (text : List Char) :
    (scanGroup usage place next text).performed.length ≤ text.length := by
  have hshort : ∀ group : List Char,
      (scanShort usage place next group).performed.length ≤ group.length := by
    intro group
    induction group with
    | nil => exact le_refl _
    | cons c rest ih =>
      unfold scanShort
      split
      · exact ih.trans (Nat.le_succ _)
      · split
        · exact Nat.zero_le _
        · exact Nat.succ_le_succ (Nat.zero_le _)
        · exact Nat.succ_le_succ ih
  unfold scanGroup
  split
  · unfold scanLong
    split
    · exact Nat.zero_le _
    · split
      · exact Nat.zero_le _
      · exact Nat.succ_le_succ (Nat.zero_le _)
  · exact hshort text

/-- Each option has a character of its own. -/
theorem length_performed_le : ∀ argv : List Token,
    (scan gnu usage argv).performed.length ≤ characters argv
  | [] => le_refl _
  | t :: rest => by
    rcases token_cases t with hterm | ⟨ch, text, htext, hterm⟩ | hnon
    · rw [scan_terminator hterm]
      exact Nat.zero_le _
    · have hgroup : ∀ next, (scanGroup usage t.place next (ch :: text)).performed.length
          ≤ (ch :: text).length :=
        fun next => length_performed_scanGroup t.place next (ch :: text)
      have hlength : t.text.length = (ch :: text).length + 1 := by rw [htext, List.length_cons]
      rcases scan_option_cases htext hterm rest with
        ⟨-, hscan⟩ | ⟨-, -, hscan⟩ | ⟨arg, rest, rfl, -, -, hscan⟩
      · rw [hscan, characters_cons]
        exact ((hgroup _).trans (by omega)).trans (Nat.le_add_right _ _)
      · have hoption := hgroup (rest.head?.map Token.text)
        have hrest := length_performed_le rest
        rw [hscan, Scan.prepend, List.length_append, characters_cons]
        omega
      · have hoption := hgroup (some arg.text)
        have hrest := length_performed_le rest
        rw [hscan, Scan.prepend, List.length_append, characters_cons, characters_cons]
        omega
    · rw [scan_nonOption hnon, characters_cons]
      split
      · exact (length_performed_le rest).trans (Nat.le_add_left _ _)
      · exact Nat.zero_le _

variable (indexOf) {argv : List Token} (husage : ∀ d ∈ usage, Definite d)
  (hlimit : characters argv < limit)
include husage hlimit

theorem ofArgv_of_none (h : Parser.workhorse gnu usage false argv = none) :
    ∃ p, Parse.ofArgv indexOf gnu usage argv = some p ∧ p.err = true := by
  rw [workhorse_eq_scan, Scan.parsed] at h
  obtain ⟨p, hp, -, herr, -⟩ :=
    exists_ofArgv indexOf gnu husage argv ((length_performed_le argv).trans_lt hlimit)
  refine ⟨p, hp, ?_⟩
  split at h
  · cases h
  · next hok =>
    rw [Bool.not_eq_true] at hok
    rw [herr, hok, Bool.not_false]

theorem ofArgv_of_some {parsed : Parsed ι}
    (h : Parser.workhorse gnu usage false argv = some parsed) :
    ∃ p, Parse.ofArgv indexOf gnu usage argv = some p ∧ Holds indexOf usage p parsed ∧
      Stored indexOf (optionsMax indexOf usage) (parsed.options.length + 1) ⟨p.heap, p.op_count⟩
        parsed.options := by
  rw [workhorse_eq_scan, Scan.parsed] at h
  obtain ⟨p, hp, hstored, herr, -, hback⟩ :=
    exists_ofArgv indexOf gnu husage argv ((length_performed_le argv).trans_lt hlimit)
  split at h
  · next hok =>
    cases h
    obtain ⟨hcount, hnonOption⟩ := hback hok
    refine ⟨p, hp, ⟨?_, hstored.op_count, ?_, ?_, hcount, hnonOption⟩, hstored⟩
    · rw [herr, hok, Bool.not_true]
    · intro j hj
      exact hstored.buffer j (hj.trans (Nat.lt_succ_self _))
    · intro d hd
      exact hstored.head _ (lt_optionsMax hd)
  · cases h

end DdsApps.Options.Argv
