import DdsApps.ImageTest.Prefixes
import DdsApps.Infra.Numerals

/-!
# The grammar of encodings

`numChannels` and `bitDepth` hand the text behind a prefix to `atoi`, which reads more than the
numerals of channel counts.

* `Encodes` — the grammar, with the channels and the bits a name stands for
* `acceptsExactly_iff` — the names on which the two lookups follow it
* `signed_count_accepted` — a number of channels that is negative
-/

namespace DdsApps.ImageTest

open DdsApps.Infra

/-! ## The grammar -/

/-- A decimal numeral of a positive `int`, and nothing else. -/
structure Count (ds : List Char) : Prop where
  digits : Digits ds
  pos : 1 ≤ decimalValue ds
  le : decimalValue ds ≤ 2147483647

instance (ds : List Char) : Decidable (Count ds) :=
  decidable_of_iff (Digits ds ∧ 1 ≤ decimalValue ds ∧ decimalValue ds ≤ 2147483647)
    ⟨fun h => ⟨h.1, h.2.1, h.2.2⟩, fun h => ⟨h.1, h.2, h.3⟩⟩

/-- The encoding `s` has `n` channels of `d` bits. -/
inductive Encodes : String → Int → Int → Prop
  | fixed {s : String} {n d : Int} (h : (s, n, d) ∈ fixedEncodings) : Encodes s n d
  | bare {p : String} {d : Int} (h : (p, d) ∈ prefixDepths) : Encodes p 1 d
  | numbered {s p : String} {d : Int} {ds : List Char} (h : (p, d) ∈ prefixDepths)
    (hs : s.toList = p.toList ++ ds) (hds : Count ds) : Encodes s (decimalValue ds) d

/-- The two lookups know the encodings, and answer -1 to everything else. -/
structure AcceptsExactly (s : String) : Prop where
  known : ∀ n d, Encodes s n d → numChannels s = n ∧ bitDepth s = d
  unknown : (¬∃ n d, Encodes s n d) → numChannels s = -1 ∧ bitDepth s = -1

/-- A prefix, and behind it a text that `atoi` takes for a number though it is no count. -/
def Tolerated (s : String) : Prop :=
  ∃ p ∈ abstractEncodingPrefixes, ∃ rest : List Char,
    s.toList = p.toList ++ rest ∧ rest ≠ [] ∧ atoi rest ≠ 0 ∧ ¬Count rest

/-! ## The encodings among each kind of names -/

theorem Count.atoi {ds : List Char} (h : Count ds) : atoi ds = decimalValue ds :=
  atoi_of_digits h.digits h.le

theorem Count.channelsOf {ds : List Char} (h : Count ds) :
    channelsOf ds = some (decimalValue ds : Int) := by
  have hpos := h.pos
  unfold ImageTest.channelsOf
  rw [if_neg h.digits.ne_nil, h.atoi, if_pos (by omega)]

/-- An encoding that is no fixed name begins with a prefix. -/
theorem Encodes.fixed_or_abstract {s : String} {n d : Int} (h : Encodes s n d) :
    (s, n, d) ∈ fixedEncodings ∨ ∃ p ∈ abstractEncodingPrefixes, p.toList <+: s.toList := by
  cases h with
  | fixed h => exact Or.inl h
  | bare h => exact Or.inr ⟨s, (prefixDepths_spec _ h).1, List.prefix_rfl⟩
  | numbered h hs => exact Or.inr ⟨_, (prefixDepths_spec _ h).1, hs ▸ List.prefix_append ..⟩

/-- Behind the prefix there is nothing, or a count. -/
theorem Encodes.of_abstract {s p : String} (hp : p ∈ abstractEncodingPrefixes) {rest : List Char}
    (hs : s.toList = p.toList ++ rest) {n d : Int} (h : Encodes s n d) :
    d = atoi p.toList ∧ ((rest = [] ∧ n = 1) ∨ (Count rest ∧ n = decimalValue rest)) := by
  cases h with
  | fixed h =>
    exact absurd rfl (not_fixed_of_abstract hp (hs ▸ List.prefix_append ..) _ h)
  | bare h =>
    obtain ⟨hmem, hdepth, -⟩ := prefixDepths_spec _ h
    obtain ⟨rfl, rfl⟩ := abstract_unique hp hmem hs (List.append_nil _).symm
    exact ⟨hdepth.symm, Or.inl ⟨rfl, rfl⟩⟩
  | numbered h hs' hds =>
    obtain ⟨hmem, hdepth, -⟩ := prefixDepths_spec _ h
    obtain ⟨rfl, rfl⟩ := abstract_unique hp hmem hs hs'
    exact ⟨hdepth.symm, Or.inr ⟨hds, rfl⟩⟩

theorem acceptsExactly_of_fixed {row : String × Int × Int} (hrow : row ∈ fixedEncodings) :
    AcceptsExactly row.1 := by
  refine ⟨fun n d h => ?_, fun hnone => absurd ⟨_, _, .fixed hrow⟩ hnone⟩
  rcases h.fixed_or_abstract with hfixed | ⟨p, hp, hprefix⟩
  · exact lookups_of_fixed _ hfixed
  · exact absurd hprefix (fixed_not_abstract row hrow p hp)

theorem acceptsExactly_of_other {s : String} (hfixed : ∀ row ∈ fixedEncodings, s ≠ row.1)
    (hnone : ∀ p ∈ abstractEncodingPrefixes, ¬p.toList <+: s.toList) : AcceptsExactly s := by
  refine ⟨fun n d h => ?_, fun _ => lookups_of_other hfixed hnone⟩
  rcases h.fixed_or_abstract with hmem | ⟨p, hp, hprefix⟩
  · exact absurd rfl (hfixed _ hmem)
  · exact absurd hprefix (hnone p hp)

theorem acceptsExactly_of_abstract {s p : String} (hp : p ∈ abstractEncodingPrefixes)
    {rest : List Char} (hs : s.toList = p.toList ++ rest) :
    AcceptsExactly s ↔ rest = [] ∨ atoi rest = 0 ∨ Count rest := by
  have hdepths := exists_prefixDepth p hp
  obtain ⟨hchannels, hdepth⟩ := lookups_of_abstract hp hs
  constructor
  · rintro ⟨-, hunknown⟩
    by_contra hne
    obtain ⟨hrest, hzero, hcount⟩ := not_or.mp hne |>.imp_right not_or.mp
    -- it is no encoding, and has a depth all the same
    have hnone : ¬∃ n d, Encodes s n d := by
      rintro ⟨n, d, h⟩
      rcases (h.of_abstract hp hs).2 with ⟨hnil, -⟩ | ⟨hds, -⟩
      · exact hrest hnil
      · exact hcount hds
    rw [channelsOf, if_neg hrest, if_pos hzero] at hdepth
    exact (prefixDepths_spec _ hdepths).2.2 (hdepth.symm.trans (hunknown hnone).2)
  · intro hrest
    have hbare : rest = [] → Encodes s 1 (atoi p.toList) := by
      rintro rfl
      rw [List.append_nil, String.toList_inj] at hs
      rw [hs]
      exact .bare hdepths
    refine ⟨fun n d h => ?_, fun hnone => ?_⟩
    · obtain ⟨rfl, ⟨rfl, rfl⟩ | ⟨hds, rfl⟩⟩ := h.of_abstract hp hs
      · exact ⟨hchannels, hdepth⟩
      · rw [hchannels, hdepth, hds.channelsOf]
        exact ⟨rfl, rfl⟩
    · by_cases hnil : rest = []
      · exact absurd ⟨_, _, hbare hnil⟩ hnone
      · rcases hrest.resolve_left hnil with hzero | hds
        · rw [hchannels, hdepth, channelsOf, if_neg hnil, if_neg (not_not.mpr hzero)]
          exact ⟨rfl, rfl⟩
        · exact absurd ⟨_, _, .numbered hdepths hs hds⟩ hnone

/-! ## Main result -/

/--
**The lookups follow the grammar exactly on the names that are not merely tolerated.**

These are a prefix with a text behind it that is no count, and that `atoi` does not read as 0: it
has a sign or blanks in front, something behind the digits, or a value that is too large.
-/
theorem acceptsExactly_iff (s : String) : AcceptsExactly s ↔ ¬Tolerated s := by
  rcases name_cases s with ⟨row, hrow, rfl⟩ | ⟨p, hp, rest, hs⟩ | ⟨hfixed, hnone⟩
  · refine iff_of_true (acceptsExactly_of_fixed hrow) ?_
    rintro ⟨p, hp, rest, hs, -⟩
    exact fixed_not_abstract row hrow p hp (hs ▸ List.prefix_append ..)
  · rw [acceptsExactly_of_abstract hp hs]
    constructor
    · rintro hrest ⟨q, hq, rest', hs', hne, hzero, hcount⟩
      obtain ⟨rfl, rfl⟩ := abstract_unique hp hq hs hs'
      rcases hrest with hnil | hzero' | hds
      · exact hne hnil
      · exact hzero hzero'
      · exact hcount hds
    · intro hnot
      by_contra hne
      obtain ⟨hrest, hzero, hcount⟩ := not_or.mp hne |>.imp_right not_or.mp
      exact hnot ⟨p, hp, rest, hs, hrest, hzero, hcount⟩
  · refine iff_of_true (acceptsExactly_of_other hfixed hnone) ?_
    rintro ⟨p, hp, rest, hs, -⟩
    exact hnone p hp (hs ▸ List.prefix_append ..)

/-- **A number of channels can be negative.** -/
theorem signed_count_accepted : ¬∀ s, AcceptsExactly s := by
  intro hall
  have hrest := (acceptsExactly_of_abstract (p := "8UC") (by decide)
    (show "8UC-3".toList = _ ++ "-3".toList by decide +kernel)).mp (hall _)
  exact absurd hrest (by decide +kernel)

end DdsApps.ImageTest
