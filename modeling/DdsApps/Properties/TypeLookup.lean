import DdsApps.ImageTest.Prefixes

/-!
# The type lookup beside the size lookups

`getCvType` is a table; `numChannels` and `bitDepth` read generic names by prefix and number. Where
they know a name and the table does not, the subscriber exits.

* `getCvType_of_abstract` — of each prefix the table has four names
* `missing_iff` — the names only the size lookups know
* `lookupsAgree_iff` — the lookups agree on all others
* `yuv422_has_no_type` — one name that is missing
-/

namespace DdsApps.ImageTest

open DdsApps.Infra

/-! ## What the table knows -/

theorem getCvType_ok_iff {s : String} :
    (∃ t, getCvType s = .ok t) ↔ ∃ row ∈ cvTypes, s = row.1 := by
  constructor
  · rintro ⟨t, ht⟩
    exact ⟨_, getCvType_mem ht, rfl⟩
  · rintro ⟨row, hrow, heq⟩
    have hsome : (cvTypes.lookup s).isSome := by
      rw [List.lookup_isSome_iff]
      exact ⟨row, hrow, beq_iff_eq.mpr heq⟩
    obtain ⟨t, ht⟩ := Option.isSome_iff_exists.mp hsome
    unfold getCvType
    rw [ht]
    exact ⟨t, rfl⟩

/-- The numbers the macros put behind a prefix. -/
def typeDigits : List (List Char) := [['1'], ['2'], ['3'], ['4']]

/-- A row is a fixed name, or a prefix with one of the four numbers. -/
theorem cvTypes_rows : ∀ row ∈ cvTypes,
    (∃ fixed ∈ fixedEncodings, row.1 = fixed.1 ∧ row.1 ≠ yuv422) ∨
      ∃ p ∈ abstractEncodingPrefixes, ∃ rest ∈ typeDigits, row.1.toList = p.toList ++ rest := by
  decide +kernel

theorem getCvType_of_fixed : ∀ row ∈ fixedEncodings,
    (∃ type ∈ cvTypes, row.1 = type.1) ↔ row.1 ≠ yuv422 := by
  decide +kernel

theorem cvTypes_of_abstract : ∀ p ∈ abstractEncodingPrefixes, ∀ rest ∈ typeDigits,
    ∃ row ∈ cvTypes, row.1.toList = p.toList ++ rest := by
  decide +kernel

theorem getCvType_of_abstract {s p : String} (hp : p ∈ abstractEncodingPrefixes) {rest : List Char}
    (hs : s.toList = p.toList ++ rest) : (∃ t, getCvType s = .ok t) ↔ rest ∈ typeDigits := by
  rw [getCvType_ok_iff]
  constructor
  · rintro ⟨row, hrow, rfl⟩
    rcases cvTypes_rows row hrow with ⟨fixed, hfixed, heq, -⟩ | ⟨q, hq, rest', hmem, hs'⟩
    · exact absurd heq (not_fixed_of_abstract hp (hs ▸ List.prefix_append ..) fixed hfixed)
    · obtain ⟨rfl, rfl⟩ := abstract_unique hp hq hs hs'
      exact hmem
  · intro hrest
    obtain ⟨row, hrow, heq⟩ := cvTypes_of_abstract p hp rest hrest
    exact ⟨row, hrow, String.toList_inj.mp (hs.trans heq.symm)⟩

/-! ## What the size lookups know -/

/-- There is a depth, and a number of channels that OpenCV has a type name for. -/
def SizesKnown (s : String) : Prop := bitDepth s ≠ -1 ∧ 1 ≤ numChannels s ∧ numChannels s ≤ 4

theorem sizesKnown_of_getCvType {s : String} {t : CvType} (ht : getCvType s = .ok t) :
    SizesKnown s := by
  obtain ⟨hchannels, hdepth, hpos, hle⟩ := getCvType_spec ht
  unfold SizesKnown
  rw [hchannels, hdepth]
  omega

theorem sizesKnown_of_abstract {s p : String} (hp : p ∈ abstractEncodingPrefixes) {rest : List Char}
    (hs : s.toList = p.toList ++ rest) :
    SizesKnown s ↔ rest = [] ∨ (1 ≤ atoi rest ∧ atoi rest ≤ 4) := by
  obtain ⟨hchannels, hdepth⟩ := lookups_of_abstract hp hs
  have hne := (prefixDepths_spec _ (exists_prefixDepth p hp)).2.2
  unfold SizesKnown
  rw [hchannels, hdepth, channelsOf]
  by_cases hrest : rest = []
  · rw [if_pos hrest]
    exact iff_of_true ⟨hne, Int.le_refl 1, by decide⟩ (Or.inl hrest)
  · rw [if_neg hrest]
    by_cases hzero : atoi rest = 0
    · rw [if_neg (not_not.mpr hzero), hzero]
      exact iff_of_false (fun h => h.1 rfl) (fun h => h.elim hrest fun h => absurd h.1 (by decide))
    · rw [if_pos hzero]
      exact ⟨fun h => Or.inr h.2, fun h => ⟨hne, h.resolve_left hrest⟩⟩

/-! ## Main result -/

/-- The lookups know the same names, and what they say of a name fits together. -/
structure LookupsAgree (s : String) : Prop where
  known : (∃ t, getCvType s = .ok t) ↔ SizesKnown s
  type : ∀ t, getCvType s = .ok t →
    (t.channels : Int) = numChannels s ∧ 8 * (t.depth.bytes : Int) = bitDepth s ∧
      (t.elemSize : Int) = (bitDepth s).tdiv 8 * numChannels s

/--
`yuv422`, a prefix alone, and a prefix with a text behind it that `atoi` reads as one of the
numbers 1 to 4 although it is not just that digit.
-/
def MissingType (s : String) : Prop :=
  s = yuv422 ∨ ∃ p ∈ abstractEncodingPrefixes, ∃ rest : List Char, s.toList = p.toList ++ rest ∧
    (rest = [] ∨ (1 ≤ atoi rest ∧ atoi rest ≤ 4 ∧ rest ∉ typeDigits))

theorem missing_of_abstract {s p : String} (hp : p ∈ abstractEncodingPrefixes) {rest : List Char}
    (hs : s.toList = p.toList ++ rest) :
    MissingType s ↔ rest = [] ∨ (1 ≤ atoi rest ∧ atoi rest ≤ 4 ∧ rest ∉ typeDigits) := by
  constructor
  · rintro (rfl | ⟨q, hq, rest', hs', hrest'⟩)
    · exact absurd rfl
        (not_fixed_of_abstract hp (hs ▸ List.prefix_append ..) (yuv422, 2, 8) (by decide))
    · obtain ⟨rfl, rfl⟩ := abstract_unique hp hq hs hs'
      exact hrest'
  · exact fun hrest => Or.inr ⟨p, hp, rest, hs, hrest⟩

/-- A name without a prefix lacks a type only if it is `yuv422`. -/
theorem missing_of_no_abstract {s : String}
    (hnone : ∀ p ∈ abstractEncodingPrefixes, ¬p.toList <+: s.toList) :
    MissingType s ↔ s = yuv422 := by
  refine or_iff_left ?_
  rintro ⟨p, hp, rest, hs, -⟩
  exact hnone p hp (hs ▸ List.prefix_append ..)

theorem sizesKnown_of_fixed : ∀ row ∈ fixedEncodings, SizesKnown row.1 := by
  unfold SizesKnown
  decide +kernel

/-- **They are the names the size lookups know and the table does not.** -/
theorem missing_iff (s : String) :
    MissingType s ↔ SizesKnown s ∧ ¬∃ t, getCvType s = .ok t := by
  rcases name_cases s with ⟨row, hrow, rfl⟩ | ⟨p, hp, rest, hs⟩ | ⟨hfixed, hnone⟩
  · rw [missing_of_no_abstract (fixed_not_abstract row hrow), getCvType_ok_iff,
      getCvType_of_fixed row hrow, not_not]
    exact (and_iff_right (sizesKnown_of_fixed row hrow)).symm
  · rw [missing_of_abstract hp hs, sizesKnown_of_abstract hp hs, getCvType_of_abstract hp hs]
    constructor
    · rintro (rfl | ⟨hpos, hle, hdigit⟩)
      · exact ⟨Or.inl rfl, by decide⟩
      · exact ⟨Or.inr ⟨hpos, hle⟩, hdigit⟩
    · rintro ⟨hrest, hdigit⟩
      exact hrest.imp_right fun h => ⟨h.1, h.2, hdigit⟩
  · rw [missing_of_no_abstract hnone]
    refine iff_of_false (hfixed (yuv422, 2, 8) (by decide)) ?_
    rintro ⟨⟨hdepth, -⟩, -⟩
    exact hdepth (lookups_of_other hfixed hnone).2

/--
**The lookups agree on all names but these.**

What the table returns is always right; the names it lacks are the difference.
-/
theorem lookupsAgree_iff (s : String) : LookupsAgree s ↔ ¬MissingType s := by
  rw [missing_iff, not_and, not_not]
  constructor
  · exact fun h hknown => h.known.mpr hknown
  · intro hreturns
    refine ⟨⟨fun ⟨t, ht⟩ => sizesKnown_of_getCvType ht, hreturns⟩, ?_⟩
    intro t ht
    obtain ⟨hchannels, hdepth, -, -⟩ := getCvType_spec ht
    rw [hchannels, hdepth, Int.mul_tdiv_cancel_left _ (by decide), CvType.elemSize, Nat.mul_comm]
    exact ⟨rfl, rfl, Int.natCast_mul ..⟩

/-- **An encoding of two channels of 8 bits, for which the process exits.** -/
theorem yuv422_has_no_type : ¬∀ s, LookupsAgree s := by
  intro hall
  have hmissing := (missing_iff yuv422).mp (Or.inl rfl)
  exact hmissing.2 ((hall yuv422).known.mpr hmissing.1)

end DdsApps.ImageTest
