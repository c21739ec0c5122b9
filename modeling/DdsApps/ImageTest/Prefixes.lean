import DdsApps.ImageTest.Encoding
import Mathlib.Data.List.Infix

/-!
# Fixed names, prefixes, and everything else

What `numChannels` and `bitDepth` answer, by what the name is. No abstract prefix begins another
one or a fixed name, so the order of the comparisons does not matter.

* `scanPrefixes_of_abstract` — the loop finds the one prefix there is
* `name_cases` — the three kinds of names
* `lookups_of_fixed`, `lookups_of_abstract`, `lookups_of_other` — the answers on each of them
-/

namespace DdsApps.ImageTest

open DdsApps.Infra

/-! ## Words none of which begins another -/

/-- No word of the list begins another one. -/
def PrefixFree (ps : List String) : Prop :=
  ∀ p ∈ ps, ∀ q ∈ ps, p.toList <+: q.toList → p = q

instance (ps : List String) : Decidable (PrefixFree ps) :=
  inferInstanceAs (Decidable (∀ p ∈ ps, ∀ q ∈ ps, p.toList <+: q.toList → p = q))

/-- **A text begins with at most one of them.** -/
theorem PrefixFree.unique {ps : List String} (h : PrefixFree ps) {p q : String} (hp : p ∈ ps)
    (hq : q ∈ ps) {s : List Char} (hps : p.toList <+: s) (hqs : q.toList <+: s) : p = q := by
  rcases List.prefix_or_prefix_of_prefix hps hqs with hpq | hqp
  · exact h p hp q hq hpq
  · exact (h q hq p hp hqp).symm

/-! ## The loop -/

section Scan

variable {bare : String → Int} {numbered : String → Int → Int}

theorem scanPrefixes_of_none {s : List Char} : ∀ {ps : List String},
    (∀ p ∈ ps, ¬p.toList <+: s) → scanPrefixes s bare numbered ps = none
  | [], _ => rfl
  | p :: ps, h => by
    rw [List.forall_mem_cons] at h
    have htake : s.take p.toList.length ≠ p.toList := fun heq =>
      h.1 (List.prefix_iff_eq_take.mpr heq.symm)
    rw [scanPrefixes, if_pos htake]
    exact scanPrefixes_of_none h.2

/-- A prefix that does not decide is passed over, and the others do not fit. -/
theorem scanPrefixes_of_abstract {p : String} {rest : List Char} : ∀ {ps : List String},
    (∀ q ∈ ps, q.toList <+: p.toList ++ rest → q = p) → p ∈ ps →
    scanPrefixes (p.toList ++ rest) bare numbered ps =
      if rest = [] then some (bare p)
      else if atoi rest ≠ 0 then some (numbered p (atoi rest))
      else none
  | q :: ps, honly, hmem => by
    rw [List.forall_mem_cons] at honly
    by_cases hq : q = p
    · subst hq
      have hlen : (q.toList ++ rest).length = q.toList.length ↔ rest = [] := by
        rw [List.length_append, Nat.add_eq_left, List.length_eq_zero_iff]
      rw [scanPrefixes, List.take_left, List.drop_left, if_neg (not_not.mpr rfl)]
      simp only [hlen]
      split
      · rfl
      · next hrest =>
        split
        · rfl
        · next hzero =>
          -- the loop goes on; if it comes by the same prefix again, nothing is different
          by_cases hagain : q ∈ ps
          · rw [scanPrefixes_of_abstract honly.2 hagain, if_neg hrest, if_neg hzero]
          · refine scanPrefixes_of_none fun q' hq' hfits => hagain ?_
            rwa [← honly.2 q' hq' hfits]
    · have htake : (p.toList ++ rest).take q.toList.length ≠ q.toList := fun heq =>
        hq (honly.1 (List.prefix_iff_eq_take.mpr heq.symm))
      rw [scanPrefixes, if_pos htake]
      exact scanPrefixes_of_abstract honly.2 ((List.mem_cons.mp hmem).resolve_left (Ne.symm hq))

end Scan

/-! ## The three kinds of names -/

/-- The names that are compared as a whole, with their channels and the bits of each. -/
def fixedEncodings : List (String × Int × Int) :=
  [(mono8, 1, 8), (mono16, 1, 16), (bgr8, 3, 8), (rgb8, 3, 8), (bgr16, 3, 16), (rgb16, 3, 16),
    (bgra8, 4, 8), (rgba8, 4, 8), (bgra16, 4, 16), (rgba16, 4, 16),
    (bayerRggb8, 1, 8), (bayerBggr8, 1, 8), (bayerGbrg8, 1, 8), (bayerGrbg8, 1, 8),
    (bayerRggb16, 1, 16), (bayerBggr16, 1, 16), (bayerGbrg16, 1, 16), (bayerGrbg16, 1, 16),
    (yuv422, 2, 8)]

/-- The bits a prefix begins with. -/
def prefixDepths : List (String × Int) :=
  [("8UC", 8), ("8SC", 8), ("16UC", 16), ("16SC", 16), ("32SC", 32), ("32FC", 32), ("64FC", 64)]

theorem abstractEncodingPrefixes_prefixFree : PrefixFree abstractEncodingPrefixes := by
  decide +kernel

/-- **There is one way to take a name apart into a prefix and the text behind it.** -/
theorem abstract_unique {s p q : String} (hp : p ∈ abstractEncodingPrefixes)
    (hq : q ∈ abstractEncodingPrefixes) {rest rest' : List Char}
    (hs : s.toList = p.toList ++ rest) (hs' : s.toList = q.toList ++ rest') :
    q = p ∧ rest' = rest := by
  have hqp : q = p := abstractEncodingPrefixes_prefixFree.unique hq hp
    (hs' ▸ List.prefix_append ..) (hs ▸ List.prefix_append ..)
  subst hqp
  exact ⟨rfl, List.append_cancel_left (hs'.symm.trans hs)⟩

/-- A fixed name does not begin with a prefix. -/
theorem fixed_not_abstract : ∀ row ∈ fixedEncodings, ∀ p ∈ abstractEncodingPrefixes,
    ¬p.toList <+: row.1.toList := by
  decide +kernel

theorem prefixDepths_spec : ∀ row ∈ prefixDepths,
    row.1 ∈ abstractEncodingPrefixes ∧ atoi row.1.toList = row.2 ∧ row.2 ≠ -1 := by
  decide +kernel

theorem exists_prefixDepth : ∀ p ∈ abstractEncodingPrefixes, (p, atoi p.toList) ∈ prefixDepths := by
  decide +kernel

theorem lookups_of_fixed : ∀ row ∈ fixedEncodings,
    numChannels row.1 = row.2.1 ∧ bitDepth row.1 = row.2.2 := by
  decide +kernel

/-- **Every name is a fixed one, or begins with a prefix, or neither.** -/
theorem name_cases (s : String) :
    (∃ row ∈ fixedEncodings, s = row.1) ∨
    (∃ p ∈ abstractEncodingPrefixes, ∃ rest, s.toList = p.toList ++ rest) ∨
    ((∀ row ∈ fixedEncodings, s ≠ row.1) ∧
      ∀ p ∈ abstractEncodingPrefixes, ¬p.toList <+: s.toList) := by
  by_cases hfixed : ∃ row ∈ fixedEncodings, s = row.1
  · exact Or.inl hfixed
  · by_cases hprefix : ∃ p ∈ abstractEncodingPrefixes, p.toList <+: s.toList
    · obtain ⟨p, hp, rest, hs⟩ := hprefix
      exact Or.inr (Or.inl ⟨p, hp, rest, hs.symm⟩)
    · right
      right
      constructor
      · exact fun row hrow heq => hfixed ⟨row, hrow, heq⟩
      · exact fun p hp hs => hprefix ⟨p, hp, hs⟩

/-- What the text behind a prefix gives for the number of channels. -/
def channelsOf (rest : List Char) : Option Int :=
  if rest = [] then some 1 else if atoi rest ≠ 0 then some (atoi rest) else none

/-- Where no fixed name is met, the loop decides. -/
theorem lookups_of_not_fixed {s : String} (h : ∀ row ∈ fixedEncodings, s ≠ row.1) :
    numChannels s
      = (scanPrefixes s.toList (fun _ => 1) (fun _ n => n) abstractEncodingPrefixes).getD (-1) ∧
    bitDepth s
      = (scanPrefixes s.toList (fun p => atoi p.toList) (fun p _ => atoi p.toList)
          abstractEncodingPrefixes).getD (-1) := by
  simp only [fixedEncodings, List.forall_mem_cons, List.not_mem_nil, false_implies, implies_true,
    and_true] at h
  constructor
  · simp only [numChannels, h, or_self, if_false]
    split
    · next hscan => rw [hscan]; rfl
    · next hscan => rw [hscan]; rfl
  · simp only [bitDepth, h, or_self, if_false]
    split
    · next hscan => rw [hscan]; rfl
    · next hscan => rw [hscan]; rfl

theorem not_fixed_of_abstract {s p : String} (hp : p ∈ abstractEncodingPrefixes)
    (hs : p.toList <+: s.toList) : ∀ row ∈ fixedEncodings, s ≠ row.1 := by
  rintro row hrow rfl
  exact fixed_not_abstract row hrow p hp hs

theorem lookups_of_abstract {s p : String} (hp : p ∈ abstractEncodingPrefixes) {rest : List Char}
    (hs : s.toList = p.toList ++ rest) :
    numChannels s = (channelsOf rest).getD (-1) ∧
      bitDepth s = ((channelsOf rest).map fun _ => atoi p.toList).getD (-1) := by
  have hprefix : p.toList <+: s.toList := hs ▸ List.prefix_append ..
  have honly : ∀ q ∈ abstractEncodingPrefixes, q.toList <+: p.toList ++ rest → q = p :=
    fun q hq hfits => abstractEncodingPrefixes_prefixFree.unique hq hp hfits
      (List.prefix_append ..)
  obtain ⟨hchannels, hdepth⟩ := lookups_of_not_fixed (not_fixed_of_abstract hp hprefix)
  rw [hchannels, hdepth, hs, scanPrefixes_of_abstract honly hp, scanPrefixes_of_abstract honly hp]
  unfold channelsOf
  constructor
  · rfl
  · split
    · rfl
    · split
      · rfl
      · rfl

theorem lookups_of_other {s : String} (hfixed : ∀ row ∈ fixedEncodings, s ≠ row.1)
    (hnone : ∀ p ∈ abstractEncodingPrefixes, ¬p.toList <+: s.toList) :
    numChannels s = -1 ∧ bitDepth s = -1 := by
  obtain ⟨hchannels, hdepth⟩ := lookups_of_not_fixed hfixed
  rw [hchannels, hdepth, scanPrefixes_of_none hnone, scanPrefixes_of_none hnone]
  exact ⟨rfl, rfl⟩

end DdsApps.ImageTest
