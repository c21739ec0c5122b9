import DdsApps.Properties.PixelValue

/-!
# The byte-swap table reverses samples

The table of `matFromImage` is to take each byte of a sample to the opposite place of the same
sample, and `mixChannels` to fill `mat_swap` with it. The loop does not look at the encoding, so
both hold for any number of samples and any depth.

* `fromTo_reversesSamples` — the table, as `matFromImage` builds it
* `fromTo_swaps_back` — and what it does to pixels, once and twice
* `matFromImage_swaps_back` — a returned matrix, swapped again, has the bytes of the message
-/

namespace DdsApps.ImageTest

open DdsApps.Infra

/-! ## The table -/

/-- What the table is to be for pixels of `n` samples of `d` bytes. -/
structure ReversesSamples (n d : Nat) (table : List Nat) : Prop where
  entries : table.length = 2 * (n * d)
  pairs : (fromToPairs table).length = n * d
  /-- Every channel below `n * d` is the source of one pair, and no other channel is. -/
  sources : ((fromToPairs table).map Prod.fst).Perm (List.range (n * d))
  /-- Every channel below `n * d` is the destination of one pair, and no other channel is. -/
  destinations : ((fromToPairs table).map Prod.snd).Perm (List.range (n * d))
  sample : ∀ p ∈ fromToPairs table, p.2 / d = p.1 / d
  byte : ∀ p ∈ fromToPairs table, p.2 % d = d - 1 - p.1 % d
  involution : ∀ p ∈ fromToPairs table, p.swap ∈ fromToPairs table

theorem length_fromTo (n d : Nat) : (fromTo n d).length = 2 * (n * d) := by
  rw [fromTo_flatMap, List.length_flatMap]
  simp only [List.length_cons, List.length_nil, List.map_const', List.sum_replicate_nat,
    List.length_product, List.length_range]
  exact Nat.mul_comm ..

theorem mem_fromToPairs_iff {n d : Nat} {p : Nat × Nat} :
    p ∈ fromToPairs (fromTo n d) ↔ p.1 < n * d ∧ p.2 = blockRev d p.1 := by
  rw [fromToPairs_eq_graph, List.mem_map]
  constructor
  · rintro ⟨b, hb, rfl⟩
    exact ⟨List.mem_range.mp hb, rfl⟩
  · rintro ⟨hb, hp⟩
    exact ⟨p.1, List.mem_range.mpr hb, Prod.ext rfl hp.symm⟩

theorem fromTo_reversesSamples (n d : Nat) : ReversesSamples n d (fromTo n d) := by
  have hpos : ∀ p ∈ fromToPairs (fromTo n d), 0 < d := by
    intro p hp
    exact Nat.pos_of_mul_pos_left (Nat.zero_lt_of_lt (mem_fromToPairs_iff.mp hp).1)
  refine
    { entries := length_fromTo n d
      pairs := ?_
      sources := List.Perm.of_eq (fromTo_sources n d)
      destinations := fromTo_destinations n d
      sample := ?_
      byte := ?_
      involution := ?_ }
  · rw [fromToPairs_eq_graph, List.length_map, List.length_range]
  · intro p hp
    rw [(mem_fromToPairs_iff.mp hp).2, blockRev_div (hpos p hp)]
  · intro p hp
    rw [(mem_fromToPairs_iff.mp hp).2, blockRev_mod (hpos p hp)]
  · intro p hp
    rw [fromToPairs_eq_graph] at hp ⊢
    exact (blockRev_involutionOn n d).swap_mem_graph (fun _ => List.mem_range) hp

example : fromTo 2 3 = [0, 2, 1, 1, 2, 0, 3, 5, 4, 4, 5, 3] := rfl

/-! ## The pixels -/

/-- Every byte of `dst` is the opposite byte of its sample in `src`: none is left as it was made. -/
def FilledFrom (d : Nat) (src dst : Mat) : Prop :=
  ∀ r c b, dst.HasByte r c b →
    ∃ v, src.elemByte r c (blockRev d b) = some v ∧ dst.elemByte r c b = some v

/-- The matrices have one shape and type, and the same bytes in every pixel. -/
structure SamePixels (m m' : Mat) : Prop where
  rows : m'.rows = m.rows
  cols : m'.cols = m.cols
  type : m'.type = m.type
  bytes : ∀ r c b, m.HasByte r c b → m'.elemByte r c b = m.elemByte r c b

theorem ByteMat.filledFrom {n d : Nat} {h w : UInt32} (cv : OpenCv) (m : ByteMat n d h w) :
    FilledFrom d m.mat (m.swapped cv).mat := by
  intro r c b hb
  obtain ⟨v, hv⟩ := Option.isSome_iff_exists.mp ((m.swapped cv).there hb)
  refine ⟨v, ?_, hv⟩
  rw [← m.swapped_elemByte cv ((m.hasByte_congr (m.swapped cv)).mpr hb), hv]

theorem ByteMat.samePixels {n d : Nat} {h w : UInt32} (cv cv' : OpenCv) (m : ByteMat n d h w) :
    SamePixels m.mat ((m.swapped cv).swapped cv').mat where
  rows := ((m.swapped cv).swapped cv').rows.trans m.rows.symm
  cols := ((m.swapped cv).swapped cv').cols.trans m.cols.symm
  type := ((m.swapped cv).swapped cv').type.trans m.type.symm
  bytes _ _ _ hb := m.swapped_swapped cv cv' hb

/-! ## Main results -/

/--
**The table reverses every sample**, so copying through it fills the new matrix, and copying twice
restores the pixels.

The second copy need not find the same contents in its new storage as the first one (`cv'`).
-/
theorem fromTo_swaps_back (n d : Nat) :
    ReversesSamples n d (fromTo n d) ∧
      ∀ (cv cv' : OpenCv) (h w : UInt32) (m : ByteMat n d h w),
        FilledFrom d m.mat (swapBytes cv n d h w m.mat) ∧
          SamePixels m.mat (swapBytes cv' n d h w (swapBytes cv n d h w m.mat)) := by
  refine ⟨fromTo_reversesSamples n d, ?_⟩
  intro cv cv' h w m
  exact ⟨m.filledFrom cv, m.samePixels cv cv'⟩

/-- **What `matFromImage` has swapped, a second swap gives back as the message has it.** -/
theorem matFromImage_swaps_back {cv cv' : OpenCv} {source : Image} {mat : Mat}
    (hmat : matFromImage cv source = .ok mat)
    (hrow : source.width.toNat * source.byteDepth * source.channels < 4294967296)
    (hsize : source.height.toNat * source.step.toNat < 4294967296) (hd : source.byteDepth ≠ 1)
    {r c b : Nat} (hr : r < source.height.toNat) (hc : c < source.width.toNat)
    (hb : b < source.channels * source.byteDepth) :
    (swapBytes cv' source.channels source.byteDepth source.height source.width mat).elemByte r c b
      = source.data[r * source.step.toNat + (c * (source.channels * source.byteDepth) + b)]? := by
  obtain ⟨t, hn, hf, rfl⟩ := fits_of_accepted hmat hrow hsize
  rw [hf.channels, hf.byteDepth] at *
  have hbyte := hf.header_hasByte hn hsize hd hr hc hb
  rw [hf.convert_eq_swapped cv hn hd]
  calc ((hf.header hn).swapped cv |>.swapped cv').mat.elemByte r c b
      = (hf.header hn).mat.elemByte r c b := (hf.header hn).swapped_swapped cv cv' hbyte
    _ = _ := by
      unfold Mat.elemByte Mat.byteAt
      rw [hf.header_step hn (hf.step_pos hn hc).2, hf.header_data hn, (hf.header hn).type,
        CvType.elemSize, CvDepth.bytes, Nat.mul_one]

end DdsApps.ImageTest
