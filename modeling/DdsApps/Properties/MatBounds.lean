import DdsApps.ImageTest.Mat
import DdsApps.Infra.Bytes

/-!
# Where `matFromImage` reads

Both checks of `matFromImage` are made on products of 32 bits, so a message can pass them with a
matrix that reaches past its bytes.

* `matFromImage_reads_inside_iff` — an accepted message is read inside its bytes exactly when it
  has no pixels or neither product reaches 2^32
* `matFromImage_reads_outside` — a message that is accepted, and has the bytes of its first row only
* `matFromImage_header_inside_iff` — the same of the header that has been made
-/

namespace DdsApps.ImageTest

open DdsApps.Infra

/-! ## The bytes a header reads -/

/-- The distance of two rows of a message: `step`, or the row width where that is 0. -/
def Image.rowStep (source : Image) (t : CvType) : Nat :=
  if source.step = 0 then source.width.toNat * t.elemSize else source.step.toNat

/-- Every byte of every row, `width` elements of type `t` long, is one of the message's bytes. -/
def ReadsInside (source : Image) (t : CvType) : Prop :=
  ∀ r < source.height.toNat, ∀ b < source.width.toNat * t.elemSize,
    r * source.rowStep t + b < source.data.length

theorem readsInside_iff (source : Image) (t : CvType) :
    ReadsInside source t ↔ source.height.toNat = 0 ∨ source.width.toNat * t.elemSize = 0 ∨
      (source.height.toNat - 1) * source.rowStep t + source.width.toNat * t.elemSize
        ≤ source.data.length :=
  window_inside_iff ..

theorem toNat_eq_zero_iff (n : UInt32) : n.toNat = 0 ↔ n = 0 := by
  rw [← UInt32.toNat_inj]
  rfl

theorem CvType.elemSize_pos {t : CvType} (h : 1 ≤ t.channels) : 0 < t.elemSize :=
  Nat.mul_pos h t.depth.bytes_pos

/-- With products that may wrap, what has passed the checks. -/
theorem readsInside_iff_of_checks {source : Image} {t : CvType} (hE : 0 < t.elemSize)
    (hrow : source.width.toNat * t.elemSize % 4294967296 ≤ source.step.toNat)
    (hsize : source.height.toNat * source.step.toNat % 4294967296 = source.data.length) :
    ReadsInside source t ↔ source.height = 0 ∨ source.width = 0 ∨
      (source.width.toNat * t.elemSize < 4294967296 ∧
        source.height.toNat * source.step.toNat < 4294967296) := by
  have hw0 : source.width.toNat * t.elemSize = 0 ↔ source.width = 0 := by
    rw [← toNat_eq_zero_iff, Nat.mul_eq_zero]
    exact or_iff_left (by omega)
  rw [readsInside_iff, hw0, toNat_eq_zero_iff]
  by_cases hh : source.height = 0
  · simp [hh]
  · by_cases hw : source.width = 0
    · simp [hw]
    · have hhpos : 0 < source.height.toNat :=
        Nat.pos_of_ne_zero (mt (toNat_eq_zero_iff _).mp hh)
      have hwpos : 0 < source.width.toNat * t.elemSize := Nat.pos_of_ne_zero (mt hw0.mp hw)
      have hstep : source.rowStep t = if source.step.toNat = 0
          then source.width.toNat * t.elemSize else source.step.toNat := by
        simp only [Image.rowStep, toNat_eq_zero_iff]
      rw [hstep, window_inside_of_wrapped_size source.step.toNat_lt hrow hsize hhpos hwpos]

/-! ## Main result -/

/--
**An accepted message is read inside its bytes exactly when no product wraps.**

The exact row width is `width * elemSize`, the exact size `height * step`. A message without
pixels reads nothing, whatever its products are.
-/
theorem matFromImage_reads_inside_iff {cv : OpenCv} {source : Image} {t : CvType} {mat : Mat}
    (ht : getCvType source.encoding = .ok t) (hmat : matFromImage cv source = .ok mat) :
    ReadsInside source t ↔ source.height = 0 ∨ source.width = 0 ∨
      (source.width.toNat * t.elemSize < 4294967296 ∧
        source.height.toNat * source.step.toNat < 4294967296) := by
  obtain ⟨t', header, ht', hrow, hsize, -⟩ := matFromImage_ok hmat
  cases ht.symm.trans ht'
  exact readsInside_iff_of_checks (CvType.elemSize_pos (getCvType_spec ht).2.2.1) hrow hsize

/-- A grey image of two rows of one pixel and a byte of padding, all of whose bytes are there. -/
def greyRows : Image :=
  { height := 2, width := 1, encoding := mono8, is_bigendian := 0, step := 2, data := [7, 0, 9, 0] }

theorem greyRows_reads_inside : ReadsInside greyRows ⟨.u8, 1⟩ := by
  have ht : getCvType greyRows.encoding = .ok ⟨.u8, 1⟩ := by rfl
  have hmat : matFromImage OpenCv.sequential greyRows
      = .ok (Mat.ofData 2 1 ⟨.u8, 1⟩ [7, 0, 9, 0] 2) := by rfl
  exact (matFromImage_reads_inside_iff ht hmat).mpr (Or.inr (Or.inr (by decide)))

/-- 2^16 + 1 rows, 2^16 bytes apart, and the bytes of one of them: the size wraps to 2^16. -/
def wrappedImage : Image :=
  { height := 65537, width := 1, encoding := mono8, is_bigendian := 0, step := 65536
    data := List.replicate 65536 0 }

/-- **A message with the bytes of one row is accepted, and its second row read.** -/
theorem matFromImage_reads_outside :
    ¬ ∀ (cv : OpenCv) (source : Image) (t : CvType) (mat : Mat),
      getCvType source.encoding = .ok t → matFromImage cv source = .ok mat →
        ReadsInside source t := by
  intro hall
  have hlength : wrappedImage.data.length = 65536 := List.length_replicate
  have hdata : wrappedImage.data ≠ [] := by
    refine List.ne_nil_of_length_pos ?_
    omega
  have ht : getCvType wrappedImage.encoding = .ok ⟨.u8, 1⟩ := by rfl
  obtain ⟨mat, hmat⟩ : ∃ mat, matFromImage OpenCv.sequential wrappedImage = .ok mat :=
    matFromImage_accepts ht (by decide) hlength.symm
      (OpenCv.sequential.header_accepts hdata (by decide) (by decide) (by decide) (one_dvd _))
      (OpenCv.sequential.header_accepts hdata (by decide) (by decide) (by decide) (one_dvd _))
  have hinside := hall OpenCv.sequential wrappedImage ⟨.u8, 1⟩ mat ht hmat
  have hsecond := hinside 1 (by decide) 0 (by decide)
  rw [hlength] at hsecond
  exact absurd hsecond (by decide)

/-! ## The header -/

/-- The header over an accepted message reads where its rows are. -/
theorem isSome_byteAt {cv : OpenCv} {source : Image} {u : CvType} (t : CvType) {header : Mat}
    (hheader : cv.header source.height source.width u source.data source.step = some header)
    (hsize : source.height.toNat * source.step.toNat % 4294967296 = source.data.length)
    (r b : Nat) :
    (header.byteAt r b).isSome ↔ r * source.rowStep t + b < source.data.length := by
  obtain ⟨-, -, -, hdata⟩ := cv.header_shape hheader
  rw [Mat.byteAt, hdata, isSome_getElem?]
  by_cases hs : source.step = 0
  · -- there are no bytes at all
    have hnone : source.data.length = 0 := by
      rw [← hsize, hs]
      rfl
    omega
  · rw [cv.header_step hheader (.inl hs), if_neg hs, Image.rowStep, if_neg hs]

/--
**The header over an accepted message has its bytes in the same case**: the matrix that is returned,
or the one that it is filled from.
-/
theorem matFromImage_header_inside_iff {cv : OpenCv} {source : Image} {t : CvType} {mat : Mat}
    (ht : getCvType source.encoding = .ok t) (hmat : matFromImage cv source = .ok mat) :
    ∃ header, cv.header source.height source.width t.read source.data source.step = some header ∧
      mat = finish cv source t header ∧
      ((∀ r < source.height.toNat, ∀ b < source.width.toNat * t.elemSize,
          (header.byteAt r b).isSome) ↔
        source.height = 0 ∨ source.width = 0 ∨
          (source.width.toNat * t.elemSize < 4294967296 ∧
            source.height.toNat * source.step.toNat < 4294967296)) := by
  obtain ⟨t', header, ht', hrow, hsize, hheader, hfinish⟩ := matFromImage_ok hmat
  cases ht.symm.trans ht'
  refine ⟨header, hheader, hfinish, ?_⟩
  rw [← readsInside_iff_of_checks (CvType.elemSize_pos (getCvType_spec ht).2.2.1) hrow hsize]
  simp only [isSome_byteAt t hheader hsize, ReadsInside]

end DdsApps.ImageTest
