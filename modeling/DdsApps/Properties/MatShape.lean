import DdsApps.ImageTest.ByteMat

/-!
# The shape and type of the returned matrix

`matFromImage` is to hand over a matrix of the message's type. The swapping path makes a matrix of
bytes, and drops the header that `reshape` returns.

* `convert_type` — what both paths return
* `matFromImage_declares_iff` — the type is right exactly for samples of one byte
* `grey16_returned_as_bytes` — a 16-bit image that comes back as two channels of 8 bits
-/

namespace DdsApps.ImageTest

open DdsApps.Infra

/-- The matrix has the shape of the message and the type of its encoding. -/
structure Declares (source : Image) (t : CvType) (mat : Mat) : Prop where
  rows : mat.rows = source.height.toNat
  cols : mat.cols = source.width.toNat
  type : mat.type = t

/-! ## The two paths -/

/-- The shared data have the type they should; the swapped data are bytes. -/
theorem convert_type (cv : OpenCv) (source : Image) (t : CvType) :
    (convert cv source t).type = if t.depth.bytes = 1 then t else t.asBytes := by
  by_cases hd : t.depth.bytes = 1
  · unfold convert
    rw [if_pos hd, if_pos hd]
    rfl
  · rw [convert_of_wide cv source hd, if_neg hd]
    exact (swapBytes_shape ..).2.2

/-- Taken as bytes, no wider sample keeps its depth. -/
theorem CvType.asBytes_ne {t : CvType} (h : t.depth.bytes ≠ 1) : t.asBytes ≠ t := by
  intro heq
  have hdepth : CvDepth.u8 = t.depth := congrArg CvType.depth heq
  rw [← hdepth] at h
  exact h rfl

/-! ## Main result -/

/--
**The returned matrix is what the message declares exactly if its samples have one byte.**

The shape is always right. `OpenCv.reshape` may be anything here: what it returns is not used.
-/
theorem matFromImage_declares_iff {cv : OpenCv} {source : Image} {t : CvType} {mat : Mat}
    (ht : getCvType source.encoding = .ok t) (hmat : matFromImage cv source = .ok mat)
    (hheight : source.height.toNat < 2147483648) (hwidth : source.width.toNat < 2147483648) :
    Declares source t mat ↔ source.byteDepth = 1 := by
  obtain ⟨t', header, ht', -, -, hheader, rfl⟩ := matFromImage_ok hmat
  cases ht.symm.trans ht'
  rw [eq_convert hheader (.inr hwidth)]
  obtain ⟨hrows, hcols⟩ := convert_shape cv t hheight hwidth
  have htype := convert_type cv source t
  rw [(image_lookups ht).2]
  constructor
  · intro hdeclares
    by_contra hne
    rw [if_neg hne] at htype
    exact CvType.asBytes_ne hne (htype.symm.trans hdeclares.type)
  · intro hone
    rw [if_pos hone] at htype
    exact ⟨hrows, hcols, htype⟩

/-- A colour image of one pixel. -/
def colourPixel : Image :=
  { height := 1, width := 1, encoding := bgr8, is_bigendian := 0, step := 3, data := [1, 2, 3] }

theorem colourPixel_declares :
    Declares colourPixel ⟨.u8, 3⟩ (Mat.ofData 1 1 ⟨.u8, 3⟩ [1, 2, 3] 3) := by
  have ht : getCvType colourPixel.encoding = .ok ⟨.u8, 3⟩ := by rfl
  have hmat : matFromImage OpenCv.sequential colourPixel
      = .ok (Mat.ofData 1 1 ⟨.u8, 3⟩ [1, 2, 3] 3) := by rfl
  exact (matFromImage_declares_iff ht hmat (by decide) (by decide)).mpr (by decide +kernel)

/-- A grey image of one pixel, with 16 bits. -/
def grey16Pixel : Image :=
  { height := 1, width := 1, encoding := mono16, is_bigendian := 1, step := 2, data := [0, 7] }

/-- **A 16-bit grey image comes back as two channels of 8 bits.** -/
theorem grey16_returned_as_bytes :
    ¬∀ (cv : OpenCv) (source : Image) (t : CvType) (mat : Mat),
      getCvType source.encoding = .ok t → matFromImage cv source = .ok mat →
      source.height.toNat < 2147483648 → source.width.toNat < 2147483648 →
      source.width.toNat * source.byteDepth * source.channels < 4294967296 →
      source.height.toNat * source.step.toNat < 4294967296 → Declares source t mat := by
  intro hall
  have hdeclares := hall OpenCv.sequential grey16Pixel ⟨.u16, 1⟩
    (convert OpenCv.sequential grey16Pixel ⟨.u16, 1⟩) (by rfl) (by rfl) (by decide) (by decide)
    (by decide +kernel) (by decide +kernel)
  exact absurd hdeclares.type (by decide +kernel)

end DdsApps.ImageTest
