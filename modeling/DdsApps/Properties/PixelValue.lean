import DdsApps.ImageTest.ByteMat
import DdsApps.Infra.Bytes

/-!
# The pixel values of the returned matrix

`matFromImage` is to hand over the numbers the message denotes in the byte order it declares, in
the byte order of the (little-endian) host. It never looks at `is_bigendian`: samples of one byte
are shared, all others are reversed.

* `sample_shared` / `sample_swapped` — what each of the two paths makes of one sample
* `matFromImage_values_iff` — exactly when every sample keeps its number
* `matFromImage_swaps_little_endian` — a little-endian message whose numbers change
-/

namespace DdsApps.ImageTest

open DdsApps.Infra

/-! ## Samples -/

/-- Where a message keeps channel `k` of the pixel in row `r` and column `c`. -/
def Image.sampleOffset (source : Image) (r c k : Nat) : Nat :=
  r * source.step.toNat + (c * source.channels + k) * source.byteDepth

/-- The bytes of that sample. -/
def Image.sample (source : Image) (r c k : Nat) : List UInt8 :=
  slice source.data (source.sampleOffset r c k) source.byteDepth

/-- The number they denote in the byte order the message declares. -/
def Image.sampleValue (source : Image) (r c k : Nat) : Nat :=
  if source.is_bigendian = 0 then leValue (source.sample r c k) else beValue (source.sample r c k)

/-- The bytes of channel `k` in row `r` and column `c`, of pixels with `n` samples of `d` bytes. -/
def Mat.sample (m : Mat) (n d r c k : Nat) : List UInt8 :=
  slice m.data (r * m.step + (c * n + k) * d) d

/-- Every sample of the matrix, read by the host, is the number the message declares. -/
structure PreservesValues (source : Image) (mat : Mat) : Prop where
  /-- the matrix has its pixels, where their number is in the range of `int` -/
  pixels : source.height.toNat < 2147483648 → source.width.toNat < 2147483648 →
    ∀ r < source.height.toNat, ∀ c < source.width.toNat, (r : Int) < mat.rows ∧ (c : Int) < mat.cols
  values : ∀ r < source.height.toNat, ∀ c < source.width.toNat, ∀ k < source.channels,
    leValue (mat.sample source.channels source.byteDepth r c k) = source.sampleValue r c k

theorem convert_pixels (cv : OpenCv) {source : Image} (t : CvType)
    (hheight : source.height.toNat < 2147483648) (hwidth : source.width.toNat < 2147483648) :
    ∀ r < source.height.toNat, ∀ c < source.width.toNat,
      (r : Int) < (convert cv source t).rows ∧ (c : Int) < (convert cv source t).cols := by
  intro r hr c hc
  obtain ⟨hrows, hcols⟩ := convert_shape cv t hheight hwidth
  rw [hrows, hcols]
  exact ⟨mod_cast hr, mod_cast hc⟩

/-! ## Accepted messages whose products do not wrap -/

/-- The shape of such a message, in exact arithmetic. -/
structure Fits (source : Image) (t : CvType) : Prop where
  channels : source.channels = t.channels
  byteDepth : source.byteDepth = t.depth.bytes
  row : source.width.toNat * t.elemSize ≤ source.step.toNat
  size : source.height.toNat * source.step.toNat = source.data.length

theorem fits_of_accepted {cv : OpenCv} {source : Image} {mat : Mat}
    (hmat : matFromImage cv source = .ok mat)
    (hrow : source.width.toNat * source.byteDepth * source.channels < 4294967296)
    (hsize : source.height.toNat * source.step.toNat < 4294967296) :
    ∃ t, 1 ≤ t.channels ∧ Fits source t ∧ mat = convert cv source t := by
  obtain ⟨t, header, ht, hrow', hsize', hheader, hconv⟩ := matFromImage_ok hmat
  obtain ⟨hn, hd⟩ := image_lookups ht
  have hE : source.width.toNat * source.byteDepth * source.channels
      = source.width.toNat * t.elemSize := by
    rw [hn, hd, CvType.elemSize, Nat.mul_assoc, Nat.mul_comm t.depth.bytes]
  rw [Nat.mod_eq_of_lt (by omega)] at hrow'
  rw [Nat.mod_eq_of_lt hsize] at hsize'
  have hn1 := (getCvType_spec ht).2.2.1
  refine ⟨t, hn1, ⟨hn, hd, hrow', hsize'⟩, hconv.trans (eq_convert hheader ?_)⟩
  -- a message with a step of 0 has no columns
  by_cases hs : source.step = 0
  · have hE : 0 < t.elemSize := Nat.mul_pos hn1 t.depth.bytes_pos
    have hstep : source.step.toNat = 0 := by rw [hs]; rfl
    have hwidth := Nat.le_mul_of_pos_right source.width.toNat hE
    exact .inr (by omega)
  · exact .inl hs

/-- The samples of a pixel lie one after the other, and a pixel after the one before it. -/
theorem sample_in_row {n d w c k : Nat} (hc : c < w) (hk : k < n) :
    (c * n + k) * d + d ≤ w * (n * d) := by
  have hend : d * (n * c + k) + d ≤ w * n * d := block_end_le (block_lt hc hk)
  rw [Nat.mul_comm c, Nat.mul_comm _ d, ← Nat.mul_assoc]
  exact hend

theorem row_in_window {h s r x : Nat} (hr : r < h) (hx : x ≤ s) : r * s + x ≤ h * s := by
  have hend : s * r + s ≤ h * s := block_end_le hr
  rw [Nat.mul_comm r]
  omega

theorem Fits.sample_inside {source : Image} {t : CvType} (hf : Fits source t) {r c k : Nat}
    (hr : r < source.height.toNat) (hc : c < source.width.toNat) (hk : k < source.channels) :
    source.sampleOffset r c k + source.byteDepth ≤ source.data.length := by
  have hin := sample_in_row (d := source.byteDepth) hc hk
  rw [hf.byteDepth, hf.channels] at hin
  have hwin := row_in_window hr (hin.trans hf.row)
  unfold Image.sampleOffset
  rw [hf.byteDepth, hf.channels, ← hf.size]
  omega

theorem Fits.step_pos {source : Image} {t : CvType} (hf : Fits source t) (hn : 1 ≤ t.channels)
    {c : Nat} (hc : c < source.width.toNat) : t.elemSize ≤ source.step.toNat ∧ source.step ≠ 0 := by
  have hE : 0 < t.elemSize := Nat.mul_pos hn t.depth.bytes_pos
  have hle : t.elemSize ≤ source.step.toNat :=
    (Nat.le_mul_of_pos_left _ (by omega)).trans hf.row
  refine ⟨hle, ?_⟩
  intro h0
  have hz : source.step.toNat = 0 := by rw [h0]; rfl
  omega

/-! ## One sample, on each path -/

/-- A header over the message has each sample where the message has it. -/
theorem sample_shared {source : Image} {u : CvType} (hs : source.step ≠ 0) (r c k : Nat) :
    (Mat.ofData source.height source.width u source.data source.step).sample
      source.channels source.byteDepth r c k = source.sample r c k := by
  unfold Mat.sample Mat.ofData Image.sample Image.sampleOffset
  simp only [if_neg hs]

/-- Byte `j` of sample `k`, in a pixel taken as bytes. -/
theorem elemByte_asBytes {m : Mat} {t : CvType} (hm : m.type = t.asBytes) (r c k j : Nat) :
    m.elemByte r c (t.depth.bytes * k + j)
      = m.data[r * m.step + (c * t.channels + k) * t.depth.bytes + j]? := by
  unfold Mat.elemByte Mat.byteAt
  rw [hm, CvType.elemSize_asBytes, CvType.elemSize]
  congr 1
  ring

/-- A pixel of two or more bytes keeps both dimensions in the range of `int`. -/
theorem Fits.dims_lt {source : Image} {t : CvType} (hf : Fits source t) (hE : 2 ≤ t.elemSize)
    (hE' : t.elemSize ≤ source.step.toNat)
    (hsize : source.height.toNat * source.step.toNat < 4294967296) :
    source.height.toNat < 2147483648 ∧ source.width.toNat < 2147483648 := by
  have hh := Nat.mul_le_mul_left source.height.toNat (hE.trans hE')
  have hw := (Nat.mul_le_mul_left source.width.toNat hE).trans hf.row
  have hstep := source.step.toNat_lt
  constructor <;> omega

/-- The header over the bytes of such a message: every byte of every pixel is there. -/
def Fits.header {source : Image} {t : CvType} (hf : Fits source t) (hn : 1 ≤ t.channels) :
    ByteMat t.channels t.depth.bytes source.height source.width where
  mat := Mat.ofData source.height source.width t.asBytes source.data source.step
  rows := Mat.ofData_rows ..
  cols := Mat.ofData_cols ..
  type := rfl
  there := by
    rintro r c b ⟨hr, hc, hb⟩
    rw [Mat.ofData_rows] at hr
    rw [Mat.ofData_cols] at hc
    obtain ⟨-, hr⟩ := lt_of_lt_wrapInt source.height.toNat_lt hr
    obtain ⟨-, hc⟩ := lt_of_lt_wrapInt source.width.toNat_lt hc
    have hb : b < t.elemSize := by rw [← CvType.elemSize_asBytes]; exact hb
    have hs0 : source.step ≠ 0 := (hf.step_pos hn hc).2
    -- the pixel lies in its row, and the row in the data
    have hrow : c * t.elemSize + b + 1 ≤ source.step.toNat := by
      have hin := block_lt hc hb
      rw [Nat.mul_comm t.elemSize] at hin
      exact Nat.le_trans hin hf.row
    have hin := row_in_window hr hrow
    rw [hf.size] at hin
    unfold Mat.elemByte Mat.byteAt Mat.ofData
    simp only [if_neg hs0, CvType.elemSize_asBytes, isSome_getElem?]
    omega

theorem Fits.convert_eq_swapped (cv : OpenCv) {source : Image} {t : CvType} (hf : Fits source t)
    (hn : 1 ≤ t.channels) (hd : t.depth.bytes ≠ 1) :
    convert cv source t = ((hf.header hn).swapped cv).mat :=
  convert_of_wide cv source hd

/-- Samples of two or more bytes leave no dimension to wrap: the pixels of the header are those of
the message. -/
theorem Fits.header_hasByte {source : Image} {t : CvType} (hf : Fits source t)
    (hn : 1 ≤ t.channels) (hsize : source.height.toNat * source.step.toNat < 4294967296)
    (hd : t.depth.bytes ≠ 1) {r c b : Nat} (hr : r < source.height.toNat)
    (hc : c < source.width.toNat) (hb : b < t.channels * t.depth.bytes) :
    (hf.header hn).mat.HasByte r c b := by
  have hE : 2 ≤ t.elemSize := by
    have hpos := t.depth.bytes_pos
    calc 2 ≤ 1 * t.depth.bytes := by omega
      _ ≤ t.elemSize := Nat.mul_le_mul_right _ hn
  obtain ⟨hh31, hw31⟩ := hf.dims_lt hE (hf.step_pos hn hc).1 hsize
  refine (hf.header hn).hasByte_iff.mpr ⟨?_, ?_, hb⟩
  · rw [wrapInt_of_range (by omega) (by omega)]
    exact mod_cast hr
  · rw [wrapInt_of_range (by omega) (by omega)]
    exact mod_cast hc

theorem Fits.header_data {source : Image} {t : CvType} (hf : Fits source t)
    (hn : 1 ≤ t.channels) : (hf.header hn).mat.data = source.data := by
  simp only [Fits.header, Mat.ofData]

theorem Fits.header_step {source : Image} {t : CvType} (hf : Fits source t)
    (hn : 1 ≤ t.channels) (hs : source.step ≠ 0) :
    (hf.header hn).mat.step = source.step.toNat := by
  simp only [Fits.header, Mat.ofData, if_neg hs]

/-- Each byte of a sample ends up in the opposite place of the same sample. -/
theorem convert_swaps_byte (cv : OpenCv) {source : Image} {t : CvType} (hf : Fits source t)
    (hn : 1 ≤ t.channels) (hsize : source.height.toNat * source.step.toNat < 4294967296)
    (hd : t.depth.bytes ≠ 1) {r c k j : Nat} (hr : r < source.height.toNat)
    (hc : c < source.width.toNat) (hk : k < t.channels) (hj : j < t.depth.bytes) :
    (convert cv source t).data[r * (convert cv source t).step
        + (c * t.channels + k) * t.depth.bytes + (t.depth.bytes - 1 - j)]?
      = source.data[source.sampleOffset r c k + j]? := by
  have hbyte := hf.header_hasByte hn hsize hd hr hc (block_lt hk hj)
  have hmove : ((hf.header hn).swapped cv).mat.elemByte r c
      (blockRev t.depth.bytes (t.depth.bytes * k + j))
        = (hf.header hn).mat.elemByte r c (t.depth.bytes * k + j) :=
    (hf.header hn).swapBytes_elemByte cv hbyte
  rw [blockRev_block hj, elemByte_asBytes ((hf.header hn).swapped cv).type,
    elemByte_asBytes (hf.header hn).type] at hmove
  rw [hf.header_step hn (hf.step_pos hn hc).2, hf.header_data hn] at hmove
  rw [hf.convert_eq_swapped cv hn hd, Image.sampleOffset, hf.channels, hf.byteDepth]
  exact hmove

/-- **The swapping path reverses every sample.** -/
theorem sample_swapped (cv : OpenCv) {source : Image} {t : CvType} (hf : Fits source t)
    (hn : 1 ≤ t.channels) (hsize : source.height.toNat * source.step.toNat < 4294967296)
    (hd : t.depth.bytes ≠ 1) {r c k : Nat} (hr : r < source.height.toNat)
    (hc : c < source.width.toNat) (hk : k < source.channels) :
    (convert cv source t).sample source.channels source.byteDepth r c k
      = (source.sample r c k).reverse := by
  refine slice_eq_reverse (hf.sample_inside hr hc hk) ?_
  rw [hf.channels] at hk
  rw [hf.channels, hf.byteDepth]
  intro j hj
  exact convert_swaps_byte cv hf hn hsize hd hr hc hk hj

/-! ## Main result -/

/--
**Exactly when every sample keeps its number**: the samples have one byte, or the message declares
big-endian, or each sample reads the same from both ends.
-/
theorem matFromImage_values_iff {cv : OpenCv} {source : Image} {mat : Mat}
    (hmat : matFromImage cv source = .ok mat)
    (hrow : source.width.toNat * source.byteDepth * source.channels < 4294967296)
    (hsize : source.height.toNat * source.step.toNat < 4294967296) :
    PreservesValues source mat ↔ source.byteDepth = 1 ∨ source.is_bigendian ≠ 0 ∨
      ∀ r < source.height.toNat, ∀ c < source.width.toNat, ∀ k < source.channels,
        (source.sample r c k).reverse = source.sample r c k := by
  obtain ⟨t, hn, hf, rfl⟩ := fits_of_accepted hmat hrow hsize
  by_cases hd : t.depth.bytes = 1
  · -- one byte reads the same in both orders
    refine iff_of_true ⟨convert_pixels cv t, ?_⟩ (Or.inl (hf.byteDepth.trans hd))
    intro r hr c hc k hk
    have hshared : (convert cv source t).sample source.channels source.byteDepth r c k
        = source.sample r c k := by
      unfold convert
      rw [if_pos hd]
      exact sample_shared (hf.step_pos hn hc).2 r c k
    have hlen : (source.sample r c k).length = 1 := by
      rw [Image.sample, length_slice (hf.sample_inside hr hc hk), hf.byteDepth, hd]
    obtain ⟨b, hb⟩ := List.length_eq_one_iff.mp hlen
    have hrev : (source.sample r c k).reverse = source.sample r c k := by rw [hb]; rfl
    rw [hshared, Image.sampleValue, (leValue_eq_beValue_iff _).mpr hrev, ite_self]
  · have hone : source.byteDepth ≠ 1 := by rw [hf.byteDepth]; exact hd
    have hvalue : ∀ r < source.height.toNat, ∀ c < source.width.toNat, ∀ k < source.channels,
        leValue ((convert cv source t).sample source.channels source.byteDepth r c k)
          = beValue (source.sample r c k) := by
      intro r hr c hc k hk
      rw [sample_swapped cv hf hn hsize hd hr hc hk, leValue_reverse]
    by_cases he : source.is_bigendian = 0
    · simp only [hone, he, ne_eq, not_true_eq_false, false_or]
      constructor
      · intro h r hr c hc k hk
        have hdeclared := h.values r hr c hc k hk
        rw [Image.sampleValue, if_pos he] at hdeclared
        exact (leValue_eq_beValue_iff _).mp ((hvalue r hr c hc k hk).symm.trans hdeclared)
      · intro h
        refine ⟨convert_pixels cv t, ?_⟩
        intro r hr c hc k hk
        rw [hvalue r hr c hc k hk, Image.sampleValue, if_pos he]
        exact (leValue_eq_beValue_iff _).mpr (h r hr c hc k hk)
    · refine iff_of_true ⟨convert_pixels cv t, ?_⟩ (Or.inr (Or.inl he))
      intro r hr c hc k hk
      rw [hvalue r hr c hc k hk, Image.sampleValue, if_neg he]

/-- One 16-bit sample, the number 1 with the byte of value 1 first. -/
def littleEndianOne : Image :=
  { height := 1, width := 1, encoding := mono16, is_bigendian := 0, step := 2, data := [1, 0] }

/-- The same number with its bytes in the other order. -/
def bigEndianOne : Image :=
  { height := 1, width := 1, encoding := mono16, is_bigendian := 1, step := 2, data := [0, 1] }

theorem bigEndianOne_preserved :
    PreservesValues bigEndianOne (convert OpenCv.sequential bigEndianOne ⟨.u16, 1⟩) := by
  have hmat : matFromImage OpenCv.sequential bigEndianOne
      = .ok (convert OpenCv.sequential bigEndianOne ⟨.u16, 1⟩) := by rfl
  exact (matFromImage_values_iff hmat (by decide +kernel) (by decide +kernel)).mpr
    (Or.inr (Or.inl (by decide)))

/-- **A little-endian message is swapped as well**: the sample 1 arrives as 256. -/
theorem matFromImage_swaps_little_endian :
    ¬ ∀ (cv : OpenCv) (source : Image) (mat : Mat), matFromImage cv source = .ok mat →
      source.width.toNat * source.byteDepth * source.channels < 4294967296 →
      source.height.toNat * source.step.toNat < 4294967296 → PreservesValues source mat := by
  intro hall
  have hpreserved := hall OpenCv.sequential littleEndianOne
    (convert OpenCv.sequential littleEndianOne ⟨.u16, 1⟩) (by rfl) (by decide +kernel)
    (by decide +kernel)
  have hval := hpreserved.values 0 (by decide) 0 (by decide) 0 (by decide +kernel)
  exact absurd hval (by decide +kernel)

end DdsApps.ImageTest
