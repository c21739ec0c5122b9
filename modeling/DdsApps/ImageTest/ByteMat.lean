import DdsApps.ImageTest.SwapTable

/-!
# Copying through the byte-swap table

How `matFromImage` fills `mat_swap`: storage of its own in the shape of the matrix it reads, and
one call of `mixChannels` with the table (`swapBytes`). `ByteMat` is a matrix of bytes whose pixels
are all there; swapping makes another one of the same shape (`ByteMat.swapped`).

* `ByteMat.swapBytes_elemByte` — where each byte goes
* `ByteMat.swapped_elemByte` — where each byte of the new matrix comes from
* `ByteMat.swapped_swapped` — a second swap takes every byte back
-/

namespace DdsApps.ImageTest

open DdsApps.Infra

/-- Byte `b` of the pixel in row `r` and column `c` is a byte of the matrix. -/
structure Mat.HasByte (m : Mat) (r c b : Nat) : Prop where
  row : (r : Int) < m.rows
  col : (c : Int) < m.cols
  byte : b < m.type.elemSize

/-- `mat_swap`: new storage with the type of `mat`, filled from `mat` through the table. -/
def swapBytes (cv : OpenCv) (n d : Nat) (h w : UInt32) (mat : Mat) : Mat :=
  cv.mixChannels mat (cv.create h w mat.type) (fromTo n d)

/-- The shape asked for, and the type of `mat`. -/
theorem swapBytes_shape (cv : OpenCv) (n d : Nat) (h w : UInt32) (mat : Mat) :
    (swapBytes cv n d h w mat).rows = wrapInt h.toNat ∧
      (swapBytes cv n d h w mat).cols = wrapInt w.toNat ∧
        (swapBytes cv n d h w mat).type = mat.type := by
  obtain ⟨hrows, hcols, htype, -⟩ :=
    cv.mixChannels_shape mat (cv.create h w mat.type) (fromTo n d)
  obtain ⟨hnewrows, hnewcols, hnewtype⟩ := cv.create_shape h w mat.type
  exact ⟨hrows.trans hnewrows, hcols.trans hnewcols, htype.trans hnewtype⟩

/-- Wider samples than bytes are swapped, through a header over the bytes of the message. -/
theorem convert_of_wide (cv : OpenCv) (source : Image) {t : CvType} (hd : t.depth.bytes ≠ 1) :
    convert cv source t = swapBytes cv t.channels t.depth.bytes source.height source.width
      (Mat.ofData source.height source.width t.asBytes source.data source.step) := by
  unfold convert
  rw [if_neg hd]
  rfl

/-- Both paths keep the dimensions, as long as they are in the range of `int`. -/
theorem convert_shape (cv : OpenCv) {source : Image} (t : CvType)
    (hheight : source.height.toNat < 2147483648) (hwidth : source.width.toNat < 2147483648) :
    (convert cv source t).rows = source.height.toNat ∧
      (convert cv source t).cols = source.width.toNat := by
  have hrows : wrapInt source.height.toNat = source.height.toNat :=
    wrapInt_of_range (by omega) (by omega)
  have hcols : wrapInt source.width.toNat = source.width.toNat :=
    wrapInt_of_range (by omega) (by omega)
  by_cases hd : t.depth.bytes = 1
  · unfold convert
    rw [if_pos hd]
    exact ⟨hrows, hcols⟩
  · rw [convert_of_wide cv source hd]
    obtain ⟨hswaprows, hswapcols, -⟩ := swapBytes_shape cv t.channels t.depth.bytes source.height
      source.width (Mat.ofData source.height source.width t.asBytes source.data source.step)
    exact ⟨hswaprows.trans hrows, hswapcols.trans hcols⟩

/-- Storage made by `Mat(rows, cols, type)` has all bytes of all pixels. -/
theorem OpenCv.create_there (cv : OpenCv) {h w : UInt32} {t : CvType} {r c b : Nat}
    (hb : (cv.create h w t).HasByte r c b) : ((cv.create h w t).elemByte r c b).isSome := by
  obtain ⟨hrows, hcols, htype⟩ := cv.create_shape h w t
  obtain ⟨hrow, hcol, hbyte⟩ := hb
  rw [hrows] at hrow
  rw [hcols] at hcol
  rw [htype] at hbyte
  obtain ⟨hh, hr⟩ := lt_of_lt_wrapInt h.toNat_lt hrow
  obtain ⟨hw, hc⟩ := lt_of_lt_wrapInt w.toNat_lt hcol
  obtain ⟨hstep, hlen⟩ := cv.create_storage h w t hh hw
  have hin := block_lt hr (block_lt hc hbyte)
  unfold Mat.elemByte Mat.byteAt
  rw [htype, hstep, isSome_getElem?, hlen, Nat.mul_comm r, Nat.mul_comm c]
  exact hin

/-! ## Matrices of bytes -/

/-- A matrix of `h` rows and `w` columns whose pixels are `n` samples of `d` bytes, all there. -/
structure ByteMat (n d : Nat) (h w : UInt32) where
  mat : Mat
  rows : mat.rows = wrapInt h.toNat
  cols : mat.cols = wrapInt w.toNat
  type : mat.type = ⟨.u8, n * d⟩
  there : ∀ {r c b : Nat}, mat.HasByte r c b → (mat.elemByte r c b).isSome

namespace ByteMat

variable {n d : Nat} {h w : UInt32} {r c b : Nat} (cv cv' : OpenCv) (m m' : ByteMat n d h w)

theorem hasByte_iff : m.mat.HasByte r c b ↔
    (r : Int) < wrapInt h.toNat ∧ (c : Int) < wrapInt w.toNat ∧ b < n * d := by
  have hsize : m.mat.type.elemSize = n * d := by
    rw [m.type, CvType.elemSize, CvDepth.bytes, Nat.mul_one]
  rw [← m.rows, ← m.cols, ← hsize]
  constructor
  · rintro ⟨hr, hc, hb⟩
    exact ⟨hr, hc, hb⟩
  · rintro ⟨hr, hc, hb⟩
    exact ⟨hr, hc, hb⟩

theorem hasByte_congr : m.mat.HasByte r c b ↔ m'.mat.HasByte r c b :=
  m.hasByte_iff.trans m'.hasByte_iff.symm

theorem hasByte_blockRev (hb : m.mat.HasByte r c b) : m.mat.HasByte r c (blockRev d b) := by
  obtain ⟨hr, hc, hbyte⟩ := m.hasByte_iff.mp hb
  exact m.hasByte_iff.mpr ⟨hr, hc, (blockRev_involutionOn n d).mapsTo hbyte⟩

/-- New storage for such pixels. -/
def create (n d : Nat) (h w : UInt32) : ByteMat n d h w where
  mat := cv.create h w ⟨.u8, n * d⟩
  rows := (cv.create_shape ..).1
  cols := (cv.create_shape ..).2.1
  type := (cv.create_shape ..).2.2
  there := cv.create_there

theorem swapBytes_eq : swapBytes cv n d h w m.mat
    = cv.mixChannels m.mat (create cv n d h w).mat (fromTo n d) := by
  unfold swapBytes
  rw [m.type]
  rfl

/-- **Each byte goes to the opposite place of its sample.** -/
theorem swapBytes_elemByte (hb : m.mat.HasByte r c b) :
    (swapBytes cv n d h w m.mat).elemByte r c (blockRev d b) = m.mat.elemByte r c b := by
  obtain ⟨v, hv⟩ := Option.isSome_iff_exists.mp (m.there hb)
  rw [m.swapBytes_eq cv, hv]
  have hroom : (create cv n d h w).mat.HasByte r c (blockRev d b) :=
    (m.hasByte_congr (create cv n d h w)).mp (m.hasByte_blockRev hb)
  have hstep : (create cv n d h w).mat.step
      = (create cv n d h w).mat.cols.toNat * (create cv n d h w).mat.type.elemSize := by
    obtain ⟨hr, hc, -⟩ := m.hasByte_iff.mp hb
    obtain ⟨hh31, -⟩ := lt_of_lt_wrapInt h.toNat_lt hr
    obtain ⟨hw31, -⟩ := lt_of_lt_wrapInt w.toNat_lt hc
    rw [(create cv n d h w).cols, (create cv n d h w).type,
      wrapInt_of_range (by omega) (by omega), Int.toNat_natCast]
    exact (cv.create_storage h w ⟨.u8, n * d⟩ hh31 hw31).1
  refine cv.mixChannels_copies m.mat (create cv n d h w).mat (fromTo n d) ?_ ?_ ?_ ?_ hstep
    (nodup_fromTo_destinations n d) (b, blockRev d b) ?_ ?_ ?_ r c hb.row hb.col v hv
    ((create cv n d h w).there hroom)
  · exact m.rows.trans (create cv n d h w).rows.symm
  · exact m.cols.trans (create cv n d h w).cols.symm
  · rw [m.type]
  · rw [(create cv n d h w).type]
  · exact mem_fromToPairs_fromTo (m.hasByte_iff.mp hb).2.2
  · rw [m.type]
    exact (m.hasByte_iff.mp hb).2.2
  · rw [(create cv n d h w).type]
    exact ((create cv n d h w).hasByte_iff.mp hroom).2.2

/-- The matrix `matFromImage` makes of one whose pixels are all there has all pixels as well. -/
def swapped : ByteMat n d h w where
  mat := swapBytes cv n d h w m.mat
  rows := (swapBytes_shape ..).1
  cols := (swapBytes_shape ..).2.1
  type := (swapBytes_shape ..).2.2.trans m.type
  there := by
    rintro r c b ⟨hr, hc, hbyte⟩
    obtain ⟨hrows, hcols, htype⟩ := swapBytes_shape cv n d h w m.mat
    rw [← m.rows] at hrows
    rw [← m.cols] at hcols
    have hb' : m.mat.HasByte r c b := ⟨hrows ▸ hr, hcols ▸ hc, htype ▸ hbyte⟩
    have hback : blockRev d (blockRev d b) = b :=
      (blockRev_involutionOn n d).leftInv (m.hasByte_iff.mp hb').2.2
    rw [← hback, m.swapBytes_elemByte cv (m.hasByte_blockRev hb')]
    exact m.there (m.hasByte_blockRev hb')

/-- The bytes of a pixel are moved by `blockRev`. -/
theorem swapped_eqOn (hr : (r : Int) < m.mat.rows) (hc : (c : Int) < m.mat.cols) :
    Set.EqOn ((m.swapped cv).mat.elemByte r c ∘ blockRev d) (m.mat.elemByte r c)
      (Set.Iio (n * d)) := by
  intro b hb
  exact m.swapBytes_elemByte cv
    (m.hasByte_iff.mpr ⟨by rw [← m.rows]; exact hr, by rw [← m.cols]; exact hc, hb⟩)

/-- **No byte of the new matrix stays as it was made**: it is the opposite byte of its sample. -/
theorem swapped_elemByte (hb : m.mat.HasByte r c b) :
    (m.swapped cv).mat.elemByte r c b = m.mat.elemByte r c (blockRev d b) :=
  (blockRev_involutionOn n d).fills (m.swapped_eqOn cv hb.row hb.col) (m.hasByte_iff.mp hb).2.2

/-- **Swapped twice, the pixels are those of the first matrix again.** -/
theorem swapped_swapped (hb : m.mat.HasByte r c b) :
    ((m.swapped cv).swapped cv').mat.elemByte r c b = m.mat.elemByte r c b := by
  have hb' := (m.hasByte_congr (m.swapped cv)).mp hb
  exact (blockRev_involutionOn n d).twice (m.swapped_eqOn cv hb.row hb.col)
    ((m.swapped cv).swapped_eqOn cv' hb'.row hb'.col) (m.hasByte_iff.mp hb).2.2

end ByteMat

end DdsApps.ImageTest
