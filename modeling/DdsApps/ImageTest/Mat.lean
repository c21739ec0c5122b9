import DdsApps.ImageTest.Encoding
import DdsApps.Infra.Blocks
import Mathlib.Tactic.Ring

/-!
# `matFromImage`

How `ImageSubscriber.cpp` turns a received `sensor_msgs/Image` into a `cv::Mat`.

OpenCV is not part of the repository. Its matrices are modelled by what addressing needs
(`Mat`), and the calls whose result depends on its code, the constructors, `mixChannels` and
`reshape`, are the fields of a structure `OpenCv` that states what is relied on.
`OpenCv.sequential` shows that the structure can be met, and runs.

`matFromImage_ok` and `matFromImage_accepts` are the only places where `matFromImage` is unfolded.
-/

namespace DdsApps.ImageTest

open DdsApps.Infra

/-! ## Messages and matrices -/

/-- The fields of `sensor_msgs/Image` that `matFromImage` reads. -/
structure Image where
  height : UInt32
  width : UInt32
  encoding : String
  is_bigendian : UInt8
  step : UInt32
  data : List UInt8

/-- A matrix header: shape, element type, the distance of two rows, and the bytes it points to. -/
structure Mat where
  rows : Int
  cols : Int
  type : CvType
  step : Nat
  data : List UInt8

/--
What `Mat(rows, cols, type, ptr, step)` makes of bytes that already exist. `rows` and `cols`
are converted to `int` at the call. A `step` of 0 is `AUTO_STEP`, the width of a row.
-/
def Mat.ofData (rows cols : UInt32) (type : CvType) (data : List UInt8) (step : UInt32) : Mat :=
  { rows := wrapInt rows.toNat
    cols := wrapInt cols.toNat
    type := type
    step := if step = 0 then cols.toNat * type.elemSize else step.toNat
    data := data }

@[simp] theorem Mat.ofData_rows (h w : UInt32) (t : CvType) (data : List UInt8) (step : UInt32) :
    (Mat.ofData h w t data step).rows = wrapInt h.toNat := by
  simp only [Mat.ofData]

@[simp] theorem Mat.ofData_cols (h w : UInt32) (t : CvType) (data : List UInt8) (step : UInt32) :
    (Mat.ofData h w t data step).cols = wrapInt w.toNat := by
  simp only [Mat.ofData]

/-- Byte `b` of row `r`: the byte at `ptr + r * step + b`, if the header's bytes go that far. -/
def Mat.byteAt (m : Mat) (r b : Nat) : Option UInt8 := m.data[r * m.step + b]?

/-- Byte `k` of the element in row `r` and column `c`. -/
def Mat.elemByte (m : Mat) (r c k : Nat) : Option UInt8 := m.byteAt r (c * m.type.elemSize + k)

/-- The pairs of a `fromTo` vector: entries `2i` and `2i + 1` are the `i`-th pair. -/
def fromToPairs : List Nat → List (Nat × Nat)
  | a :: b :: rest => (a, b) :: fromToPairs rest
  | _ => []

/-! ## What is relied on of OpenCV -/

/-- The calls into OpenCV whose result its own code decides. -/
structure OpenCv where
  /-- `Mat(rows, cols, type, ptr, step)`: a header, or `none` where the constructor throws. -/
  header : UInt32 → UInt32 → CvType → List UInt8 → UInt32 → Option Mat
  header_shape : ∀ {h w t data step m}, header h w t data step = some m →
    m.rows = wrapInt h.toNat ∧ m.cols = wrapInt w.toNat ∧ m.type = t ∧ m.data = data
  /-- `AUTO_STEP` is computed from `cols`, which must be in the range of `int` for it. -/
  header_step : ∀ {h w t data step m}, header h w t data step = some m →
    step ≠ 0 ∨ w.toNat < 2147483648 →
    m.step = if step = 0 then w.toNat * t.elemSize else step.toNat
  /-- It does not throw for bytes whose rows are whole samples, and as wide as they have to be. -/
  header_accepts : ∀ {h w t data step}, data ≠ [] → h.toNat < 2147483648 → w.toNat < 2147483648 →
    w.toNat * t.elemSize ≤ step.toNat → t.depth.bytes ∣ step.toNat →
    (header h w t data step).isSome
  /-- `Mat(rows, cols, type)`: storage of its own, with contents nobody promises. -/
  create : UInt32 → UInt32 → CvType → Mat
  create_shape : ∀ h w t,
    (create h w t).rows = wrapInt h.toNat ∧ (create h w t).cols = wrapInt w.toNat ∧
      (create h w t).type = t
  create_storage : ∀ h w t, h.toNat < 2147483648 → w.toNat < 2147483648 →
    (create h w t).step = w.toNat * t.elemSize ∧
      (create h w t).data.length = h.toNat * (w.toNat * t.elemSize)
  /-- `mixChannels(src, dst, fromTo)`: `dst` afterwards. -/
  mixChannels : Mat → Mat → List Nat → Mat
  mixChannels_shape : ∀ src dst fromTo,
    (mixChannels src dst fromTo).rows = dst.rows ∧ (mixChannels src dst fromTo).cols = dst.cols ∧
      (mixChannels src dst fromTo).type = dst.type ∧ (mixChannels src dst fromTo).step = dst.step
  /-- For each pair `(a, b)`, channel `a` of the source goes to channel `b` of the destination
  in every pixel; no channel is the destination of two pairs. -/
  mixChannels_copies : ∀ (src dst : Mat) (fromTo : List Nat),
    src.rows = dst.rows → src.cols = dst.cols → src.type.depth = .u8 → dst.type.depth = .u8 →
    dst.step = dst.cols.toNat * dst.type.elemSize →
    ((fromToPairs fromTo).map Prod.snd).Nodup →
    ∀ p ∈ fromToPairs fromTo, p.1 < src.type.channels → p.2 < dst.type.channels →
    ∀ r c : Nat, (r : Int) < src.rows → (c : Int) < src.cols →
    ∀ v, src.elemByte r c p.1 = some v → (dst.elemByte r c p.2).isSome →
      (mixChannels src dst fromTo).elemByte r c p.2 = some v
  /-- `m.reshape(cn)`: a new header; the receiver is not changed. -/
  reshape : Mat → Int → Mat

/-! ## The conversion -/

/-- The `fromTo` vector: for each sample `i` of a pixel, byte `j` and the byte opposite to it. -/
def fromTo (numChannels byteDepth : Nat) : List Nat :=
  (List.range numChannels).flatMap fun i =>
    (List.range byteDepth).flatMap fun j =>
      [byteDepth * i + j, byteDepth * i + byteDepth - 1 - j]

/-- How `matFromImage` may end without a matrix. -/
inductive Failure
  /-- `exit` -/
  | exit (status : ExitStatus)
  /-- `cv::Exception` -/
  | exception

/--
`cv::Mat matFromImage(const sensor_msgs::msg::Image &source)`

The first check compares `uint32_t` with a product in which both `int` factors are converted to
unsigned. In the second the product has 32 bits and the size 64.
-/
def matFromImage (cv : OpenCv) (source : Image) : Except Failure Mat :=
  match getCvType source.encoding with
  | .error status => .error (.exit status)
  | .ok sourceType =>
    let byteDepth := (bitDepth source.encoding).tdiv 8
    let nChannels := numChannels source.encoding
    if source.step < source.width * UInt32.ofInt byteDepth * UInt32.ofInt nChannels then
      .error (.exit (-1))
    else if (source.height * source.step).toNat ≠ source.data.length then .error (.exit (-1))
    else
      -- If the endianness is the same as locally, share the data
      match cv.header source.height source.width sourceType source.data source.step with
      | none => .error .exception
      | some mat =>
        if byteDepth = 1 then .ok mat
        else
          -- Otherwise, reinterpret the data as bytes and switch the channels accordingly
          match cv.header source.height source.width ⟨.u8, (nChannels * byteDepth).toNat⟩
            source.data source.step with
          | none => .error .exception
          | some mat =>
            let matSwap := cv.create source.height source.width mat.type
            let matSwap := cv.mixChannels mat matSwap (fromTo nChannels.toNat byteDepth.toNat)
            -- the header `reshape` returns is dropped
            let _reinterpreted := cv.reshape matSwap nChannels
            .ok matSwap

/-! ## What `matFromImage` does on the messages it accepts -/

/-- The bytes of one sample, and the samples of one pixel, as `matFromImage` looks them up. -/
def Image.byteDepth (source : Image) : Nat := ((bitDepth source.encoding).tdiv 8).toNat

def Image.channels (source : Image) : Nat := (numChannels source.encoding).toNat

/-- The element type of the header the bytes are swapped through. -/
def CvType.asBytes (t : CvType) : CvType := ⟨.u8, t.channels * t.depth.bytes⟩

@[simp] theorem CvType.elemSize_asBytes (t : CvType) : t.asBytes.elemSize = t.elemSize := by
  simp [CvType.asBytes, CvType.elemSize, CvDepth.bytes]

/-- The type of the header whose bytes the returned matrix has, or is filled from. -/
def CvType.read (t : CvType) : CvType := if t.depth.bytes = 1 then t else t.asBytes

/-- What is made of such a header. -/
def finish (cv : OpenCv) (source : Image) (t : CvType) (mat : Mat) : Mat :=
  if t.depth.bytes = 1 then mat
  else
    cv.mixChannels mat (cv.create source.height source.width mat.type)
      (fromTo t.channels t.depth.bytes)

/-- The matrix a message is turned into once it has passed the checks. -/
def convert (cv : OpenCv) (source : Image) (t : CvType) : Mat :=
  if t.depth.bytes = 1 then Mat.ofData source.height source.width t source.data source.step
  else
    cv.mixChannels (Mat.ofData source.height source.width t.asBytes source.data source.step)
      (cv.create source.height source.width t.asBytes) (fromTo t.channels t.depth.bytes)

theorem OpenCv.header_eq (cv : OpenCv) {h w : UInt32} {t : CvType} {data : List UInt8}
    {step : UInt32} {m : Mat} (hm : cv.header h w t data step = some m)
    (hstep : step ≠ 0 ∨ w.toNat < 2147483648) : m = Mat.ofData h w t data step := by
  obtain ⟨hrows, hcols, htype, hdata⟩ := cv.header_shape hm
  calc m = ⟨m.rows, m.cols, m.type, m.step, m.data⟩ := rfl
    _ = Mat.ofData h w t data step := by
      rw [hrows, hcols, htype, cv.header_step hm hstep, hdata]
      rfl

/-- Over a header as documented. -/
theorem finish_ofData (cv : OpenCv) (source : Image) (t : CvType) :
    finish cv source t (Mat.ofData source.height source.width t.read source.data source.step)
      = convert cv source t := by
  unfold finish convert CvType.read
  by_cases hd : t.depth.bytes = 1
  · simp only [if_pos hd]
  · simp only [if_neg hd]
    rfl

/-- The two lookups by name, on the encodings `getCvType` knows. -/
theorem image_lookups {source : Image} {t : CvType} (ht : getCvType source.encoding = .ok t) :
    source.channels = t.channels ∧ source.byteDepth = t.depth.bytes := by
  obtain ⟨hc, hb, -, -⟩ := getCvType_spec ht
  unfold Image.channels Image.byteDepth
  rw [hc, hb, Int.mul_tdiv_cancel_left _ (by decide)]
  exact ⟨rfl, rfl⟩

theorem toNat_ofInt_natCast {n : Nat} (h : n < 4294967296) : (UInt32.ofInt (n : Int)).toNat = n := by
  unfold UInt32.ofInt
  rw [UInt32.toNat_ofNat']
  omega

/-- The row width the first check computes is the exact one modulo 2^32. -/
theorem toNat_rowWidth (w : UInt32) {t : CvType} (hc : t.channels ≤ 4) :
    (w * UInt32.ofInt (t.depth.bytes : Int) * UInt32.ofInt (t.channels : Int)).toNat
      = w.toNat * t.elemSize % 4294967296 := by
  have hd : t.depth.bytes ≤ 8 := by cases t.depth <;> decide
  rw [UInt32.toNat_mul, UInt32.toNat_mul, toNat_ofInt_natCast (by omega),
    toNat_ofInt_natCast (by omega), Nat.mod_mul_mod, CvType.elemSize, Nat.mul_assoc,
    Nat.mul_comm t.depth.bytes]

/--
**What is known of an accepted message.** Its encoding has a type, both checks passed in 32-bit
arithmetic, and a header over its bytes has been made.
-/
theorem matFromImage_ok {cv : OpenCv} {source : Image} {mat : Mat}
    (h : matFromImage cv source = .ok mat) :
    ∃ t header, getCvType source.encoding = .ok t ∧
      source.width.toNat * t.elemSize % 4294967296 ≤ source.step.toNat ∧
      source.height.toNat * source.step.toNat % 4294967296 = source.data.length ∧
      cv.header source.height source.width t.read source.data source.step = some header ∧
      mat = finish cv source t header := by
  unfold matFromImage at h
  split at h
  · cases h
  · next t ht =>
    obtain ⟨hc, hb, -, hc4⟩ := getCvType_spec ht
    have hdepth : (8 * (t.depth.bytes : Int)).tdiv 8 = t.depth.bytes :=
      Int.mul_tdiv_cancel_left _ (by decide)
    simp only [hc, hb, hdepth] at h
    split at h
    · cases h
    · next hstep =>
      split at h
      · cases h
      · next hsize =>
        rw [UInt32.lt_iff_toNat_lt, toNat_rowWidth _ hc4, Nat.not_lt] at hstep
        rw [Decidable.not_not, UInt32.toNat_mul] at hsize
        have hone : ((t.depth.bytes : Int) = 1) = (t.depth.bytes = 1) := by simp
        simp only [hone] at h
        split at h
        · cases h
        · next header hheader =>
          split at h
          · next h1 =>
            refine ⟨t, header, ht, hstep, hsize, ?_, ?_⟩
            · rw [CvType.read, if_pos h1]
              exact hheader
            · rw [finish, if_pos h1]
              exact (Except.ok.inj h).symm
          · next h1 =>
            split at h
            · cases h
            · next header hheader =>
              refine ⟨t, header, ht, hstep, hsize, ?_, ?_⟩
              · rw [CvType.read, if_neg h1]
                exact hheader
              · rw [finish, if_neg h1]
                exact (Except.ok.inj h).symm

/-- The header is the documented one, unless `AUTO_STEP` meets a width outside of `int`. -/
theorem eq_convert {cv : OpenCv} {source : Image} {t : CvType} {header : Mat}
    (hheader : cv.header source.height source.width t.read source.data source.step = some header)
    (hstep : source.step ≠ 0 ∨ source.width.toNat < 2147483648) :
    finish cv source t header = convert cv source t := by
  rw [cv.header_eq hheader hstep, finish_ofData]

/-- **A message that passes both checks is accepted**, if OpenCV makes the headers. -/
theorem matFromImage_accepts {cv : OpenCv} {source : Image} {t : CvType}
    (ht : getCvType source.encoding = .ok t)
    (hstep : source.width.toNat * t.elemSize % 4294967296 ≤ source.step.toNat)
    (hsize : source.height.toNat * source.step.toNat % 4294967296 = source.data.length)
    (hheader : (cv.header source.height source.width t source.data source.step).isSome)
    (hbytes : (cv.header source.height source.width t.asBytes source.data source.step).isSome) :
    ∃ mat, matFromImage cv source = .ok mat := by
  obtain ⟨hc, hb, -, hc4⟩ := getCvType_spec ht
  have hdepth : (8 * (t.depth.bytes : Int)).tdiv 8 = t.depth.bytes :=
    Int.mul_tdiv_cancel_left _ (by decide)
  obtain ⟨header, hheader⟩ := Option.isSome_iff_exists.mp hheader
  obtain ⟨bytes, hbytes⟩ := Option.isSome_iff_exists.mp hbytes
  rw [← toNat_rowWidth _ hc4, ← Nat.not_lt, ← UInt32.lt_iff_toNat_lt] at hstep
  rw [← UInt32.toNat_mul] at hsize
  unfold matFromImage
  rw [ht]
  simp only [hc, hb, hdepth, if_neg hstep, hsize, ne_eq, not_true_eq_false, if_false, hheader]
  split
  · exact ⟨_, rfl⟩
  · split
    · next hnone => cases hbytes.symm.trans hnone
    · exact ⟨_, rfl⟩

/-- **A message of the size that it tells of is accepted**, if its rows are whole samples. -/
theorem matFromImage_wellFormed (cv : OpenCv) {source : Image} {t : CvType}
    (ht : getCvType source.encoding = .ok t) (hdata : source.data ≠ [])
    (hheight : source.height.toNat < 2147483648) (hwidth : source.width.toNat < 2147483648)
    (hstep : source.width.toNat * t.elemSize ≤ source.step.toNat)
    (hmultiple : t.depth.bytes ∣ source.step.toNat)
    (hsize : source.height.toNat * source.step.toNat = source.data.length)
    (hlt : source.data.length < 4294967296) : ∃ mat, matFromImage cv source = .ok mat := by
  refine matFromImage_accepts ht ((Nat.mod_le _ _).trans hstep) ?_ ?_ ?_
  · rw [hsize, Nat.mod_eq_of_lt hlt]
  · exact cv.header_accepts hdata hheight hwidth hstep hmultiple
  · exact cv.header_accepts hdata hheight hwidth (t.elemSize_asBytes ▸ hstep) (one_dvd _)

/-! ## An OpenCV that runs -/

/-- `mixChannels`, one byte of the destination after the other. -/
def mixSequential (src dst : Mat) (ft : List Nat) : Mat :=
  let e := dst.type.elemSize
  let w := dst.cols.toNat
  { dst with
    data := dst.data.mapIdx fun p old =>
      match (fromToPairs ft).find? (fun q => q.2 == p % e) with
      | some q => (src.elemByte (p / e / w) (p / e % w) q.1).getD old
      | none => old }

/-- The pair with a given destination is found, when no two pairs share one. -/
theorem find?_of_nodup_snd {l : List (Nat × Nat)} (hnd : (l.map Prod.snd).Nodup)
    {p : Nat × Nat} (hp : p ∈ l) : l.find? (fun q => q.2 == p.2) = some p := by
  induction l with
  | nil => cases hp
  | cons q rest ih =>
    rw [List.map_cons, List.nodup_cons] at hnd
    by_cases hq : q.2 = p.2
    · rw [List.find?_cons_of_pos (by simpa using hq)]
      rcases List.mem_cons.mp hp with rfl | hmem
      · rfl
      · exact absurd (List.mem_map.mpr ⟨p, hmem, hq.symm⟩) hnd.1
    · rw [List.find?_cons_of_neg (by simpa using hq)]
      rcases List.mem_cons.mp hp with rfl | hmem
      · exact absurd rfl hq
      · exact ih hnd.2 hmem

theorem mixSequential_copies {src dst : Mat} {ft : List Nat} (hcols : src.cols = dst.cols)
    (hdst : dst.type.depth = .u8) (hstep : dst.step = dst.cols.toNat * dst.type.elemSize)
    (hnd : ((fromToPairs ft).map Prod.snd).Nodup) {p : Nat × Nat} (hp : p ∈ fromToPairs ft)
    (hp2 : p.2 < dst.type.channels) {r c : Nat} (hc : (c : Int) < src.cols) {v : UInt8}
    (hv : src.elemByte r c p.1 = some v) (hd : (dst.elemByte r c p.2).isSome) :
    (mixSequential src dst ft).elemByte r c p.2 = some v := by
  have he : dst.type.elemSize = dst.type.channels := by simp [CvType.elemSize, hdst, CvDepth.bytes]
  have hw : c < dst.cols.toNat := by rw [← hcols]; omega
  -- the flat position splits back into byte, column and row
  have hpos : r * dst.step + (c * dst.type.elemSize + p.2)
      = dst.type.elemSize * (dst.cols.toNat * r + c) + p.2 := by
    rw [hstep]; ring
  have hbyte : p.2 < dst.type.elemSize := by omega
  have hb : (dst.type.elemSize * (dst.cols.toNat * r + c) + p.2) % dst.type.elemSize = p.2 :=
    block_mod hbyte
  have hq : (dst.type.elemSize * (dst.cols.toNat * r + c) + p.2) / dst.type.elemSize
      = dst.cols.toNat * r + c :=
    block_div hbyte
  have hcol : (dst.cols.toNat * r + c) % dst.cols.toNat = c := block_mod hw
  have hrow : (dst.cols.toNat * r + c) / dst.cols.toNat = r := block_div hw
  obtain ⟨old, hold⟩ := Option.isSome_iff_exists.mp hd
  unfold Mat.elemByte Mat.byteAt at hold
  rw [hpos] at hold
  show (dst.data.mapIdx _)[r * dst.step + (c * dst.type.elemSize + p.2)]? = some v
  rw [hpos, List.getElem?_mapIdx, hold]
  simp only [hb, hq, hcol, hrow, find?_of_nodup_snd hnd hp, hv, Option.map_some, Option.getD_some]

/-- `Mat(rows, cols, type)` with zeroed storage. -/
def Mat.zeros (h w : UInt32) (t : CvType) : Mat :=
  { rows := wrapInt h.toNat
    cols := wrapInt w.toNat
    type := t
    step := w.toNat * t.elemSize
    data := List.replicate (h.toNat * (w.toNat * t.elemSize)) 0 }

/-- No header over no bytes, unless there is nothing to read, nor with a distance of rows that does
not fit them. -/
def Mat.header (h w : UInt32) (t : CvType) (data : List UInt8) (step : UInt32) : Option Mat :=
  if data = [] ∧ h ≠ 0 ∧ w ≠ 0 then none
  else if step ≠ 0 ∧ step.toNat < w.toNat * t.elemSize then none
  else if step.toNat % t.depth.bytes ≠ 0 then none
  else some (Mat.ofData h w t data step)

theorem Mat.header_eq_some {h w : UInt32} {t : CvType} {data : List UInt8} {step : UInt32} {m : Mat}
    (hm : Mat.header h w t data step = some m) : m = Mat.ofData h w t data step := by
  unfold Mat.header at hm
  split at hm
  · cases hm
  · split at hm
    · cases hm
    · split at hm
      · cases hm
      · exact (Option.some.inj hm).symm

/-- Headers that may be refused, zeroed storage, and `mixChannels` as a loop. -/
def OpenCv.sequential : OpenCv where
  header := Mat.header
  header_shape hm := by
    rw [Mat.header_eq_some hm]
    exact ⟨rfl, rfl, rfl, rfl⟩
  header_step hm _ := by
    rw [Mat.header_eq_some hm]
    rfl
  header_accepts hdata _ _ hstep hmultiple := by
    unfold Mat.header
    rw [if_neg fun h => hdata h.1, if_neg fun h => absurd h.2 (Nat.not_lt.mpr hstep),
      if_neg (not_not_intro (Nat.mod_eq_zero_of_dvd hmultiple))]
    rfl
  create := Mat.zeros
  create_shape _ _ _ := by simp only [Mat.zeros, and_self]
  create_storage h w t _ _ := ⟨rfl, by unfold Mat.zeros; rw [List.length_replicate]⟩
  mixChannels := mixSequential
  mixChannels_shape _ _ _ := ⟨rfl, rfl, rfl, rfl⟩
  mixChannels_copies _ _ _ _ hcols _ hdst hstep hnd _ hp _ hp2 _ _ _ hc _ hv hd :=
    mixSequential_copies hcols hdst hstep hnd hp hp2 hc hv hd
  reshape m cn := { m with type := ⟨m.type.depth, cn.toNat⟩ }

end DdsApps.ImageTest
