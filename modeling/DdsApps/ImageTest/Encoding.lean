import DdsApps.Infra.CLib

/-!
# Image encodings

The three lookups of `ImageSubscriber.cpp` by encoding name: `numChannels`, `bitDepth` and
`getCvType`. The first two read generic names (`16SC3`) by prefix and number, the third is a
table expanded by macros.

`getCvType_spec` — on every name `getCvType` knows, the three agree.
-/

namespace DdsApps.ImageTest

open DdsApps.Infra

/-! ## Encoding names -/

def abstractEncodingPrefixes : List String := ["8UC", "8SC", "16UC", "16SC", "32SC", "32FC", "64FC"]

def bayerBggr16 : String := "bayer_bggr16"
def bayerBggr8 : String := "bayer_bggr8"
def bayerGbrg16 : String := "bayer_gbrg16"
def bayerGbrg8 : String := "bayer_gbrg8"
def bayerGrbg16 : String := "bayer_grbg16"
def bayerGrbg8 : String := "bayer_grbg8"
def bayerRggb16 : String := "bayer_rggb16"
def bayerRggb8 : String := "bayer_rggb8"
def bgr16 : String := "bgr16"
def bgr8 : String := "bgr8"
def bgra16 : String := "bgra16"
def bgra8 : String := "bgra8"
def mono16 : String := "mono16"
def mono8 : String := "mono8"
def rgb16 : String := "rgb16"
def rgb8 : String := "rgb8"
def rgba16 : String := "rgba16"
def rgba8 : String := "rgba8"
def yuv422 : String := "yuv422"

/-! ## Channels and depth by name -/

/--
The loop over the abstract prefixes that `numChannels` and `bitDepth` share, with their results
as parameters: `bare` for a name that is the prefix alone, `numbered` for a prefix followed by
something `atoi` does not read as 0. `none` when the loop ends without a result.
-/
def scanPrefixes (encoding : List Char) (bare : String → Int) (numbered : String → Int → Int) :
    List String → Option Int
  | [] => none
  | pre :: rest =>
    let p := pre.toList
    if encoding.take p.length ≠ p then scanPrefixes encoding bare numbered rest
    else if encoding.length = p.length then some (bare pre)
    else
      let nChannel := atoi (encoding.drop p.length)
      if nChannel ≠ 0 then some (numbered pre nChannel)
      else scanPrefixes encoding bare numbered rest

def numChannels (encoding : String) : Int :=
  if encoding = mono8 ∨ encoding = mono16 then 1
  else if encoding = bgr8 ∨ encoding = rgb8 ∨ encoding = bgr16 ∨ encoding = rgb16 then 3
  else if encoding = bgra8 ∨ encoding = rgba8 ∨ encoding = bgra16 ∨ encoding = rgba16 then 4
  else if encoding = bayerRggb8 ∨ encoding = bayerBggr8 ∨ encoding = bayerGbrg8 ∨
      encoding = bayerGrbg8 ∨ encoding = bayerRggb16 ∨ encoding = bayerBggr16 ∨
      encoding = bayerGbrg16 ∨ encoding = bayerGrbg16 then 1
  else
    match scanPrefixes encoding.toList (fun _ => 1) (fun _ n => n) abstractEncodingPrefixes with
    | some n => n
    | none => if encoding = yuv422 then 2 else -1

def bitDepth (encoding : String) : Int :=
  if encoding = mono16 then 16
  else if encoding = mono8 ∨ encoding = bgr8 ∨ encoding = rgb8 ∨ encoding = bgra8 ∨
      encoding = rgba8 ∨ encoding = bayerRggb8 ∨ encoding = bayerBggr8 ∨ encoding = bayerGbrg8 ∨
      encoding = bayerGrbg8 then 8
  -- `mono16` is asked for once more
  else if encoding = mono16 ∨ encoding = bgr16 ∨ encoding = rgb16 ∨ encoding = bgra16 ∨
      encoding = rgba16 ∨ encoding = bayerRggb16 ∨ encoding = bayerBggr16 ∨
      encoding = bayerGbrg16 ∨ encoding = bayerGrbg16 then 16
  else
    match scanPrefixes encoding.toList (fun p => atoi p.toList) (fun p _ => atoi p.toList)
        abstractEncodingPrefixes with
    | some n => n
    | none => if encoding = yuv422 then 8 else -1

/-! ## OpenCV element types -/

/-- `CV_8U`, `CV_8S`, `CV_16U`, `CV_16S`, `CV_32S`, `CV_32F`, `CV_64F`. -/
inductive CvDepth
  | u8 | s8 | u16 | s16 | s32 | f32 | f64
  deriving DecidableEq, Repr

/-- The bytes of one channel (`CV_ELEM_SIZE1`). -/
def CvDepth.bytes : CvDepth → Nat
  | .u8 | .s8 => 1
  | .u16 | .s16 => 2
  | .s32 | .f32 => 4
  | .f64 => 8

theorem CvDepth.bytes_pos (d : CvDepth) : 0 < d.bytes := by cases d <;> decide

/-- A matrix element type, `CV_MAKETYPE(depth, channels)`. -/
structure CvType where
  depth : CvDepth
  channels : Nat
  deriving DecidableEq, Repr

/-- The bytes of one element (`CV_ELEM_SIZE`). -/
def CvType.elemSize (t : CvType) : Nat := t.channels * t.depth.bytes

/-- `exit(-1)`: the status the process ends with. -/
abbrev ExitStatus := Int

/-- `CHECK_CHANNEL_TYPE(t)`: the four names `t1` to `t4`, each with `CV_` before it as its type. -/
def checkChannelType (t : String) (depth : CvDepth) : List (String × CvType) :=
  [(t ++ "1", ⟨depth, 1⟩), (t ++ "2", ⟨depth, 2⟩), (t ++ "3", ⟨depth, 3⟩), (t ++ "4", ⟨depth, 4⟩)]

/-- The comparisons of `getCvType` in their order, each with the type it returns. -/
def cvTypes : List (String × CvType) :=
  [(bgr8, ⟨.u8, 3⟩), (mono8, ⟨.u8, 1⟩), (rgb8, ⟨.u8, 3⟩), (mono16, ⟨.u16, 1⟩),
    (bgr16, ⟨.u16, 3⟩), (rgb16, ⟨.u16, 3⟩), (bgra8, ⟨.u8, 4⟩), (rgba8, ⟨.u8, 4⟩),
    (bgra16, ⟨.u16, 4⟩), (rgba16, ⟨.u16, 4⟩),
    (bayerRggb8, ⟨.u8, 1⟩), (bayerBggr8, ⟨.u8, 1⟩), (bayerGbrg8, ⟨.u8, 1⟩),
    (bayerGrbg8, ⟨.u8, 1⟩), (bayerRggb16, ⟨.u16, 1⟩), (bayerBggr16, ⟨.u16, 1⟩),
    (bayerGbrg16, ⟨.u16, 1⟩), (bayerGrbg16, ⟨.u16, 1⟩)]
  ++ checkChannelType "8UC" .u8 ++ checkChannelType "8SC" .s8
  ++ checkChannelType "16UC" .u16 ++ checkChannelType "16SC" .s16
  ++ checkChannelType "32SC" .s32 ++ checkChannelType "32FC" .f32 ++ checkChannelType "64FC" .f64

/-- The first name equal to `encoding` decides; when none is, the process exits. -/
def getCvType (encoding : String) : Except ExitStatus CvType :=
  match cvTypes.lookup encoding with
  | some t => .ok t
  | none => .error (-1)

/-! ## The three lookups agree -/

theorem getCvType_mem {encoding : String} {t : CvType} (h : getCvType encoding = .ok t) :
    (encoding, t) ∈ cvTypes := by
  unfold getCvType at h
  split at h
  · next t' ht =>
    cases h
    obtain ⟨_, _, hsplit, _⟩ := List.lookup_eq_some_iff.mp ht
    rw [hsplit]
    simp
  · cases h

/-- What the table promises of one of its rows. -/
def RowAgrees (row : String × CvType) : Prop :=
  numChannels row.1 = row.2.channels ∧ bitDepth row.1 = 8 * row.2.depth.bytes ∧
    1 ≤ row.2.channels ∧ row.2.channels ≤ 4

instance (row : String × CvType) : Decidable (RowAgrees row) :=
  inferInstanceAs (Decidable (_ ∧ _ ∧ _ ∧ _))

theorem cvTypes_agree : ∀ row ∈ cvTypes, RowAgrees row := by decide +kernel

/-- **On every name `getCvType` knows, channels and depth are those of the type.** -/
theorem getCvType_spec {encoding : String} {t : CvType} (h : getCvType encoding = .ok t) :
    numChannels encoding = t.channels ∧ bitDepth encoding = 8 * t.depth.bytes ∧
      1 ≤ t.channels ∧ t.channels ≤ 4 :=
  cvTypes_agree _ (getCvType_mem h)

end DdsApps.ImageTest
