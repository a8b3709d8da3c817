import IndustrialHmi.Theory.Checked
import IndustrialHmi.Theory.Json
import Mathlib.Algebra.Order.Floor.Ring
import Mathlib.Algebra.Order.Field.Rat
import Mathlib.Data.Rat.Floor
import Mathlib.Tactic.Linarith
import Mathlib.Tactic.Ring
import Mathlib.Tactic.FieldSimp
import Mathlib.Tactic.Positivity

/-!
# Preprocessing images

An image is resized until its short edge has 256 pixels, and a square is cut out of its middle.
Arithmetic on floats is exact here.  Every access to a buffer and every number that becomes an
`int` is checked.

The long edge grows with the short one.  From a ratio of about 2^23 on it is no `int` any more, and
nobody has checked; everything else stays in bounds (`staysInBounds_iff`).
-/

namespace Ml

def kResizeShortEdge : ℤ := 256
def kCropSize : ℤ := 224
def kChannels : ℤ := 3
def kBatchSize : ℤ := 1
def kPixelScaleMax : ℚ := 255
def kImageNetMean : List ℚ := [485 / 1000, 456 / 1000, 406 / 1000]
def kImageNetStd : List ℚ := [229 / 1000, 224 / 1000, 225 / 1000]

/-- The dimensions are numbers of 32 bits. -/
structure Image where
  width : ℤ
  height : ℤ
  channels : ℤ
  pixels : List UInt8

/-! ## Indices -/

/-- A conversion to `std::size_t`. -/
def sizeT (i : ℤ) : Nat := (i % 2 ^ 64).toNat

def pixelIndex (x y c width : ℤ) : Nat :=
  ((sizeT y * sizeT width + sizeT x) * sizeT kChannels + sizeT c) % 2 ^ 64

def clampToAxis (value axisLength : ℤ) : ℤ :=
  if value < 0 then 0
  else if value ≥ axisLength then axisLength - 1
  else value

/-! ## Resizing -/

/-- Two neighbours on an axis of the source, and how far it is from the first to the second. -/
structure Sample where
  low : ℤ
  high : ℤ
  fraction : ℚ

/-- Where a pixel of the destination lies on an axis of the source. -/
def sampleAxis (srcLength dstLength o : ℤ) : Checked Text Sample := do
  let ratio : ℚ := srcLength / dstLength
  let s : ℚ := (o + 1 / 2) * ratio - 1 / 2
  let raw ← Checked.int ⌊s⌋
  let low := clampToAxis raw srcLength
  let next ← Checked.int (raw + 1)
  let high := clampToAxis next srcLength
  return ⟨low, high, s - raw⟩

def lerp (a b t : ℚ) : ℚ := a * (1 - t) + b * t

/-- A cast of a float to a byte cuts its fraction off. -/
def castByte (v : ℚ) : UInt8 := UInt8.ofNat ⌊max 0 (min v kPixelScaleMax)⌋.toNat

/-- One channel of a pixel of the destination. -/
def bilinearPixel (src : Image) (sx sy : Sample) (c : ℤ) : Checked Text UInt8 := do
  let p00 ← Checked.read src.pixels (pixelIndex sx.low sy.low c src.width)
  let p10 ← Checked.read src.pixels (pixelIndex sx.high sy.low c src.width)
  let p01 ← Checked.read src.pixels (pixelIndex sx.low sy.high c src.width)
  let p11 ← Checked.read src.pixels (pixelIndex sx.high sy.high c src.width)
  let top := lerp p00.toNat p10.toNat sx.fraction
  let bot := lerp p01.toNat p11.toNat sx.fraction
  return castByte (lerp top bot sy.fraction)

def bilinearResize (src : Image) (dstWidth dstHeight : ℤ) : Checked Text (List UInt8) :=
  let dst := List.replicate (sizeT dstWidth * sizeT dstHeight * sizeT kChannels % 2 ^ 64) 0
  Checked.loop (fun yo dst => do
    let sy ← sampleAxis src.height dstHeight yo
    Checked.loop (fun xo dst => do
      let sx ← sampleAxis src.width dstWidth xo
      Checked.loop (fun c dst => do
        let v ← bilinearPixel src sx sy c
        Checked.write dst (pixelIndex xo yo c dstWidth) v) kChannels.toNat dst)
      dstWidth.toNat dst) dstHeight.toNat dst

structure ResizedDimensions where
  width : ℤ
  height : ℤ
  deriving DecidableEq

/-- `std::round`: halves are rounded away from zero. -/
def stdRound (v : ℚ) : ℤ := if v < 0 then -⌊-v + 1 / 2⌋ else ⌊v + 1 / 2⌋

def computeResizedDimensions (srcWidth srcHeight : ℤ) : Checked Text ResizedDimensions :=
  if srcWidth ≤ 0 ∨ srcHeight ≤ 0 then
    Checked.throwing
      (ascii "ImageNetPreprocessor: source image has non-positive dimensions.")
  else if srcWidth < srcHeight then do
    let scale : ℚ := kResizeShortEdge / srcWidth
    let height ← Checked.int (stdRound (srcHeight * scale))
    return ⟨kResizeShortEdge, height⟩
  else do
    let scale : ℚ := kResizeShortEdge / srcHeight
    let width ← Checked.int (stdRound (srcWidth * scale))
    return ⟨width, kResizeShortEdge⟩

/-! ## Cropping -/

/-- The square of the middle, normalised, one channel after the other. -/
def cropTensor (resized : ResizedDimensions) (resizedPixels : List UInt8) :
    Checked Text (List ℚ) :=
  let cropOriginX := (resized.width - kCropSize).tdiv 2
  let cropOriginY := (resized.height - kCropSize).tdiv 2
  let tensor := List.replicate (sizeT kBatchSize * sizeT kChannels * sizeT kCropSize *
    sizeT kCropSize) 0
  let planeSize := sizeT kCropSize * sizeT kCropSize
  Checked.loop (fun y tensor =>
    Checked.loop (fun x tensor => do
      let srcX ← Checked.int (cropOriginX + x)
      let srcY ← Checked.int (cropOriginY + y)
      Checked.loop (fun c tensor => do
        let raw ← Checked.read resizedPixels (pixelIndex srcX srcY c resized.width)
        let scaled : ℚ := raw.toNat / kPixelScaleMax
        let mean ← Checked.read kImageNetMean (sizeT c)
        let std ← Checked.read kImageNetStd (sizeT c)
        let outIndex := sizeT c * planeSize + sizeT y * sizeT kCropSize + sizeT x
        Checked.write tensor outIndex ((scaled - mean) / std)) kChannels.toNat tensor)
      kCropSize.toNat tensor) kCropSize.toNat tensor

/-- The bytes that an image of these dimensions has. -/
def expectedBytes (image : Image) : Nat :=
  sizeT image.width * sizeT image.height * sizeT image.channels % 2 ^ 64

def apply (image : Image) : Checked Text (List ℚ) :=
  if image.pixels = [] then
    Checked.throwing (ascii "ImageNetPreprocessor: input image has no pixels.")
  else if image.channels ≠ kChannels then
    Checked.throwing (ascii "ImageNetPreprocessor: expected RGB (3 channels), got " ++
      ascii (toString image.channels))
  else if image.pixels.length ≠ expectedBytes image then
    Checked.throwing
      (ascii "ImageNetPreprocessor: pixel buffer size does not match width * height * channels.")
  else do
    let resized ← computeResizedDimensions image.width image.height
    let resizedPixels ← bilinearResize image resized.width resized.height
    cropTensor resized resizedPixels

/-! ## What should hold -/

/-- An RGB image with positive dimensions of type `int` and the bytes for them. -/
structure Image.Valid (image : Image) : Prop where
  width : 0 < image.width ∧ image.width < 2 ^ 31
  height : 0 < image.height ∧ image.height < 2 ^ 31
  channels : image.channels = 3
  pixels : (image.pixels.length : ℤ) = image.width * image.height * 3

/-- Whatever bounds a channel of the image bounds the value. -/
def Between (image : Image) (c : ℤ) (v : UInt8) : Prop :=
  ∀ lo hi : UInt8,
    (∀ x y p, 0 ≤ x → x < image.width → 0 ≤ y → y < image.height →
      image.pixels[pixelIndex x y c image.width]? = some p → lo ≤ p ∧ p ≤ hi) →
    lo ≤ v ∧ v ≤ hi

/-- The resized dimensions are numbers of type `int` from 256 on, no access leaves its buffer, and
the resized pixels are between those of the image. -/
def StaysInBounds (image : Image) : Prop :=
  ∃ resized pixels tensor,
    computeResizedDimensions image.width image.height = .ok resized ∧
      256 ≤ resized.width ∧ 256 ≤ resized.height ∧
      bilinearResize image resized.width resized.height = .ok pixels ∧
      (∀ x y c, 0 ≤ x → x < resized.width → 0 ≤ y → y < resized.height → 0 ≤ c → c < 3 →
        ∃ v, pixels[pixelIndex x y c resized.width]? = some v ∧ Between image c v) ∧
      apply image = .ok tensor

/-! ## Places in a buffer -/

/-- A place of an RGB buffer with these dimensions. -/
structure Inside (x y c width height : ℤ) : Prop where
  x_nonneg : 0 ≤ x
  x_lt : x < width
  y_nonneg : 0 ≤ y
  y_lt : y < height
  c_nonneg : 0 ≤ c
  c_lt : c < 3

theorem sizeT_cast {i : ℤ} (h : 0 ≤ i) (h' : i < 2 ^ 64) : (sizeT i : ℤ) = i := by
  rw [sizeT, Int.emod_eq_of_lt h h', Int.toNat_of_nonneg h]

theorem area_lt {width height : ℤ} (hwidth : 0 < width ∧ width < 2 ^ 31)
    (hheight : 0 < height ∧ height < 2 ^ 31) : 0 < width * height ∧ width * height < 2 ^ 62 :=
  ⟨Int.mul_pos hwidth.1 hheight.1, mul_lt_mul'' hwidth.2 hheight.2 hwidth.1.le hheight.1.le⟩

/-- Rows follow each other, and a row is complete before the next. -/
theorem Inside.bounds {x y c width height : ℤ} (h : Inside x y c width height) :
    0 ≤ (y * width + x) * 3 + c ∧ (y * width + x) * 3 + c < width * height * 3 := by
  obtain ⟨hx, hx', hy, hy', hc, hc'⟩ := h
  have hrow : 0 ≤ y * width := Int.mul_nonneg hy (hx.trans hx'.le)
  have hnext : (y + 1) * width ≤ height * width :=
    Int.mul_le_mul_of_nonneg_right hy' (hx.trans hx'.le)
  rw [Int.add_mul, Int.one_mul, Int.mul_comm height] at hnext
  omega

theorem pixelIndex_cast {x y c width height : ℤ} (h : Inside x y c width height)
    (hwidth : 0 < width ∧ width < 2 ^ 31) (hheight : 0 < height ∧ height < 2 ^ 31) :
    (pixelIndex x y c width : ℤ) = (y * width + x) * 3 + c := by
  obtain ⟨hnonneg, hlt⟩ := h.bounds
  have harea := (area_lt hwidth hheight).2
  have hx := sizeT_cast h.x_nonneg (by have := h.x_lt; omega)
  have hy := sizeT_cast h.y_nonneg (by have := h.y_lt; omega)
  have hc := sizeT_cast h.c_nonneg (by have := h.c_lt; omega)
  have hw := sizeT_cast (i := width) (by omega) (by omega)
  have hchannels : (sizeT kChannels : ℤ) = 3 := rfl
  rw [pixelIndex, Int.natCast_mod]
  push_cast
  rw [hx, hy, hc, hw, hchannels]
  exact Int.emod_eq_of_lt hnonneg (by omega)

theorem pixelIndex_lt {x y c width height : ℤ} (h : Inside x y c width height)
    (hwidth : 0 < width ∧ width < 2 ^ 31) (hheight : 0 < height ∧ height < 2 ^ 31) {size : Nat}
    (hsize : (size : ℤ) = width * height * 3) : pixelIndex x y c width < size := by
  have hindex := pixelIndex_cast h hwidth hheight
  have hlt := h.bounds.2
  omega

/-! ## Samples -/

theorem clampToAxis_bounds {value axisLength : ℤ} (h : 0 < axisLength) :
    0 ≤ clampToAxis value axisLength ∧ clampToAxis value axisLength < axisLength := by
  rw [clampToAxis]
  split
  next => exact ⟨Int.le_refl 0, h⟩
  next =>
    split
    next => omega
    next => omega

/-- Both neighbours are on the axis. -/
structure Sample.On (s : Sample) (length : ℤ) : Prop where
  low : 0 ≤ s.low ∧ s.low < length
  high : 0 ≤ s.high ∧ s.high < length
  fraction : 0 ≤ s.fraction ∧ s.fraction ≤ 1

/-- Half a pixel inside at both ends, a pixel of the destination lies no further than half a pixel
outside the source. -/
theorem position_bounds {srcLength dstLength o : ℤ} (hsrc : 0 < srcLength) (ho : 0 ≤ o)
    (hdst : o < dstLength) :
    (-1 : ℚ) ≤ (o + 1 / 2) * ((srcLength : ℚ) / dstLength) - 1 / 2 ∧
      (o + 1 / 2) * ((srcLength : ℚ) / dstLength) - 1 / 2 < srcLength := by
  have hsrc' : (0 : ℚ) < srcLength := by exact_mod_cast hsrc
  have ho' : (0 : ℚ) ≤ o := by exact_mod_cast ho
  have hdst' : (o : ℚ) + 1 ≤ dstLength := by exact_mod_cast hdst
  have hpos : (0 : ℚ) < dstLength := by linarith
  have hratio : (0 : ℚ) < (srcLength : ℚ) / dstLength := div_pos hsrc' hpos
  have hnonneg : 0 ≤ ((o : ℚ) + 1 / 2) * ((srcLength : ℚ) / dstLength) := by positivity
  have hle : ((o : ℚ) + 1 / 2) * ((srcLength : ℚ) / dstLength) ≤ srcLength := by
    calc ((o : ℚ) + 1 / 2) * ((srcLength : ℚ) / dstLength)
        ≤ dstLength * ((srcLength : ℚ) / dstLength) :=
          mul_le_mul_of_nonneg_right (by linarith) hratio.le
      _ = srcLength := mul_div_cancel₀ _ hpos.ne'
  constructor
  · linarith
  · linarith

theorem exists_sampleAxis {srcLength o : ℤ} (dstLength : ℤ)
    (hsrc : 0 < srcLength ∧ srcLength < 2 ^ 31) (ho : 0 ≤ o) (hdst : o < dstLength) :
    ∃ s, sampleAxis srcLength dstLength o = .ok s ∧ s.On srcLength := by
  obtain ⟨hlow, hhigh⟩ := position_bounds hsrc.1 ho hdst
  have hfloor : -1 ≤ ⌊((o : ℚ) + 1 / 2) * ((srcLength : ℚ) / dstLength) - 1 / 2⌋ :=
    Int.le_floor.mpr (by exact_mod_cast hlow)
  have hfloor' : ⌊((o : ℚ) + 1 / 2) * ((srcLength : ℚ) / dstLength) - 1 / 2⌋ < srcLength :=
    Int.floor_lt.mpr hhigh
  rw [sampleAxis]
  rw [Checked.int_of_bounds (by omega) (by omega), Checked.ok_bind,
    Checked.int_of_bounds (by omega) (by omega), Checked.ok_bind]
  refine ⟨_, rfl, clampToAxis_bounds hsrc.1, clampToAxis_bounds hsrc.1, ?_, ?_⟩
  · exact sub_nonneg.mpr (Int.floor_le _)
  · exact (sub_left_lt_of_lt_add (Int.lt_floor_add_one _)).le

/-! ## Pixels -/

theorem lerp_bounds {a b t lo hi : ℚ} (ha : lo ≤ a ∧ a ≤ hi) (hb : lo ≤ b ∧ b ≤ hi)
    (ht : 0 ≤ t ∧ t ≤ 1) : lo ≤ lerp a b t ∧ lerp a b t ≤ hi := by
  rw [lerp]
  have hrest : 0 ≤ 1 - t := by linarith [ht.2]
  constructor
  · have hsum := add_le_add (mul_le_mul_of_nonneg_right ha.1 hrest)
      (mul_le_mul_of_nonneg_right hb.1 ht.1)
    linarith
  · have hsum := add_le_add (mul_le_mul_of_nonneg_right ha.2 hrest)
      (mul_le_mul_of_nonneg_right hb.2 ht.1)
    linarith

/-- Bytes around a number are around the byte that it is cast to. -/
theorem castByte_bounds {v : ℚ} {lo hi : UInt8} (hlo : (lo.toNat : ℚ) ≤ v)
    (hhi : v ≤ (hi.toNat : ℚ)) : lo ≤ castByte v ∧ castByte v ≤ hi := by
  have hmax : (hi.toNat : ℚ) ≤ kPixelScaleMax := by
    have hlt := hi.toNat_lt
    have hle : hi.toNat ≤ 255 := by omega
    rw [kPixelScaleMax]
    exact_mod_cast hle
  have hzero : (0 : ℚ) ≤ lo.toNat := Nat.cast_nonneg _
  have hclamp : max 0 (min v kPixelScaleMax) = v := by
    rw [min_eq_left (hhi.trans hmax), max_eq_right (hzero.trans hlo)]
  have hfloor : (lo.toNat : ℤ) ≤ ⌊v⌋ := Int.le_floor.mpr (by exact_mod_cast hlo)
  have hfloor' : ⌊v⌋ ≤ hi.toNat := by
    have hle := (Int.floor_le v).trans hhi
    exact_mod_cast hle
  have hlt := hi.toNat_lt
  have hbyte : (castByte v).toNat = ⌊v⌋.toNat := by
    rw [castByte, hclamp, UInt8.toNat_ofNat', Nat.mod_eq_of_lt (by omega)]
  rw [UInt8.le_iff_toNat_le, UInt8.le_iff_toNat_le, hbyte]
  omega

theorem exists_pixel {image : Image} (hvalid : image.Valid) {x y c : ℤ}
    (h : Inside x y c image.width image.height) :
    ∃ p, image.pixels[pixelIndex x y c image.width]? = some p ∧
      Checked.read image.pixels (pixelIndex x y c image.width) = (.ok p : Checked Text UInt8) :=
  Checked.exists_read (pixelIndex_lt h hvalid.width hvalid.height hvalid.pixels)

/-- A pixel is read from four places of its channel, and is between what is read there. -/
theorem exists_bilinearPixel {image : Image} (hvalid : image.Valid) {sx sy : Sample}
    (hx : sx.On image.width) (hy : sy.On image.height) {c : ℤ} (hc : 0 ≤ c) (hc' : c < 3) :
    ∃ v, bilinearPixel image sx sy c = .ok v ∧ Between image c v := by
  obtain ⟨p00, hget00, hread00⟩ := exists_pixel hvalid
    ⟨hx.low.1, hx.low.2, hy.low.1, hy.low.2, hc, hc'⟩
  obtain ⟨p10, hget10, hread10⟩ := exists_pixel hvalid
    ⟨hx.high.1, hx.high.2, hy.low.1, hy.low.2, hc, hc'⟩
  obtain ⟨p01, hget01, hread01⟩ := exists_pixel hvalid
    ⟨hx.low.1, hx.low.2, hy.high.1, hy.high.2, hc, hc'⟩
  obtain ⟨p11, hget11, hread11⟩ := exists_pixel hvalid
    ⟨hx.high.1, hx.high.2, hy.high.1, hy.high.2, hc, hc'⟩
  rw [bilinearPixel, hread00, Checked.ok_bind, hread10, Checked.ok_bind, hread01, Checked.ok_bind,
    hread11, Checked.ok_bind]
  refine ⟨_, rfl, fun lo hi hbounds => ?_⟩
  have hcast : ∀ {p : UInt8}, lo ≤ p ∧ p ≤ hi →
      (lo.toNat : ℚ) ≤ p.toNat ∧ (p.toNat : ℚ) ≤ hi.toNat := fun hp =>
    ⟨by exact_mod_cast hp.1, by exact_mod_cast hp.2⟩
  have h00 := hcast (hbounds _ _ _ hx.low.1 hx.low.2 hy.low.1 hy.low.2 hget00)
  have h10 := hcast (hbounds _ _ _ hx.high.1 hx.high.2 hy.low.1 hy.low.2 hget10)
  have h01 := hcast (hbounds _ _ _ hx.low.1 hx.low.2 hy.high.1 hy.high.2 hget01)
  have h11 := hcast (hbounds _ _ _ hx.high.1 hx.high.2 hy.high.1 hy.high.2 hget11)
  have hout := lerp_bounds (lerp_bounds h00 h10 hx.fraction) (lerp_bounds h01 h11 hx.fraction)
    hy.fraction
  exact castByte_bounds hout.1 hout.2

/-! ## The resized image -/

/-- The value at a place of a buffer is between those of the channel that the place is for. -/
def Right (image : Image) (j : Nat) (v : UInt8) : Prop := Between image (j % 3 : Nat) v

theorem inside_of_lt {x y c w h : Nat} (hx : x < w) (hy : y < h) (hc : c < 3) :
    Inside x y c w h :=
  ⟨Int.natCast_nonneg x, by exact_mod_cast hx, Int.natCast_nonneg y, by exact_mod_cast hy,
    Int.natCast_nonneg c, by exact_mod_cast hc⟩

theorem pixelIndex_nat {x y c w h : Nat} (hx : x < w) (hy : y < h) (hc : c < 3)
    (hw : w < 2 ^ 31) (hh : h < 2 ^ 31) : pixelIndex x y c w = (y * w + x) * 3 + c := by
  have hindex := pixelIndex_cast (inside_of_lt hx hy hc) ⟨by omega, by exact_mod_cast hw⟩
    ⟨by omega, by exact_mod_cast hh⟩
  exact_mod_cast hindex

theorem rowMajor_lt {x y c w h : Nat} (hx : x < w) (hy : y < h) (hc : c < 3) :
    (y * w + x) * 3 + c < w * h * 3 := by
  have hlt := (inside_of_lt hx hy hc).bounds.2
  exact_mod_cast hlt

variable {image : Image} {w h : Nat}

/-- The channels of one pixel are written next to each other. -/
theorem exists_channels (hvalid : image.Valid) (hw : w < 2 ^ 31) (hh : h < 2 ^ 31)
    {sx sy : Sample} (hsx : sx.On image.width) (hsy : sy.On image.height) {x y : Nat} (hx : x < w)
    (hy : y < h) {dst : List UInt8}
    (hdst : Checked.Filled (Right image) (w * h * 3) ((y * w + x) * 3) dst) :
    ∃ dst', Checked.loop (fun c dst => do
        let v ← bilinearPixel image sx sy c
        Checked.write dst (pixelIndex x y c w) v) kChannels.toNat dst = .ok dst' ∧
      Checked.Filled (Right image) (w * h * 3) ((y * w + (x + 1)) * 3) dst' := by
  rw [← Nat.add_assoc, Nat.succ_mul]
  refine Checked.exists_loop_eq_ok (n := kChannels.toNat)
    (fun c => Checked.Filled (Right image) (w * h * 3) ((y * w + x) * 3 + c)) hdst ?_
  intro c dst hc hinv
  have hc : c < 3 := hc
  obtain ⟨v, hv, hbetween⟩ := exists_bilinearPixel hvalid hsx hsy (Int.natCast_nonneg c)
    (by exact_mod_cast hc)
  have hchannel : ((y * w + x) * 3 + c) % 3 = c := by omega
  rw [hv, Checked.ok_bind, pixelIndex_nat hx hy hc hw hh]
  exact Checked.exists_write hinv (rowMajor_lt hx hy hc) (by rw [Right, hchannel]; exact hbetween)

/-- So are the pixels of one row. -/
theorem exists_row (hvalid : image.Valid) (hw : w < 2 ^ 31) (hh : h < 2 ^ 31) {sy : Sample}
    (hsy : sy.On image.height) {y : Nat} (hy : y < h) {dst : List UInt8}
    (hdst : Checked.Filled (Right image) (w * h * 3) (y * w * 3) dst) :
    ∃ dst', Checked.loop (fun x dst => do
        let sx ← sampleAxis image.width w x
        Checked.loop (fun c dst => do
          let v ← bilinearPixel image sx sy c
          Checked.write dst (pixelIndex x y c w) v) kChannels.toNat dst) w dst = .ok dst' ∧
      Checked.Filled (Right image) (w * h * 3) ((y + 1) * w * 3) dst' := by
  rw [Nat.succ_mul]
  refine Checked.exists_loop_eq_ok
    (fun x => Checked.Filled (Right image) (w * h * 3) ((y * w + x) * 3)) hdst ?_
  intro x dst hx hinv
  obtain ⟨sx, hsample, hsx⟩ := exists_sampleAxis w hvalid.width
    (Int.natCast_nonneg x) (by exact_mod_cast hx)
  rw [hsample, Checked.ok_bind]
  exact exists_channels hvalid hw hh hsx hsy hx hy hinv

/-- And the rows of the image. -/
theorem exists_bilinearResize (hvalid : image.Valid) (hw : w < 2 ^ 31) (hh : h < 2 ^ 31) :
    ∃ dst, bilinearResize image w h = .ok dst ∧
      Checked.Filled (Right image) (w * h * 3) (w * h * 3) dst := by
  have hsize : sizeT w * sizeT h * sizeT kChannels % 2 ^ 64 = w * h * 3 := by
    have harea : w * h ≤ 2 ^ 31 * 2 ^ 31 := Nat.mul_le_mul hw.le hh.le
    have hcastw := sizeT_cast (Int.natCast_nonneg w) (by omega)
    have hcasth := sizeT_cast (Int.natCast_nonneg h) (by omega)
    rw [Int.ofNat_inj.mp hcastw, Int.ofNat_inj.mp hcasth]
    exact Nat.mod_eq_of_lt (by rw [show sizeT kChannels = 3 from rfl]; omega)
  rw [bilinearResize, hsize, Nat.mul_comm w h]
  refine Checked.exists_loop_eq_ok
    (fun y => Checked.Filled (Right image) (h * w * 3) (y * w * 3)) ?_ ?_
  · have hzero := Checked.filled_zero (Right image) (List.replicate (h * w * 3) 0)
    rwa [List.length_replicate, ← Nat.zero_mul 3, ← Nat.zero_mul w] at hzero
  · intro y dst hy hinv
    obtain ⟨sy, hsample, hsy⟩ := exists_sampleAxis h hvalid.height
      (Int.natCast_nonneg y) (by exact_mod_cast hy)
    rw [hsample, Checked.ok_bind]
    rw [Nat.mul_comm h w] at hinv ⊢
    exact exists_row hvalid hw hh hsy hy hinv

/-! ## The crop -/

theorem sizeT_nat {n : Nat} (hn : n < 2 ^ 64) : sizeT n = n :=
  Int.ofNat_inj.mp (sizeT_cast (Int.natCast_nonneg n) (by exact_mod_cast hn))

/-- From an edge of 256 pixels on there is room for the square. -/
theorem cropOrigin_bounds {edge : ℤ} (hedge : 256 ≤ edge) {i : Nat} (hi : i < 224) :
    0 ≤ (edge - kCropSize).tdiv 2 + i ∧ (edge - kCropSize).tdiv 2 + i < edge := by
  rw [kCropSize, Int.tdiv_eq_ediv_of_nonneg (by omega)]
  omega

theorem exists_cropTensor (resized : ResizedDimensions) (pixels : List UInt8)
    (hwidth : 256 ≤ resized.width ∧ resized.width < 2 ^ 31)
    (hheight : 256 ≤ resized.height ∧ resized.height < 2 ^ 31)
    (hpixels : (pixels.length : ℤ) = resized.width * resized.height * 3) :
    ∃ tensor, cropTensor resized pixels = .ok tensor ∧ tensor.length = 150528 := by
  have hcrop : sizeT kCropSize = 224 := by decide
  have hsize : sizeT kBatchSize * sizeT kChannels * sizeT kCropSize * sizeT kCropSize = 150528 := by
    decide
  rw [cropTensor, hsize, hcrop]
  refine Checked.exists_loop_eq_ok (fun _ (tensor : List ℚ) => tensor.length = 150528)
    List.length_replicate ?_
  intro y tensor hy hlength
  have hy : y < 224 := hy
  refine Checked.exists_loop_eq_ok (fun _ (tensor : List ℚ) => tensor.length = 150528)
    hlength ?_
  intro x tensor hx hlength
  have hx : x < 224 := hx
  obtain ⟨hx0, hx1⟩ := cropOrigin_bounds hwidth.1 hx
  obtain ⟨hy0, hy1⟩ := cropOrigin_bounds hheight.1 hy
  rw [Checked.int_of_bounds (by omega) (by omega), Checked.ok_bind,
    Checked.int_of_bounds (by omega) (by omega), Checked.ok_bind]
  refine Checked.exists_loop_eq_ok (fun _ (tensor : List ℚ) => tensor.length = 150528)
    hlength ?_
  intro c tensor hc hlength
  have hc : c < 3 := hc
  have hinside : Inside ((resized.width - kCropSize).tdiv 2 + x)
      ((resized.height - kCropSize).tdiv 2 + y) c resized.width resized.height :=
    ⟨hx0, hx1, hy0, hy1, Int.natCast_nonneg c, by exact_mod_cast hc⟩
  obtain ⟨raw, -, hraw⟩ := @Checked.exists_read Text _ pixels _
    (pixelIndex_lt hinside ⟨by omega, hwidth.2⟩ ⟨by omega, hheight.2⟩ hpixels)
  obtain ⟨mean, -, hmean⟩ := @Checked.exists_read Text _ kImageNetMean c hc
  obtain ⟨std, -, hstd⟩ := @Checked.exists_read Text _ kImageNetStd c hc
  rw [hraw, Checked.ok_bind, sizeT_nat (by omega : c < 2 ^ 64), hmean, Checked.ok_bind, hstd,
    Checked.ok_bind, sizeT_nat (by omega : y < 2 ^ 64), sizeT_nat (by omega : x < 2 ^ 64)]
  exact ⟨_, Checked.write_of_lt (by omega) _, List.length_set.trans hlength⟩

/-! ## The resized dimensions -/

/-- The long edge fits in an `int` when the short one has 256 pixels. -/
def RatioFits (width height : ℤ) : Prop :=
  512 * max width height < (2 ^ 32 - 1) * min width height

instance (width height : ℤ) : Decidable (RatioFits width height) :=
  inferInstanceAs (Decidable (_ < _))

/-- The long edge of a resized image. -/
theorem stdRound_edge {short long : ℤ} (hshort : 0 < short) (hle : short ≤ long) :
    256 ≤ stdRound (long * ((kResizeShortEdge : ℚ) / short)) ∧
      (stdRound (long * ((kResizeShortEdge : ℚ) / short)) < 2 ^ 31 ↔
        512 * long < (2 ^ 32 - 1) * short) := by
  have hpos : (0 : ℚ) < short := by exact_mod_cast hshort
  have hle' : (short : ℚ) ≤ long := by exact_mod_cast hle
  have hedge : (long : ℚ) * ((kResizeShortEdge : ℚ) / short) = 256 * long / short := by
    rw [kResizeShortEdge]
    push_cast
    ring
  have hlarge : (256 : ℚ) ≤ 256 * long / short := by
    rw [le_div_iff₀ hpos]
    linarith
  rw [hedge, stdRound, if_neg (by linarith)]
  constructor
  · refine Int.le_floor.mpr ?_
    push_cast
    linarith
  · rw [Int.floor_lt]
    push_cast
    calc (256 * long / short + 1 / 2 : ℚ) < 2 ^ 31
        ↔ (256 * long / short : ℚ) < 2 ^ 31 - 1 / 2 := by rw [lt_sub_iff_add_lt]
      _ ↔ (256 * long : ℚ) < (2 ^ 31 - 1 / 2) * short := div_lt_iff₀ hpos
      _ ↔ (512 * long : ℚ) < (2 ^ 32 - 1) * short := by
          constructor
          · intro hlt
            linarith
          · intro hlt
            linarith
      _ ↔ 512 * long < (2 ^ 32 - 1) * short := by
          exact_mod_cast Iff.rfl

theorem kResizeShortEdge_bounds : 256 ≤ kResizeShortEdge ∧ kResizeShortEdge < 2 ^ 31 := by decide

theorem computeResizedDimensions_of_fits {width height : ℤ} (hwidth : 0 < width)
    (hheight : 0 < height) (h : RatioFits width height) :
    ∃ resized, computeResizedDimensions width height = .ok resized ∧
      (256 ≤ resized.width ∧ resized.width < 2 ^ 31) ∧
        256 ≤ resized.height ∧ resized.height < 2 ^ 31 := by
  rw [computeResizedDimensions, if_neg (by omega)]
  split
  next hlt =>
    rw [RatioFits, max_eq_right hlt.le, min_eq_left hlt.le] at h
    obtain ⟨hlarge, hfits⟩ := stdRound_edge hwidth hlt.le
    dsimp only
    rw [Checked.int_of_bounds (by omega) (hfits.mpr h), Checked.ok_bind]
    exact ⟨_, rfl, kResizeShortEdge_bounds, hlarge, hfits.mpr h⟩
  next hlt =>
    have hle := Int.not_lt.mp hlt
    rw [RatioFits, max_eq_left hle, min_eq_right hle] at h
    obtain ⟨hlarge, hfits⟩ := stdRound_edge hheight hle
    dsimp only
    rw [Checked.int_of_bounds (by omega) (hfits.mpr h), Checked.ok_bind]
    exact ⟨_, rfl, ⟨hlarge, hfits.mpr h⟩, kResizeShortEdge_bounds⟩

theorem computeResizedDimensions_of_not_fits {width height : ℤ} (hwidth : 0 < width)
    (hheight : 0 < height) (h : ¬RatioFits width height) :
    computeResizedDimensions width height = .error .overflow := by
  rw [computeResizedDimensions, if_neg (by omega)]
  split
  next hlt =>
    rw [RatioFits, max_eq_right hlt.le, min_eq_left hlt.le] at h
    have hlong := mt (stdRound_edge hwidth hlt.le).2.mp h
    dsimp only
    rw [Checked.int_of_ge (Int.not_lt.mp hlong), Checked.error_bind]
  next hlt =>
    have hle := Int.not_lt.mp hlt
    rw [RatioFits, max_eq_left hle, min_eq_right hle] at h
    have hlong := mt (stdRound_edge hheight hle).2.mp h
    dsimp only
    rw [Checked.int_of_ge (Int.not_lt.mp hlong), Checked.error_bind]

/-! ## Staying in bounds -/

theorem apply_of_valid (hvalid : image.Valid) :
    apply image = (do
      let resized ← computeResizedDimensions image.width image.height
      let resizedPixels ← bilinearResize image resized.width resized.height
      cropTensor resized resizedPixels) := by
  obtain ⟨hpos, hlt⟩ := area_lt hvalid.width hvalid.height
  have hlength := hvalid.pixels
  have hwidth := sizeT_cast hvalid.width.1.le (by have := hvalid.width.2; omega)
  have hheight := sizeT_cast hvalid.height.1.le (by have := hvalid.height.2; omega)
  have hbytes : (expectedBytes image : ℤ) = image.width * image.height * 3 := by
    rw [expectedBytes, hvalid.channels, Int.natCast_mod]
    push_cast
    rw [hwidth, hheight, show (sizeT 3 : ℤ) = 3 from rfl]
    exact Int.emod_eq_of_lt (by omega) (by omega)
  have hsome : image.pixels ≠ [] := by
    intro hnil
    rw [hnil] at hlength
    simp only [List.length_nil] at hlength
    omega
  have hchannels : image.channels = kChannels := hvalid.channels
  rw [apply, if_neg hsome, if_neg (not_not_intro hchannels), if_neg (not_not_intro (by omega))]

/-- An image stays in bounds exactly if its long edge fits. -/
theorem staysInBounds_iff (image : Image) (hvalid : image.Valid) :
    StaysInBounds image ↔ RatioFits image.width image.height := by
  constructor
  · rintro ⟨resized, -, -, hresized, -⟩
    by_contra hnot
    rw [computeResizedDimensions_of_not_fits hvalid.width.1 hvalid.height.1 hnot] at hresized
    cases hresized
  · intro hfits
    obtain ⟨⟨width, height⟩, hresized, hwidth, hheight⟩ :=
      computeResizedDimensions_of_fits hvalid.width.1 hvalid.height.1 hfits
    dsimp only at hwidth hheight
    obtain ⟨w, rfl⟩ := Int.eq_ofNat_of_zero_le (by omega : 0 ≤ width)
    obtain ⟨h, rfl⟩ := Int.eq_ofNat_of_zero_le (by omega : 0 ≤ height)
    obtain ⟨pixels, hpixels, hfilled⟩ := exists_bilinearResize hvalid
      (w := w) (h := h) (by exact_mod_cast hwidth.2) (by exact_mod_cast hheight.2)
    have hsize : (pixels.length : ℤ) = w * h * 3 := by
      rw [hfilled.length]
      push_cast
      rfl
    obtain ⟨tensor, htensor, -⟩ := exists_cropTensor ⟨w, h⟩ pixels hwidth hheight hsize
    refine ⟨⟨w, h⟩, pixels, tensor, hresized, hwidth.1, hheight.1, hpixels, ?_, ?_⟩
    · intro x y c hx hx' hy hy' hc hc'
      have hinside : Inside x y c w h := ⟨hx, hx', hy, hy', hc, hc'⟩
      have hlt := pixelIndex_lt hinside ⟨by omega, hwidth.2⟩ ⟨by omega, hheight.2⟩ hsize
      have hindex := pixelIndex_cast hinside ⟨by omega, hwidth.2⟩ ⟨by omega, hheight.2⟩
      have hget := List.getElem?_eq_getElem hlt
      have hright := hfilled.first _ _ (hfilled.length ▸ hlt) hget
      have hchannel : ((pixelIndex x y c w % 3 : Nat) : ℤ) = c := by omega
      rw [Right, hchannel] at hright
      exact ⟨_, hget, hright⟩
    · rw [apply_of_valid hvalid, hresized, Checked.ok_bind, hpixels, Checked.ok_bind, htensor]

/-- A black image of one column. -/
def column (height : Nat) : Image where
  width := 1
  height := height
  channels := 3
  pixels := List.replicate (height * 3) 0

theorem column_valid {height : Nat} (hpos : 0 < height) (h : height < 2 ^ 31) :
    (column height).Valid where
  width := show (0 : ℤ) < 1 ∧ (1 : ℤ) < 2 ^ 31 from by decide
  height := show (0 : ℤ) < height ∧ (height : ℤ) < 2 ^ 31 from
    ⟨by exact_mod_cast hpos, by exact_mod_cast h⟩
  channels := rfl
  pixels := by
    rw [column, List.length_replicate]
    push_cast
    ring

theorem staysInBounds_column : StaysInBounds (column 8388607) :=
  (staysInBounds_iff (column 8388607) (column_valid (by decide) (by decide))).mpr (by decide)

/-- A column of 2^23 pixels would become one of 2^31. -/
theorem column_overflows :
    (column 8388608).Valid ∧
      computeResizedDimensions (column 8388608).width (column 8388608).height =
        .error .overflow ∧
      ¬StaysInBounds (column 8388608) := by
  have hoverflow : computeResizedDimensions (column 8388608).width (column 8388608).height =
      .error .overflow :=
    computeResizedDimensions_of_not_fits (by decide) (by decide) (by decide)
  refine ⟨column_valid (by decide) (by decide), hoverflow, ?_⟩
  rintro ⟨resized, -, -, hresized, -⟩
  cases hoverflow.symm.trans hresized

end Ml
