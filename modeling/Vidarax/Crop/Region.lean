import Vidarax.Base.FloatArith

/-!
# Regions of interest

Package `vidarax-core`, `crop.rs` and `coordinates.rs`. A crop is given in fractions of a frame and
resolved to whole even pixels of it. The product of a fraction with a frame size, truncated to
pixels, is a parameter of the resolution: the code's is `pixels`.
-/

namespace Vidarax.Crop

open Base

/-- `CropRegion`. -/
structure CropRegion where
  x : F32
  y : F32
  width : F32
  height : F32
  deriving DecidableEq

/-- `CropError`. -/
inductive CropError where
  | NonFinite
  | OriginOutOfRange
  | NonPositiveExtent
  | ExceedsFrame
  deriving DecidableEq

/-- `CropError` as a text; `crop.rs:40`. -/
def CropError.message : CropError → String
  | NonFinite => "crop values must be finite"
  | OriginOutOfRange => "crop x and y must be in [0, 1]"
  | NonPositiveExtent => "crop width and height must be > 0"
  | ExceedsFrame => "crop must stay within the frame (x + width <= 1, y + height <= 1)"

/-- `PixelCrop`. -/
@[ext]
structure PixelCrop where
  x : Nat
  y : Nat
  width : Nat
  height : Nat
  deriving DecidableEq

/-- `ResolvedCrop`. -/
inductive ResolvedCrop where
  | Full
  | Rect (rect : PixelCrop)
  | TooSmall
  deriving DecidableEq

/-- `floor_to_even`; the last bit is cleared. -/
def floorToEven (v : Nat) : Nat := 2 * (v / 2)

theorem floorToEven_le (v : Nat) : floorToEven v ≤ v := Nat.mul_div_le v 2

theorem two_dvd_floorToEven (v : Nat) : 2 ∣ floorToEven v := ⟨v / 2, rfl⟩

/-- The even numbers up to a number are those up to its floor. -/
theorem two_mul_le_floorToEven {k v : Nat} : 2 * k ≤ floorToEven v ↔ 2 * k ≤ v := by
  unfold floorToEven
  omega

/-- `EPS`, `1e-4`. -/
def EPS : F32 := ⟨0x38D1B717⟩

/-- `(clampf(v) * n as f32) as u32`. -/
def pixels (v : F32) (n : Nat) : Nat := ((v.clamp F32.zero F32.one).mul (F32.ofInt n)).toU32

namespace CropRegion

/-- `CropRegion::validate`. -/
def validate (crop : CropRegion) : Except CropError Unit :=
  if ¬ [crop.x, crop.y, crop.width, crop.height].all F32.isFinite then .error .NonFinite
  else if crop.width.le F32.zero ∨ crop.height.le F32.zero then .error .NonPositiveExtent
  else if crop.x.lt F32.zero ∨ crop.y.lt F32.zero ∨ F32.one.lt crop.x ∨ F32.one.lt crop.y then
    .error .OriginOutOfRange
  else if (F32.one.add EPS).lt (crop.x.add crop.width) ∨
      (F32.one.add EPS).lt (crop.y.add crop.height) then .error .ExceedsFrame
  else .ok ()

/-- `CropRegion::is_full_frame`. -/
def isFullFrame (crop : CropRegion) : Bool :=
  crop.x.le F32.zero && crop.y.le F32.zero && F32.one.le crop.width && F32.one.le crop.height

/-- `CropRegion::resolve`, for a given product of a fraction and a frame size. -/
def resolveWith (scaled : F32 → Nat → Nat) (crop : CropRegion) (frame_w frame_h : Nat) :
    ResolvedCrop :=
  if crop.isFullFrame then .Full
  else if frame_w < 2 ∨ frame_h < 2 then .TooSmall
  else
    let x := floorToEven (scaled crop.x frame_w)
    let y := floorToEven (scaled crop.y frame_h)
    if frame_w ≤ x ∨ frame_h ≤ y then .TooSmall
    else
      let w := min (floorToEven (scaled crop.width frame_w)) (floorToEven (frame_w - x))
      let h := min (floorToEven (scaled crop.height frame_h)) (floorToEven (frame_h - y))
      if w < 2 ∨ h < 2 then .TooSmall
      else if x = 0 ∧ y = 0 ∧ w = frame_w ∧ h = frame_h then .Full
      else .Rect ⟨x, y, w, h⟩

/-- `CropRegion::resolve`. -/
def resolve : CropRegion → Nat → Nat → ResolvedCrop := resolveWith pixels

end CropRegion

/-- The test of the source: a crop of a tenth down and a quarter in. -/
example : (⟨⟨0x3E800000⟩, ⟨0x3DCCCCCD⟩, ⟨0x3F000000⟩, ⟨0x3F000000⟩⟩ : CropRegion).resolve 1920 1080 =
    .Rect ⟨480, 108, 960, 540⟩ := by decide +kernel

/-! ### Rectangles -/

/-- A rectangle that is even on all sides, not empty, and inside a frame. -/
structure PixelCrop.Fits (rect : PixelCrop) (frame_w frame_h : Nat) : Prop where
  x_even : 2 ∣ rect.x
  y_even : 2 ∣ rect.y
  width_even : 2 ∣ rect.width
  height_even : 2 ∣ rect.height
  width_pos : 0 < rect.width
  height_pos : 0 < rect.height
  right : rect.x + rect.width ≤ frame_w
  bottom : rect.y + rect.height ≤ frame_h

variable {scaled : F32 → Nat → Nat} {crop : CropRegion} {frame_w frame_h : Nat} {rect : PixelCrop}

/-- A rectangle is what its sides say. -/
theorem CropRegion.resolveWith_rect (h : crop.resolveWith scaled frame_w frame_h = .Rect rect) :
    rect.x = floorToEven (scaled crop.x frame_w) ∧ rect.y = floorToEven (scaled crop.y frame_h) ∧
      rect.width = min (floorToEven (scaled crop.width frame_w)) (floorToEven (frame_w - rect.x)) ∧
      rect.height =
        min (floorToEven (scaled crop.height frame_h)) (floorToEven (frame_h - rect.y)) ∧
      rect.x < frame_w ∧ rect.y < frame_h ∧ 2 ≤ rect.width ∧ 2 ≤ rect.height := by
  unfold resolveWith at h
  split at h
  · cases h
  · split at h
    · cases h
    · dsimp only at h
      split at h
      · cases h
      · next horigin =>
        split at h
        · cases h
        · next hextent =>
          split at h
          · cases h
          · cases h
            rw [not_or, not_le, not_le] at horigin
            rw [not_or, not_lt, not_lt] at hextent
            exact ⟨rfl, rfl, rfl, rfl, horigin.1, horigin.2, hextent.1, hextent.2⟩

/-- A resolved rectangle fits the frame, whatever the products are. -/
theorem CropRegion.fits_of_resolveWith (h : crop.resolveWith scaled frame_w frame_h = .Rect rect) :
    rect.Fits frame_w frame_h := by
  obtain ⟨hx, hy, hw, hh, hright, hbottom, hwidth, hheight⟩ := resolveWith_rect h
  have hmin (a b : Nat) : 2 ∣ min (floorToEven a) (floorToEven b) := by
    rcases min_choice (floorToEven a) (floorToEven b) with h | h
    · rw [h]
      exact two_dvd_floorToEven a
    · rw [h]
      exact two_dvd_floorToEven b
  have hroom {a b n : Nat} (hlt : b < n) : b + min a (floorToEven (n - b)) ≤ n := by
    have hle := floorToEven_le (n - b)
    omega
  refine ⟨?_, ?_, ?_, ?_, by omega, by omega, ?_, ?_⟩
  · rw [hx]
    exact two_dvd_floorToEven _
  · rw [hy]
    exact two_dvd_floorToEven _
  · rw [hw]
    exact hmin _ _
  · rw [hh]
    exact hmin _ _
  · rw [hw]
    exact hroom hright
  · rw [hh]
    exact hroom hbottom

/-! ### Coordinates -/

/-- `PixelExtent`. -/
structure PixelExtent where
  width : Nat
  height : Nat
  deriving DecidableEq

/-- `FrameCoordinates`. -/
structure FrameCoordinates where
  source_extent : PixelExtent
  requested_region : CropRegion
  resolved_region : PixelCrop
  analysis_extent : PixelExtent
  deriving DecidableEq

namespace FrameCoordinates

/-- `FrameCoordinates::full_frame`. -/
def fullFrame (width height : Nat) : FrameCoordinates where
  source_extent := ⟨width, height⟩
  requested_region := ⟨F32.zero, F32.zero, F32.one, F32.one⟩
  resolved_region := ⟨0, 0, width, height⟩
  analysis_extent := ⟨width, height⟩

/-- `FrameCoordinates::resolve`, for a given product of a fraction and a frame size. -/
def resolveWith (scaled : F32 → Nat → Nat) (width height : Nat) :
    Option CropRegion → Option FrameCoordinates
  | none => some (fullFrame width height)
  | some crop =>
    let coordinates (rect : PixelCrop) : FrameCoordinates :=
      ⟨⟨width, height⟩, crop, rect, ⟨rect.width, rect.height⟩⟩
    match crop.resolveWith scaled width height with
    | .Full => some (coordinates ⟨0, 0, width, height⟩)
    | .Rect rect => some (coordinates rect)
    | .TooSmall => none

/-- `FrameCoordinates::resolve`. -/
def resolve : Nat → Nat → Option CropRegion → Option FrameCoordinates := resolveWith pixels

variable {width height : Nat} {crop : Option CropRegion} {coordinates : FrameCoordinates}

/-- Coordinates are of the whole frame, or of a rectangle that fits it. -/
theorem resolveWith_cases (h : resolveWith scaled width height crop = some coordinates) :
    coordinates.source_extent = ⟨width, height⟩ ∧
      coordinates.analysis_extent =
        ⟨coordinates.resolved_region.width, coordinates.resolved_region.height⟩ ∧
      (coordinates.resolved_region = ⟨0, 0, width, height⟩ ∨
        crop.isSome ∧ coordinates.resolved_region.Fits width height) := by
  cases crop with
  | none =>
    cases h
    exact ⟨rfl, rfl, .inl rfl⟩
  | some crop =>
    unfold resolveWith at h
    dsimp only at h
    split at h
    · cases h
      exact ⟨rfl, rfl, .inl rfl⟩
    · next hrect =>
      cases h
      exact ⟨rfl, rfl, .inr ⟨rfl, CropRegion.fits_of_resolveWith hrect⟩⟩
    · cases h

end FrameCoordinates

end Vidarax.Crop
