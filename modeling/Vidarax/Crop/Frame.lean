import Vidarax.Base.Planes
import Vidarax.Crop.Region

/-!
# Cropping decoded frames

Package `vidarax-core`, `webrtc/signals.rs` 114–239 and `webrtc/workers.rs` 976–1045: the planes of
a frame are checked and a rectangle is copied out of them, before a frame of the keyframe mode is
analyzed. A slice that does not lie in its plane would end the worker; that is `none`.
-/

namespace Vidarax.Crop

open Base

/-! ### Frames -/

/-- `YuvFrame`. -/
structure YuvFrame where
  y : List UInt8
  u : List UInt8
  v : List UInt8
  width : Nat
  height : Nat
  deriving DecidableEq

/-- `MalformedFrame`. -/
structure MalformedFrame where
  width : Nat
  height : Nat
  detail : String
  deriving DecidableEq

/-- `usize::MAX`. -/
def USIZE_MAX : Nat := 2 ^ 64 - 1

/-- `check_frame`. -/
def checkFrame (yuv : YuvFrame) : Except MalformedFrame Unit :=
  let reject (detail : String) : Except MalformedFrame Unit :=
    .error ⟨yuv.width, yuv.height, detail⟩
  let w := yuv.width
  let h := yuv.height
  if w = 0 ∨ h = 0 ∨ w % 2 ≠ 0 ∨ h % 2 ≠ 0 then
    reject "dimensions must be even and non-zero for 4:2:0"
  else if USIZE_MAX < w * h then reject s!"dimensions {w}x{h} overflow a usize"
  else
    let luma := w * h
    let chroma := w / 2 * (h / 2)
    let y := yuv.y.length
    let u := yuv.u.length
    let v := yuv.v.length
    if y < luma ∨ u < chroma ∨ v < chroma then
      reject s!"short planes: y={y} u={u} v={v}, need y>={luma} and u,v>={chroma}"
    else .ok ()

/-- What the check asks of a frame. -/
structure YuvFrame.WellFormed (yuv : YuvFrame) : Prop where
  width_pos : 0 < yuv.width
  height_pos : 0 < yuv.height
  width_even : 2 ∣ yuv.width
  height_even : 2 ∣ yuv.height
  luma : yuv.width * yuv.height ≤ yuv.y.length
  chroma_u : yuv.width / 2 * (yuv.height / 2) ≤ yuv.u.length
  chroma_v : yuv.width / 2 * (yuv.height / 2) ≤ yuv.v.length

theorem wellFormed_of_checkFrame {yuv : YuvFrame} (h : checkFrame yuv = .ok ()) :
    yuv.WellFormed := by
  unfold checkFrame at h
  dsimp only at h
  split at h
  · cases h
  · next hdims =>
    split at h
    · cases h
    · split at h
      · cases h
      · next hplanes =>
        rw [not_or, not_or, not_or, not_not, not_not] at hdims
        rw [not_or, not_or, not_lt, not_lt, not_lt] at hplanes
        exact ⟨Nat.pos_of_ne_zero hdims.1, Nat.pos_of_ne_zero hdims.2.1,
          Nat.dvd_of_mod_eq_zero hdims.2.2.1, Nat.dvd_of_mod_eq_zero hdims.2.2.2,
          hplanes.1, hplanes.2.1, hplanes.2.2⟩

/-! ### Copying a rectangle -/

/-- `crop_yuv`. -/
def cropYuv (yuv : YuvFrame) (rect : PixelCrop) : Option (Option YuvFrame) :=
  let src_w := yuv.width
  let src_h := yuv.height
  let x0 := rect.x
  let y0 := rect.y
  let cw := rect.width
  let ch := rect.height
  if cw = 0 ∨ ch = 0 ∨ cw % 2 ≠ 0 ∨ ch % 2 ≠ 0 ∨ x0 % 2 ≠ 0 ∨ y0 % 2 ≠ 0 then some none
  else if src_w < x0 + cw ∨ src_h < y0 + ch then some none
  else if checkFrame yuv ≠ .ok () then some none
  else do
    let y ← copyRows? yuv.y (fun row ↦ (y0 + row) * src_w + x0) cw ch
    let src_cw := src_w / 2
    let ccw := cw / 2
    let cch := ch / 2
    let cx0 := x0 / 2
    let cy0 := y0 / 2
    let u ← copyRows? yuv.u (fun row ↦ (cy0 + row) * src_cw + cx0) ccw cch
    let v ← copyRows? yuv.v (fun row ↦ (cy0 + row) * src_cw + cx0) ccw cch
    pure (some ⟨y, u, v, rect.width, rect.height⟩)

/-- The frame is restricted to its selected region. The pool is there when a crop is configured;
`workers.rs:1003`. -/
def restrict (crop_pool : Option Unit) (coordinates : FrameCoordinates) (yuv : YuvFrame) :
    Option YuvFrame :=
  let selected := coordinates.resolved_region
  if selected.x = 0 ∧ selected.y = 0 ∧ selected.width = coordinates.source_extent.width ∧
      selected.height = coordinates.source_extent.height then some yuv
  else
    match crop_pool with
    | some () => (cropYuv yuv selected).map fun cropped ↦ cropped.getD yuv
    | none => some yuv

/-- What the decode worker makes of a frame in keyframe mode: the frame that is analyzed and its
coordinates, or nothing for a frame that is dropped; `workers.rs:976`. -/
def select (scaled : F32 → Nat → Nat) (crop : Option CropRegion) (yuv : YuvFrame) :
    Option (Option (YuvFrame × FrameCoordinates)) :=
  match FrameCoordinates.resolveWith scaled yuv.width yuv.height crop with
  | none => some none
  | some coordinates => do
    let analyzed ← restrict (crop.map fun _ ↦ ()) coordinates yuv
    match checkFrame analyzed with
    | .error _ => some none
    | .ok () => some (some (analyzed, coordinates))

/-- A plane has the samples of a rectangle of another one. -/
def ShowsRegion (plane source : List UInt8) (source_w x y width height : Nat) : Prop :=
  ∀ row < height, ∀ col < width, ∃ sample, plane[row * width + col]? = some sample ∧
    source[(y + row) * source_w + (x + col)]? = some sample

/-- A frame has the samples of a rectangle of another one, with chroma at half its size. -/
structure YuvFrame.Shows (frame source : YuvFrame) (region : PixelCrop) : Prop where
  width_eq : frame.width = region.width
  height_eq : frame.height = region.height
  luma : ShowsRegion frame.y source.y source.width region.x region.y region.width region.height
  chroma_u : ShowsRegion frame.u source.u (source.width / 2) (region.x / 2) (region.y / 2)
    (region.width / 2) (region.height / 2)
  chroma_v : ShowsRegion frame.v source.v (source.width / 2) (region.x / 2) (region.y / 2)
    (region.width / 2) (region.height / 2)

/-- A frame has no other samples than those of its rectangle. -/
structure YuvFrame.Packed (frame : YuvFrame) : Prop where
  luma : frame.y.length = frame.width * frame.height
  chroma_u : frame.u.length = frame.width / 2 * (frame.height / 2)
  chroma_v : frame.v.length = frame.width / 2 * (frame.height / 2)

/-! ### The rows of a rectangle lie in the planes -/

section Rows

variable {x y width height w h : Nat}

private theorem row_le (hright : x + width ≤ w) (hbottom : y + height ≤ h) {row : Nat}
    (hrow : row < height) : (y + row) * w + x + width ≤ w * h := by
  have hrows : y + row + 1 ≤ h := by omega
  calc (y + row) * w + x + width ≤ (y + row) * w + w := by omega
    _ = w * (y + row + 1) := by rw [Nat.mul_add_one, Nat.mul_comm]
    _ ≤ w * h := Nat.mul_le_mul_left w hrows

/-- The rectangle of a plane that is long enough is copied. -/
theorem exists_copyRows?_region {source : List UInt8} (hright : x + width ≤ w)
    (hbottom : y + height ≤ h) (hlength : w * h ≤ source.length) :
    ∃ plane, copyRows? source (fun row ↦ (y + row) * w + x) width height = some plane ∧
      plane.length = width * height ∧ ShowsRegion plane source w x y width height := by
  have hin : ∀ row < height, (y + row) * w + x + width ≤ source.length :=
    fun row hrow ↦ (row_le hright hbottom hrow).trans hlength
  obtain ⟨plane, hplane, hcopied⟩ := exists_copyRows? hin
  refine ⟨plane, hplane, hcopied.length_eq.trans (Nat.mul_comm _ _), fun row hrow col hcol ↦ ?_⟩
  have hplace : (y + row) * w + x + col < source.length := by
    have := hin row hrow
    omega
  refine ⟨source.get ⟨_, hplace⟩, ?_, ?_⟩
  · rw [hcopied.sample row hrow col hcol]
    exact List.getElem?_eq_getElem hplace
  · rw [← Nat.add_assoc]
    exact List.getElem?_eq_getElem hplace

/-- A plane that is long enough shows itself. -/
theorem showsRegion_self {source : List UInt8} (hlength : w * h ≤ source.length) :
    ShowsRegion source source w 0 0 w h := by
  intro row hrow col hcol
  have hle := row_le (x := 0) (y := 0) (Nat.zero_add w).le (Nat.zero_add h).le hrow
  rw [Nat.zero_add, Nat.add_zero] at hle
  have hplace : row * w + col < source.length := by omega
  rw [Nat.zero_add, Nat.zero_add]
  exact ⟨_, List.getElem?_eq_getElem hplace, List.getElem?_eq_getElem hplace⟩

end Rows

variable {scaled : F32 → Nat → Nat} {crop : Option CropRegion} {yuv : YuvFrame} {rect : PixelCrop}

/-- A rectangle that fits a frame is copied, unless the frame is malformed. -/
theorem cropYuv_of_fits (h : rect.Fits yuv.width yuv.height) :
    (checkFrame yuv ≠ .ok () ∧ cropYuv yuv rect = some none) ∨
      ∃ frame, cropYuv yuv rect = some (some frame) ∧ frame.Shows yuv rect ∧ frame.Packed := by
  have hright := h.right
  have hbottom := h.bottom
  have heven : ¬ (rect.width = 0 ∨ rect.height = 0 ∨ rect.width % 2 ≠ 0 ∨ rect.height % 2 ≠ 0 ∨
      rect.x % 2 ≠ 0 ∨ rect.y % 2 ≠ 0) := by
    have := h.width_pos
    have := h.height_pos
    have := h.x_even
    have := h.y_even
    have := h.width_even
    have := h.height_even
    omega
  unfold cropYuv
  dsimp only
  rw [if_neg heven, if_neg (by omega)]
  by_cases hcheck : checkFrame yuv = .ok ()
  · right
    rw [if_neg (not_not.mpr hcheck)]
    have hformed := wellFormed_of_checkFrame hcheck
    have hright' : rect.x / 2 + rect.width / 2 ≤ yuv.width / 2 := by omega
    have hbottom' : rect.y / 2 + rect.height / 2 ≤ yuv.height / 2 := by omega
    obtain ⟨y, hy, hylength, hyshows⟩ := exists_copyRows?_region hright hbottom hformed.luma
    obtain ⟨u, hu, hulength, hushows⟩ :=
      exists_copyRows?_region hright' hbottom' hformed.chroma_u
    obtain ⟨v, hv, hvlength, hvshows⟩ :=
      exists_copyRows?_region hright' hbottom' hformed.chroma_v
    rw [hy, hu, hv]
    exact ⟨_, rfl, ⟨rfl, rfl, hyshows, hushows, hvshows⟩, ⟨hylength, hulength, hvlength⟩⟩
  · exact .inl ⟨hcheck, if_pos hcheck⟩

/-- A frame shows the whole of itself. -/
theorem shows_self (h : yuv.WellFormed) : yuv.Shows yuv ⟨0, 0, yuv.width, yuv.height⟩ where
  width_eq := rfl
  height_eq := rfl
  luma := showsRegion_self h.luma
  chroma_u := by simpa using showsRegion_self h.chroma_u
  chroma_v := by simpa using showsRegion_self h.chroma_v

/-- The region of resolved coordinates lies in the source. -/
theorem region_le {coordinates : FrameCoordinates}
    (h : FrameCoordinates.resolveWith scaled yuv.width yuv.height crop = some coordinates) :
    coordinates.resolved_region.x + coordinates.resolved_region.width ≤ yuv.width ∧
      coordinates.resolved_region.y + coordinates.resolved_region.height ≤ yuv.height := by
  obtain ⟨-, -, hwhole | ⟨-, hfits⟩⟩ := FrameCoordinates.resolveWith_cases h
  · rw [hwhole]
    exact ⟨(Nat.zero_add _).le, (Nat.zero_add _).le⟩
  · exact ⟨hfits.right, hfits.bottom⟩

/-- A frame is restricted to its region exactly, or is malformed. -/
theorem exists_restrict {coordinates : FrameCoordinates}
    (h : FrameCoordinates.resolveWith scaled yuv.width yuv.height crop = some coordinates) :
    ∃ frame, restrict (crop.map fun _ ↦ ()) coordinates yuv = some frame ∧
      (checkFrame frame = .ok () → frame.Shows yuv coordinates.resolved_region ∧
        (coordinates.resolved_region = ⟨0, 0, yuv.width, yuv.height⟩ ∨ frame.Packed)) := by
  obtain ⟨hsource, -, hregion⟩ := FrameCoordinates.resolveWith_cases h
  unfold restrict
  dsimp only
  rw [hsource]
  split
  · next hwhole =>
    have hregion : coordinates.resolved_region = ⟨0, 0, yuv.width, yuv.height⟩ :=
      PixelCrop.ext hwhole.1 hwhole.2.1 hwhole.2.2.1 hwhole.2.2.2
    refine ⟨yuv, rfl, fun hcheck ↦ ?_⟩
    rw [hregion]
    exact ⟨shows_self (wellFormed_of_checkFrame hcheck), .inl rfl⟩
  · next hpart =>
    rcases hregion with hregion | ⟨hcrop, hfits⟩
    · rw [hregion] at hpart
      exact absurd ⟨rfl, rfl, rfl, rfl⟩ hpart
    · obtain ⟨region, rfl⟩ := Option.isSome_iff_exists.mp hcrop
      rcases cropYuv_of_fits hfits with ⟨hmalformed, hnone⟩ | ⟨frame, hsome, hshows, hpacked⟩
      · -- the crop falls back to the frame, which the check drops
        refine ⟨yuv, ?_, fun hcheck ↦ absurd hcheck hmalformed⟩
        rw [Option.map_some, hnone]
        rfl
      · refine ⟨frame, ?_, fun _ ↦ ⟨hshows, .inr hpacked⟩⟩
        rw [Option.map_some, hsome]
        rfl

/-- What is analyzed is exact: no slice leaves its plane, and a frame that is not dropped has even
dimensions, which are those of the analysis, and the samples of the resolved region, which lies in
the source. It has no others unless the region is the whole frame. -/
theorem select_exact (scaled : F32 → Nat → Nat) (crop : Option CropRegion) (yuv : YuvFrame) :
    ∃ result, select scaled crop yuv = some result ∧
      ∀ frame coordinates, result = some (frame, coordinates) →
        FrameCoordinates.resolveWith scaled yuv.width yuv.height crop = some coordinates ∧
        frame.WellFormed ∧
        (⟨frame.width, frame.height⟩ : PixelExtent) = coordinates.analysis_extent ∧
        coordinates.resolved_region.x + coordinates.resolved_region.width ≤ yuv.width ∧
        coordinates.resolved_region.y + coordinates.resolved_region.height ≤ yuv.height ∧
        frame.Shows yuv coordinates.resolved_region ∧
        (coordinates.resolved_region = ⟨0, 0, yuv.width, yuv.height⟩ ∨ frame.Packed) := by
  unfold select
  cases hresolve : FrameCoordinates.resolveWith scaled yuv.width yuv.height crop with
  | none => exact ⟨none, rfl, fun _ _ h ↦ nomatch h⟩
  | some coordinates =>
    obtain ⟨analyzed, hrestrict, hexact⟩ := exists_restrict hresolve
    simp only [hrestrict, Option.bind_eq_bind, Option.bind_some]
    cases hcheck : checkFrame analyzed with
    | error err => exact ⟨none, rfl, fun _ _ h ↦ nomatch h⟩
    | ok u =>
      refine ⟨_, rfl, fun frame coordinates' h ↦ ?_⟩
      cases h
      obtain ⟨hshows, hpacked⟩ := hexact hcheck
      obtain ⟨hright, hbottom⟩ := region_le hresolve
      have hextent := (FrameCoordinates.resolveWith_cases hresolve).2.1
      refine ⟨rfl, wellFormed_of_checkFrame hcheck, ?_, hright, hbottom, hshows, hpacked⟩
      rw [hextent, hshows.width_eq, hshows.height_eq]

end Vidarax.Crop
