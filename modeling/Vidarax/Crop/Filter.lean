import Vidarax.Base.FloatExact
import Vidarax.Crop.Region

/-!
# The crop filter of ffmpeg

Package `vidarax-core`, `crop.rs` 119–136 and `ingest/ffmpeg.rs` 412–488: a crop of a file is made
by an expression that ffmpeg evaluates with fractions printed to six decimals, and its coordinates
are those of the resolved crop. Numbers are exact here, and so are products.
-/

namespace Vidarax.Crop

open Base

/-! ### The filter -/

/-- Expressions of a side of the crop. -/
inductive Expr where
  | iw
  | ih
  | two
  | fraction (v : F32)
  | mul (a b : Expr)
  | div (a b : Expr)
  | floor (a : Expr)

namespace Expr

/-- The expression as it is written. -/
def text : Expr → String
  | iw => "iw"
  | ih => "ih"
  | two => "2"
  | fraction v => v.sixDecimals
  | mul a b => a.text ++ "*" ++ b.text
  | div a b => a.text ++ "/" ++ b.text
  | floor a => "floor(" ++ a.text ++ ")"

/-- The value for a frame of the given size. -/
def eval (frame_w frame_h : Nat) : Expr → ℚ
  | iw => frame_w
  | ih => frame_h
  | two => 2
  | fraction v => v.printed
  | mul a b => a.eval frame_w frame_h * b.eval frame_w frame_h
  | div a b => a.eval frame_w frame_h / b.eval frame_w frame_h
  | floor a => (⌊a.eval frame_w frame_h⌋ : ℤ)

/-- `floor(size*v/2)*2`. -/
def side (size : Expr) (v : F32) : Expr := .mul (.floor (.div (.mul size (.fraction v)) .two)) .two

end Expr

/-- A `crop` filter. -/
structure CropFilter where
  width : Expr
  height : Expr
  x : Expr
  y : Expr

/-- `CropRegion::ffmpeg_crop_filter`. -/
def CropRegion.ffmpegCropFilter (crop : CropRegion) : CropFilter where
  width := .side .iw crop.width
  height := .side .ih crop.height
  x := .side .iw crop.x
  y := .side .ih crop.y

/-- The filter as it is written. -/
def CropFilter.text (filter : CropFilter) : String :=
  "crop=" ++ filter.width.text ++ ":" ++ filter.height.text ++ ":" ++ filter.x.text ++ ":" ++
    filter.y.text

/-- The rectangle that the filter selects. -/
def CropFilter.select (filter : CropFilter) (frame_w frame_h : Nat) : PixelCrop where
  x := ⌊filter.x.eval frame_w frame_h⌋₊
  y := ⌊filter.y.eval frame_w frame_h⌋₊
  width := ⌊filter.width.eval frame_w frame_h⌋₊
  height := ⌊filter.height.eval frame_w frame_h⌋₊

/-- The test of the source. -/
example : (⟨⟨0x3E800000⟩, ⟨0x3DCCCCCD⟩, ⟨0x3F000000⟩, ⟨0x3F000000⟩⟩ : CropRegion).ffmpegCropFilter.text =
    "crop=floor(iw*0.500000/2)*2:floor(ih*0.500000/2)*2:floor(iw*0.250000/2)*2:" ++
      "floor(ih*0.100000/2)*2" := by decide +kernel

/-! ### Resolving exactly -/

/-- `clampf(v) * n as f32`, as an exact product. -/
def exactProduct (v : F32) (n : Nat) : ℚ := (v.clamp F32.zero F32.one).toRat * (F32.ofInt n).toRat

/-- `as u32` of the exact product. -/
def exactPixels (v : F32) (n : Nat) : Nat := min ⌊exactProduct v n⌋₊ (2 ^ 32 - 1)

/-- `DecodedMp4Batch`. -/
structure DecodedMp4Batch where
  width : Nat
  height : Nat
  coordinates : FrameCoordinates

/-- The coordinates of a decoded batch, when the dimensions of its source were probed;
`ffmpeg.rs:466`. -/
def attachCoordinates (scaled : F32 → Nat → Nat) (crop : Option CropRegion)
    (source_dimensions : Option (Nat × Nat)) (decoded : DecodedMp4Batch) :
    Except String DecodedMp4Batch :=
  match source_dimensions with
  | none => .ok decoded
  | some (source_width, source_height) =>
    match FrameCoordinates.resolveWith scaled source_width source_height crop with
    | none => .error "crop is too small to represent at the source dimensions"
    | some coordinates =>
      let extent := coordinates.analysis_extent
      if extent.width ≠ decoded.width ∨ extent.height ≠ decoded.height then
        .error ("decoded crop dimensions " ++ toString decoded.width ++ "x" ++
          toString decoded.height ++ " do not match coordinate provenance " ++
          toString extent.width ++ "x" ++ toString extent.height)
      else .ok { decoded with coordinates := coordinates }

/-! ### Even pixels -/

/-- Even numbers are told apart by the even numbers up to them. -/
theorem even_eq_iff {a b : Nat} (ha : 2 ∣ a) (hb : 2 ∣ b) :
    a = b ↔ ∀ k, 2 * k ≤ a ↔ 2 * k ≤ b := by
  constructor
  · rintro rfl k
    exact Iff.rfl
  · intro h
    obtain ⟨i, rfl⟩ := ha
    obtain ⟨j, rfl⟩ := hb
    exact le_antisymm ((h i).mp le_rfl) ((h j).mpr le_rfl)

section Sides

variable {v : F32} {size : Expr} {frame_w frame_h n : Nat}

/-- Even pixels up to a side are those up to the printed product. -/
theorem even_side (hprinted : 0 ≤ v.printed) (hsize : size.eval frame_w frame_h = n) :
    2 ∣ ⌊(Expr.side size v).eval frame_w frame_h⌋₊ ∧
      ∀ k : ℕ, 2 * k ≤ ⌊(Expr.side size v).eval frame_w frame_h⌋₊ ↔ 2 * (k : ℚ) ≤ n * v.printed := by
  have hnonneg : 0 ≤ (n : ℚ) * v.printed / 2 := by positivity
  have hfloor : (⌊(n : ℚ) * v.printed / 2⌋ : ℚ) = (⌊(n : ℚ) * v.printed / 2⌋₊ : ℕ) := by
    exact_mod_cast (Int.natCast_floor_eq_floor hnonneg).symm
  have heval : (Expr.side size v).eval frame_w frame_h =
      ((⌊(n : ℚ) * v.printed / 2⌋₊ * 2 : ℕ) : ℚ) := by
    rw [Expr.side, Expr.eval, Expr.eval, Expr.eval, Expr.eval, Expr.eval, Expr.eval, hsize]
    push_cast
    rw [← hfloor]
    rfl
  rw [heval, Nat.floor_natCast]
  refine ⟨Dvd.intro_left _ rfl, fun k ↦ ?_⟩
  rw [Nat.mul_comm _ 2, Nat.mul_le_mul_left_iff (by decide), Nat.le_floor_iff hnonneg,
    le_div_iff₀ (by norm_num), mul_comm]

/-- Even pixels up to a resolved fraction, as far as they are below the saturation. -/
theorem even_pixels (hfinite : v.isFinite = true) {k : ℕ} (hk : 2 * k < 2 ^ 32) :
    2 * k ≤ floorToEven (exactPixels v n) ↔ 2 * (k : ℚ) ≤ exactProduct v n := by
  have hnonneg : 0 ≤ exactProduct v n :=
    mul_nonneg (F32.toRat_clamp_nonneg hfinite) (F32.toRat_ofInt_nonneg n)
  have hlt : 2 * k ≤ 2 ^ 32 - 1 := by omega
  rw [two_mul_le_floorToEven, exactPixels, le_min_iff, and_iff_left hlt, Nat.le_floor_iff hnonneg]
  push_cast
  rfl

/-- An origin with room behind it is not saturated. -/
theorem even_origin (hfinite : v.isFinite = true)
    (hroom : floorToEven (exactPixels v n) + 2 < 2 ^ 32) (k : ℕ) :
    2 * k ≤ floorToEven (exactPixels v n) ↔ 2 * (k : ℚ) ≤ exactProduct v n := by
  by_cases hk : 2 * k < 2 ^ 32
  · exact even_pixels hfinite hk
  · -- the even number below the saturation would be reached too
    constructor
    · intro hle
      omega
    · intro hle
      have hhalf : 2 * ((2 ^ 31 - 1 : ℕ) : ℚ) ≤ exactProduct v n := by
        refine le_trans ?_ hle
        have : (2 ^ 31 - 1 : ℕ) ≤ k := by omega
        have : ((2 ^ 31 - 1 : ℕ) : ℚ) ≤ k := by exact_mod_cast this
        linarith
      have := (even_pixels hfinite (by decide)).mpr hhalf
      omega

end Sides

/-! ### When both agree -/

/-- No even pixel lies between a fraction of a side and what is printed of it, and the printed
extent reaches an even pixel when the extent does and the pixel fits behind the origin. -/
structure Unmoved (origin extent : F32) (n : Nat) : Prop where
  origin_iff : ∀ k : ℕ, 2 * (k : ℚ) ≤ n * origin.printed ↔ 2 * (k : ℚ) ≤ exactProduct origin n
  extent_iff : ∀ k : ℕ, 2 * (k : ℚ) ≤ n * extent.printed ↔ 2 * (k : ℚ) ≤ exactProduct extent n ∧
    ∀ j : ℕ, 2 * (j : ℚ) ≤ exactProduct origin n → 2 * k + 2 * j ≤ n

/-- One side of the frame. -/
theorem side_agrees_iff {size : Expr} {frame_w frame_h n x w : Nat} {origin extent : F32}
    (horigin : origin.isFinite = true) (hextent : extent.isFinite = true)
    (hprinted : 0 ≤ origin.printed) (hprinted' : 0 ≤ extent.printed)
    (hsize : size.eval frame_w frame_h = n) (hn : n < 2 ^ 32)
    (hx : x = floorToEven (exactPixels origin n))
    (hw : w = min (floorToEven (exactPixels extent n)) (floorToEven (n - x)))
    (hlt : x < n) (htwo : 2 ≤ w) :
    (⌊(Expr.side size origin).eval frame_w frame_h⌋₊ = x ∧
      ⌊(Expr.side size extent).eval frame_w frame_h⌋₊ = w) ↔ Unmoved origin extent n := by
  obtain ⟨heven, hside⟩ := even_side hprinted hsize
  obtain ⟨heven', hside'⟩ := even_side hprinted' hsize
  have hroom : x + w ≤ n := by
    have := floorToEven_le (n - x)
    omega
  have hxeven : 2 ∣ x := hx ▸ two_dvd_floorToEven _
  have hweven : 2 ∣ w := by
    rcases min_choice (floorToEven (exactPixels extent n)) (floorToEven (n - x)) with h | h
    · rw [hw, h]
      exact two_dvd_floorToEven _
    · rw [hw, h]
      exact two_dvd_floorToEven _
  have hxle (k : ℕ) : 2 * k ≤ x ↔ 2 * (k : ℚ) ≤ exactProduct origin n := by
    rw [hx]
    exact even_origin horigin (by omega) k
  have hwle (k : ℕ) : 2 * k ≤ w ↔ 2 * (k : ℚ) ≤ exactProduct extent n ∧
      ∀ j : ℕ, 2 * (j : ℚ) ≤ exactProduct origin n → 2 * k + 2 * j ≤ n := by
    obtain ⟨i, hi⟩ := hxeven
    have hbehind : (∀ j : ℕ, 2 * (j : ℚ) ≤ exactProduct origin n → 2 * k + 2 * j ≤ n) ↔
        2 * k ≤ n - x := by
      constructor
      · intro h
        have := h i ((hxle i).mp hi.ge)
        omega
      · intro h j hj
        have := (hxle j).mpr hj
        omega
    rw [hbehind, hw, le_min_iff, two_mul_le_floorToEven (v := n - x)]
    constructor
    · rintro ⟨hk, hk'⟩
      exact ⟨(even_pixels hextent (by omega)).mp hk, hk'⟩
    · rintro ⟨hk, hk'⟩
      exact ⟨(even_pixels hextent (by omega)).mpr hk, hk'⟩
  rw [even_eq_iff heven hxeven, even_eq_iff heven' hweven]
  constructor
  · rintro ⟨h, h'⟩
    exact ⟨fun k ↦ (hside k).symm.trans ((h k).trans (hxle k)),
      fun k ↦ (hside' k).symm.trans ((h' k).trans (hwle k))⟩
  · intro h
    exact ⟨fun k ↦ (hside k).trans ((h.origin_iff k).trans (hxle k).symm),
      fun k ↦ (hside' k).trans ((h.extent_iff k).trans (hwle k).symm)⟩

/-- Fractions of a valid crop are finite and not below zero. -/
theorem CropRegion.valid_fractions {crop : CropRegion} (h : crop.validate = .ok ()) :
    ∀ v ∈ [crop.x, crop.y, crop.width, crop.height], v.isFinite = true ∧ 0 ≤ v.printed := by
  unfold validate at h
  split at h
  · cases h
  · next hfinite =>
    rw [not_not, List.all_eq_true] at hfinite
    split at h
    · cases h
    · next hextent =>
      split at h
      · cases h
      · next horigin =>
        rw [not_or] at hextent
        rw [not_or, not_or] at horigin
        have hnonneg {v : F32} (hv : v.isFinite = true) (hlt : ¬ v.lt F32.zero = true) :
            v.isFinite = true ∧ 0 ≤ v.printed :=
          ⟨hv, F32.printed_nonneg fun hbelow ↦
            hlt ((F32.lt_zero_iff (F32.not_nan_of_finite hv)).mpr hbelow)⟩
        have hle {v : F32} (hnot : ¬ v.le F32.zero = true) : ¬ v.lt F32.zero = true := by
          intro hlt
          obtain ⟨hnan, hzero, hbelow⟩ := of_decide_eq_true hlt
          exact hnot (decide_eq_true ⟨hnan, hzero, hbelow.le⟩)
        rw [List.forall_mem_cons, List.forall_mem_cons, List.forall_mem_cons,
          List.forall_mem_singleton] at hfinite ⊢
        exact ⟨hnonneg hfinite.1 horigin.1, hnonneg hfinite.2.1 horigin.2.1,
          hnonneg hfinite.2.2.1 (hle hextent.1), hnonneg hfinite.2.2.2 (hle hextent.2)⟩

/-- Decoded dimensions are those of the coordinates, or are refused. -/
theorem attachCoordinates_rect {scaled : F32 → Nat → Nat} {crop : CropRegion}
    {frame_w frame_h : Nat} {rect : PixelCrop}
    (hrect : crop.resolveWith scaled frame_w frame_h = .Rect rect) {decoded : DecodedMp4Batch}
    (hw : decoded.width = rect.width) (hh : decoded.height = rect.height) :
    ∃ batch, attachCoordinates scaled (some crop) (some (frame_w, frame_h)) decoded = .ok batch ∧
      batch.coordinates.resolved_region = rect := by
  simp [attachCoordinates, FrameCoordinates.resolveWith, hrect, hw, hh]

/-- A crop of a file is the resolved crop, and is accepted with its coordinates, exactly when
printing its fractions moves no side of it over an even pixel. -/
theorem filter_agrees_iff (crop : CropRegion) (hvalid : crop.validate = .ok ())
    (frame_w frame_h : UInt32) (rect : PixelCrop)
    (hrect : crop.resolveWith exactPixels frame_w.toNat frame_h.toNat = .Rect rect) :
    (crop.ffmpegCropFilter.select frame_w.toNat frame_h.toNat = rect ∧
      ∀ decoded : DecodedMp4Batch,
        decoded.width = (crop.ffmpegCropFilter.select frame_w.toNat frame_h.toNat).width →
        decoded.height = (crop.ffmpegCropFilter.select frame_w.toNat frame_h.toNat).height →
        ∃ batch, attachCoordinates exactPixels (some crop)
          (some (frame_w.toNat, frame_h.toNat)) decoded = .ok batch ∧
            batch.coordinates.resolved_region = rect) ↔
      Unmoved crop.x crop.width frame_w.toNat ∧ Unmoved crop.y crop.height frame_h.toNat := by
  obtain ⟨hx, hy, hw, hh, hright, hbottom, hwidth, hheight⟩ := CropRegion.resolveWith_rect hrect
  have hvalues := CropRegion.valid_fractions hvalid
  rw [List.forall_mem_cons, List.forall_mem_cons, List.forall_mem_cons,
    List.forall_mem_singleton] at hvalues
  obtain ⟨⟨hxf, hxp⟩, ⟨hyf, hyp⟩, ⟨hwf, hwp⟩, ⟨hhf, hhp⟩⟩ := hvalues
  have hiw : Expr.iw.eval frame_w.toNat frame_h.toNat = frame_w.toNat := rfl
  have hih : Expr.ih.eval frame_w.toNat frame_h.toNat = frame_h.toNat := rfl
  rw [← side_agrees_iff hxf hwf hxp hwp hiw frame_w.toNat_lt hx hw hright hwidth,
    ← side_agrees_iff hyf hhf hyp hhp hih frame_h.toNat_lt hy hh hbottom hheight]
  constructor
  · rintro ⟨rfl, -⟩
    exact ⟨⟨rfl, rfl⟩, rfl, rfl⟩
  · rintro ⟨⟨hx', hw'⟩, hy', hh'⟩
    have hselect : crop.ffmpegCropFilter.select frame_w.toNat frame_h.toNat = rect :=
      PixelCrop.ext hx' hy' hw' hh'
    rw [hselect]
    exact ⟨rfl, fun decoded ↦ attachCoordinates_rect hrect⟩

/-- The middle half of a frame. -/
def middle : CropRegion := ⟨⟨0x3E800000⟩, ⟨0x3E800000⟩, ⟨0x3F000000⟩, ⟨0x3F000000⟩⟩

theorem filter_agrees_iff_middle :
    Unmoved middle.x middle.width (1920 : UInt32).toNat ∧
      Unmoved middle.y middle.height (1080 : UInt32).toNat :=
  have hrect : middle.resolveWith exactPixels (1920 : UInt32).toNat (1080 : UInt32).toNat =
      .Rect ⟨480, 270, 960, 540⟩ := by decide +kernel
  have hselect : middle.ffmpegCropFilter.select (1920 : UInt32).toNat (1080 : UInt32).toNat =
      ⟨480, 270, 960, 540⟩ := by decide +kernel
  (filter_agrees_iff middle (by decide +kernel) 1920 1080 _ hrect).mp
    ⟨hselect, fun _ hw hh ↦ attachCoordinates_rect hrect (hw.trans (congrArg _ hselect))
      (hh.trans (congrArg _ hselect))⟩

/-- A third of a frame is cropped to other pixels, and refused. -/
theorem third_disagrees :
    ∃ crop : CropRegion, crop.validate = .ok () ∧ crop.isFullFrame = false ∧
      crop.resolveWith exactPixels 1920 1080 = .Rect ⟨0, 0, 640, 1080⟩ ∧
      crop.ffmpegCropFilter.select 1920 1080 = ⟨0, 0, 638, 1080⟩ ∧
      ∀ coordinates, attachCoordinates exactPixels (some crop) (some (1920, 1080))
        ⟨638, 1080, coordinates⟩ = .error ("decoded crop dimensions 638x1080 do not match " ++
          "coordinate provenance 640x1080") := by
  have hrect : (⟨⟨0⟩, ⟨0⟩, ⟨0x3EAAAAAB⟩, F32.one⟩ : CropRegion).resolveWith exactPixels 1920 1080 =
      .Rect ⟨0, 0, 640, 1080⟩ := by decide +kernel
  refine ⟨_, by decide +kernel, by decide +kernel, hrect, by decide +kernel, fun coordinates ↦ ?_⟩
  rw [attachCoordinates, FrameCoordinates.resolveWith]
  simp only [hrect]
  rfl

end Vidarax.Crop
