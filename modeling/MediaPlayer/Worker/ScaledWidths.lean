import Mathlib.Tactic.FieldSimp
import MediaPlayer.Library.Rounding
import MediaPlayer.Services.MediaRules
import MediaPlayer.Worker.Renditions

/-!
# The width of a scaled picture

`even_width` and the rule of a scale both work out the width that `scale=-2:H` leaves.

* `ffmpegWidth` — the width FFmpeg leaves: the shape kept, an even number, halves up.
* `scaled_widths_agree_iff` — both give it, except where the width would be one more than a
  multiple of four.
-/

namespace MediaPlayer
namespace Worker

open Library Services

/-- The width of FFmpeg's `scale=-2:H`. -/
def ffmpegWidth (width height targetHeight : ℕ) : ℤ :=
  max 2 (2 * roundHalfAway (width * targetHeight / (2 * height) : ℚ))

section

variable {width height target : ℕ}

theorem evenWidth_eq (width height target : ℕ) : (evenWidth width height target : ℤ) =
    max 2 (roundHalfEven (width * target / height / 2 : ℚ) * 2) := by
  have hnonneg : 0 ≤ roundHalfEven (width * target / height / 2 : ℚ) :=
    roundHalfEven_nonneg (by positivity)
  unfold evenWidth
  omega

/-- The rule of a scale has the same formula. -/
theorem scaleRule_width (hwidth : 0 < width) (hheight : 0 < height) {down : Bool}
    {after : Services.Frame} (hafter : scaleRule down target ⟨some width, some height⟩ = .ok after) :
    after.width = some (evenWidth width height target : ℤ) := by
  have hknown : (width : ℤ) ≠ 0 ∧ (height : ℤ) ≠ 0 := by omega
  unfold scaleRule at hafter
  cases hcheck : checkScale down target (some height) with
  | error message =>
      rw [hcheck] at hafter
      cases hafter
  | ok _ =>
      rw [hcheck] at hafter
      obtain rfl := Except.ok.inj hafter
      dsimp only
      rw [if_pos hknown, evenWidth_eq]
      rfl

/-- A half above an even number is one more than a multiple of four, halved twice. -/
theorem half_iff (hheight : 0 < height) : (∃ k : ℤ, 1 ≤ k ∧
      (width * target / (2 * height) : ℚ) = ((2 * k : ℤ) : ℚ) + 1 / 2) ↔
    ∃ m : ℕ, 1 ≤ m ∧ width * target = height * (4 * m + 1) := by
  have hwhole : ∀ k : ℤ, (width * target / (2 * height) : ℚ) = ((2 * k : ℤ) : ℚ) + 1 / 2 ↔
      (width * target : ℤ) = height * (4 * k + 1) := by
    intro k
    rw [div_eq_iff (by positivity), ← @Int.cast_inj ℚ]
    push_cast
    constructor <;> intro heq <;> linarith
  constructor
  · rintro ⟨k, hk, hhalf⟩
    obtain ⟨m, rfl⟩ := Int.eq_ofNat_of_zero_le (by omega : 0 ≤ k)
    exact ⟨m, by omega, by exact_mod_cast (hwhole m).mp hhalf⟩
  · rintro ⟨m, hm, hproduct⟩
    exact ⟨m, by omega, (hwhole m).mpr (by exact_mod_cast hproduct)⟩

theorem evenWidth_eq_ffmpegWidth_iff (hheight : 0 < height) :
    (evenWidth width height target : ℤ) = ffmpegWidth width height target ↔
      ¬∃ m : ℕ, 1 ≤ m ∧ width * target = height * (4 * m + 1) := by
  have hquotient : (width * target / height / 2 : ℚ) = width * target / (2 * height) := by
    rw [div_div, mul_comm (height : ℚ)]
  rw [evenWidth_eq, ffmpegWidth, hquotient, max_roundHalfEven_eq_iff (by positivity),
    half_iff hheight]

end

/-- The width in a rendition's RESOLUTION and the width of the frame after a scale are one, and
it is FFmpeg's unless the shape asks for a whole width of `5`, `9`, `13`, ... -/
theorem scaled_widths_agree_iff {width height : ℕ} (hwidth : 0 < width) (hheight : 0 < height)
    (target : ℕ) :
    ((evenWidth width height target : ℤ) = ffmpegWidth width height target ∧
      ∀ down after, scaleRule down target ⟨some width, some height⟩ = .ok after →
        after.width = some (evenWidth width height target : ℤ) ∧
          after.width = some (ffmpegWidth width height target)) ↔
      ¬∃ m : ℕ, 1 ≤ m ∧ width * target = height * (4 * m + 1) := by
  rw [← evenWidth_eq_ffmpegWidth_iff hheight]
  refine ⟨And.left, fun heq => ⟨heq, fun down after hafter => ?_⟩⟩
  have hrule := scaleRule_width hwidth hheight hafter
  exact ⟨hrule, heq ▸ hrule⟩

/-! ## A picture of 1706x480 at 240 lines -/

theorem widths_1706 : evenWidth 1706 480 240 = 852 ∧ ffmpegWidth 1706 480 240 = 854 := by
  have hhalf : ((1706 : ℕ) * (240 : ℕ) / (480 : ℕ) / 2 : ℚ) = ((2 * 213 : ℤ) : ℚ) + 1 / 2 := by
    norm_num
  have haway : ((1706 : ℕ) * (240 : ℕ) / (2 * (480 : ℕ)) : ℚ) =
      ((2 * 213 : ℤ) : ℚ) + 1 / 2 := by norm_num
  rw [evenWidth, ffmpegWidth, (roundHalf_even (by decide) hhalf).1,
    (roundHalf_even (by decide) haway).2]
  decide

theorem scaled_widths_differ : ¬∀ width height target : ℕ, 0 < width → 0 < height →
    (evenWidth width height target : ℤ) = ffmpegWidth width height target ∧
      ∀ down after, scaleRule down target ⟨some width, some height⟩ = .ok after →
        after.width = some (evenWidth width height target : ℤ) ∧
          after.width = some (ffmpegWidth width height target) := by
  intro hclaim
  have heq := (hclaim 1706 480 240 (by decide) (by decide)).1
  rw [widths_1706.1, widths_1706.2] at heq
  exact absurd heq (by decide)

theorem scaled_widths_agree_1280 :
    (evenWidth 1280 720 480 : ℤ) = ffmpegWidth 1280 720 480 := by
  have hnone : ¬∃ m : ℕ, 1 ≤ m ∧ 1280 * 480 = 720 * (4 * m + 1) := by
    rintro ⟨m, -, hproduct⟩
    omega
  exact ((scaled_widths_agree_iff (by decide) (by decide) 480).mpr hnone).1

end Worker
end MediaPlayer
