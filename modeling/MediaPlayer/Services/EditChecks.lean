import MediaPlayer.Library.CheckedFold
import MediaPlayer.Services.MediaRules

/-!
# What the early check knows

The API checks an edit against the size that was stored, the worker against the one it has
probed.  Where a side is not known, the rules that need it are left out.

* `checkOperation_lessKnown` — a rule that accepts a frame accepts it with less known, and
  leaves a frame with less known.
* `early_check_accepts` — so the early check refuses nothing the worker would accept.
-/

namespace MediaPlayer
namespace Services

open Library Models

/-- A frame of which less is known: the sides that are known agree. -/
structure LessKnown (f g : Frame) : Prop where
  width : ∀ side ∈ f.width, g.width = some side
  height : ∀ side ∈ f.height, g.height = some side

theorem LessKnown.refl (f : Frame) : LessKnown f f := ⟨fun _ h => h, fun _ h => h⟩

theorem checkScale_lessKnown {down : Bool} {target : ℕ} {f g : Frame} (hless : LessKnown f g)
    (hok : checkScale down target g.height = .ok ()) : checkScale down target f.height = .ok () := by
  cases hheight : f.height with
  | some side =>
      rw [hless.height side hheight] at hok
      exact hok
  | none =>
      by_cases hrung : target ∈ scaleHeights
      · simp [checkScale, hrung]
      · simp [checkScale, hrung] at hok

/-- The width a scale leaves is known where both sides were. -/
theorem scaleRule_lessKnown {down : Bool} {target : ℕ} {f g after : Frame}
    (hless : LessKnown f g) (hok : scaleRule down target g = .ok after) :
    ∃ before, scaleRule down target f = .ok before ∧ LessKnown before after := by
  unfold scaleRule at hok ⊢
  cases hcheck : checkScale down target g.height with
  | error message =>
      rw [hcheck] at hok
      exact absurd hok nofun
  | ok _ =>
      rw [hcheck] at hok
      rw [checkScale_lessKnown hless hcheck]
      obtain rfl := Except.ok.inj hok
      refine ⟨_, rfl, fun side hside => ?_, fun side hside => hside⟩
      -- The width that is left is known only where both sides were.
      cases hwidth : f.width with
      | none => simp [hwidth] at hside
      | some width =>
          cases hheight : f.height with
          | none => simp [hwidth, hheight] at hside
          | some height =>
              rw [hwidth, hheight] at hside
              rw [hless.width width hwidth, hless.height height hheight]
              exact hside

/-- A rule that accepts a frame accepts it with less known. -/
theorem checkOperation_lessKnown (f g : Frame) (op : EditOperation) (after : Frame)
    (hless : LessKnown f g) (hok : checkOperation g op = .ok after) :
    ∃ before, checkOperation f op = .ok before ∧ LessKnown before after := by
  cases op with
  | crop x y w h =>
      -- A crop says its size itself, whatever was known before.
      obtain rfl := Except.ok.inj hok
      exact ⟨_, rfl, .refl _⟩
  | rotate degrees =>
      simp only [checkOperation] at hok ⊢
      split_ifs at hok ⊢
      · obtain rfl := Except.ok.inj hok
        exact ⟨_, rfl, hless.height, hless.width⟩
      · obtain rfl := Except.ok.inj hok
        exact ⟨f, rfl, hless⟩
  | downscale height => exact scaleRule_lessKnown hless hok
  | upscale height => exact scaleRule_lessKnown hless hok
  | clip | flip | speed | convert | preset | adjust =>
      obtain rfl := Except.ok.inj hok
      exact ⟨f, rfl, hless⟩

/-- `check_edit_operations` accepts a request that MP3 can take and every rule accepts. -/
theorem checkEditOperations_ok_iff {operations : List EditOperation} {frame : Frame} :
    checkEditOperations operations frame.height frame.width = .ok () ↔
      ¬(named operations .convert = some (.convert "mp3") ∧ pictureLabels operations ≠ []) ∧
        ∃ after, (ordered operations).foldlM checkOperation frame = .ok after := by
  unfold checkEditOperations
  split
  · next hmp3 => exact iff_of_false nofun fun h => h.1 hmp3
  · next hmp3 =>
      rw [and_iff_right hmp3]
      cases hfold : (ordered operations).foldlM checkOperation ⟨frame.width, frame.height⟩ with
      | ok after => exact iff_of_true rfl ⟨after, rfl⟩
      | error message => exact iff_of_false nofun fun ⟨_, h⟩ => absurd h nofun

/-- What is accepted with all that the worker knows is accepted with what the API knows, and
every operation leaves a frame of which less is known. -/
theorem early_check_accepts (operations : List EditOperation) {f g : Frame}
    (hless : LessKnown f g)
    (hok : checkEditOperations operations g.height g.width = .ok ()) :
    checkEditOperations operations f.height f.width = .ok () ∧
      ∀ n after, ((ordered operations).take n).foldlM checkOperation g = .ok after →
        ∃ before, ((ordered operations).take n).foldlM checkOperation f = .ok before ∧
          LessKnown before after := by
  rw [checkEditOperations_ok_iff] at hok ⊢
  obtain ⟨hmp3, after, hafter⟩ := hok
  obtain ⟨before, hbefore, -⟩ := foldlM_simulates checkOperation_lessKnown hless hafter
  exact ⟨⟨hmp3, before, hbefore⟩, fun n after hafter =>
    foldlM_simulates checkOperation_lessKnown hless hafter⟩

/-- A turn and a scale, with the width not stored. -/
theorem early_check_accepts_turned :
    checkEditOperations [.downscale 480, .rotate 90] (some 1080) none = .ok () ∧
      checkEditOperations [.downscale 480, .rotate 90] (some 1080) (some 1920) = .ok () := by
  have hless : LessKnown ⟨none, some 1080⟩ ⟨some 1920, some 1080⟩ := ⟨nofun, fun _ h => h⟩
  have hok : checkEditOperations [.downscale 480, .rotate 90] (some 1080) (some 1920) =
      .ok () := by decide +kernel
  exact ⟨(early_check_accepts [.downscale 480, .rotate 90] hless hok).1, hok⟩

end Services
end MediaPlayer
