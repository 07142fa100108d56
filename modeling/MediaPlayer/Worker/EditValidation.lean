import MediaPlayer.Services.MediaRules

/-!
# The worker's checks of a crop and a clip

`validate_crop` and `validate_clip` of `app/worker/validation.py`, against the probe of the file
that was downloaded.  That the parameters are the four or two numbers they should be is their
type here.
-/

namespace MediaPlayer
namespace Worker

open Services

/-- `validate_crop`; a side the probe did not find is `none`. -/
def validateCrop (x y w h : ℤ) (width height : Option ℤ) : Checked Unit :=
  if x < 0 ∨ y < 0 then .error "crop x and y must be zero or greater"
  else if w ≤ 0 ∨ h ≤ 0 then .error "crop width and height must be greater than zero"
  else
    match width.filter (0 < ·), height.filter (0 < ·) with
    | some width, some height =>
        if width < x + w ∨ height < y + h then
          .error "crop must fit within the source video\u0027s frame"
        else .ok ()
    | _, _ => .error "the source video\u0027s dimensions could not be determined"

/-- `validate_clip`; a duration the probe did not find, or not a finite one, is `none`. -/
def validateClip (start finish : ℚ) (durationSeconds : Option ℚ) : Checked Unit :=
  if start < 0 then .error "clip start must be zero or greater"
  else if finish ≤ start then .error "clip end must be greater than start"
  else
    match durationSeconds.filter (0 < ·) with
    | none => .error "the source video\u0027s duration could not be determined"
    | some duration =>
        if duration < finish then
          .error "clip end must not exceed the source video\u0027s duration"
        else .ok ()

/-- A crop is let through exactly if it is a rectangle within the frame. -/
theorem validateCrop_ok_iff {x y w h width height : ℤ} :
    validateCrop x y w h (some width) (some height) = .ok () ↔
      (0 ≤ x ∧ 0 ≤ y) ∧ (0 < w ∧ 0 < h) ∧ x + w ≤ width ∧ y + h ≤ height := by
  unfold validateCrop
  by_cases hoffset : x < 0 ∨ y < 0
  · rw [if_pos hoffset]
    exact iff_of_false nofun fun hcrop => by omega
  by_cases hsize : w ≤ 0 ∨ h ≤ 0
  · rw [if_neg hoffset, if_pos hsize]
    exact iff_of_false nofun fun hcrop => by omega
  rw [if_neg hoffset, if_neg hsize]
  by_cases hframe : 0 < width ∧ 0 < height
  · rw [Option.filter_some, Option.filter_some, if_pos (decide_eq_true hframe.1),
      if_pos (decide_eq_true hframe.2)]
    dsimp only
    split
    · exact iff_of_false nofun fun hcrop => by omega
    · exact iff_of_true rfl (by omega)
  · have hnone : Option.filter (0 < ·) (some width) = none ∨
        Option.filter (0 < ·) (some height) = none := by
      refine (not_and_or.mp hframe).imp (fun hwidth => ?_) fun hheight => ?_
      · exact Option.filter_eq_none_iff.mpr (by simpa using hwidth)
      · exact Option.filter_eq_none_iff.mpr (by simpa using hheight)
    split
    · rename_i hwidth hheight
      obtain hnone | hnone := hnone
      · exact absurd (hnone.symm.trans hwidth) nofun
      · exact absurd (hnone.symm.trans hheight) nofun
    · exact iff_of_false nofun fun hcrop => by omega

/-- A clip is let through exactly if it lies within the duration. -/
theorem validateClip_ok_iff {start finish duration : ℚ} :
    validateClip start finish (some duration) = .ok () ↔
      0 ≤ start ∧ start < finish ∧ finish ≤ duration := by
  unfold validateClip
  by_cases hstart : start < 0
  · rw [if_pos hstart]
    exact iff_of_false nofun fun h => absurd hstart (not_lt.mpr h.1)
  by_cases hfinish : finish ≤ start
  · rw [if_neg hstart, if_pos hfinish]
    exact iff_of_false nofun fun h => absurd hfinish (not_le.mpr h.2.1)
  rw [if_neg hstart, if_neg hfinish]
  rw [not_lt] at hstart
  rw [not_le] at hfinish
  by_cases hduration : 0 < duration
  · rw [Option.filter_some, if_pos (decide_eq_true hduration)]
    dsimp only
    split
    · rename_i hlong
      exact iff_of_false nofun fun h => absurd hlong (not_lt.mpr h.2.2)
    · rename_i hfits
      exact iff_of_true rfl ⟨hstart, hfinish, not_lt.mp hfits⟩
  · rw [Option.filter_some, if_neg (by simpa using hduration)]
    refine iff_of_false nofun fun h => hduration ?_
    exact lt_of_lt_of_le (lt_of_le_of_lt hstart hfinish) h.2.2

end Worker
end MediaPlayer
