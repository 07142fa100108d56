import MediaPlayer.Worker.LadderBuilds
import MediaPlayer.Worker.Renditions

/-!
# The files of a ladder

The pure half of `app/worker/hls.py`: which rungs a source gets, how a master is labelled,
and in which order a ladder's files are uploaded.  A file is its path below the ladder's
prefix, with its text.
-/

namespace MediaPlayer
namespace Worker

open Library

def ladderHeights : List ℕ := [360, 480, 720, 1080, 1440, 2160]

def onlyAsTopRung : List ℕ := [480]

/-- `variants_for`. -/
def variantsFor (height maxHeight : ℕ) : List ℕ :=
  let rungs := ladderHeights.filter (· ≤ min height maxHeight)
  match rungs.getLast? with
  | none => [height]
  | some top => rungs.filter fun rung => rung = top ∨ rung ∉ onlyAsTopRung

/-- `f"{x:.{digits}f}"`, for a number that is not negative. -/
def fixedPoint (digits : ℕ) (x : ℚ) : String :=
  let units := (roundHalfEven (x * 10 ^ digits)).toNat
  s!"{units / 10 ^ digits}." ++ zeroPad digits (units % 10 ^ digits)

/-- The loop of `label_frame_rates`. -/
def labelFrameRate (frameRate : ℚ) (line : String) : String :=
  if startsWith line streamInf && contains line "RESOLUTION=" &&
      !contains line "FRAME-RATE=" then
    line ++ ",FRAME-RATE=" ++ fixedPoint 3 frameRate
  else line

/-- `label_frame_rates`. -/
def labelFrameRates (master : String) (frameRate : ℚ) : String :=
  joinLines ((splitLines master).map (labelFrameRate frameRate))

/-- The master as it is uploaded: labelled, if the rate of the source is known. -/
def labelledMaster (probe : SourceProbe) (maxFps : ℕ) (master : String) : String :=
  match probe.frameRate with
  | none => master
  | some rate => if rate = 0 then master else labelFrameRates master (min maxFps rate)

/-- What `build` uploads of the files its encode left: the master last, and nothing without
one. -/
def ladderUploads (probe : SourceProbe) (maxFps : ℕ) (files : List (String × String)) :
    List (String × String) :=
  if files.any (·.1 == masterPlaylistName) then
    files.filter (·.1 != masterPlaylistName) ++
      (files.filter (·.1 == masterPlaylistName)).map fun file =>
        (file.1, labelledMaster probe maxFps file.2)
  else []

end Worker
end MediaPlayer
