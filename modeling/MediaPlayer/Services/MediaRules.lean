import MediaPlayer.Models.Job

/-!
# Which edits make sense for a video

`app/services/media_rules.py`: the limit on an upload's length, the rungs an edit may scale to,
and the check of a request against the size of the video it starts from.

* `checkScale_scaleOptions` — the heights offered are exactly those the check lets pass.
-/

namespace MediaPlayer
namespace Services

open Library Models

/-- A `MediaRuleError`, whose message is shown as it is. -/
abbrev Checked := Except String

/-! ## The length of an upload -/

/-- `format_duration`: whole seconds, rounded up. -/
def formatDuration (seconds : ℚ) : String :=
  let total := ⌈seconds⌉.toNat
  let hours := total / 3600
  let minutes := total % 3600 / 60
  let secs := total % 3600 % 60
  if hours ≠ 0 then s!"{hours}:{zeroPad 2 minutes}:{zeroPad 2 secs}"
  else s!"{minutes}:{zeroPad 2 secs}"

/-- `describe_limit`. -/
def describeLimit (seconds : ℕ) : String :=
  if seconds % 60 = 0 then s!"{seconds / 60} minute" ++ if seconds / 60 = 1 then "" else "s"
  else s!"{seconds} seconds"

/-- `check_source_duration`; a limit that is not positive is zero here. -/
def checkSourceDuration (durationSeconds : ℚ) (maxDurationSeconds : ℕ) : Checked Unit :=
  if maxDurationSeconds = 0 then .ok ()
  else if durationSeconds ≤ 0 then .error "the video's length could not be determined"
  else if (maxDurationSeconds : ℚ) < durationSeconds then
    .error (s!"this video is {formatDuration durationSeconds} long; " ++
      s!"the limit is {describeLimit maxDurationSeconds}. Trim it and upload it again")
  else .ok ()

/-! ## Edits -/

/-- `SCALE_HEIGHTS`. -/
def scaleHeights : List ℕ := [240, 360, 480, 720, 1080, 1440, 2160]

inductive OperationName
  | clip
  | crop
  | rotate
  | flip
  | downscale
  | upscale
  | adjust
  | preset
  | speed
  | convert
  deriving DecidableEq

/-- `OPERATION_ORDER`. -/
def operationOrder : List OperationName :=
  [.clip, .crop, .rotate, .flip, .downscale, .upscale, .adjust, .preset, .speed, .convert]

/-- The name an operation is stored under. -/
def operationName : EditOperation → OperationName
  | .clip .. => .clip
  | .crop .. => .crop
  | .downscale _ => .downscale
  | .upscale _ => .upscale
  | .rotate _ => .rotate
  | .flip _ => .flip
  | .speed _ => .speed
  | .convert _ => .convert
  | .preset _ => .preset
  | .adjust .. => .adjust

/-- `named[name]`: of two operations of one name, the later one. -/
def named (operations : List EditOperation) (name : OperationName) : Option EditOperation :=
  (operations.filter fun operation => operationName operation = name).getLast?

/-- The operations in the order the worker applies them. -/
def ordered (operations : List EditOperation) : List EditOperation :=
  operationOrder.filterMap (named operations)

/-- The picture's size at one point of the pipeline; `none` is an unknown side. -/
structure Frame where
  width : Option ℤ
  height : Option ℤ
  deriving DecidableEq

/-- `OperationRule.label`. -/
def ruleLabel : OperationName → String
  | .clip => "clip"
  | .crop => "crop"
  | .rotate => "rotate"
  | .flip => "flip"
  | .downscale => "scale"
  | .upscale => "scale"
  | .adjust => "colour"
  | .preset => "preset"
  | .speed => "speed"
  | .convert => "convert"

/-- `OperationRule.changes_picture`. -/
def changesPicture : OperationName → Bool
  | .clip | .speed | .convert => false
  | _ => true

/-- `_join_labels`. -/
def joinLabels : List String → String
  | [label] => label
  | labels => ", ".intercalate labels.dropLast ++ " and " ++ labels.getLastD ""

/-- `editable_height`. -/
def editableHeight (height : Option ℤ) (isEdit : Bool) (mp4MaxHeight : ℤ) : Option ℤ :=
  match height with
  | none => none
  | some height =>
      if height ≤ 0 then none
      else if isEdit then some height
      else if 0 < mp4MaxHeight then some (min height mp4MaxHeight)
      else some height

structure ScaleOptions where
  downscale : List ℕ
  upscale : List ℕ
  deriving DecidableEq

/-- `scale_options`. -/
def scaleOptions (inputHeight : Option ℤ) : Option ScaleOptions :=
  match inputHeight with
  | none => none
  | some inputHeight =>
      if inputHeight ≤ 0 then none
      else some
        { downscale := (scaleHeights.filter fun h : ℕ => (h : ℤ) < inputHeight).reverse
          upscale := scaleHeights.filter fun h : ℕ => inputHeight < (h : ℤ) }

/-- `check_scale`, for a scale down or, with `down` false, up. -/
def checkScale (down : Bool) (targetHeight : ℕ) (inputHeight : Option ℤ) : Checked Unit :=
  let operation := if down then "downscale" else "upscale"
  if targetHeight ∉ scaleHeights then
    .error (operation ++ " height must be one of " ++
      ", ".intercalate (scaleHeights.map fun h => s!"{h}p"))
  else
    match inputHeight with
    | none => .ok ()
    | some inputHeight =>
        if down ∧ inputHeight ≤ targetHeight then
          .error (s!"downscale must be to a height below the video's {inputHeight}p; " ++
            s!"{targetHeight}p is not smaller")
        else if ¬ down ∧ (targetHeight : ℤ) ≤ inputHeight then
          .error (s!"upscale must be to a height above the video's {inputHeight}p; " ++
            s!"{targetHeight}p is not larger")
        else .ok ()

/-- What the page offers is what the check accepts. -/
theorem checkScale_scaleOptions {inputHeight : ℤ} {options : ScaleOptions}
    (hoptions : scaleOptions (some inputHeight) = some options) (down : Bool) (height : ℕ) :
    checkScale down height (some inputHeight) = .ok () ↔
      height ∈ if down then options.downscale else options.upscale := by
  have hsides : options.downscale =
        (scaleHeights.filter fun h : ℕ => (h : ℤ) < inputHeight).reverse ∧
      options.upscale = scaleHeights.filter fun h : ℕ => inputHeight < (h : ℤ) := by
    simp only [scaleOptions] at hoptions
    split at hoptions
    · simp at hoptions
    · obtain rfl := Option.some.inj hoptions
      exact ⟨rfl, rfl⟩
  rw [hsides.1, hsides.2]
  by_cases hrung : height ∈ scaleHeights
  · cases down with
    | false =>
        by_cases habove : inputHeight < (height : ℤ) <;>
          simp [checkScale, hrung, habove, not_lt.mp]
    | true =>
        by_cases hbelow : (height : ℤ) < inputHeight <;>
          simp [checkScale, hrung, hbelow, not_lt.mp]
  · cases down <;> simp [checkScale, hrung]

/-- `_known`. -/
def known (value : ℕ) : Option ℤ := if 0 < value then some value else none

/-- `_scale_rule`: `scale=-2:H` keeps the shape and rounds the width to even. -/
def scaleRule (down : Bool) (target : ℕ) (frame : Frame) : Checked Frame := do
  checkScale down target frame.height
  let width :=
    match frame.width, frame.height with
    | some width, some height =>
        if width ≠ 0 ∧ height ≠ 0 then
          some (max 2 (roundHalfEven (width * target / height / 2 : ℚ) * 2))
        else none
    | _, _ => none
  return { width, height := some target }

/-- `OperationRule.check`: the frame the operation leaves behind. -/
def checkOperation (frame : Frame) : EditOperation → Checked Frame
  | .crop _ _ w h => .ok { width := known w, height := known h }
  | .rotate degrees =>
      if degrees = 90 ∨ degrees = 270 then .ok { width := frame.height, height := frame.width }
      else .ok frame
  | .downscale height => scaleRule true height frame
  | .upscale height => scaleRule false height frame
  | _ => .ok frame

/-- The labels of what an MP3 cannot take, each once. -/
def pictureLabels (operations : List EditOperation) : List String :=
  (((ordered operations).map operationName).filter changesPicture).foldl
    (fun labels name => if ruleLabel name ∈ labels then labels else labels ++ [ruleLabel name]) []

/-- The labels are those of the operations that change the picture. -/
theorem pictureLabels_eq_nil_iff {operations : List EditOperation} :
    pictureLabels operations = [] ↔
      ∀ operation ∈ ordered operations, changesPicture (operationName operation) = false := by
  have hfold : ∀ (names : List OperationName) (labels : List String),
      names.foldl (fun labels name =>
        if ruleLabel name ∈ labels then labels else labels ++ [ruleLabel name]) labels = [] ↔
        names = [] ∧ labels = [] := by
    intro names
    induction names with
    | nil => simp
    | cons name names ih =>
        intro labels
        rw [List.foldl_cons, ih]
        by_cases hmem : ruleLabel name ∈ labels
        · simp [hmem, List.ne_nil_of_mem hmem]
        · simp [hmem]
  unfold pictureLabels
  rw [hfold, and_iff_left rfl, List.filter_eq_nil_iff]
  simp only [List.mem_map, forall_exists_index, and_imp, forall_apply_eq_imp_iff₂,
    Bool.not_eq_true]

/-- `check_edit_operations`: every operation is checked against the frame the ones before it
leave. -/
def checkEditOperations (operations : List EditOperation) (inputHeight inputWidth : Option ℤ) :
    Checked Unit :=
  if named operations .convert = some (.convert "mp3") ∧ pictureLabels operations ≠ [] then
    .error s!"{joinLabels (pictureLabels operations)} cannot be combined with MP3 conversion"
  else do
    let _ ← (ordered operations).foldlM checkOperation ⟨inputWidth, inputHeight⟩
    return ()

end Services
end MediaPlayer
