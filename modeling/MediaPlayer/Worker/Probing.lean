import MediaPlayer.Library.Decimals
import MediaPlayer.Worker.Renditions
import MediaPlayer.Worker.VideoFilters

/-!
# What the source file is

`probe_source` of `app/worker/probe.py`: one run of ffprobe, and what is made of the JSON it
prints.  `json.loads` and the text of a value are parameters; a float is a number that is finite.

* `ToolEnd` — how a run of FFmpeg or ffprobe ends.
* `StepError` — what a processing step raises, with the text for the log and, where there is
  one, the message for the uploader.
* `probeSource_error` — a refusal by the probe carries one of its two messages.
-/

namespace MediaPlayer
namespace Worker

open Library

/-- What a processing step raises. -/
inductive StepError
  /-- `ObjectStoreError`: its diagnostic and its message for the uploader. -/
  | objectStore (diagnostic userMessage : String)
  | other (text : String)
  /-- The process dies: nothing catches that. -/
  | died
  deriving DecidableEq

/-- How a run of FFmpeg or ffprobe ends; `written` is the file at its output path then. -/
inductive ToolEnd
  | exited (returncode : ℤ) (stdout stderr : String) (written : Option (List UInt8))
  /-- `subprocess.TimeoutExpired`. -/
  | timedOut
  /-- Another exception, such as `Interrupted`. -/
  | raised (text : String)
  | died

/-- `UNPROCESSABLE_VIDEO`. -/
def unprocessableVideo : String :=
  "the video could not be processed; it may be corrupt or in a format we cannot read"

/-- `NO_VIDEO_STREAM`. -/
def noVideoStream : String := "this file has no video track; please upload a video file"

/-- `PROBE_ENTRIES`. -/
def probeEntries : String :=
  "stream=width,height,color_transfer,avg_frame_rate" ++
    ":stream_side_data=rotation:stream_tags=rotate:format=duration"

/-- `HDR_TRANSFERS`. -/
def hdrTransfers : List String := ["smpte2084", "arib-std-b67"]

/-! ## JSON -/

/-- A value as `json.loads` gives it. -/
inductive Json
  | null
  | bool (value : Bool)
  | int (value : ℤ)
  | float (value : ℚ)
  | str (text : String)
  | arr (items : List Json)
  | obj (fields : List (String × Json))

/-- What reading a value raises. -/
inductive JsonError
  | keyError
  | typeError
  | valueError
  | attributeError
  deriving DecidableEq

namespace Json

/-- `bool(value)`. -/
def truthy : Json → Bool
  | null => false
  | bool value => value
  | int value => value ≠ 0
  | float value => value ≠ 0
  | str text => text ≠ ""
  | arr items => !items.isEmpty
  | obj fields => !fields.isEmpty

/-- `value[key]`. -/
def item (value : Json) (key : String) : Except JsonError Json :=
  match value with
  | obj fields => (fields.lookup key).elim (.error .keyError) .ok
  | _ => .error .typeError

/-- `value[0]`, of a value that is not empty. -/
def first : Json → Except JsonError Json
  | arr items => .ok (items.headD null)
  | str text => .ok (str (String.ofList (text.toList.take 1)))
  | obj _ => .error .keyError
  | _ => .error .typeError

/-- `value.get(key)`. -/
def get (value : Json) (key : String) : Except JsonError (Option Json) :=
  match value with
  | obj fields => .ok (fields.lookup key)
  | _ => .error .attributeError

/-- The values `for` goes through. -/
def each : Json → Except JsonError (List Json)
  | arr items => .ok items
  | str text => .ok (text.toList.map fun c => str (String.ofList [c]))
  | obj fields => .ok (fields.map fun field => str field.1)
  | _ => .error .typeError

/-- `int(value)`. -/
def toInt : Json → Except JsonError ℤ
  | bool value => .ok (if value then 1 else 0)
  | int value => .ok value
  | float value => .ok (wholePart value)
  | str text => (intOf text).elim (.error .valueError) .ok
  | _ => .error .typeError

/-- `float(value)`. -/
def toFloat : Json → Except JsonError ℚ
  | bool value => .ok (if value then 1 else 0)
  | int value => .ok value
  | float value => .ok value
  | str text => (floatOf text).elim (.error .valueError) .ok
  | _ => .error .typeError

end Json

/-- `json.loads`, and `str` and `repr` of a value. -/
structure JsonTexts where
  loads : String → Option Json
  str : Json → String
  repr : Json → String

/-! ## The probe -/

/-- `SourceProbe` with its duration. -/
structure ProbedSource extends SourceProbe where
  durationSeconds : ℚ
  duration_pos : 0 < durationSeconds
  deriving DecidableEq

/-- `_frame_rate`. -/
def frameRate (texts : JsonTexts) (value : Option Json) : Option ℚ :=
  let text := texts.str (value.getD .null)
  let after := String.ofList ((text.toList.dropWhile (· != '/')).drop 1)
  match floatOf (beforeFirst '/' text), if after = "" then some 1 else floatOf after with
  | some numerator, some denominator =>
      if denominator = 0 then none
      else (some (numerator / denominator)).filter (0 < ·)
  | _, _ => none

/-- `int(float(value))`, or zero. -/
def degreesOf (value : Json) : ℤ := (value.toFloat.toOption.map wholePart).getD 0

/-- The rotation of side data that has one. -/
def sideRotation : Json → Option Json
  | .obj fields => fields.lookup "rotation"
  | _ => none

/-- `_rotation_degrees`. -/
def rotationDegrees (stream : Json) : Except JsonError ℤ := do
  let listed ← stream.get "side_data_list"
  let sideData ← (listed.filter Json.truthy).elim (.ok []) Json.each
  match sideData.findSome? sideRotation with
  | some rotation => return degreesOf rotation
  | none =>
      let tags ← stream.get "tags"
      let rotate ← (tags.filter Json.truthy).elim (.ok none) (Json.get · "rotate")
      return (rotate.map degreesOf).getD 0

/-- `_display_size`: width and height as the video is shown. -/
def displaySize (stream : Json) : Except JsonError (ℤ × ℤ) := do
  let width ← (← stream.item "width").toInt
  let height ← (← stream.item "height").toInt
  if (← rotationDegrees stream) % 180 ≠ 0 then
    return (height, width)
  else
    return (width, height)

/-- `payload["format"]["duration"]`. -/
def durationOf (payload : Json) : Except JsonError ℚ := do
  (← (← payload.item "format").item "duration").toFloat

/-- The command of the probe. -/
def probeCommand (ffprobeBinary path : String) : List String :=
  [ffprobeBinary, "-v", "error", "-select_streams", "v:0", "-show_entries", probeEntries,
    "-of", "json", path]

/-- What the first stream says beside its size. -/
def colorTransfer (stream : Json) : Except StepError (Option String) :=
  match stream.get "color_transfer" with
  | .ok (some (.str transfer)) => .ok (some transfer)
  -- A list is not looked up in a set.
  | .ok (some (.arr _)) | .ok (some (.obj _)) => .error (.other "TypeError")
  | .ok _ => .ok none
  | .error _ => .error (.other "AttributeError")

/-- The probe of a file that has a first stream. -/
def probeStreams (numbers : NumberTexts) (texts : JsonTexts) (payload streams : Json) :
    Except StepError ProbedSource :=
  let facts := do
    let stream ← streams.first
    let size ← displaySize stream
    let duration ← durationOf payload
    return (stream, size, duration)
  match facts with
  | .error .attributeError => .error (.other "AttributeError")
  | .error _ => .error (.objectStore
      ("ffprobe output missing width, height or duration: " ++
        String.ofList ((texts.repr payload).toList.take 200)) unprocessableVideo)
  | .ok (stream, (width, height), duration) =>
      if h : 0 < width ∧ 0 < height ∧ 0 < duration then do
        let transfer ← colorTransfer stream
        return {
          width := width.toNat
          height := height.toNat
          width_pos := Int.pos_iff_toNat_pos.mp h.1
          height_pos := Int.pos_iff_toNat_pos.mp h.2.1
          hdr := transfer.any (· ∈ hdrTransfers)
          frameRate := frameRate texts ((stream.get "avg_frame_rate").toOption.bind id)
          colorTransfer := transfer
          durationSeconds := duration
          duration_pos := h.2.2 }
      else .error (.objectStore
        ("ffprobe reported a non-positive dimension or duration: " ++
          s!"{width}x{height}, {numbers.str duration}s") unprocessableVideo)

/-- `probe_source`, of what ffprobe has come to. -/
def probeSource (numbers : NumberTexts) (texts : JsonTexts) (path : String)
    (timeoutSeconds : ℕ) : ToolEnd → Except StepError ProbedSource
  | .died => .error .died
  | .raised text => .error (.other text)
  | .timedOut => .error (.objectStore s!"ffprobe timed out after {timeoutSeconds}s on {path}"
      unprocessableVideo)
  | .exited returncode stdout stderr _ =>
      if returncode ≠ 0 then
        let detail := String.ofList ((strip stderr).toList.take 500)
        .error (.objectStore
          ("ffprobe failed: " ++ if detail = "" then "no ffprobe error output" else detail)
          unprocessableVideo)
      else
        match texts.loads stdout with
        | none => .error (.objectStore
            ("ffprobe returned output that is not JSON: " ++
              texts.repr (.str (String.ofList (stdout.toList.take 200)))) unprocessableVideo)
        | some payload =>
            match payload.get "streams" with
            | .error _ => .error (.other "AttributeError")
            | .ok streams =>
                match streams.filter Json.truthy with
                | none => .error (.objectStore s!"ffprobe found no video stream in {path}"
                    noVideoStream)
                | some streams => probeStreams numbers texts payload streams

/-- An error whose message for the uploader, if it has one, is of a kind. -/
def StepError.Says (kind : String → Prop) : StepError → Prop
  | objectStore _ userMessage => kind userMessage
  | other _ | died => True

/-- The messages of the probe. -/
def ProbeMessage (message : String) : Prop :=
  message = unprocessableVideo ∨ message = noVideoStream

theorem probeStreams_error {numbers : NumberTexts} {texts : JsonTexts} {payload streams : Json}
    {e : StepError} (hprobe : probeStreams numbers texts payload streams = .error e) :
    e.Says ProbeMessage := by
  unfold probeStreams at hprobe
  dsimp only at hprobe
  split at hprobe
  · obtain rfl := Except.error.inj hprobe
    trivial
  · obtain rfl := Except.error.inj hprobe
    exact Or.inl rfl
  · split at hprobe
    · rename_i stream _ _ _ _ hpos
      cases htransfer : colorTransfer stream with
      | ok transfer =>
          rw [htransfer] at hprobe
          exact absurd hprobe (by simp [bind, Except.bind, pure, Except.pure])
      | error raised =>
          rw [htransfer] at hprobe
          obtain rfl : raised = e := Except.error.inj hprobe
          unfold colorTransfer at htransfer
          split at htransfer
          case h_2 | h_3 | h_5 =>
            obtain rfl := Except.error.inj htransfer
            trivial
          all_goals exact absurd htransfer (by simp)
    · obtain rfl := Except.error.inj hprobe
      exact Or.inl rfl

/-- A refusal by the probe carries one of its two messages. -/
theorem probeSource_error {numbers : NumberTexts} {texts : JsonTexts} {path : String}
    {timeoutSeconds : ℕ} {ended : ToolEnd} {e : StepError}
    (hprobe : probeSource numbers texts path timeoutSeconds ended = .error e) :
    e.Says ProbeMessage := by
  unfold probeSource at hprobe
  split at hprobe
  · obtain rfl := Except.error.inj hprobe
    trivial
  · obtain rfl := Except.error.inj hprobe
    trivial
  · obtain rfl := Except.error.inj hprobe
    exact Or.inl rfl
  · split at hprobe
    · obtain rfl := Except.error.inj hprobe
      exact Or.inl rfl
    split at hprobe
    · obtain rfl := Except.error.inj hprobe
      exact Or.inl rfl
    split at hprobe
    · obtain rfl := Except.error.inj hprobe
      trivial
    split at hprobe
    · obtain rfl := Except.error.inj hprobe
      exact Or.inr rfl
    · exact probeStreams_error hprobe

end Worker
end MediaPlayer
