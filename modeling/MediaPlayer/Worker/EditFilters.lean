import MediaPlayer.Schemas.Edit
import MediaPlayer.Worker.VideoFilters

/-!
# The filters of an edit

`app/worker/edit_ops` and `build_edit_command` of `app/worker/operations.py`: what every
operation adds to the command, the order it is put together in, and the arguments FFmpeg gets.

* `filterChain` — the filters of a request, split where the tone map goes.
* `buildEditCommand` — the whole command.
-/

namespace MediaPlayer
namespace Worker

open Models Services Schemas

/-- One filter of the sound's chain. -/
inductive AudioFilter
  | restart
  | tempo (factor : ℚ)
  deriving DecidableEq

def AudioFilter.text (numbers : NumberTexts) : AudioFilter → String
  | restart => "asetpts=PTS-STARTPTS"
  | tempo factor => s!"atempo={numbers.str factor}"

/-- What building a command may raise. -/
inductive EditError
  | mediaRule (message : String)
  | key (name : String)
  | objectStore (message userMessage : String)
  deriving DecidableEq

/-- `FilterStep`. -/
structure FilterStep where
  video : List VideoFilter := []
  audio : List AudioFilter := []
  deriving DecidableEq

/-- `EditFilter`, for an operation whose parameters are known. -/
abbrev EditFilter := Services.Frame → Except EditError FilterStep

/-- `FILTERS`: the operations that are not in the table have no filters. -/
abbrev EditFilters := EditOperation → Option EditFilter

namespace EditOps

/-- `DEFAULTS` and the values of an adjustment, in the order of the filter's options. -/
def adjustValues (brightness contrast saturation gamma : Option ℚ) :
    List (String × ℚ × Option ℚ) :=
  [("brightness", 0, brightness), ("contrast", 1, contrast), ("saturation", 1, saturation),
    ("gamma", 1, gamma)]

def adjust (brightness contrast saturation gamma : Option ℚ) : EditFilter := fun _ =>
  let options := (adjustValues brightness contrast saturation gamma).filterMap
    fun (name, default, value) =>
      value.bind fun value => if value ≠ default then some (name, value) else none
  if options = [] then .ok {} else .ok { video := [.eq options] }

def crop (x y w h : ℕ) : EditFilter := fun _ => .ok { video := [.crop x y w h] }

def flip (axis : FlipAxis) : EditFilter := fun _ =>
  .ok { video := [if axis = .horizontal then .hflip else .vflip] }

/-- `PRESET_FILTERS`. -/
def presetFilters : List (String × List String) :=
  [("bw", ["eq=saturation=0"]),
    ("warm", ["eq=saturation=1.12:brightness=0.02", "colorbalance=rm=0.08:bm=-0.08"]),
    ("cool", ["eq=saturation=1.05:brightness=0.01", "colorbalance=rm=-0.06:bm=0.08"]),
    ("vintage", ["eq=saturation=0.82:contrast=0.95", "curves=preset=vintage"]),
    ("vivid", ["eq=saturation=1.38:contrast=1.12", "colorbalance=rm=0.03:bm=0.03"])]

def preset (name : String) : EditFilter := fun _ =>
  let matrix := "scale=in_color_matrix=auto:out_color_matrix=bt709:out_range=tv"
  let tags := "setparams=colorspace=bt709:range=limited"
  match presetFilters.lookup name with
  | none => .error (.key name)
  | some filters => .ok
      { video := ([matrix, "format=yuv444p", tags] ++ filters ++
          [matrix, "format=yuv420p", tags]).map .look }

/-- `_FILTERS`. -/
def rotateFilters : List (ℕ × List VideoFilter) :=
  [(90, [.transpose 1]), (180, [.hflip, .vflip]), (270, [.transpose 2])]

def rotate (degrees : ℕ) : EditFilter := fun _ =>
  match rotateFilters.lookup degrees with
  | none => .error (.key s!"{degrees}")
  | some video => .ok { video }

def downscale (height : ℕ) : EditFilter := fun _ => .ok { video := [.scaleTo height] }

def upscale (height : ℕ) : EditFilter := fun _ => .ok { video := [.scaleUp height] }

def speed (factor : ℚ) : EditFilter := fun _ =>
  .ok { video := [.retime factor], audio := [.restart, .tempo factor] }

/-- `FILTERS`: a clip is a seek in the input and a conversion the format of the output. -/
def filters : EditFilters
  | .adjust brightness contrast saturation gamma =>
      some (adjust brightness contrast saturation gamma)
  | .crop x y w h => some (crop x y w h)
  | .flip axis => some (flip axis)
  | .preset name => some (preset name)
  | .rotate degrees => some (rotate degrees)
  | .downscale height => some (downscale height)
  | .upscale height => some (upscale height)
  | .speed factor => some (speed factor)
  | .clip .. | .convert _ => none

end EditOps

/-! ## The chain -/

/-- `TONE_MAPPED_FROM`. -/
def toneMappedFrom : OperationName := .adjust

/-- The operations from here on work on the tone-mapped picture. -/
def toneMapped (name : OperationName) : Bool :=
  operationOrder.idxOf toneMappedFrom ≤ operationOrder.idxOf name

/-- `FilterChain`. -/
structure FilterChain where
  beforeToneMap : List VideoFilter := []
  afterToneMap : List VideoFilter := []
  audio : List AudioFilter := []
  deriving DecidableEq

namespace FilterChain

/-- `FilterChain.video`. -/
def video (chain : FilterChain) : List VideoFilter := chain.beforeToneMap ++ chain.afterToneMap

/-- The chain with the filters of one more operation. -/
def extend (chain : FilterChain) (operation : EditOperation) (step : FilterStep) : FilterChain :=
  if toneMapped (operationName operation) then
    { chain with afterToneMap := chain.afterToneMap ++ step.video
                 audio := chain.audio ++ step.audio }
  else
    { chain with beforeToneMap := chain.beforeToneMap ++ step.video
                 audio := chain.audio ++ step.audio }

end FilterChain

/-- What an operation adds: nothing, if it is not in the table. -/
def buildStep (filters : EditFilters) (operation : EditOperation) (frame : Services.Frame) :
    Except EditError FilterStep :=
  match filters operation with
  | none => .ok {}
  | some build => build frame

/-- One turn of `filter_chain`: the filters are built for the frame, and then the operation's
rule says what the frame becomes. -/
def chainStep (filters : EditFilters) (state : FilterChain × Services.Frame)
    (operation : EditOperation) : Except EditError (FilterChain × Services.Frame) := do
  let step ← buildStep filters operation state.2
  let frame ← (checkOperation state.2 operation).mapError .mediaRule
  return (state.1.extend operation step, frame)

/-- `filter_chain`. -/
def filterChain (filters : EditFilters) (operations : List EditOperation) (frame : Services.Frame) :
    Except EditError FilterChain := do
  let state ← (ordered operations).foldlM (chainStep filters) ({}, frame)
  return state.1

/-! ## The command -/

/-- What `build_edit_command` is called with beside the request and the frame. -/
structure EditSettings where
  ffmpegBinary : String
  sourcePath : String
  outputPath : String
  preset : String
  crf : ℕ
  maxFps : ℕ := 30
  hdr : Bool := false

/-- `BT709_TAGS`. -/
def bt709Tags : List String :=
  ["-colorspace", "bt709", "-color_primaries", "bt709", "-color_trc", "bt709"]

/-- The chain of the picture: the tone map between the geometry and the colour. -/
def editVideoFilters (settings : EditSettings) (chain : FilterChain) : List VideoFilter :=
  [.capRate settings.maxFps] ++ chain.beforeToneMap ++ sdrFilters settings.hdr ++
    chain.afterToneMap

/-- The arguments of the sound's chain. -/
def audioArguments (numbers : NumberTexts) (chain : FilterChain) : List String :=
  if chain.audio = [] then []
  else ["-af", ",".intercalate (chain.audio.map (·.text numbers))]

/-- The arguments between the input and the output. -/
def outputArguments (numbers : NumberTexts) (settings : EditSettings) (request : EditRequest)
    (chain : FilterChain) : Except EditError (List String) :=
  if request.outputExtension = "mp3" then
    if request.operations.any fun operation => changesPicture (operationName operation) then
      .error (.objectStore "video filters cannot produce an audio-only output"
        "edits that change the picture cannot be combined with MP3 conversion")
    else
      .ok (["-vn"] ++ audioArguments numbers chain ++ ["-c:a", "libmp3lame"])
  else if request.outputExtension = "mkv" ∧ chain.video = [] ∧ chain.audio = [] then
    .ok ["-c", "copy"]
  else
    .ok (["-vf", ",".intercalate ((editVideoFilters settings chain).map (·.text numbers))] ++
      audioArguments numbers chain ++ (if settings.hdr then bt709Tags else []) ++
      ["-c:v", "libx264", "-preset", settings.preset, "-crf", s!"{settings.crf}", "-c:a", "aac"] ++
      if request.outputExtension = "mp4" then ["-movflags", "+faststart"] else [])

/-- The arguments that seek in the input. -/
def seekArguments (numbers : NumberTexts) (request : EditRequest) : List String :=
  match request.operation .clip with
  | some (.clip start finish) => ["-ss", numbers.str start, "-to", numbers.str finish]
  | _ => []

/-- The frame an edit starts from: unknown, where it was not probed. -/
def startFrame (frame : Option Services.Frame) : Services.Frame := frame.getD ⟨none, none⟩

/-- `build_edit_command`. -/
def buildEditCommand (numbers : NumberTexts) (settings : EditSettings) (request : EditRequest)
    (frame : Option Services.Frame) : Except EditError (List String) := do
  let chain ← filterChain EditOps.filters request.operations (startFrame frame)
  let output ← outputArguments numbers settings request chain
  return [settings.ffmpegBinary, "-hide_banner", "-loglevel", "error"] ++
    seekArguments numbers request ++ ["-i", settings.sourcePath] ++ output ++
    ["-y", settings.outputPath]

end Worker
end MediaPlayer
