import MediaPlayer.Worker.ChunkedEncode
import MediaPlayer.Worker.Hls
import MediaPlayer.Worker.PieceAttempts

/-!
# Filter chains

The filters the worker hands to FFmpeg, as `app/worker/storage.py`, `app/worker/chunked.py`,
`app/worker/hls.py` and `app/worker/ladder_pieces.py` put them together.  A filter is a value
here; `VideoFilter.text` is what stands in the command.

* `mp4VideoFilters`, `pieceFilters` — the chain of an MP4, and of a piece of one.
* `ladderGraph` — the graph of a ladder, whole or in pieces.
-/

namespace MediaPlayer
namespace Worker

open Library

/-- How Python writes the numbers of a command: `str(x)` and `format(x, ".4g")`. -/
structure NumberTexts where
  str : ℚ → String
  general : ℚ → String

/-- One filter of a chain. -/
inductive VideoFilter
  | capRate (maxFps : ℕ)
  | rate (rate : ℚ)
  | restart
  | restartAt (ticks : ℤ)
  | scaleCapped (maxHeight : ℕ)
  | scaleTo (height : ℕ)
  | scaleUp (height : ℕ)
  | crop (x y w h : ℕ)
  | transpose (direction : ℕ)
  | hflip
  | vflip
  | toneMap
  | pixels
  | eq (options : List (String × ℚ))
  | look (text : String)
  | retime (factor : ℚ)
  deriving DecidableEq

def VideoFilter.text (numbers : NumberTexts) : VideoFilter → String
  | capRate maxFps => s!"fps=fps=min({maxFps}\\,source_fps)"
  | rate perSecond => s!"fps=fps={perSecond.num}/{perSecond.den}"
  | restart => "setpts=PTS-STARTPTS"
  | restartAt ticks => s!"setpts=PTS-STARTPTS+{ticks}"
  | scaleCapped maxHeight => s!"scale=-2:min({maxHeight}\\,ih)"
  | scaleTo height => s!"scale=-2:{height}"
  | scaleUp height => s!"scale=-2:{height}:flags=lanczos"
  | crop x y w h => s!"crop={w}:{h}:{x}:{y}"
  | transpose direction => s!"transpose={direction}"
  | hflip => "hflip"
  | vflip => "vflip"
  | toneMap => "zscale=t=linear:npl=100,format=gbrpf32le,zscale=p=bt709," ++
      "tonemap=tonemap=hable:desat=0,zscale=t=bt709:m=bt709:r=tv"
  | pixels => "format=yuv420p"
  | eq options => "eq=" ++
      ":".intercalate (options.map fun option => s!"{option.1}={numbers.general option.2}")
  | look filter => filter
  | retime factor => s!"setpts=(PTS-STARTPTS)/{numbers.str factor}"

/-- `sdr_filters`. -/
def sdrFilters (hdr : Bool) : List VideoFilter := if hdr then [.toneMap, .pixels] else [.pixels]

/-- `mp4_video_filters`. -/
def mp4VideoFilters (maxFps maxHeight : ℕ) (hdr : Bool) : List VideoFilter :=
  [.capRate maxFps, .scaleCapped maxHeight] ++ sdrFilters hdr

/-- The chain of a piece of an MP4: on the video's own clock, if the plan is exact. -/
def pieceFilters (plan : PiecePlan) (index : ℕ) : List VideoFilter :=
  let filters := mp4VideoFilters plan.maxFps plan.maxHeight plan.hdr
  (if plan.exact then
    [.restartAt (plan.startTicks.getD index 0), .rate (plan.outputRate.getD 0)] ++ filters.tail
  else filters) ++ [.restart]

/-! ## The graph of a ladder -/

/-- The names of the links between the parts of a graph. -/
inductive GraphLabel
  | video
  | source (height : ℕ)
  | anchor (height : ℕ)
  | out (index : ℕ)
  deriving DecidableEq

def GraphLabel.text : GraphLabel → String
  | video => "[0:v]"
  | source height => s!"[s{height}]"
  | anchor height => s!"[a{height}]"
  | out index => s!"[v{index}out]"

/-- One part of a graph: its chain, and the outputs its picture is split into. -/
structure GraphPart where
  input : GraphLabel
  filters : List VideoFilter
  split : Bool
  outputs : List GraphLabel

def GraphPart.text (numbers : NumberTexts) (part : GraphPart) : String :=
  part.input.text ++ ",".intercalate (part.filters.map (·.text numbers) ++
    if part.split then [s!"split={part.outputs.length}"] else []) ++
    String.join (part.outputs.map (·.text))

/-- `CASCADE_FROM`. -/
def cascadeFrom : ℕ := 1080

/-- The rungs below the anchor, if the ladder has it. -/
def fromAnchor (heights : List ℕ) : List ℕ :=
  if cascadeFrom ∈ heights then heights.filter (· < cascadeFrom) else []

/-- The rungs that are scaled from the source. -/
def fromSource (heights : List ℕ) : List ℕ :=
  if cascadeFrom ∈ heights then heights.filter (cascadeFrom ≤ ·) else heights

/-- The part that makes one rung from the source. -/
def sourcePart (heights : List ℕ) (height : ℕ) : GraphPart :=
  if height = cascadeFrom ∧ fromAnchor heights ≠ [] then
    ⟨.source height, [.scaleTo height], true,
      .out (heights.idxOf height) :: (fromAnchor heights).map .anchor⟩
  else ⟨.source height, [.scaleTo height], false, [.out (heights.idxOf height)]⟩

/-- `_ladder_filter`, before its parts are joined; `rateFilters` replaces the rate cap. -/
def ladderGraph (heights : List ℕ) (maxFps : ℕ) (hdr : Bool)
    (rateFilters : Option (List VideoFilter)) : List GraphPart :=
  [⟨.video, rateFilters.getD [.capRate maxFps] ++ sdrFilters hdr, true,
      (fromSource heights).map .source⟩] ++
    (fromSource heights).map (sourcePart heights) ++
    (fromAnchor heights).map fun height =>
      ⟨.anchor height, [.scaleTo height], false, [.out (heights.idxOf height)]⟩

/-- `_ladder_filter`. -/
def ladderFilter (numbers : NumberTexts) (heights : List ℕ) (maxFps : ℕ) (hdr : Bool)
    (rateFilters : Option (List VideoFilter)) : String :=
  ";".intercalate ((ladderGraph heights maxFps hdr rateFilters).map (·.text numbers))

/-- The head of a piece's graph, which replaces the rate cap. -/
def ladderPieceHead (plan : LadderPlan) (index : ℕ) : List VideoFilter :=
  [.restartAt (plan.startTicks.getD index 0), .rate plan.outputRate, .restart]

/-- The graph of a piece of a ladder. -/
def ladderPieceGraph (plan : LadderPlan) (index : ℕ) : List GraphPart :=
  ladderGraph plan.heights plan.maxFps plan.hdr (some (ladderPieceHead plan index))

end Worker
end MediaPlayer
