import Mathlib.Data.List.Sort
import MediaPlayer.Library.Lines

/-!
# Extra renditions of a ladder

The pure half of `app/worker/renditions.py`: which heights a rendition gets, what it is
listed as, and how its entries are added to the text of a master playlist.  What only
FFmpeg reads of a plan is left out.

* `listedRung` — what a rung of a source is listed as.
* `addToMaster` — the playlist with one more entry.
-/

namespace MediaPlayer
namespace Worker

open Library

/-- The two kinds this module builds. -/
inductive RenditionKind
  | hdr
  | av1
  deriving DecidableEq

def RenditionKind.name : RenditionKind → String
  | hdr => "hdr"
  | av1 => "av1"

/-- `SourceProbe`, as far as renditions and ladders read it; `probe_source` refuses a
picture without a size. -/
structure SourceProbe where
  width : ℕ
  height : ℕ
  width_pos : 0 < width
  height_pos : 0 < height
  hdr : Bool := false
  frameRate : Option ℚ := none
  colorTransfer : Option String := none
  deriving DecidableEq

/-- `RUNGS`. -/
def renditionRungs : RenditionKind → List ℕ
  | .hdr => [1080, 720, 360]
  | .av1 => [1080, 720, 360]

def av1MaxSourceHeight : ℕ := 1080

/-- `rungs_for`: a source shorter than every rung keeps its own height. -/
def rungsFor (kind : RenditionKind) (sourceHeight : ℕ) : List ℕ :=
  let heights := (renditionRungs kind).filter (· ≤ sourceHeight)
  if heights = [] then [sourceHeight] else heights

/-- `TRANSFER_CODE`. -/
def transferCode (transfer : String) : Option String :=
  if transfer = "smpte2084" then some "16"
  else if transfer = "arib-std-b67" then some "18"
  else none

/-- `VIDEO_RANGE`. -/
def videoRange (transfer : String) : String := if transfer = "smpte2084" then "PQ" else "HLG"

/-- `_level`. -/
def av1Level (height : ℕ) : String :=
  if height ≤ 540 then "04" else if height ≤ 720 then "05" else "08"

/-- What a rendition is listed as. -/
structure RenditionPlan where
  kind : RenditionKind
  codecs : String
  videoRange : String
  deriving DecidableEq

/-- `plan_rendition`: `none` if this source should not get this kind. -/
def planRendition (kind : RenditionKind) (probe : SourceProbe) (height : ℕ) :
    Option RenditionPlan :=
  match kind with
  | .hdr =>
      if probe.hdr then
        probe.colorTransfer.bind fun transfer => (transferCode transfer).map fun code =>
          ⟨.hdr, s!"av01.0.{av1Level height}M.10.0.110.09.{code}.09.0", videoRange transfer⟩
      else none
  | .av1 =>
      if av1MaxSourceHeight < probe.height then none
      else some ⟨.av1, s!"av01.0.{av1Level height}M.08", "SDR"⟩

/-- `even_width`. -/
def evenWidth (width height targetHeight : ℕ) : ℕ :=
  max 2 ((roundHalfEven (width * targetHeight / height / 2 : ℚ)).toNat * 2)

/-- What `run` lists of one rung: the arguments of `add_to_master`. -/
structure Listed where
  plan : RenditionPlan
  rung : ℕ
  resolution : String
  peak : ℕ
  average : ℕ
  deriving DecidableEq

/-- What `run` lists of a rung, with the bandwidth it measured. -/
def listedRung (kind : RenditionKind) (probe : SourceProbe) (rung : ℕ) (bandwidth : ℕ × ℕ) :
    Option Listed :=
  (planRendition kind probe rung).map fun plan =>
    { plan := plan
      rung := rung
      resolution := s!"{evenWidth probe.width probe.height rung}x{rung}"
      peak := bandwidth.1
      average := bandwidth.2 }

/-! ## The text of a master -/

def streamInf : String := "#EXT-X-STREAM-INF:"

/-- The loop of `_entries`; `started` says whether an entry was found before. -/
def entriesFrom (started : Bool) : List String → List String × List (String × String)
  | [] => ([], [])
  | [line] => (if started then [] else [line], [])
  | line :: uri :: rest =>
      if startsWith line streamInf then
        let (head, entries) := entriesFrom true rest
        (head, (line, uri) :: entries)
      else
        let (head, entries) := entriesFrom started (uri :: rest)
        (if started then head else line :: head, entries)

/-- `_entries`: the playlist's head, and its `(STREAM-INF, URI)` pairs in order. -/
def entriesOf (master : String) : List String × List (String × String) :=
  entriesFrom false ((splitLines master).filter fun line => strip line ≠ "")

/-- `_rank`, with the table `ORDER`. -/
def rank (uri : String) : ℕ :=
  if beforeFirst '/' uri = "hdr" then 0 else if beforeFirst '/' uri = "av1" then 1 else 2

/-- The lines a playlist is written with. -/
def masterLines (head : List String) (entries : List (String × String)) : List String :=
  head ++ entries.flatMap fun entry => [entry.1, entry.2]

def renditionUri (kind : RenditionKind) (rung : ℕ) : String := s!"{kind.name}/{rung}/index.m3u8"

def Listed.uri (listed : Listed) : String := renditionUri listed.plan.kind listed.rung

/-- The attributes of a rung that are its own. -/
def Listed.attributes (listed : Listed) (audioCodec : String) : List String :=
  [s!"BANDWIDTH={listed.peak + 128000}", s!"AVERAGE-BANDWIDTH={listed.average + 128000}",
    s!"RESOLUTION={listed.resolution}", "CODECS=\"" ++ listed.plan.codecs ++ audioCodec ++ "\"",
    s!"VIDEO-RANGE={listed.plan.videoRange}"]

/-- The STREAM-INF line of a rung, in the ladder's audio group and frame rate. -/
def Listed.info (listed : Listed) (first : String) : String :=
  let audio := (searchQuoted "AUDIO=\"".toList first.toList).map String.ofList
  let rate := (searchNumber "FRAME-RATE=".toList first.toList).map String.ofList
  let audioCodec := if audio.isSome then ",mp4a.40.2" else ""
  streamInf ++ ",".intercalate
    (listed.attributes audioCodec ++
      (audio.map fun group => "AUDIO=\"" ++ group ++ "\"").toList ++
      (rate.map fun rate => s!"FRAME-RATE={rate}").toList)

/-- The first entry of a picture. -/
def firstVideo (entries : List (String × String)) : String :=
  ((entries.find? fun entry => contains entry.1 "RESOLUTION=").map (·.1)).getD ""

/-- The entries of a playlist with one more, sorted by rank. -/
def addEntry (entries : List (String × String)) (listed : Listed) : List (String × String) :=
  (entries ++ [(listed.info (firstVideo entries), listed.uri)]).insertionSort
    fun a b => rank a.2 ≤ rank b.2

/-- `add_to_master`. -/
def addToMaster (master : String) (listed : Listed) : String :=
  if contains master listed.uri then master
  else
    let (head, entries) := entriesOf master
    joinLines (masterLines head (addEntry entries listed))

end Worker
end MediaPlayer
