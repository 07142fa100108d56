import MediaPlayer.Library.Lines
import MediaPlayer.Library.Raising
import MediaPlayer.Library.StepSystem
import MediaPlayer.Worker.EditFilters
import MediaPlayer.Worker.EditValidation
import MediaPlayer.Worker.Probing
import MediaPlayer.Worker.StoredKeys

/-!
# One run of a processing step

`FfmpegProcessor.run` of `app/worker/storage.py` and `EditProcessor.run` of
`app/worker/operations.py`, with the methods of `MinioObjectStore` they call, the poster frame of
`app/worker/thumbnail.py` and the checks of `app/worker/validation.py`.

* `StepWorld` — how the calls of a run end: any call may raise, FFmpeg may fail, time out or
  write nothing, and the process may die at every one of them.
* `FfmpegProcessor.run`, `EditProcessor.run` — the runs, on what is in storage.

What `ChunkedMp4.encode` does is in the world: whatever it leaves in its folder of pieces, and
its raise sites.  Temporary files are named, and what a tool wrote is what is uploaded.
-/

namespace MediaPlayer
namespace Worker

open Library Models Schemas Services

/-! ## The object store -/

/-- An object in storage. -/
structure StoredFile where
  contentType : String
  content : List UInt8
  deriving DecidableEq

/-- What is in storage under every key. -/
abbrev Objects := String → Option StoredFile

/-- What a call of the MinIO client raises: an `S3Error` with its code, or anything else. -/
inductive ClientRaise
  | s3Error (code : String)
  | other (text : String)
  | died

inductive StoreCall
  | statObject (key : String)
  | fgetObject (key : String)
  | fputObject (key : String)

/-- How a call on the store ends: it may raise, whether or not it took effect. -/
structure StoreEnd where
  outcome : CallOutcome := .returned
  raises : ClientRaise := .other ""

/-- Where a run of `ChunkedMp4.encode` raises. -/
inductive PiecedError
  | cleanup (code : String)
  | unfinished
  | timedOut (what : String)
  | ffmpegFailed (what stderr : String)
  | audioFailed (stderr : String)
  | download (index : ℕ) (code : String)
  | unmeasured (piece stderr : String)
  | other (text : String)
  | died

/-- How `ChunkedMp4.encode` ends: it returns False, has joined the pieces, or raises. -/
inductive PiecedEnd
  | declined
  | joined (written : Option (List UInt8))
  | raised (error : PiecedError)

/-- What a run meets. -/
structure StepWorld where
  tempDir : String
  store : StoreCall → StoreEnd
  tool : List String → ToolEnd
  pieced : PiecedEnd
  /-- What the coordinator and its helpers leave in the folder of pieces. -/
  pieces : Objects
  numbers : NumberTexts
  /-- `format(x, ".3f")`. -/
  milliseconds : ℚ → String
  texts : JsonTexts

/-- A run works on what is in storage and may raise. -/
abbrev Step := EStateM StepError Objects

namespace StepWorld

variable (w : StepWorld)

def sourcePath : String := w.tempDir ++ "/source"

/-- A call of the client. -/
def call {α : Type} (call : StoreCall) (act : Objects → Except String (α × Objects)) :
    EStateM ClientRaise Objects α := fun objects =>
  let ending := w.store call
  match ending.outcome with
  | .raisedBefore => .error ending.raises objects
  | outcome =>
      match act objects with
      | .error code => .error (.s3Error code) objects
      | .ok (a, after) => if outcome = .returned then .ok a after else .error ending.raises after

/-- `except S3Error as exc: raise ObjectStoreError(…)`. -/
def refusing {α : Type} (diagnostic : String → String) (userMessage : String)
    (x : EStateM ClientRaise Objects α) : Step α :=
  x.adaptExcept fun
    | .s3Error code => .objectStore (diagnostic code) userMessage
    | .other text => .other text
    | .died => .died

/-- The codes of an object that is not there. -/
def absentCodes : List String := ["NoSuchKey", "NoSuchObject", "NotFound"]

/-- `object_exists`. -/
def objectExists (key : String) : Step Bool :=
  refusing (fun code => s!"object store error checking {key}: {code}")
      "storage could not be reached; please try again" <|
    tryCatch
      (do
        let _ ← w.call (.statObject key) fun objects =>
          match objects key with
          | none => .error "NoSuchKey"
          | some _ => .ok ((), objects)
        return true)
      fun
        | .s3Error code => if code ∈ absentCodes then return false else throw (.s3Error code)
        | e => throw e

/-- `download_file`. -/
def downloadFile (key : String) : Step Unit :=
  refusing (fun code => s!"download failed for {key}: {code}")
      "the uploaded file could not be read back; please try again" <|
    w.call (.fgetObject key) fun objects =>
      match objects key with
      | none => .error "NoSuchKey"
      | some _ => .ok ((), objects)

/-- `upload_file`. -/
def uploadFile (key contentType : String) (content : List UInt8) : Step Unit :=
  refusing (fun code => s!"upload failed for {key}: {code}")
      "the processed video could not be saved; please try again" <|
    w.call (.fputObject key) fun objects =>
      .ok ((), Function.update objects key (some ⟨contentType, content⟩))

/-- The check a run begins with. -/
def requireSource (key userMessage : String) : Step Unit := do
  if ← w.objectExists key then return ()
  else throw (.objectStore s!"source object missing from storage: {key}" userMessage)

end StepWorld

/-- `except Exception:`, which a process that dies goes past. -/
def catchException {α : Type} (x handler : Step α) : Step α :=
  tryCatch x fun
    | .died => throw .died
    | _ => handler

/-- An exception of a pure part of a run. -/
def liftExcept {α : Type} : Except StepError α → Step α
  | .ok a => return a
  | .error e => throw e

/-- The last lines of what FFmpeg said, for the log. -/
def lastLines (stderr : String) : String :=
  let lines := splitLines (strip stderr)
  String.ofList (("\n".intercalate (lines.drop (lines.length - 5))).toList.take 1000)

def orNoOutput (detail : String) : String :=
  if detail = "" then "no FFmpeg error output" else detail

/-! ## The poster frame -/

/-- `thumbnail_offset`. -/
def thumbnailOffset (durationSeconds : ℚ) : ℚ :=
  if durationSeconds ≤ 0 then 0
  else min (min (max (durationSeconds / 10) 1) 30) (durationSeconds / 2)

/-- What an `extract_thumbnail` is bound to. -/
structure Thumbnailer where
  ffmpegBinary : String
  maxWidth : ℕ
  maxHeight : ℕ
  timeoutSeconds : ℕ

/-- `build_thumbnail_command`. -/
def Thumbnailer.command (thumbnailer : Thumbnailer) (w : StepWorld) (source output : String)
    (probe : ProbedSource) : List String :=
  let scale := "scale=w='min(" ++ toString thumbnailer.maxWidth ++ ",iw)':h='min(" ++
    toString thumbnailer.maxHeight ++ ",ih)':force_original_aspect_ratio=decrease"
  [thumbnailer.ffmpegBinary, "-hide_banner", "-loglevel", "error",
    "-ss", w.milliseconds (thumbnailOffset probe.durationSeconds), "-i", source,
    "-frames:v", "1", "-an",
    "-vf", if probe.hdr then scale ++ "," ++ VideoFilter.toneMap.text w.numbers else scale,
    "-q:v", "4", "-y", output]

/-- `extract_thumbnail`: the picture, or a `ThumbnailError`. -/
def Thumbnailer.extract (thumbnailer : Thumbnailer) (w : StepWorld) (source output : String)
    (probe : ProbedSource) : Except StepError (List UInt8) :=
  match w.tool (thumbnailer.command w source output probe) with
  | .died => .error .died
  | .raised text => .error (.other text)
  | .timedOut => .error (.other s!"thumbnail timed out after {thumbnailer.timeoutSeconds}s")
  | .exited returncode _ stderr written =>
      if returncode ≠ 0 then
        let said := (strip stderr).toList
        .error (.other ("thumbnail extraction failed: " ++
          orNoOutput (String.ofList (said.drop (said.length - 500)))))
      else
        match written.filter (· ≠ []) with
        | none => .error (.other "FFmpeg produced no thumbnail frame")
        | some picture => .ok picture

/-- `THUMBNAIL_CONTENT_TYPE`. -/
def thumbnailContentType : String := "image/jpeg"

/-! ## The MP4 of an upload -/

/-- A `probe_source` with its settings. -/
structure Prober where
  ffprobeBinary : String
  timeoutSeconds : ℕ

def Prober.probe (prober : Prober) (w : StepWorld) (path : String) :
    Except StepError ProbedSource :=
  probeSource w.numbers w.texts path prober.timeoutSeconds
    (w.tool (probeCommand prober.ffprobeBinary path))

/-- `FfmpegProcessor`.  `sourceCheck` is the limit `validate_source` is bound to, `chunked` the
shortest source `ChunkedMp4` wants, with its timeout. -/
structure FfmpegProcessor where
  outputPrefix : String
  ffmpegBinary : String := "ffmpeg"
  preset : String := "veryfast"
  crf : ℕ := 23
  maxHeight : ℕ := 1080
  timeoutSeconds : ℕ := 870
  buildsLadder : Bool := false
  prober : Option Prober := none
  sourceCheck : Option ℕ := none
  thumbnailer : Option Thumbnailer := none
  chunked : Option (ℕ × ℕ) := none
  reportsProgress : Bool := false

/-- The exception of a pieced encode, in the prefix of its pieces. -/
def PiecedError.error (piecesPrefix : String) (timeoutSeconds : ℕ) : PiecedError → StepError
  | cleanup code => .objectStore s!"cleanup failed under {piecesPrefix}: {code}"
      "storage could not be reached; please try again"
  | unfinished => .objectStore s!"pieces not finished after {timeoutSeconds} seconds"
      "processing took too long; try a shorter or smaller video"
  | timedOut what => .objectStore s!"{what} timed out after {timeoutSeconds} seconds"
      "processing took too long; try a shorter or smaller video"
  | ffmpegFailed what stderr => .objectStore
      s!"FFmpeg failed on {what}: {orNoOutput (lastLines stderr)}" unprocessableVideo
  | audioFailed stderr =>
      let said := (strip stderr).toList
      .objectStore ("FFmpeg failed on the audio: " ++
        String.ofList (said.drop (said.length - 500))) unprocessableVideo
  | download index code => .objectStore
      s!"download failed for {piecesPrefix}{zeroPad 4 index}.mp4: {code}"
      "the uploaded file could not be read back; please try again"
  | unmeasured piece stderr => .objectStore s!"could not measure piece {piece}: {stderr}"
      unprocessableVideo
  | other text => .other text
  | died => .died

namespace FfmpegProcessor

variable (p : FfmpegProcessor) (w : StepWorld) (jobId : UUID)

def root : String := stripSlashes p.outputPrefix

/-- `pieces_prefix`. -/
def piecesPrefix : String := PieceKind.mp4.folder (jobFolder p.root jobId)

/-- `_probe`. -/
def probe : Step (Option ProbedSource) :=
  match p.prober, p.sourceCheck with
  | none, _ => return none
  | some prober, none =>
      catchException (some <$> liftExcept (prober.probe w w.sourcePath)) (return none)
  | some prober, some maxDurationSeconds => do
      let probe ← liftExcept (prober.probe w w.sourcePath)
      match checkSourceDuration probe.durationSeconds maxDurationSeconds with
      | .ok () => return some probe
      | .error message => throw (.objectStore s!"source refused by media rules: {message}" message)

/-- `_take_thumbnail`: the picture, if there is one. -/
def takeThumbnail (probe : Option ProbedSource) : Step (Option (List UInt8)) :=
  match p.thumbnailer, probe with
  | some thumbnailer, some probe =>
      catchException
        (some <$> liftExcept
          (thumbnailer.extract w w.sourcePath (w.tempDir ++ "/thumbnail.jpg") probe))
        (return none)
  | _, _ => return none

/-- `_store_thumbnail`: its key, if it could be stored. -/
def storeThumbnail (picture : Option (List UInt8)) : Step (Option String) :=
  match picture with
  | none => return none
  | some picture =>
      let key := thumbnailKeyFor p.root jobId
      catchException
        (do
          w.uploadFile key thumbnailContentType picture
          return some key)
        (return none)

/-- `self._chunked.wants(probe) and self._chunked.encode(…)`: what it has written, unless the
source is to be encoded in one run. -/
def encodePieces (probe : Option ProbedSource) : Step (Option (Option (List UInt8))) :=
  match p.chunked, probe with
  | some (minDurationSeconds, timeoutSeconds), some probe =>
      if minDurationSeconds ≤ probe.durationSeconds then do
        modify fun objects key =>
          if startsWith key (p.piecesPrefix jobId) then w.pieces key else objects key
        match w.pieced with
        | .declined => return none
        | .joined written => return some written
        | .raised error => throw (error.error (p.piecesPrefix jobId) timeoutSeconds)
      else return none
  | _, _ => return none

/-- The command of `_encode_once`. -/
def encodeCommand (output : String) (maxFps : ℕ) (hdr watching : Bool) : List String :=
  [p.ffmpegBinary, "-hide_banner", "-loglevel", "error", "-i", w.sourcePath,
    "-vf", ",".intercalate ((mp4VideoFilters maxFps p.maxHeight hdr).map (·.text w.numbers))] ++
    (if hdr then bt709Tags else []) ++
    ["-c:v", "libx264", "-preset", p.preset, "-crf", s!"{p.crf}", "-c:a", "aac",
      "-movflags", "+faststart"] ++
    (if watching then ["-progress", w.tempDir ++ "/progress.txt", "-nostats"] else []) ++
    ["-y", output]

/-- `_encode_once`: what is at the output path then. -/
def encodeOnce (output : String) (maxFps : ℕ) (probe : Option ProbedSource) :
    Step (Option (List UInt8)) :=
  let hdr := probe.any (·.hdr)
  let watching := p.reportsProgress && probe.isSome
  match w.tool (p.encodeCommand w output maxFps hdr watching) with
  | .died => throw .died
  | .raised text => throw (.other text)
  | .timedOut => throw (.objectStore s!"transcoding timed out after {p.timeoutSeconds} seconds"
      (s!"processing took too long and was stopped after about {p.timeoutSeconds / 60} minutes; " ++
        "try a shorter or smaller video"))
  | .exited returncode _ stderr written =>
      if returncode ≠ 0 then
        throw (.objectStore ("FFmpeg failed: " ++ orNoOutput (lastLines stderr))
          unprocessableVideo)
      else return written

/-- What is at the output path once the source has been encoded. -/
def encode (maxFps : ℕ) (probe : Option ProbedSource) : Step (Option (List UInt8)) := do
  match ← p.encodePieces w jobId probe with
  | some written => return written
  | none => p.encodeOnce w (w.tempDir ++ "/output.mp4") maxFps probe

/-- `run`. -/
def run (sourceKey : String) (maxFps : ℕ) : Step ProcessingResult := do
  w.requireSource sourceKey "the uploaded file is no longer in storage; please upload it again"
  let outputKey := outputKeyFor p.root jobId sourceKey
  w.downloadFile sourceKey
  let probe ← p.probe w
  let picture ← p.takeThumbnail w probe
  match ← p.encode w jobId maxFps probe with
  | none => throw (.objectStore "FFmpeg completed without producing an output file"
      unprocessableVideo)
  | some video =>
      w.uploadFile outputKey "video/mp4" video
      let thumbnailKey ← p.storeThumbnail w jobId picture
      return {
        outputKey
        ladderPending := p.buildsLadder && probe.isSome
        width := probe.map (·.width)
        height := probe.map (·.height)
        durationSeconds := probe.map (·.durationSeconds)
        thumbnailKey }

end FfmpegProcessor

/-! ## An edit -/

/-- `EditProcessor`, for the operations of a row. -/
structure EditProcessor where
  operations : List EditOperation
  outputPrefix : String
  ffmpegBinary : String := "ffmpeg"
  preset : String := "veryfast"
  crf : ℕ := 23
  timeoutSeconds : ℕ := 870
  prober : Prober
  thumbnailer : Option Thumbnailer := none

/-- `INVALID_EDIT`. -/
def invalidEdit : String := "the edit request is invalid; please submit it again"

/-- A `ValueError` of the checks, as the processor raises it. -/
def editRefused : Checked Unit → Step Unit
  | .ok () => return ()
  | .error message => throw (.objectStore "edit validation failed" message)

/-- What `build_edit_command` raises, as its caller sees it: a `ValueError` is no
`ObjectStoreError`. -/
def EditError.stepError : EditError → StepError
  | mediaRule message => .other message
  | key name => .other name
  | objectStore message userMessage => .objectStore message userMessage

/-- The content type of an output. -/
def editContentType (extension : String) : String :=
  if extension = "mkv" then "video/x-matroska"
  else if extension = "mp3" then "audio/mpeg"
  else "video/mp4"

namespace EditProcessor

variable (p : EditProcessor) (w : StepWorld) (jobId : UUID)

def root : String := stripSlashes p.outputPrefix

/-- `_request`: the persisted operations, validated once more. -/
def request : Step EditRequest :=
  if h : (1 ≤ p.operations.length ∧ p.operations.length ≤ operationOrder.length) ∧
      (∀ operation ∈ p.operations, ValidParams operation) ∧
      (p.operations.map operationName).Nodup ∧
      ¬ (.downscale ∈ p.operations.map operationName ∧
        .upscale ∈ p.operations.map operationName) then
    return ⟨p.operations, h.1, h.2.1, h.2.2.1, h.2.2.2⟩
  else throw (.objectStore "invalid persisted edit operations" invalidEdit)

/-- The check of the clip, if there is one. -/
def checkClip (request : EditRequest) (probe : ProbedSource) : Checked Unit :=
  match request.operation .clip with
  | some (.clip start finish) => validateClip start finish (some probe.durationSeconds)
  | _ => .ok ()

/-- The check of the crop, if there is one. -/
def checkCrop (request : EditRequest) (probe : ProbedSource) : Checked Unit :=
  match request.operation .crop with
  | some (.crop x y width height) =>
      validateCrop x y width height (some probe.width) (some probe.height)
  | _ => .ok ()

/-- The checks against the file that was downloaded. -/
def check (request : EditRequest) (probe : ProbedSource) : Step Unit := do
  editRefused (checkClip request probe)
  editRefused (checkCrop request probe)
  editRefused (checkEditOperations request.operations (some probe.height) (some probe.width))

/-- The probe and the checks, for more than a conversion. -/
def checked (request : EditRequest) : Step (Option ProbedSource) :=
  if request.operations.any fun operation => operationName operation ≠ .convert then do
    let probe ← liftExcept (p.prober.probe w w.sourcePath)
    check request probe
    return some probe
  else return none

/-- `_is_hdr`. -/
def isHdr (probe : Option ProbedSource) : Step Bool :=
  match probe with
  | some probe => return probe.hdr
  | none =>
      catchException ((·.hdr) <$> liftExcept (p.prober.probe w w.sourcePath)) (return false)

/-- The run of FFmpeg: what is at the output path then. -/
def encode (command : List String) : Step (List UInt8) :=
  match w.tool command with
  | .died => throw .died
  | .raised text => throw (.other text)
  | .timedOut => throw (.objectStore s!"editing timed out after {p.timeoutSeconds} seconds"
      "the edit took too long; try a shorter or smaller video")
  | .exited returncode _ stderr written =>
      if returncode ≠ 0 then
        throw (.objectStore ("FFmpeg edit failed: " ++ orNoOutput (lastLines stderr))
          unprocessableVideo)
      else
        match written with
        | none => throw (.objectStore "FFmpeg completed without producing an edit output"
            unprocessableVideo)
        | some edited => return edited

/-- `_probe_output`. -/
def probeOutput (output : String) : Step (Option ProbedSource) :=
  catchException (some <$> liftExcept (p.prober.probe w output)) (return none)

/-- `_thumbnail`. -/
def thumbnail (output : String) (produced : ProbedSource) : Step (Option String) :=
  match p.thumbnailer with
  | none => return none
  | some thumbnailer =>
      catchException
        (do
          let picture ← liftExcept
            (thumbnailer.extract w output (w.tempDir ++ "/" ++ thumbnailFilename) produced)
          let key := thumbnailKeyFor p.root jobId
          w.uploadFile key thumbnailContentType picture
          return some key)
        (return none)

/-- The result of an edit that has been uploaded: an MP3 has no picture. -/
def describe (outputKey extension output : String) : Step ProcessingResult :=
  if extension = "mp3" then return { outputKey }
  else do
    match ← p.probeOutput w output with
    | none => return { outputKey }
    | some produced =>
        let thumbnailKey ← p.thumbnail w jobId output produced
        return {
          outputKey
          ladderPending := true
          width := some produced.width
          height := some produced.height
          durationSeconds := some produced.durationSeconds
          thumbnailKey }

/-- `run`. -/
def run (sourceKey : String) (maxFps : ℕ) : Step ProcessingResult := do
  w.requireSource sourceKey "the source video is no longer in storage; choose another video"
  let request ← p.request
  let extension := request.outputExtension
  let outputKey := outputKeyAs p.root jobId sourceKey extension
  let output := w.tempDir ++ "/output." ++ extension
  w.downloadFile sourceKey
  let probe ← p.checked w request
  let hdr ← p.isHdr w probe
  let command ← liftExcept <| (buildEditCommand w.numbers
    { ffmpegBinary := p.ffmpegBinary, sourcePath := w.sourcePath, outputPath := output,
      preset := p.preset, crf := p.crf, maxFps, hdr } request
    (probe.map fun probe => ⟨some probe.width, some probe.height⟩)).mapError EditError.stepError
  let edited ← p.encode w command
  w.uploadFile outputKey (editContentType extension) edited
  p.describe w jobId outputKey extension output

end EditProcessor

/-- The step `process_job_async` selects. -/
inductive ProcessingStep
  | ffmpeg (processor : FfmpegProcessor)
  | edit (processor : EditProcessor)

def ProcessingStep.run (w : StepWorld) (jobId : UUID) (sourceKey : String) (maxFps : ℕ) :
    ProcessingStep → Step ProcessingResult
  | ffmpeg processor => processor.run w jobId sourceKey maxFps
  | edit processor => processor.run w jobId sourceKey maxFps

end Worker
end MediaPlayer
