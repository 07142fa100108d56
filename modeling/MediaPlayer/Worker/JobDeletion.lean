import MediaPlayer.Services.JobCleanup
import MediaPlayer.Worker.LadderBuilds
import MediaPlayer.Worker.RowRuns

/-!
# The deletion of a job, with its workers running

A job's permanent deletion (`delete_job`, then `delete_job_storage`) beside any number of
encodes, ladder builds, preview builds and rendition builds of that job, and beside the
coordinators and helpers that encode in pieces.  Every storage call and every transaction
is one step, and they all succeed; encodes may fail, and workers be told to stop.

* `Encode` — `process_job_async` with `FfmpegProcessor.run` or `EditProcessor.run`.
* `LadderBuild` — as in `LadderBuilds`.
* `PreviewPhase` — `PreviewSprite.run`.
* `RenditionPhase` — `build_rendition` with `RenditionBuilder.run`.
* `PieceCoordinator`, `PieceHelper` — `ChunkedMp4.encode` and `ChunkedLadder.encode` with
  `help_encode` and `help_ladder`.  A coordinator's steps are those of its encode or ladder
  build between two of its own, and stand beside them here.
-/

namespace MediaPlayer
namespace Worker

open Library Models Repositories Services

/-! ## The workers -/

/-- An encode: claiming the row, running as in `JobRuns`, or uploading what it made. -/
inductive EncodePhase
  | claiming
  | running (phase : RunPhase)
  | uploading (left : List String) (result : ProcessingResult)

structure Encode where
  interruptions : ℕ
  phase : EncodePhase

/-- A preview build.  `making` downloads, probes and renders. -/
inductive PreviewPhase
  | making
  | uploading (left : List String)
  | recording
  | discarding
  | removing (left : List String)
  | returned

inductive RenditionPhase
  | loading
  | building (hlsKey : String)
  | returned

/-- The two folders pieces go through. -/
inductive PieceKind
  | mp4
  | ladder
  deriving DecidableEq

/-- A coordinator: `delete_prefix`, the board open while it encodes, and `delete_prefix`. -/
inductive PieceCoordinator
  | clearing
  | clearingLeft (left : List String)
  | coordinating
  | closed
  | removing (left : List String)
  | returned
  deriving DecidableEq

/-- A helper, before its look at the board and between that and its upload. -/
inductive PieceHelper
  | encoding
  | checked
  | returned

inductive JobWorker
  | encode (run : Encode)
  | ladder (build : LadderBuild)
  | preview (phase : PreviewPhase)
  | rendition (phase : RenditionPhase)
  | coordinator (kind : PieceKind) (phase : PieceCoordinator)
  | helper (kind : PieceKind) (phase : PieceHelper)

/-- What the workers of a job share: its row, the keys under its folder of the outputs, and
the boards. -/
structure JobShared where
  row : Option Job
  objects : List String
  board : PieceKind → Bool

/-- What an encode measures of its output. -/
structure EncodeFacts where
  stem : String
  extension : String
  ladderPending : Bool
  thumbnail : Bool
  width : Option ℤ
  height : Option ℤ
  durationSeconds : Option ℚ
  deriving DecidableEq

/-- What the world shows a worker in one step. -/
structure WorkerWorld extends BuildWorld where
  /-- How the encode ended. -/
  encoded : Except StepFailure EncodeFacts := .error .other
  /-- `make`, or a piece, succeeded. -/
  made : Bool := true
  enqueued : Bool := true
  /-- What a rendition uploads next; `none` when it has uploaded everything. -/
  name : Option String := none

/-! ## The keys -/

/-- The job's folder. -/
def jobFolder (outputPrefix : String) (jobId : UUID) : String := s!"{outputPrefix}/{jobId}"

def thumbnailFilename : String := "thumbnail.jpg"

/-- What `run` returns: `output_key_for`, `thumbnail_key_for`, and the facts. -/
def EncodeFacts.result (facts : EncodeFacts) (folder : String) : ProcessingResult where
  outputKey := s!"{folder}/{facts.stem}.{facts.extension}"
  ladderPending := facts.ladderPending
  width := facts.width
  height := facts.height
  durationSeconds := facts.durationSeconds
  thumbnailKey := if facts.thumbnail then some s!"{folder}/{thumbnailFilename}" else none

/-- What a probe measures is positive. -/
def EncodeFacts.Measured (facts : EncodeFacts) : Prop :=
  (∀ width ∈ facts.width, 0 < width) ∧ (∀ height ∈ facts.height, 0 < height) ∧
    ∀ seconds ∈ facts.durationSeconds, 0 < seconds

instance (facts : EncodeFacts) : Decidable facts.Measured :=
  inferInstanceAs (Decidable ((∀ width ∈ facts.width, 0 < width) ∧
    (∀ height ∈ facts.height, 0 < height) ∧ ∀ seconds ∈ facts.durationSeconds, 0 < seconds))

/-- The output first, then the poster frame. -/
def uploadKeys (result : ProcessingResult) : List String :=
  result.outputKey :: result.thumbnailKey.toList

/-- `preview_prefix_for` of an output in the job's folder. -/
def previewPrefix (folder : String) : String := s!"{folder}/preview/"

def vttKey (folder : String) : String := previewPrefix folder ++ "sprite.vtt"

def previewKeys (folder : String) : List String :=
  [previewPrefix folder ++ "sprite.jpg", vttKey folder]

/-- `pieces_prefix`, of the MP4 and of the ladder. -/
def PieceKind.folder (folder : String) : PieceKind → String
  | mp4 => s!"{folder}/pieces/"
  | ladder => s!"{folder}/ladder-pieces/"

/-- `prefix_for`. -/
def ladderPrefix (folder : String) : String := s!"{folder}/hls"

namespace JobShared

def upload (shared : JobShared) (key : String) : JobShared :=
  { shared with objects := shared.objects.insert key }

def remove (shared : JobShared) (key : String) : JobShared :=
  { shared with objects := shared.objects.filter (· != key) }

end JobShared

/-! ## Their steps -/

/-- One step of an encode. -/
def Encode.next (folder : String) (jobId : UUID) (shared : JobShared) (world : WorkerWorld)
    (encode : Encode) : Option (JobShared × Encode) :=
  let goes phase : Encode := { encode with phase := phase }
  match encode.phase with
  | .claiming =>
      match markProcessing jobId world.now shared.row with
      | .ok job => some ({ shared with row := some job }, goes (.running (.encoding job)))
      | .error e => some (shared, goes (.running (phaseOnError e)))
  | .running (.encoding _) =>
      match world.encoded with
      | .error failure => some (shared, goes (.running
          (if world.stopRequested then .givingBack
            else .recordingFailure (readableError failure))))
      | .ok facts =>
          if facts.Measured then
            some (shared,
              goes (.uploading (uploadKeys (facts.result folder)) (facts.result folder)))
          else none
  | .uploading [] result => some (shared, goes (.running (.recordingDone result)))
  | .uploading (key :: left) result => some (shared.upload key, goes (.uploading left result))
  | .running .handingOff =>
      if world.enqueued then some (shared, goes (.running (.returned .done)))
      else match markLadderUnavailable world.now shared.row with
        | .ok row => some ({ shared with row := row.or shared.row },
            goes (.running (.returned .done)))
        | .error _ => some (shared, goes (.running .raised))
  | .running phase =>
      let run : Run := ⟨encode.interruptions, phase⟩
      (run.outcomeWrite jobId).map fun write =>
        match write world.now shared.row with
        | .ok job => ({ shared with row := some job }, goes (.running run.afterWrite))
        | .error e => (shared, goes (.running (phaseOnError e)))

/-- The download and the encode of a ladder build, which may raise. -/
def BuildPhase.encodes : BuildPhase → Bool
  | building _ => true
  | _ => false

/-- One step of a ladder build. -/
def LadderBuild.nextOf (folder : String) (shared : JobShared) (world : WorkerWorld)
    (build : LadderBuild) : Option (JobShared × LadderBuild) :=
  let inLadder key := startsWith key (ladderPrefix folder ++ "/")
  if world.out = .returned ∨ build.phase.encodes then
    (build.next (ladderPrefix folder) ⟨shared.row, shared.objects.filter (inLadder ·)⟩
      world.toBuildWorld).map fun after =>
        ({ shared with
          row := after.1.row
          objects := shared.objects.filter (!inLadder ·) ++ after.1.objects },
        { build with phase := after.2 })
  else none

/-- One step of a preview build. -/
def PreviewPhase.next (folder : String) (shared : JobShared) (world : WorkerWorld) :
    PreviewPhase → Option (JobShared × PreviewPhase)
  | making => some (shared, if world.made then uploading (previewKeys folder) else returned)
  | uploading (key :: left) => some (shared.upload key, uploading left)
  | uploading [] => some (shared, recording)
  | recording =>
      match markPreviewReady (vttKey folder) world.now shared.row with
      | .ok (some job) => some ({ shared with row := some job }, returned)
      | .ok none | .error _ => some (shared, discarding)
  | discarding => some (shared, removing (listObjects shared.objects (previewPrefix folder)))
  | removing (key :: left) => some (shared.remove key, removing left)
  | removing [] => some (shared, returned)
  | returned => none

/-- One step of a rendition build, which reads the row once. -/
def RenditionPhase.next (shared : JobShared) (world : WorkerWorld) :
    RenditionPhase → Option (JobShared × RenditionPhase)
  | loading => some (shared, ((shared.row.bind (·.hlsKey)).map building).getD returned)
  | building hlsKey =>
      match world.name with
      | none => some (shared, returned)
      | some name => some (shared.upload (beforeLast '/' hlsKey ++ "/" ++ name), building hlsKey)
  | returned => none

/-- One step of a coordinator. -/
def PieceCoordinator.next (folder : String) (kind : PieceKind) (shared : JobShared) :
    PieceCoordinator → Option (JobShared × PieceCoordinator)
  | clearing => some (shared, clearingLeft (listObjects shared.objects (kind.folder folder)))
  | clearingLeft (key :: left) => some (shared.remove key, clearingLeft left)
  | clearingLeft [] =>
      some ({ shared with board := Function.update shared.board kind true }, coordinating)
  | coordinating => some ({ shared with board := Function.update shared.board kind false }, closed)
  | closed => some (shared, removing (listObjects shared.objects (kind.folder folder)))
  | removing (key :: left) => some (shared.remove key, removing left)
  | removing [] => some (shared, returned)
  | returned => none

/-- One step of a helper. -/
def PieceHelper.next (folder : String) (kind : PieceKind) (shared : JobShared)
    (world : WorkerWorld) : PieceHelper → Option (JobShared × PieceHelper)
  | encoding => some (shared, if world.made ∧ shared.board kind then checked else returned)
  | checked => world.name.map fun name => (shared.upload s!"{kind.folder folder}{name}", encoding)
  | returned => none

namespace JobWorker

def next (folder : String) (jobId : UUID) (shared : JobShared) (world : WorkerWorld) :
    JobWorker → Option (JobShared × JobWorker)
  | encode run => (run.next folder jobId shared world).map fun after => (after.1, encode after.2)
  | ladder build => (build.nextOf folder shared world).map fun after => (after.1, ladder after.2)
  | preview phase => (phase.next folder shared world).map fun after => (after.1, preview after.2)
  | rendition phase => (phase.next shared world).map fun after => (after.1, rendition after.2)
  | coordinator kind phase =>
      (phase.next folder kind shared).map fun after => (after.1, coordinator kind after.2)
  | helper kind phase =>
      (phase.next folder kind shared world).map fun after => (after.1, helper kind after.2)

/-- A worker that has not begun. -/
def fresh : JobWorker → Bool
  | encode ⟨_, .claiming⟩ | ladder ⟨_, .checking⟩ | preview .making | rendition .loading
  | coordinator _ .clearing | helper _ .encoding => true
  | _ => false

/-- A worker that has stopped. -/
def stopped : JobWorker → Bool
  | encode ⟨_, .running (.returned _)⟩ | encode ⟨_, .running .raised⟩ | ladder ⟨_, .returned _⟩
  | ladder ⟨_, .raised⟩ | preview .returned | rendition .returned | coordinator _ .returned
  | helper _ .returned => true
  | _ => false

end JobWorker

/-! ## The system -/

/-- Where the deletion stands: its row is gone, its folders are listed one after the other,
and the keys are deleted many at a time. -/
inductive DeletionPhase
  | idle
  | listing (folders keys : List String)
  | deleting (left : List String)
  | returned
  deriving DecidableEq

structure DeletionState where
  shared : JobShared
  deletion : DeletionPhase := .idle
  workers : Parties ℕ JobWorker := ∅

inductive DeletionAction
  | start (i : ℕ) (worker : JobWorker)
  | work (i : ℕ) (world : WorkerWorld)
  /-- A write of the API or of the reaper on the row. -/
  | write (op : RowOp) (now : Timestamp)
  | deleteRow
  /-- The deletion's next call; of the deletes in flight, the one of `key`. -/
  | delete (key : String)

namespace DeletionState

/-- What others than the workers write. -/
def outside : RowOp → Bool
  | .markLadderUnavailable | .markStaleFailed | .prepareRetry _ | .trashJob _
  | .restoreJob _ => true
  | _ => false

def nextDelete (s : DeletionState) (key : String) : Option DeletionState :=
  match s.deletion with
  | .idle | .returned => none
  | .listing (folder :: folders) keys =>
      some { s with deletion := .listing folders (keys ++ listObjects s.shared.objects folder) }
  | .listing [] keys => some { s with deletion := .deleting keys.eraseDups }
  | .deleting [] => some { s with deletion := .returned }
  | .deleting left =>
      if key ∈ left then
        some { s with shared := s.shared.remove key, deletion := .deleting (left.erase key) }
      else none

/-- One atomic step. -/
def step (folder : String) (jobId : UUID) (s : DeletionState) :
    DeletionAction → Option DeletionState
  | .start i worker =>
      if worker.fresh ∧ s.workers.lookup i = none then
        some { s with workers := s.workers.insert i worker }
      else none
  | .work i world =>
      (s.workers.lookup i).bind fun worker =>
        (worker.next folder jobId s.shared world).map fun after =>
          { s with shared := after.1, workers := s.workers.insert i after.2 }
  | .write op now =>
      if outside op then
        some { s with shared := { s.shared with
          row := LadderBuilds.writtenRow s.shared.row (op.apply jobId now s.shared.row) } }
      else none
  | .deleteRow =>
      s.shared.row.map fun job =>
        { s with
          shared := { s.shared with row := none }
          deletion := .listing (storagePrefixes job) (storageKeys job) }
  | .delete key => s.nextDelete key

end DeletionState

/-- Any number of workers and one deletion, from a new row and an empty folder. -/
def deletionSystem (folder : String) (jobId : UUID) :
    StepSystem DeletionState DeletionAction where
  init s := (∃ job, s.shared.row = some job ∧ job.status = .queued ∧ Unfilled job) ∧
    s.shared.objects = [] ∧ (∀ kind, s.shared.board kind = false) ∧ s.deletion = .idle ∧
    s.workers = ∅
  step := DeletionState.step folder jobId

end Worker
end MediaPlayer
