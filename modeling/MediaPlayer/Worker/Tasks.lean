import MediaPlayer.Library.Parties
import MediaPlayer.Library.StepSystem
import MediaPlayer.Repositories.Jobs

/-!
# Runs of one job

`process_job_async` of `app/worker/tasks.py`, for any number of runs on one row,
with the reaper's `mark_stale_failed` and the owner's `prepare_retry`.  Every
database call is one step, and so is the work between two of them: a run claims the
row, encodes, writes its outcome and hands the ladder off, and may die after any step.

`JobRuns.claimant` is the run whose claim made the row `processing` last.  No process
reads it: nothing in the row tells the runs apart.
-/

namespace MediaPlayer
namespace Worker

open Library Models Repositories

/-- What a processing step raised: an `ObjectStoreError` with its message for the
uploader, or anything else. -/
inductive StepFailure
  | objectStoreError (userMessage : String)
  | other
  deriving DecidableEq

def maxErrorLength : ℕ := 500

def unexpectedFailure : String :=
  "processing failed unexpectedly; please try uploading again"

def maxInterruptions : ℕ := 3

def interruptedTooOften : String :=
  "processing was interrupted repeatedly; please try uploading again"

/-- The message of a failure before it is cut to length. -/
def failureMessage : StepFailure → String
  | .objectStoreError userMessage =>
      if strip userMessage = "" then unexpectedFailure else strip userMessage
  | .other => unexpectedFailure

/-- `readable_error`: the half of a failure that is safe to show. -/
def readableError (failure : StepFailure) : String :=
  let message := failureMessage failure
  if maxErrorLength < message.length then
    rstrip (String.ofList (message.toList.take (maxErrorLength - 3))) ++ "..."
  else message

theorem strip_readableError_ne (failure : StepFailure) : strip (readableError failure) ≠ "" := by
  unfold readableError
  by_cases hlong : maxErrorLength < (failureMessage failure).length
  · rw [if_pos hlong]
    exact strip_ne_of_mem (c := '.') (by simp) (by decide)
  · rw [if_neg hlong]
    cases failure with
    | other => decide
    | objectStoreError userMessage =>
        by_cases hblank : strip userMessage = ""
        · simp only [failureMessage, if_pos hblank]
          decide
        · simp only [failureMessage, if_neg hblank]
          exact strip_strip_ne hblank

/-- `mark_failed` accepts every readable error. -/
theorem markFailed_readableError {job : Job} (hstatus : job.status = .processing)
    (hpreview : job.previewKey = none) (failure : StepFailure) (jobId : UUID) (now : Timestamp) :
    ∃ after, markFailed jobId (readableError failure) now (some job) = .ok after :=
  markFailed_of_processing hstatus hpreview (strip_readableError_ne failure) jobId now

/-- `ProcessingResult`: what a step produced. -/
structure ProcessingResult where
  outputKey : String
  hlsKey : Option String := none
  ladderPending : Bool := false
  width : Option ℤ := none
  height : Option ℤ := none
  durationSeconds : Option ℚ := none
  thumbnailKey : Option String := none
  deriving DecidableEq

/-- What `mark_done` is told of it. -/
def ProcessingResult.doneValues (result : ProcessingResult) : DoneValues where
  outputKey := result.outputKey
  hlsKey := result.hlsKey
  hlsStatus := if result.ladderPending then some .pending else none
  width := result.width
  height := result.height
  durationSeconds := result.durationSeconds
  thumbnailKey := result.thumbnailKey

inductive JobOutcome
  | done
  | failed
  | skipped
  | interrupted
  deriving DecidableEq

/-- Where a run stands between two of its steps.  `raised` is a run that ended with an
exception `process_job_async` does not catch, or whose process died. -/
inductive RunPhase
  | encoding (job : Job)
  | recordingFailure (reason : String)
  | givingBack
  | recordingDone (result : ProcessingResult)
  | handingOff
  | returned (outcome : JobOutcome)
  | raised
  deriving DecidableEq

/-- One delivery of the job's queue entry, with how often RQ has re-run it before. -/
structure Run where
  interruptions : ℕ
  phase : RunPhase
  deriving DecidableEq

/-- A run that has claimed the row and has not recorded its outcome. -/
def Run.live (run : Run) : Bool :=
  match run.phase with
  | .encoding _ | .recordingFailure _ | .givingBack | .recordingDone _ => true
  | .handingOff | .returned _ | .raised => false

/-- The outcome write a run is about to make: `mark_failed`, `mark_done`, or what
`_give_back` chooses. -/
def Run.outcomeWrite (jobId : UUID) (run : Run) :
    Option (Timestamp → Option Job → Except JobError Job) :=
  match run.phase with
  | .recordingFailure reason => some (markFailed jobId reason)
  | .recordingDone result => some (markDone jobId result.doneValues)
  | .givingBack =>
      if maxInterruptions ≤ run.interruptions + 1 then
        some (markFailed jobId interruptedTooOften)
      else some (markInterrupted jobId)
  | _ => none

/-- Where a run goes when its outcome write has succeeded. -/
def Run.afterWrite (run : Run) : RunPhase :=
  match run.phase with
  | .recordingFailure _ => .returned .failed
  | .recordingDone result => if result.ladderPending then .handingOff else .returned .done
  | .givingBack =>
      if maxInterruptions ≤ run.interruptions + 1 then .returned .failed
      else .returned .interrupted
  | phase => phase

/-- Where a run goes when a database function raised: the errors the source catches
make it `skipped`, any other ends it. -/
def phaseOnError : JobError → RunPhase
  | .jobNotFound _ | .invalidTransition _ => .returned .skipped
  | .valueError _ | .integrityError => .raised

/-- One row, the runs on it, and which of them claimed it last. -/
structure JobRuns where
  row : Option Job
  runs : Parties ℕ Run
  claimant : Option ℕ

inductive JobRunAction
  /-- A delivery reaches a worker, whose first step is `mark_processing`. -/
  | claim (run interruptions : ℕ) (now : Timestamp)
  | stepReturns (run : ℕ) (result : ProcessingResult)
  /-- The step raises, and `stop_requested()` says whether the worker was told to stop. -/
  | stepRaises (run : ℕ) (failure : StepFailure) (stopRequested : Bool)
  | writeOutcome (run : ℕ) (now : Timestamp)
  /-- `_hand_off_ladder`; an enqueue that raises is settled as unavailable. -/
  | handOff (run : ℕ) (enqueued : Bool) (now : Timestamp)
  | dies (run : ℕ)
  | markStaleFailed (now : Timestamp)
  /-- `prepare_retry` with its commit. -/
  | retry (ownerId : UUID) (now : Timestamp)
  deriving DecidableEq

namespace JobRuns

/-- The row a conditional update leaves: the one it returned, or the one there was. -/
def written (s : JobRuns) (row : Option Job) : JobRuns := { s with row := row.or s.row }

def setRun (s : JobRuns) (run : ℕ) (value : Run) : JobRuns :=
  { s with runs := s.runs.insert run value }

/-- One atomic step on the row of `jobId`. -/
def step (jobId : UUID) (s : JobRuns) : JobRunAction → Option JobRuns
  | .claim run interruptions now =>
      match s.runs.lookup run with
      | some _ => none
      | none =>
          match markProcessing jobId now s.row with
          | .ok job => some ({ s.written (some job) with claimant := some run }.setRun run
              ⟨interruptions, .encoding job⟩)
          | .error e => some (s.setRun run ⟨interruptions, phaseOnError e⟩)
  | .stepReturns run result =>
      match s.runs.lookup run with
      | some ⟨interruptions, .encoding _⟩ =>
          some (s.setRun run ⟨interruptions, .recordingDone result⟩)
      | _ => none
  | .stepRaises run failure stopRequested =>
      match s.runs.lookup run with
      | some ⟨interruptions, .encoding _⟩ =>
          some (s.setRun run ⟨interruptions,
            if stopRequested then .givingBack else .recordingFailure (readableError failure)⟩)
      | _ => none
  | .writeOutcome run now =>
      (s.runs.lookup run).bind fun value =>
        (value.outcomeWrite jobId).map fun write =>
          match write now s.row with
          | .ok job => (s.written (some job)).setRun run { value with phase := value.afterWrite }
          | .error e => s.setRun run { value with phase := phaseOnError e }
  | .handOff run enqueued now =>
      match s.runs.lookup run with
      | some ⟨interruptions, .handingOff⟩ =>
          if enqueued then some (s.setRun run ⟨interruptions, .returned .done⟩)
          else match markLadderUnavailable now s.row with
            | .ok row => some ((s.written row).setRun run ⟨interruptions, .returned .done⟩)
            | .error _ => some (s.setRun run ⟨interruptions, .raised⟩)
      | _ => none
  | .dies run =>
      (s.runs.lookup run).map fun value => s.setRun run { value with phase := .raised }
  | .markStaleFailed now =>
      match Repositories.markStaleFailed now s.row with
      | .ok row => some (s.written row)
      | .error _ => some s
  | .retry ownerId now =>
      match prepareRetry jobId ownerId now s.row with
      | .ok job => some (s.written (some job))
      | .error _ => some s

end JobRuns

/-- Any number of runs on the row of `jobId`, from any row nobody is processing. -/
def jobRunSystem (jobId : UUID) : StepSystem JobRuns JobRunAction where
  init s := (∀ job, s.row = some job → job.status ≠ .processing) ∧ s.runs = ∅ ∧ s.claimant = none
  step := JobRuns.step jobId

end Worker
end MediaPlayer
