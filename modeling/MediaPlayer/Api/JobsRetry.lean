import MediaPlayer.Library.Parties
import MediaPlayer.Library.StepSystem
import MediaPlayer.Repositories.Jobs

/-!
# Retrying a failed job

`retry_job_by_id` of `app/api/jobs.py` on one row: any number of requests, any number of
deliveries and of workers, and the reaper.  A request that has prepared its retry holds
the row's lock while it writes the queue, and until it commits or rolls back; another
request's `UPDATE` that would match waits for it, and so does the first statement of
`mark_processing`.

`failures`, `turned` and `unclaimed` are notes no process reads: how many failed states
the row has been in, which retries were committed for which of them, and whether the
last committed retry has not been claimed yet.
-/

namespace MediaPlayer
namespace Api

open Library Models Repositories

/-- What a retry request is answered. -/
inductive RetryAnswer
  | accepted (jobId : UUID)
  | error (status : ℕ) (text : String)
  /-- An exception the endpoint does not catch. -/
  | raised
  deriving DecidableEq

/-- The answer when `prepare_retry` raises. -/
def retryRefused : JobError → RetryAnswer
  | .jobNotFound _ => .error 404 "not found"
  | .invalidTransition _ => .error 409 "only failed jobs can be retried"
  | .valueError _ | .integrityError => .raised

/-- The answer when the enqueue or the commit raises. -/
def retryUnconfirmed : RetryAnswer :=
  .error 503 "retry could not be confirmed; refresh the job and try again"

/-- An open transaction of `prepare_retry`: the row it will commit.  The row it found, and
the number of its failed state, are notes. -/
structure OpenRetry where
  pending : Job
  found : Job
  failure : ℕ
  deriving DecidableEq

/-- Where a retry request stands. -/
inductive RetryPhase
  | prepared (retry : OpenRetry)
  | enqueued (retry : OpenRetry)
  | answered (answer : RetryAnswer)
  deriving DecidableEq

/-- The transaction a request has open. -/
def RetryPhase.open? : RetryPhase → Option OpenRetry
  | prepared retry | enqueued retry => some retry
  | answered _ => none

/-- Where a worker stands with its delivery: it waits in `mark_processing`, or works. -/
inductive DeliveryPhase
  | waiting
  | running
  | finished
  deriving DecidableEq

structure RetryRuns where
  row : Option Job
  /-- The request that holds the row's lock. -/
  lock : Option ℕ := none
  requests : Parties ℕ RetryPhase := ∅
  /-- The deliveries on the queue; all of them carry the same id. -/
  queue : ℕ := 0
  workers : Parties ℕ DeliveryPhase := ∅
  failures : ℕ := 0
  turned : List (ℕ × ℕ) := []
  unclaimed : Bool := false

/-- The outcome a worker records. -/
inductive OutcomeWrite
  | done (values : DoneValues)
  | failed (error : String)
  | interrupted
  deriving DecidableEq

/-- The call that records it. -/
def OutcomeWrite.apply (outcome : OutcomeWrite) (jobId : UUID) (now : Timestamp)
    (row : Option Job) : Except JobError Job :=
  match outcome with
  | .done values => markDone jobId values now row
  | .failed error => markFailed jobId error now row
  | .interrupted => markInterrupted jobId now row

inductive RetryAction
  /-- The `UPDATE` of `prepare_retry`. -/
  | prepare (request : ℕ) (ownerId : UUID) (now : Timestamp)
  | enqueue (request : ℕ) (out : CallOutcome)
  | commit (request : ℕ) (out : CallOutcome)
  /-- The request's connection is lost, and the database rolls back. -/
  | dies (request : ℕ)
  /-- A worker takes a delivery off the queue and begins `mark_processing`. -/
  | deliver (worker : ℕ)
  | claim (worker : ℕ) (now : Timestamp)
  | outcome (worker : ℕ) (outcome : OutcomeWrite) (now : Timestamp)
  | markStaleFailed (now : Timestamp)
  /-- The reaper, or RQ's own re-run, puts a delivery on the queue. -/
  | redeliver
  deriving DecidableEq

namespace RetryRuns

def setRequest (s : RetryRuns) (request : ℕ) (phase : RetryPhase) : RetryRuns :=
  { s with requests := s.requests.insert request phase }

def setWorker (s : RetryRuns) (worker : ℕ) (phase : DeliveryPhase) : RetryRuns :=
  { s with workers := s.workers.insert worker phase }

/-- A transaction has ended, and the request is answered. -/
def release (s : RetryRuns) (request : ℕ) (answer : RetryAnswer) : RetryRuns :=
  { s.setRequest request (.answered answer) with lock := none }

/-- `enqueue_job`. -/
def push (s : RetryRuns) : RetryRuns := { s with queue := s.queue + 1 }

/-- A committed write of a worker or of the reaper. -/
def written (s : RetryRuns) (job : Job) : RetryRuns :=
  { s with
    row := some job
    failures := if job.status = .failed then s.failures + 1 else s.failures }

/-- The commit of a retry. -/
def commitRetry (s : RetryRuns) (request : ℕ) (retry : OpenRetry) : RetryRuns :=
  { s with
    row := some retry.pending
    turned := s.turned ++ [(retry.failure, request)]
    unclaimed := true }

/-- One atomic step on the row of `jobId`. -/
def step (jobId : UUID) (s : RetryRuns) : RetryAction → Option RetryRuns
  | .prepare request ownerId now =>
      match s.requests.lookup request, s.row, prepareRetry jobId ownerId now s.row, s.lock with
      | none, some found, .ok pending, none =>
          some { s.setRequest request (.prepared ⟨pending, found, s.failures⟩) with
            lock := some request }
      -- The row matches and is locked: the statement waits.
      | none, _, .ok _, _ | none, _, .error .integrityError, some _ => none
      | none, _, .error e, _ => some (s.setRequest request (.answered (retryRefused e)))
      | some _, _, _, _ => none
  | .enqueue request out =>
      match s.requests.lookup request with
      | some (.prepared retry) =>
          let pushed := out.effect push s
          some (out.next (pushed.setRequest request (.enqueued retry))
            (pushed.release request retryUnconfirmed))
      | _ => none
  | .commit request out =>
      match s.requests.lookup request with
      | some (.enqueued retry) =>
          some ((out.effect (fun s => s.commitRetry request retry) s).release request
            (out.next (.accepted jobId) retryUnconfirmed))
      | _ => none
  | .dies request =>
      match s.requests.lookup request with
      | some (.prepared _) | some (.enqueued _) => some (s.release request .raised)
      | _ => none
  | .deliver worker =>
      match s.workers.lookup worker, s.queue with
      | none, queue + 1 => some ({ s with queue := queue }.setWorker worker .waiting)
      | _, _ => none
  | .claim worker now =>
      match s.workers.lookup worker, s.lock with
      | some .waiting, none =>
          match markProcessing jobId now s.row with
          | .ok job => some ({ s.written job with unclaimed := false }.setWorker worker .running)
          | .error _ => some (s.setWorker worker .finished)
      | _, _ => none
  | .outcome worker outcome now =>
      match s.workers.lookup worker, outcome.apply jobId now s.row, s.lock with
      | some .running, .ok job, none => some ((s.written job).setWorker worker .finished)
      -- As above, a row that matches is waited for.
      | some .running, .ok _, some _ => none
      | some .running, .error _, _ => some (s.setWorker worker .finished)
      | _, _, _ => none
  | .markStaleFailed now =>
      match Repositories.markStaleFailed now s.row, s.lock with
      | .ok (some job), none => some (s.written job)
      | .ok (some _), some _ => none
      | .ok none, _ | .error _, _ => some s
  | .redeliver => some s.push

end RetryRuns

/-- Any number of retries of the row of `jobId`, from any row, with any deliveries on the
queue; a row that has failed is in its first failed state. -/
def retrySystem (jobId : UUID) : StepSystem RetryRuns RetryAction where
  init s := s.lock = none ∧ s.requests = ∅ ∧ s.workers = ∅ ∧ s.turned = [] ∧ s.unclaimed = false
  step := RetryRuns.step jobId

end Api
end MediaPlayer
