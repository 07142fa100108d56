import Mathlib.Data.List.AList
import Mathlib.Data.List.Sort
import MediaPlayer.Models.Job

/-!
# The job repository

`app/repositories/jobs.py`, one definition a function.  A conditional `UPDATE` acts
on the row its id finds (`none`: there is no such row) at the time `now` the
statement reads, and gives the row it leaves or the error the function raises; a
function that raises leaves the row as it was.  `JobTable` lifts them to a table.

* `createJob`, `createEditJob`,
* `transition` and the four `mark…` functions of a worker's run,
* `settleLadder` with `markLadderReady` and `markLadderUnavailable`,
* `markStaleFailed`, `prepareRetry`, `trashJob`, `restoreJob`, `deleteJob`,
* the reaper's lists.

Every function has one lemma saying when it succeeds and what row it leaves.
-/

namespace MediaPlayer
namespace Repositories

open Library Models

/-- What a repository function raises. -/
inductive JobError
  | valueError (message : String)
  | jobNotFound (message : String)
  | invalidTransition (message : String)
  /-- A CHECK constraint refused the row. -/
  | integrityError
  deriving DecidableEq

/-- The database stores a row that passes its checks and refuses any other. -/
def store (columns : JobColumns) : Except JobError Job :=
  if checks : columns.Checks then .ok ⟨columns, checks⟩ else .error .integrityError

theorem store_eq_ok_iff {columns : JobColumns} {job : Job} :
    store columns = .ok job ↔ job.toJobColumns = columns := by
  unfold store
  constructor
  · intro hstore
    split at hstore
    · obtain rfl := Except.ok.inj hstore
      rfl
    · exact absurd hstore (by simp)
  · rintro rfl
    rw [dif_pos job.checks]

/-- `UPDATE ... RETURNING` on a row the `WHERE` found: the row, or `IntegrityError`. -/
def storeSome (columns : JobColumns) : Except JobError (Option Job) :=
  (store columns).map some

theorem storeSome_eq_ok_iff {columns : JobColumns} {job : Job} :
    storeSome columns = .ok (some job) ↔ job.toJobColumns = columns := by
  rw [← store_eq_ok_iff]
  unfold storeSome
  cases store columns with
  | error e => simp [Except.map]
  | ok stored => simp [Except.map]

/-- An update that found its row returns it or raises. -/
theorem storeSome_ne_ok_none (columns : JobColumns) : storeSome columns ≠ .ok none := by
  unfold storeSome
  cases store columns with
  | error e => simp [Except.map]
  | ok stored => simp [Except.map]

/-! ## New rows -/

/-- The columns of a row that is inserted. -/
def newColumns (ownerId : UUID) (filename sourceKey : String)
    (operations : Option (List EditOperation)) (maxFps : ℤ) (now : Timestamp) : JobColumns where
  ownerId := ownerId
  filename := filename
  sourceKey := sourceKey
  operations := operations
  maxFps := maxFps
  createdAt := now
  updatedAt := now

/-- `create_job`. -/
def createJob (ownerId : UUID) (filename sourceKey : String) (maxFps : ℤ) (now : Timestamp) :
    Except JobError Job :=
  store (newColumns ownerId filename sourceKey none maxFps now)

/-- `create_edit_job`. -/
def createEditJob (ownerId : UUID) (filename sourceKey : String)
    (operations : List EditOperation) (maxFps : ℤ) (now : Timestamp) : Except JobError Job :=
  if operations = [] then .error (.valueError "an edit job requires at least one operation")
  else store (newColumns ownerId filename sourceKey (some operations) maxFps now)

/-- New columns pass the checks with one of the two frame rates and, for an edit, with an
operation. -/
theorem newColumns_checks {operations : Option (List EditOperation)} {maxFps : ℤ}
    (hfps : maxFps = 30 ∨ maxFps = 60) (hoperations : operations ≠ some [])
    (ownerId : UUID) (filename sourceKey : String) (now : Timestamp) :
    (newColumns ownerId filename sourceKey operations maxFps now).Checks where
  outputKey := by simp [newColumns]
  error := by simp [newColumns]
  operations := hoperations
  hlsReadyHasKey := by simp [newColumns]
  width := by simp [newColumns]
  height := by simp [newColumns]
  durationSeconds := by simp [newColumns]
  maxFps := hfps
  previewNeedsLadder := Or.inl rfl

/-! ## A run's transitions -/

/-- The ladder's state implied by a transition, when the caller doesn't say. -/
def derivedHlsStatus (next : JobStatus) (hlsKey : Option String) : HlsStatus :=
  if hlsKey.isSome then .ready
  else if next = .done ∨ next = .failed then .unavailable
  else .pending

/-- The optional arguments of `_transition`. -/
structure TransitionValues where
  outputKey : Option String := none
  hlsKey : Option String := none
  hlsStatus : Option HlsStatus := none
  width : Option ℤ := none
  height : Option ℤ := none
  durationSeconds : Option ℚ := none
  thumbnailKey : Option String := none
  error : Option String := none

/-- The columns `_transition` writes. -/
def transitionColumns (columns : JobColumns) (next : JobStatus) (values : TransitionValues)
    (now : Timestamp) : JobColumns :=
  { columns with
    status := next
    outputKey := values.outputKey
    hlsKey := values.hlsKey
    hlsStatus := values.hlsStatus.getD (derivedHlsStatus next values.hlsKey)
    width := values.width
    height := values.height
    durationSeconds := values.durationSeconds
    thumbnailKey := values.thumbnailKey
    error := values.error
    updatedAt := now }

/-- `_transition`: a row in the expected status moves on, any other stays. -/
def transition (jobId : UUID) (expected next : JobStatus) (values : TransitionValues)
    (now : Timestamp) : Option Job → Except JobError Job
  | none => .error (.jobNotFound s!"{jobId}")
  | some job =>
      if job.status = expected then store (transitionColumns job.toJobColumns next values now)
      else .error (.invalidTransition
        s!"cannot transition job {jobId} from {job.status.value} to {next.value}")

/-- `mark_processing`, whose first statement waits for the row's lock. -/
def markProcessing (jobId : UUID) : Timestamp → Option Job → Except JobError Job :=
  transition jobId .queued .processing {}

/-- What `mark_done` is told of a finished run. -/
structure DoneValues where
  outputKey : String
  hlsKey : Option String := none
  hlsStatus : Option HlsStatus := none
  width : Option ℤ := none
  height : Option ℤ := none
  durationSeconds : Option ℚ := none
  thumbnailKey : Option String := none
  deriving DecidableEq

/-- `mark_done`. -/
def markDone (jobId : UUID) (values : DoneValues) (now : Timestamp) (row : Option Job) :
    Except JobError Job :=
  if strip values.outputKey = "" then .error (.valueError "output_key must not be empty")
  else if values.thumbnailKey.any (strip · = "") then
    .error (.valueError "thumbnail_key must not be empty when given")
  else
    transition jobId .processing .done
      { outputKey := some values.outputKey
        hlsKey := values.hlsKey
        hlsStatus := values.hlsStatus
        width := values.width
        height := values.height
        durationSeconds := values.durationSeconds
        thumbnailKey := values.thumbnailKey } now row

/-- `mark_interrupted`: a worker that was told to stop gives its job back. -/
def markInterrupted (jobId : UUID) : Timestamp → Option Job → Except JobError Job :=
  transition jobId .processing .queued {}

/-- `mark_failed`. -/
def markFailed (jobId : UUID) (error : String) (now : Timestamp) (row : Option Job) :
    Except JobError Job :=
  if strip error = "" then .error (.valueError "failed jobs require a readable error")
  else transition jobId .processing .failed { error := some (strip error) } now row

/-- A transition that succeeds found the row in the status it expects, and leaves the
columns it writes. -/
theorem transition_ok {jobId : UUID} {expected next : JobStatus} {values : TransitionValues}
    {now : Timestamp} {row : Option Job} {after : Job}
    (hok : transition jobId expected next values now row = .ok after) :
    ∃ before, row = some before ∧ before.status = expected ∧
      after.toJobColumns = transitionColumns before.toJobColumns next values now := by
  cases row with
  | none => simp [transition] at hok
  | some before =>
      simp only [transition] at hok
      by_cases hstatus : before.status = expected
      · rw [if_pos hstatus] at hok
        exact ⟨before, rfl, hstatus, store_eq_ok_iff.mp hok⟩
      · rw [if_neg hstatus] at hok
        simp at hok

/-- What a succeeded transition leaves, column by column as far as the protocols
read it. -/
theorem transition_ok_columns {jobId : UUID} {expected next : JobStatus}
    {values : TransitionValues} {now : Timestamp} {row : Option Job} {after : Job}
    (hok : transition jobId expected next values now row = .ok after) :
    ∃ before, row = some before ∧ before.status = expected ∧ after.status = next ∧
      after.updatedAt = now ∧ after.ownerId = before.ownerId ∧
      after.deletedAt = before.deletedAt := by
  obtain ⟨before, hrow, hstatus, hcolumns⟩ := transition_ok hok
  refine ⟨before, hrow, hstatus, ?_, ?_, ?_, ?_⟩ <;> rw [hcolumns] <;> rfl

theorem markProcessing_ok {jobId : UUID} {now : Timestamp} {row : Option Job} {after : Job}
    (hok : markProcessing jobId now row = .ok after) :
    ∃ before, row = some before ∧ before.status = .queued ∧ after.status = .processing ∧
      after.updatedAt = now ∧ after.ownerId = before.ownerId ∧
      after.deletedAt = before.deletedAt :=
  transition_ok_columns hok

theorem markInterrupted_ok {jobId : UUID} {now : Timestamp} {row : Option Job} {after : Job}
    (hok : markInterrupted jobId now row = .ok after) :
    ∃ before, row = some before ∧ before.status = .processing ∧ after.status = .queued ∧
      after.updatedAt = now ∧ after.ownerId = before.ownerId ∧
      after.deletedAt = before.deletedAt :=
  transition_ok_columns hok

/-- A `mark_done` that succeeds is its transition: no key it was given is empty. -/
theorem markDone_transition {jobId : UUID} {values : DoneValues} {now : Timestamp}
    {row : Option Job} {after : Job} (hok : markDone jobId values now row = .ok after) :
    transition jobId .processing .done
      { outputKey := some values.outputKey
        hlsKey := values.hlsKey
        hlsStatus := values.hlsStatus
        width := values.width
        height := values.height
        durationSeconds := values.durationSeconds
        thumbnailKey := values.thumbnailKey } now row = .ok after := by
  unfold markDone at hok
  split at hok
  · simp at hok
  · split at hok
    · simp at hok
    · exact hok

/-- A `mark_failed` that succeeds is its transition: the error is not empty. -/
theorem markFailed_transition {jobId : UUID} {error : String} {now : Timestamp}
    {row : Option Job} {after : Job} (hok : markFailed jobId error now row = .ok after) :
    transition jobId .processing .failed { error := some (strip error) } now row = .ok after := by
  unfold markFailed at hok
  split at hok
  · simp at hok
  · exact hok

theorem markDone_ok {jobId : UUID} {values : DoneValues} {now : Timestamp} {row : Option Job}
    {after : Job} (hok : markDone jobId values now row = .ok after) :
    ∃ before, row = some before ∧ before.status = .processing ∧ after.status = .done ∧
      after.updatedAt = now ∧ after.ownerId = before.ownerId ∧
      after.deletedAt = before.deletedAt :=
  transition_ok_columns (markDone_transition hok)

theorem markFailed_ok {jobId : UUID} {error : String} {now : Timestamp} {row : Option Job}
    {after : Job} (hok : markFailed jobId error now row = .ok after) :
    ∃ before, row = some before ∧ before.status = .processing ∧ after.status = .failed ∧
      after.updatedAt = now ∧ after.ownerId = before.ownerId ∧
      after.deletedAt = before.deletedAt :=
  transition_ok_columns (markFailed_transition hok)

/-! ## Ladders -/

/-- `_settle_ladder`: `none` when the row is not a done job waiting for its ladder. -/
def settleLadder (hlsStatus : HlsStatus) (hlsKey : Option String) (now : Timestamp) :
    Option Job → Except JobError (Option Job)
  | none => .ok none
  | some job =>
      if job.status = .done ∧ job.hlsStatus = .pending then
        storeSome { job.toJobColumns with
          hlsStatus := hlsStatus, hlsKey := hlsKey, updatedAt := now }
      else .ok none

/-- `mark_ladder_ready`. -/
def markLadderReady (hlsKey : String) (now : Timestamp) (row : Option Job) :
    Except JobError (Option Job) :=
  if strip hlsKey = "" then .error (.valueError "hls_key must not be empty")
  else settleLadder .ready (some hlsKey) now row

/-- `mark_ladder_unavailable`. -/
def markLadderUnavailable : Timestamp → Option Job → Except JobError (Option Job) :=
  settleLadder .unavailable none

/-- `mark_preview_ready`: `none` when the job has no ladder to preview. -/
def markPreviewReady (previewKey : String) (now : Timestamp) :
    Option Job → Except JobError (Option Job)
  | none => if strip previewKey = "" then .error (.valueError "preview_key must not be empty")
      else .ok none
  | some job =>
      if strip previewKey = "" then .error (.valueError "preview_key must not be empty")
      else if job.status = .done ∧ job.hlsStatus = .ready then
        storeSome { job.toJobColumns with
          previewKey := some previewKey, updatedAt := now }
      else .ok none

/-- A ladder that was settled was pending before, and is what the caller said after. -/
theorem settleLadder_some {hlsStatus : HlsStatus} {hlsKey : Option String} {now : Timestamp}
    {row : Option Job} {after : Job}
    (hok : settleLadder hlsStatus hlsKey now row = .ok (some after)) :
    ∃ before, row = some before ∧ before.status = .done ∧ before.hlsStatus = .pending ∧
      after.toJobColumns = { before.toJobColumns with
        hlsStatus := hlsStatus, hlsKey := hlsKey, updatedAt := now } := by
  cases row with
  | none => simp [settleLadder] at hok
  | some before =>
      simp only [settleLadder] at hok
      by_cases hpending : before.status = .done ∧ before.hlsStatus = .pending
      · rw [if_pos hpending] at hok
        exact ⟨before, rfl, hpending.1, hpending.2, storeSome_eq_ok_iff.mp hok⟩
      · rw [if_neg hpending] at hok
        simp at hok

/-- A ladder that was left alone was not pending. -/
theorem settleLadder_none {hlsStatus : HlsStatus} {hlsKey : Option String} {now : Timestamp}
    {job : Job} (hok : settleLadder hlsStatus hlsKey now (some job) = .ok none) :
    ¬ (job.status = .done ∧ job.hlsStatus = .pending) := by
  intro hpending
  simp only [settleLadder] at hok
  rw [if_pos hpending] at hok
  exact storeSome_ne_ok_none _ hok

/-- A ladder that was recorded was settled: its key is not empty. -/
theorem markLadderReady_settles {hlsKey : String} {now : Timestamp} {row : Option Job}
    {after : Job} (hok : markLadderReady hlsKey now row = .ok (some after)) :
    settleLadder .ready (some hlsKey) now row = .ok (some after) := by
  unfold markLadderReady at hok
  split at hok
  · simp at hok
  · exact hok

/-- A preview that was recorded found a done job with its ladder, and names only itself. -/
theorem markPreviewReady_columns {previewKey : String} {now : Timestamp} {row : Option Job}
    {after : Job} (hok : markPreviewReady previewKey now row = .ok (some after)) :
    ∃ before, row = some before ∧ before.status = .done ∧ before.hlsStatus = .ready ∧
      after.toJobColumns = { before.toJobColumns with
        previewKey := some previewKey, updatedAt := now } := by
  cases row with
  | none =>
      simp only [markPreviewReady] at hok
      split at hok <;> simp at hok
  | some before =>
      simp only [markPreviewReady] at hok
      by_cases hkey : strip previewKey = ""
      · simp [hkey] at hok
      · rw [if_neg hkey] at hok
        by_cases hready : before.status = .done ∧ before.hlsStatus = .ready
        · rw [if_pos hready] at hok
          exact ⟨before, rfl, hready.1, hready.2, storeSome_eq_ok_iff.mp hok⟩
        · rw [if_neg hready] at hok
          simp at hok

/-- Giving up on a pending ladder is never refused: such a row has no ladder key, and so
no preview. -/
theorem markLadderUnavailable_ok (now : Timestamp) (row : Option Job) :
    ∃ after, markLadderUnavailable now row = .ok after := by
  cases row with
  | none => exact ⟨none, rfl⟩
  | some job =>
      by_cases hpending : job.status = .done ∧ job.hlsStatus = .pending
      · have hkey : job.hlsKey = none := by
          by_contra hkey
          have hready := job.checks.hlsReadyHasKey.mpr hkey
          rw [hpending.2] at hready
          exact absurd hready (by decide)
        have hpreview : job.previewKey = none :=
          job.checks.previewNeedsLadder.resolve_right fun h => h hkey
        have hchecks : ({ job.toJobColumns with
            hlsStatus := .unavailable, hlsKey := none, updatedAt := now } : JobColumns).Checks :=
          { job.checks with
            hlsReadyHasKey := by simp
            previewNeedsLadder := Or.inl hpreview }
        refine ⟨some ⟨_, hchecks⟩, ?_⟩
        simp only [markLadderUnavailable, settleLadder, if_pos hpending]
        exact storeSome_eq_ok_iff.mpr rfl
      · exact ⟨none, by simp only [markLadderUnavailable, settleLadder, if_neg hpending]⟩

/-! ## Owners, the reaper, the trash -/

/-- The error text of a job whose worker is gone. -/
def stoppedResponding : String := "worker stopped responding; job was not completed"

theorem btrimNonempty_stoppedResponding : btrimNonempty stoppedResponding = true := by decide

/-- `mark_stale_failed`: `none` when the row is not processing. -/
def markStaleFailed (now : Timestamp) : Option Job → Except JobError (Option Job)
  | none => .ok none
  | some job =>
      if job.status = .processing then
        storeSome { job.toJobColumns with
          status := .failed
          error := some stoppedResponding
          hlsStatus := .unavailable
          updatedAt := now }
      else .ok none

/-- `prepare_retry`, whose `UPDATE` keeps the row's lock until the caller commits or
rolls back.  A job of another owner is not found. -/
def prepareRetry (jobId : UUID) (ownerId : UUID) (now : Timestamp) :
    Option Job → Except JobError Job
  | none => .error (.jobNotFound s!"{jobId}")
  | some job =>
      if job.ownerId = ownerId ∧ job.status = .failed then
        store { job.toJobColumns with
          status := .queued
          error := none
          outputKey := none
          hlsKey := none
          hlsStatus := .pending
          updatedAt := now }
      else if job.ownerId = ownerId ∧ job.deletedAt = none then
        .error (.invalidTransition "only failed jobs can be retried")
      else .error (.jobNotFound s!"{jobId}")

/-- `trash_job`: `none` if the row is not the owner's or is in the trash already. -/
def trashJob (ownerId : UUID) (now : Timestamp) : Option Job → Option Job
  | none => none
  | some job =>
      if job.ownerId = ownerId ∧ job.deletedAt = none then
        some { toJobColumns := { job.toJobColumns with deletedAt := some now }
               checks := { job.checks with } }
      else none

/-- `restore_job`: `none` if the row is not in its owner's trash. -/
def restoreJob (ownerId : UUID) : Option Job → Option Job
  | none => none
  | some job =>
      if job.ownerId = ownerId ∧ job.deletedAt ≠ none then
        some { toJobColumns := { job.toJobColumns with deletedAt := none }
               checks := { job.checks with } }
      else none

/-- A job the reaper failed was processing. -/
theorem markStaleFailed_columns {now : Timestamp} {row : Option Job} {after : Job}
    (hok : markStaleFailed now row = .ok (some after)) :
    ∃ before, row = some before ∧ before.status = .processing ∧
      after.toJobColumns = { before.toJobColumns with
        status := .failed
        error := some stoppedResponding
        hlsStatus := .unavailable
        updatedAt := now } := by
  cases row with
  | none => simp [markStaleFailed] at hok
  | some before =>
      simp only [markStaleFailed] at hok
      by_cases hstatus : before.status = .processing
      · rw [if_pos hstatus] at hok
        exact ⟨before, rfl, hstatus, storeSome_eq_ok_iff.mp hok⟩
      · rw [if_neg hstatus] at hok
        simp at hok

theorem markStaleFailed_some {now : Timestamp} {row : Option Job} {after : Job}
    (hok : markStaleFailed now row = .ok (some after)) :
    ∃ before, row = some before ∧ before.status = .processing ∧ after.status = .failed ∧
      after.updatedAt = now ∧ after.ownerId = before.ownerId ∧
      after.deletedAt = before.deletedAt := by
  obtain ⟨before, hrow, hstatus, hcolumns⟩ := markStaleFailed_columns hok
  refine ⟨before, hrow, hstatus, ?_, ?_, ?_, ?_⟩ <;> rw [hcolumns]

/-- The reaper's write is refused only for a row that holds a ladder key while it is
processing. -/
theorem markStaleFailed_ok_iff (now : Timestamp) (job : Job) :
    (∃ after, markStaleFailed now (some job) = .ok after) ↔
      (job.status = .processing → job.hlsKey = none) := by
  by_cases hstatus : job.status = .processing
  · simp only [markStaleFailed, hstatus, true_implies]
    have houtput : job.outputKey = none := by
      by_contra houtput
      have hdone := job.checks.outputKey.mpr houtput
      rw [hstatus] at hdone
      exact absurd hdone (by decide)
    constructor
    · rintro ⟨after, hafter⟩
      cases after with
      | none => exact absurd hafter (storeSome_ne_ok_none _)
      | some stored =>
          have hcolumns := storeSome_eq_ok_iff.mp hafter
          by_contra hkey
          have hready := stored.checks.hlsReadyHasKey
          rw [hcolumns] at hready
          exact absurd (hready.mpr hkey) (by simp)
    · intro hkey
      have hchecks : ({ job.toJobColumns with
          status := .failed
          error := some stoppedResponding
          hlsStatus := .unavailable
          updatedAt := now } : JobColumns).Checks :=
        { job.checks with
          outputKey := by simp [houtput]
          error := by simp [btrimNonempty_stoppedResponding]
          hlsReadyHasKey := by simp [hkey] }
      exact ⟨some ⟨_, hchecks⟩, storeSome_eq_ok_iff.mpr rfl⟩
  · simp [markStaleFailed, hstatus]

theorem markStaleFailed_hlsStatus {now : Timestamp} {row : Option Job} {after : Job}
    (hok : markStaleFailed now row = .ok (some after)) : after.hlsStatus = .unavailable := by
  obtain ⟨before, -, -, hcolumns⟩ := markStaleFailed_columns hok
  rw [hcolumns]

/-- A job that was put back for a retry had failed, and is its owner's. -/
theorem prepareRetry_columns {jobId ownerId : UUID} {now : Timestamp} {row : Option Job}
    {after : Job} (hok : prepareRetry jobId ownerId now row = .ok after) :
    ∃ before, row = some before ∧ before.status = .failed ∧ before.ownerId = ownerId ∧
      after.toJobColumns = { before.toJobColumns with
        status := .queued
        error := none
        outputKey := none
        hlsKey := none
        hlsStatus := .pending
        updatedAt := now } := by
  cases row with
  | none => simp [prepareRetry] at hok
  | some before =>
      simp only [prepareRetry] at hok
      by_cases hfailed : before.ownerId = ownerId ∧ before.status = .failed
      · rw [if_pos hfailed] at hok
        exact ⟨before, rfl, hfailed.2, hfailed.1, store_eq_ok_iff.mp hok⟩
      · rw [if_neg hfailed] at hok
        split at hok <;> simp at hok

theorem prepareRetry_ok {jobId ownerId : UUID} {now : Timestamp} {row : Option Job} {after : Job}
    (hok : prepareRetry jobId ownerId now row = .ok after) :
    ∃ before, row = some before ∧ before.status = .failed ∧ before.ownerId = ownerId ∧
      after.status = .queued ∧ after.updatedAt = now ∧ after.ownerId = before.ownerId ∧
      after.deletedAt = before.deletedAt := by
  obtain ⟨before, hrow, hfailed, howner, hcolumns⟩ := prepareRetry_columns hok
  refine ⟨before, hrow, hfailed, howner, ?_, ?_, ?_, ?_⟩ <;> rw [hcolumns]

/-- A row that can be claimed: queued, and without a preview, which would have to lose its
ladder key. -/
def Claimable (job : Job) : Prop := job.status = .queued ∧ job.previewKey = none

theorem prepareRetry_claimable {jobId ownerId : UUID} {now : Timestamp} {row : Option Job}
    {after : Job} (hok : prepareRetry jobId ownerId now row = .ok after) : Claimable after := by
  obtain ⟨before, -, -, -, hcolumns⟩ := prepareRetry_columns hok
  refine ⟨by rw [hcolumns], after.checks.previewNeedsLadder.resolve_right fun hkey => hkey ?_⟩
  rw [hcolumns]

/-- A transition that stores no output and no ladder succeeds on a row in the status it
expects, as long as the row has no preview and the error fits the next status. -/
theorem transition_of_error {job : Job} {next : JobStatus} {error : Option String}
    (hpreview : job.previewKey = none) (hnext : next ≠ .done)
    (herror : if next = .failed then error.any btrimNonempty = true else error = none)
    (jobId : UUID) (now : Timestamp) :
    ∃ after, transition jobId job.status next { error } now (some job) = .ok after := by
  have hchecks : (transitionColumns job.toJobColumns next { error } now).Checks :=
    { job.checks with
      outputKey := by simpa [transitionColumns] using hnext
      error := herror
      hlsReadyHasKey := by
        by_cases hfailed : next = .failed <;>
          simp [transitionColumns, derivedHlsStatus, hnext, hfailed]
      width := by simp [transitionColumns]
      height := by simp [transitionColumns]
      durationSeconds := by simp [transitionColumns]
      previewNeedsLadder := Or.inl hpreview }
  refine ⟨⟨_, hchecks⟩, ?_⟩
  simp only [transition, if_pos]
  exact store_eq_ok_iff.mpr rfl

theorem markProcessing_of_claimable {job : Job} (hjob : Claimable job) (jobId : UUID)
    (now : Timestamp) : ∃ after, markProcessing jobId now (some job) = .ok after := by
  unfold markProcessing
  rw [← hjob.1]
  exact transition_of_error hjob.2 (by decide) (by simp) jobId now

theorem markFailed_of_processing {job : Job} {error : String}
    (hstatus : job.status = .processing) (hpreview : job.previewKey = none)
    (herror : strip error ≠ "") (jobId : UUID) (now : Timestamp) :
    ∃ after, markFailed jobId error now (some job) = .ok after := by
  unfold markFailed
  rw [if_neg herror, ← hstatus]
  exact transition_of_error hpreview (by decide) (by simpa using btrimNonempty_strip herror)
    jobId now

theorem trashJob_some {ownerId : UUID} {now : Timestamp} {row : Option Job} {after : Job}
    (hsome : trashJob ownerId now row = some after) :
    ∃ before, row = some before ∧ before.ownerId = ownerId ∧ before.deletedAt = none ∧
      after.toJobColumns = { before.toJobColumns with deletedAt := some now } := by
  cases row with
  | none => simp [trashJob] at hsome
  | some before =>
      simp only [trashJob] at hsome
      by_cases hown : before.ownerId = ownerId ∧ before.deletedAt = none
      · rw [if_pos hown] at hsome
        obtain rfl := Option.some.inj hsome
        exact ⟨before, rfl, hown.1, hown.2, rfl⟩
      · rw [if_neg hown] at hsome
        simp at hsome

theorem restoreJob_some {ownerId : UUID} {row : Option Job} {after : Job}
    (hsome : restoreJob ownerId row = some after) :
    ∃ before, row = some before ∧ before.ownerId = ownerId ∧ before.deletedAt ≠ none ∧
      after.toJobColumns = { before.toJobColumns with deletedAt := none } := by
  cases row with
  | none => simp [restoreJob] at hsome
  | some before =>
      simp only [restoreJob] at hsome
      by_cases hown : before.ownerId = ownerId ∧ before.deletedAt ≠ none
      · rw [if_pos hown] at hsome
        obtain rfl := Option.some.inj hsome
        exact ⟨before, rfl, hown.1, hown.2, rfl⟩
      · rw [if_neg hown] at hsome
        simp at hsome

/-! ## The table -/

/-- The rows by id. -/
abbrev JobTable := AList fun _ : UUID => Job

namespace JobTable

/-- What a statement on the row of `jobId` leaves: the row it returned, or, when it
returned none, the table as it was. -/
def put (table : JobTable) (jobId : UUID) : Option Job → JobTable
  | some job => table.insert jobId job
  | none => table

theorem lookup_put_self (table : JobTable) (jobId : UUID) (row : Option Job) :
    (table.put jobId row).lookup jobId = row.or (table.lookup jobId) := by
  cases row with
  | none => rfl
  | some job => exact AList.lookup_insert _

theorem lookup_put_of_ne (table : JobTable) {jobId other : UUID} (row : Option Job)
    (hne : other ≠ jobId) : (table.put jobId row).lookup other = table.lookup other := by
  cases row with
  | none => rfl
  | some job => exact AList.lookup_insert_ne hne

/-- A row after a write is the written one, or one of the others as before. -/
theorem lookup_put_some {table : JobTable} {jobId other : UUID} {written job : Job}
    (hjob : (table.put jobId (some written)).lookup other = some job) :
    (other = jobId ∧ written = job) ∨ (other ≠ jobId ∧ table.lookup other = some job) := by
  by_cases hother : other = jobId
  · subst hother
    rw [lookup_put_self] at hjob
    exact Or.inl ⟨rfl, Option.some.inj hjob⟩
  · rw [lookup_put_of_ne table _ hother] at hjob
    exact Or.inr ⟨hother, hjob⟩

/-- `SELECT ... WHERE p ORDER BY key`.  Rows with equal keys come in the order the
table happens to hold them. -/
def select (table : JobTable) (p : Job → Bool) (key : Job → Timestamp) : List (UUID × Job) :=
  ((table.entries.map fun row => (row.1, row.2)).filter fun row => p row.2).insertionSort
    fun a b => key a.2 ≤ key b.2

/-- A select gives exactly the rows that meet its condition. -/
theorem mem_select {table : JobTable} {p : Job → Bool} {key : Job → Timestamp} {jobId : UUID}
    {job : Job} :
    (jobId, job) ∈ table.select p key ↔ table.lookup jobId = some job ∧ p job = true := by
  unfold select
  rw [List.mem_insertionSort, List.mem_filter, List.mem_map]
  constructor
  · rintro ⟨⟨row, hrow, heq⟩, hp⟩
    obtain ⟨rfl, rfl⟩ := Prod.mk.inj heq
    exact ⟨AList.mem_lookup_iff.mpr hrow, hp⟩
  · rintro ⟨hlookup, hp⟩
    exact ⟨⟨⟨jobId, job⟩, AList.mem_lookup_iff.mp hlookup, rfl⟩, hp⟩

/-- A select names no row twice. -/
theorem nodup_select (table : JobTable) (p : Job → Bool) (key : Job → Timestamp) :
    ((table.select p key).map (·.1)).Nodup := by
  unfold select
  have hperm := List.perm_insertionSort (fun a b : UUID × Job => key a.2 ≤ key b.2)
    ((table.entries.map fun row => (row.1, row.2)).filter fun row => p row.2)
  refine (hperm.map _).nodup_iff.mpr ?_
  refine List.Nodup.sublist (List.filter_sublist.map _) ?_
  rw [List.map_map]
  exact table.nodupKeys

/-- `list_stale`. -/
def listStale (table : JobTable) (status : JobStatus) (before : Timestamp) :
    List (UUID × Job) :=
  table.select (fun job => job.status = status ∧ job.updatedAt < before) (·.updatedAt)

theorem mem_listStale {table : JobTable} {status : JobStatus} {before : Timestamp}
    {jobId : UUID} {job : Job} :
    (jobId, job) ∈ table.listStale status before ↔
      table.lookup jobId = some job ∧ job.status = status ∧ job.updatedAt < before := by
  simp [listStale, mem_select]

/-- `list_stale_ladders`: done jobs whose ladder has been pending since before `before`. -/
def listStaleLadders (table : JobTable) (before : Timestamp) : List (UUID × Job) :=
  table.select (fun job => job.status = .done ∧ job.hlsStatus = .pending ∧
    job.updatedAt < before) (·.updatedAt)

theorem mem_listStaleLadders {table : JobTable} {before : Timestamp} {jobId : UUID}
    {job : Job} :
    (jobId, job) ∈ table.listStaleLadders before ↔ table.lookup jobId = some job ∧
      job.status = .done ∧ job.hlsStatus = .pending ∧ job.updatedAt < before := by
  simp [listStaleLadders, mem_select]

/-- `list_expired_trash`: jobs trashed before `before`. -/
def listExpiredTrash (table : JobTable) (before : Timestamp) : List (UUID × Job) :=
  table.select (fun job => job.deletedAt.any (· < before)) fun job => job.deletedAt.getD 0

/-- `delete_job`: the row that is gone, or `none` if there was nothing to delete.
Without an owner any owner's row will do. -/
def deleteJob (table : JobTable) (jobId : UUID) (ownerId : Option UUID) :
    Option (Job × JobTable) :=
  match table.lookup jobId with
  | none => none
  | some job =>
      if ownerId.all (· = job.ownerId) then some (job, table.erase jobId) else none

/-- What was deleted was there, and belonged to the owner who asked. -/
theorem deleteJob_some {table after : JobTable} {jobId : UUID} {ownerId : Option UUID}
    {gone : Job} (hdelete : table.deleteJob jobId ownerId = some (gone, after)) :
    table.lookup jobId = some gone ∧ ownerId.all (· = gone.ownerId) = true ∧
      after = table.erase jobId := by
  unfold deleteJob at hdelete
  cases hlookup : table.lookup jobId with
  | none => simp [hlookup] at hdelete
  | some job =>
      simp only [hlookup] at hdelete
      split at hdelete
      · rename_i howner
        obtain ⟨rfl, rfl⟩ := Prod.mk.inj (Option.some.inj hdelete)
        exact ⟨rfl, howner, rfl⟩
      · simp at hdelete

end JobTable

end Repositories
end MediaPlayer
