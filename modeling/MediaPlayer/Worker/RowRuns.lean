import MediaPlayer.Library.StepSystem
import MediaPlayer.Worker.Tasks

/-!
# The rows of the jobs table, over whole runs

Every function of `app/repositories/jobs.py` that writes, on any rows, in any order, with
the arguments its callers give it.  Every function is one transaction and so one step.

`RowRuns.settled` counts how often the ladder of a row has left `pending` since the row is
done.  No process reads it.

* `RowsInvariant` — the columns a run fills are empty on every row that is not done, and a
  ladder that has been settled is not pending.
* `RowOp.apply_accepted` — on such a row no write is refused by a constraint.
* `rows_sound` — so it is in every run.
-/

namespace MediaPlayer
namespace Worker

open Library Models Repositories

/-- A write on one row. -/
inductive RowOp
  | createJob (ownerId : UUID) (filename sourceKey : String) (maxFps : ℤ)
  | createEditJob (ownerId : UUID) (filename sourceKey : String)
      (operations : List EditOperation) (maxFps : ℤ)
  | markProcessing
  | markDone (result : ProcessingResult)
  | markFailed (error : String)
  | markInterrupted
  | markLadderReady (hlsKey : String)
  | markLadderUnavailable
  | markPreviewReady (previewKey : String)
  | markStaleFailed
  | prepareRetry (ownerId : UUID)
  | trashJob (ownerId : UUID)
  | restoreJob (ownerId : UUID)
  | deleteJob (ownerId : Option UUID)
  deriving DecidableEq

namespace RowOp

/-- The operations that insert a row, under an id that is not in use. -/
def inserts : RowOp → Bool
  | createJob .. | createEditJob .. => true
  | _ => false

/-- What the operation writes at the row of `jobId`: the row it leaves there, nothing, or
an error.  `delete_job` leaves no row, see `RowRuns.step`. -/
def apply (jobId : UUID) (now : Timestamp) (row : Option Job) :
    RowOp → Except JobError (Option Job)
  | createJob ownerId filename sourceKey maxFps =>
      (Repositories.createJob ownerId filename sourceKey maxFps now).map some
  | createEditJob ownerId filename sourceKey operations maxFps =>
      (Repositories.createEditJob ownerId filename sourceKey operations maxFps now).map some
  | markProcessing => (Repositories.markProcessing jobId now row).map some
  | markDone result => (Repositories.markDone jobId result.doneValues now row).map some
  | markFailed error => (Repositories.markFailed jobId error now row).map some
  | markInterrupted => (Repositories.markInterrupted jobId now row).map some
  | markLadderReady hlsKey => Repositories.markLadderReady hlsKey now row
  | markLadderUnavailable => Repositories.markLadderUnavailable now row
  | markPreviewReady previewKey => Repositories.markPreviewReady previewKey now row
  | markStaleFailed => Repositories.markStaleFailed now row
  | prepareRetry ownerId => (Repositories.prepareRetry jobId ownerId now row).map some
  | trashJob ownerId => .ok (Repositories.trashJob ownerId now row)
  | restoreJob ownerId => .ok (Repositories.restoreJob ownerId row)
  | deleteJob _ => .ok none

/-- What the callers promise of their arguments: a frame rate they have checked, sizes a
probe has found, and no ladder key together with a ladder still to come. -/
def Promised : RowOp → Prop
  | createJob _ _ _ maxFps | createEditJob _ _ _ _ maxFps => maxFps = 30 ∨ maxFps = 60
  | markDone result =>
      (∀ width ∈ result.width, 0 < width) ∧ (∀ height ∈ result.height, 0 < height) ∧
        (∀ seconds ∈ result.durationSeconds, 0 < seconds) ∧
        (result.hlsKey = none ∨ result.ladderPending = false)
  | _ => True

instance : ∀ op, Decidable (Promised op)
  | createJob _ _ _ maxFps | createEditJob _ _ _ _ maxFps =>
      inferInstanceAs (Decidable (maxFps = 30 ∨ maxFps = 60))
  | markDone result => inferInstanceAs (Decidable
      ((∀ width ∈ result.width, 0 < width) ∧ (∀ height ∈ result.height, 0 < height) ∧
        (∀ seconds ∈ result.durationSeconds, 0 < seconds) ∧
        (result.hlsKey = none ∨ result.ladderPending = false)))
  | markProcessing | markFailed _ | markInterrupted | markLadderReady _
  | markLadderUnavailable | markPreviewReady _ | markStaleFailed | prepareRetry _ | trashJob _
  | restoreJob _ | deleteJob _ => .isTrue trivial

end RowOp

structure RowRuns where
  table : JobTable := ∅
  settled : UUID → ℕ := fun _ => 0

/-- An operation on the row of `jobId`, at a time. -/
structure RowAction where
  jobId : UUID
  now : Timestamp
  op : RowOp

namespace RowRuns

/-- The write takes the ladder of a done row out of `pending`. -/
def settles (before : Option Job) (after : Job) : Bool :=
  before.any fun job => job.status = .done ∧ job.hlsStatus = .pending ∧ after.hlsStatus ≠ .pending

/-- A row written, with the count of what it settles. -/
def written (s : RowRuns) (jobId : UUID) (job : Job) : RowRuns where
  table := s.table.insert jobId job
  settled := Function.update s.settled jobId
    (s.settled jobId + if settles (s.table.lookup jobId) job then 1 else 0)

/-- One transaction.  A function that raises, or finds no row, changes nothing. -/
def step (s : RowRuns) (a : RowAction) : Option RowRuns :=
  match a.op with
  | .deleteJob ownerId =>
      match s.table.deleteJob a.jobId ownerId with
      | none => some s
      | some (_, table) => some ⟨table, Function.update s.settled a.jobId 0⟩
  | op =>
      if op.inserts ∧ (s.table.lookup a.jobId).isSome then none
      else
        match op.apply a.jobId a.now (s.table.lookup a.jobId) with
        | .ok (some job) => some (s.written a.jobId job)
        | .ok none | .error _ => some s

end RowRuns

/-- Any sequence of writes, from the empty table. -/
def rowSystem : StepSystem RowRuns RowAction where
  init s := s = {}
  step := RowRuns.step

/-! ## What one write can do -/

/-- The columns a run fills are empty. -/
structure Unfilled (job : Job) : Prop where
  outputKey : job.outputKey = none
  hlsKey : job.hlsKey = none
  width : job.width = none
  height : job.height = none
  durationSeconds : job.durationSeconds = none
  thumbnailKey : job.thumbnailKey = none
  previewKey : job.previewKey = none

/-- What a write leaves of a row, as far as its status and its ladder go. -/
inductive Written (row : Option Job) (after : Job) : Prop
  | inserted (hrow : row = none) (hqueued : after.status = .queued) (hunfilled : Unfilled after)
  | moved {before : Job} (hrow : row = some before) (hbefore : before.status ≠ .done)
      (hafter : after.status ≠ .done) (hunfilled : Unfilled before → Unfilled after)
  | finished {before : Job} (hrow : row = some before) (hbefore : before.status = .processing)
      (hafter : after.status = .done)
  | settled {before : Job} (hrow : row = some before) (hbefore : before.status = .done)
      (hpending : before.hlsStatus = .pending) (hafter : after.status = .done)
  | kept {before : Job} (hrow : row = some before) (hstatus : after.status = before.status)
      (hladder : after.hlsStatus = before.hlsStatus) (hunfilled : Unfilled before → Unfilled after)

/-- A transition that stores no output clears what a run had filled, but for the preview. -/
theorem unfilled_of_transition {next : JobStatus} {error : Option String} {now : Timestamp}
    {before after : Job} (hbefore : Unfilled before)
    (hafter : after.toJobColumns = transitionColumns before.toJobColumns next { error } now) :
    Unfilled after := by
  constructor <;> rw [hafter]
  case previewKey => exact hbefore.previewKey
  all_goals rfl

theorem written_of_transition {jobId : UUID} {expected next : JobStatus} {error : Option String}
    {now : Timestamp} {row : Option Job} {after : Job} (hexpected : expected ≠ .done)
    (hnext : next ≠ .done)
    (hok : transition jobId expected next { error } now row = .ok after) : Written row after := by
  obtain ⟨before, hrow, hstatus, hcolumns⟩ := transition_ok hok
  refine .moved hrow (by rwa [hstatus]) ?_ fun h => unfilled_of_transition h hcolumns
  rw [hcolumns]
  exact hnext

theorem written_of_settleLadder {hlsStatus : HlsStatus} {hlsKey : Option String}
    {now : Timestamp} {row : Option Job} {after : Job}
    (hok : settleLadder hlsStatus hlsKey now row = .ok (some after)) : Written row after := by
  obtain ⟨before, hrow, hdone, hpending, hcolumns⟩ := settleLadder_some hok
  exact .settled hrow hdone hpending (by rw [hcolumns]; exact hdone)

theorem written_of_markStaleFailed {now : Timestamp} {row : Option Job} {after : Job}
    (hok : markStaleFailed now row = .ok (some after)) : Written row after := by
  obtain ⟨before, hrow, hstatus, hcolumns⟩ := markStaleFailed_columns hok
  refine .moved hrow (by simp [hstatus]) (by simp [hcolumns]) fun h => ?_
  constructor <;> rw [hcolumns]
  exacts [h.outputKey, h.hlsKey, h.width, h.height, h.durationSeconds, h.thumbnailKey,
    h.previewKey]

theorem written_of_prepareRetry {jobId ownerId : UUID} {now : Timestamp} {row : Option Job}
    {after : Job} (hok : prepareRetry jobId ownerId now row = .ok after) : Written row after := by
  obtain ⟨before, hrow, hstatus, -, hcolumns⟩ := prepareRetry_columns hok
  refine .moved hrow (by simp [hstatus]) (by simp [hcolumns]) fun h => ?_
  constructor <;> rw [hcolumns]
  exacts [h.width, h.height, h.durationSeconds, h.thumbnailKey, h.previewKey]

theorem written_of_markPreviewReady {previewKey : String} {now : Timestamp} {row : Option Job}
    {after : Job} (hok : markPreviewReady previewKey now row = .ok (some after)) :
    Written row after := by
  obtain ⟨before, hrow, hdone, -, hcolumns⟩ := markPreviewReady_columns hok
  have houtput := before.checks.outputKey.mp hdone
  exact .kept hrow (by rw [hcolumns]) (by rw [hcolumns]) fun h => absurd h.outputKey houtput

/-- Moving a row to the trash or back keeps all that a run fills. -/
theorem written_of_deletedAt {row : Option Job} {before after : Job} {deletedAt : Option Timestamp}
    (hrow : row = some before)
    (hcolumns : after.toJobColumns = { before.toJobColumns with deletedAt := deletedAt }) :
    Written row after := by
  refine .kept hrow (by rw [hcolumns]) (by rw [hcolumns]) fun h => ?_
  constructor <;> rw [hcolumns]
  exacts [h.outputKey, h.hlsKey, h.width, h.height, h.durationSeconds, h.thumbnailKey,
    h.previewKey]

/-- A new row is queued and empty. -/
theorem written_of_newColumns {row : Option Job} (hrow : row = none) {after : Job}
    {ownerId : UUID} {filename sourceKey : String} {operations : Option (List EditOperation)}
    {maxFps : ℤ} {now : Timestamp}
    (hok : store (newColumns ownerId filename sourceKey operations maxFps now) = .ok after) :
    Written row after := by
  have hcolumns := store_eq_ok_iff.mp hok
  refine .inserted hrow (by rw [hcolumns]; rfl) ?_
  constructor <;> rw [hcolumns] <;> rfl

theorem map_some_eq_ok {result : Except JobError Job} {after : Job}
    (hok : result.map some = .ok (some after)) : result = .ok after := by
  cases result with
  | error e => simp [Except.map] at hok
  | ok job =>
      simp only [Except.map, Except.ok.injEq, Option.some.injEq] at hok
      rw [hok]

/-- What every operation writes. -/
theorem RowOp.apply_written {op : RowOp} {jobId : UUID} {now : Timestamp} {row : Option Job}
    {after : Job} (hnew : op.inserts = true → row = none)
    (hok : op.apply jobId now row = .ok (some after)) : Written row after := by
  cases op with
  | createJob ownerId filename sourceKey maxFps =>
      exact written_of_newColumns (hnew rfl) (map_some_eq_ok hok)
  | createEditJob ownerId filename sourceKey operations maxFps =>
      have hcreated := map_some_eq_ok hok
      unfold Repositories.createEditJob at hcreated
      split at hcreated
      · simp at hcreated
      · exact written_of_newColumns (hnew rfl) hcreated
  | markProcessing =>
      exact written_of_transition (by decide) (by decide) (map_some_eq_ok hok)
  | markInterrupted =>
      exact written_of_transition (by decide) (by decide) (map_some_eq_ok hok)
  | markDone result =>
      simp only [RowOp.apply] at hok
      obtain ⟨before, hrow, hbefore, hafter, -⟩ := markDone_ok (map_some_eq_ok hok)
      exact .finished hrow hbefore hafter
  | markFailed error =>
      exact written_of_transition (by decide) (by decide)
        (markFailed_transition (map_some_eq_ok hok))
  | markLadderReady hlsKey => exact written_of_settleLadder (markLadderReady_settles hok)
  | markLadderUnavailable => exact written_of_settleLadder hok
  | markPreviewReady previewKey => exact written_of_markPreviewReady hok
  | markStaleFailed => exact written_of_markStaleFailed hok
  | prepareRetry ownerId => exact written_of_prepareRetry (map_some_eq_ok hok)
  | trashJob ownerId =>
      obtain ⟨before, hrow, -, -, hcolumns⟩ := trashJob_some (Except.ok.inj hok)
      exact written_of_deletedAt hrow hcolumns
  | restoreJob ownerId =>
      obtain ⟨before, hrow, -, -, hcolumns⟩ := restoreJob_some (Except.ok.inj hok)
      exact written_of_deletedAt hrow hcolumns
  | deleteJob ownerId => simp [RowOp.apply] at hok

/-! ## No write is refused -/

/-- Only a done row has anything a run fills. -/
def Plain (row : Option Job) : Prop := ∀ job, row = some job → job.status ≠ .done → Unfilled job

theorem Plain.previewKey {row : Option Job} (hplain : Plain row) {job : Job}
    (hrow : row = some job) (hstatus : job.status ≠ .done) : job.previewKey = none :=
  (hplain job hrow hstatus).previewKey

theorem map_some_ne {result : Except JobError Job} {e : JobError} (hresult : result ≠ .error e) :
    result.map some ≠ .error e := by
  cases result with
  | error e' =>
      intro h
      exact hresult (congrArg Except.error (Except.error.inj h))
  | ok job => simp [Except.map]

theorem ok_ne_error {α : Type} {result : Except JobError α} (hok : ∃ a, result = .ok a)
    (e : JobError) : result ≠ .error e := by
  obtain ⟨a, rfl⟩ := hok
  simp

/-- Columns that pass the checks are stored. -/
theorem store_accepted {columns : JobColumns} (hchecks : columns.Checks) (e : JobError) :
    store columns ≠ .error e := by
  rw [show store columns = .ok ⟨columns, hchecks⟩ from store_eq_ok_iff.mpr rfl]
  simp

theorem storeSome_accepted {columns : JobColumns} (hchecks : columns.Checks) (e : JobError) :
    storeSome columns ≠ .error e := by
  rw [show storeSome columns = .ok (some ⟨columns, hchecks⟩) from storeSome_eq_ok_iff.mpr rfl]
  simp

/-- A transition to a status that stores no output is never refused on a plain row. -/
theorem transition_accepted {expected next : JobStatus} {error : Option String}
    {row : Option Job} (hplain : Plain row) (hexpected : expected ≠ .done) (hnext : next ≠ .done)
    (herror : if next = .failed then error.any btrimNonempty = true else error = none)
    (jobId : UUID) (now : Timestamp) :
    transition jobId expected next { error } now row ≠ .error .integrityError := by
  cases row with
  | none => simp [transition]
  | some job =>
      by_cases hstatus : job.status = expected
      · subst hstatus
        exact ok_ne_error (transition_of_error (hplain.previewKey rfl hexpected) hnext herror
          jobId now) _
      · simp [transition, hstatus]

/-- The columns of a finished run pass the checks on a row without a preview. -/
theorem doneColumns_checks {result : ProcessingResult}
    (hpromised : (RowOp.markDone result).Promised)
    {job : Job} (hpreview : job.previewKey = none) (now : Timestamp) :
    (transitionColumns job.toJobColumns .done
      { outputKey := some result.doneValues.outputKey
        hlsKey := result.doneValues.hlsKey
        hlsStatus := result.doneValues.hlsStatus
        width := result.doneValues.width
        height := result.doneValues.height
        durationSeconds := result.doneValues.durationSeconds
        thumbnailKey := result.doneValues.thumbnailKey } now).Checks :=
  { job.checks with
    outputKey := by simp [transitionColumns]
    error := by simp [transitionColumns]
    hlsReadyHasKey := by
      obtain ⟨-, -, -, hladder⟩ := hpromised
      cases hkey : result.hlsKey <;> cases hpending : result.ladderPending <;>
        simp_all [transitionColumns, derivedHlsStatus, ProcessingResult.doneValues]
    width := hpromised.1
    height := hpromised.2.1
    durationSeconds := hpromised.2.2.1
    previewNeedsLadder := Or.inl hpreview }

theorem markDone_accepted {result : ProcessingResult} {row : Option Job} (hplain : Plain row)
    (hpromised : (RowOp.markDone result).Promised) (jobId : UUID) (now : Timestamp) :
    markDone jobId result.doneValues now row ≠ .error .integrityError := by
  unfold markDone
  split
  · simp
  · split
    · simp
    · cases row with
      | none => simp [transition]
      | some job =>
          by_cases hstatus : job.status = .processing
          · simp only [transition, if_pos hstatus]
            exact store_accepted
              (doneColumns_checks hpromised (hplain.previewKey rfl (by simp [hstatus])) now) _
          · simp [transition, hstatus]

/-- A run that finds its row processing records its outcome. -/
theorem markDone_of_processing {result : ProcessingResult} {job : Job}
    (hplain : Plain (some job)) (hstatus : job.status = .processing)
    (hpromised : (RowOp.markDone result).Promised) (houtput : strip result.outputKey ≠ "")
    (hthumbnail : ∀ key ∈ result.thumbnailKey, strip key ≠ "") (jobId : UUID) (now : Timestamp) :
    ∃ after, markDone jobId result.doneValues now (some job) = .ok after ∧
      after.outputKey = some result.outputKey ∧ after.thumbnailKey = result.thumbnailKey := by
  have hchecks := doneColumns_checks hpromised (hplain.previewKey rfl (by simp [hstatus])) now
  have hstrip : strip result.doneValues.outputKey ≠ "" := houtput
  have hnot : ¬ result.doneValues.thumbnailKey.any (strip · = "") = true := by
    simpa [ProcessingResult.doneValues, Option.any_eq_true] using hthumbnail
  refine ⟨⟨_, hchecks⟩, ?_, rfl, rfl⟩
  unfold markDone
  rw [if_neg hstrip, if_neg hnot]
  simp only [transition, if_pos hstatus]
  exact store_eq_ok_iff.mpr rfl

theorem markLadderReady_accepted (hlsKey : String) (now : Timestamp) (row : Option Job) :
    markLadderReady hlsKey now row ≠ .error .integrityError := by
  unfold markLadderReady
  split
  · simp
  · cases row with
    | none => simp [settleLadder]
    | some job =>
        simp only [settleLadder]
        split
        · refine storeSome_accepted ?_ _
          exact { job.checks with
            hlsReadyHasKey := by simp
            previewNeedsLadder := Or.inr (by simp) }
        · simp

theorem markPreviewReady_accepted (previewKey : String) (now : Timestamp) (row : Option Job) :
    markPreviewReady previewKey now row ≠ .error .integrityError := by
  cases row with
  | none =>
      simp only [markPreviewReady]
      split <;> simp
  | some job =>
      simp only [markPreviewReady]
      split
      · simp
      · split
        · rename_i hready
          refine storeSome_accepted ?_ _
          exact { job.checks with
            previewNeedsLadder := Or.inr (job.checks.hlsReadyHasKey.mp hready.2) }
        · simp

theorem markStaleFailed_accepted {row : Option Job} (hplain : Plain row) (now : Timestamp) :
    markStaleFailed now row ≠ .error .integrityError := by
  cases row with
  | none => simp [markStaleFailed]
  | some job =>
      refine ok_ne_error ((markStaleFailed_ok_iff now job).mpr fun hstatus => ?_) _
      exact (hplain job rfl (by simp [hstatus])).hlsKey

theorem prepareRetry_accepted {row : Option Job} (hplain : Plain row) (jobId ownerId : UUID)
    (now : Timestamp) : prepareRetry jobId ownerId now row ≠ .error .integrityError := by
  cases row with
  | none => simp [prepareRetry]
  | some job =>
      simp only [prepareRetry]
      split
      · rename_i hfailed
        refine store_accepted ?_ _
        exact { job.checks with
          outputKey := by simp
          error := by simp
          hlsReadyHasKey := by simp
          previewNeedsLadder := Or.inl (hplain.previewKey rfl (by simp [hfailed.2])) }
      · split <;> simp

/-- No promised write on a plain row is refused by a constraint. -/
theorem RowOp.apply_accepted {op : RowOp} (hpromised : op.Promised) {row : Option Job}
    (hplain : Plain row) (jobId : UUID) (now : Timestamp) :
    op.apply jobId now row ≠ .error .integrityError := by
  cases op with
  | createJob ownerId filename sourceKey maxFps =>
      exact map_some_ne (store_accepted (newColumns_checks hpromised (by simp) ..) _)
  | createEditJob ownerId filename sourceKey operations maxFps =>
      refine map_some_ne ?_
      unfold Repositories.createEditJob
      by_cases hoperations : operations = []
      · simp [hoperations]
      · rw [if_neg hoperations]
        exact store_accepted (newColumns_checks hpromised (by simpa using hoperations) ..) _
  | markProcessing =>
      exact map_some_ne (transition_accepted hplain (by decide) (by decide) (by simp) jobId now)
  | markInterrupted =>
      exact map_some_ne (transition_accepted hplain (by decide) (by decide) (by simp) jobId now)
  | markDone result => exact map_some_ne (markDone_accepted hplain hpromised jobId now)
  | markFailed error =>
      refine map_some_ne ?_
      unfold Repositories.markFailed
      by_cases hblank : strip error = ""
      · simp [hblank]
      · rw [if_neg hblank]
        exact transition_accepted hplain (by decide) (by decide)
          (by simpa using btrimNonempty_strip hblank) jobId now
  | markLadderReady hlsKey => exact markLadderReady_accepted hlsKey now row
  | markLadderUnavailable => exact ok_ne_error (markLadderUnavailable_ok now row) _
  | markPreviewReady previewKey => exact markPreviewReady_accepted previewKey now row
  | markStaleFailed => exact markStaleFailed_accepted hplain now
  | prepareRetry ownerId => exact map_some_ne (prepareRetry_accepted hplain jobId ownerId now)
  | trashJob _ | restoreJob _ | deleteJob _ => simp [RowOp.apply]

theorem Written.plain {row : Option Job} {after : Job} (hwritten : Written row after)
    (hplain : Plain row) : Plain (some after) := by
  rintro job hjob hstatus
  obtain rfl := Option.some.inj hjob
  cases hwritten with
  | inserted hrow hqueued hunfilled => exact hunfilled
  | moved hrow hbefore hafter hunfilled => exact hunfilled (hplain _ hrow hbefore)
  | finished hrow hbefore hafter => exact absurd hafter hstatus
  | settled hrow hbefore hpending hafter => exact absurd hafter hstatus
  | kept hrow hsame hladder hunfilled =>
      exact hunfilled (hplain _ hrow (by rwa [← hsame]))

/-- A write on a done row leaves it done. -/
theorem Written.done {row : Option Job} {after before : Job} (hwritten : Written row after)
    (hrow : row = some before) (hdone : before.status = .done) : after.status = .done := by
  cases hwritten with
  | inserted hnone => simp [hnone] at hrow
  | moved hsome hnot => exact absurd (Option.some.inj (hsome.symm.trans hrow) ▸ hdone) hnot
  | finished hsome _ hafter => exact hafter
  | settled hsome _ _ hafter => exact hafter
  | kept hsome hsame => rw [hsame, Option.some.inj (hsome.symm.trans hrow), hdone]

/-- A write leaves the ladder of a done row settled if it was, and settles one that was
pending at most once. -/
theorem Written.settles_once {row : Option Job} {after : Job} (hwritten : Written row after)
    {count : ℕ} (hcount : count = 0 ∨ count = 1 ∧
      ∃ job, row = some job ∧ job.status = .done ∧ job.hlsStatus ≠ .pending) :
    (count + if RowRuns.settles row after then 1 else 0) = 0 ∨
      (count + if RowRuns.settles row after then 1 else 0) = 1 ∧
        after.status = .done ∧ after.hlsStatus ≠ .pending := by
  by_cases hsettles : RowRuns.settles row after = true
  · obtain ⟨before, hrow, hbefore⟩ := (Option.any_eq_true _ _).mp hsettles
    obtain ⟨hdone, hpending, hafter⟩ := of_decide_eq_true hbefore
    have hzero : count = 0 := hcount.resolve_right fun ⟨_, job, hjob, _, hnot⟩ =>
      hnot (Option.some.inj (hjob.symm.trans hrow) ▸ hpending)
    refine Or.inr ⟨by simp [hsettles, hzero], ?_, hafter⟩
    cases hwritten with
    | inserted hnone => simp [hnone] at hrow
    | moved hsome hnot => exact absurd (Option.some.inj (hsome.symm.trans hrow) ▸ hdone) hnot
    | finished hsome hprocessing hdone => exact hdone
    | settled hsome _ _ hdone => exact hdone
    | kept hsome hsame => rw [hsame, Option.some.inj (hsome.symm.trans hrow), hdone]
  · rw [if_neg hsettles, Nat.add_zero]
    refine hcount.imp_right fun ⟨hone, job, hrow, hdone, hnot⟩ => ⟨hone, ?_⟩
    cases hwritten with
    | inserted hnone => simp [hnone] at hrow
    | moved hsome hnotDone =>
        exact absurd (Option.some.inj (hsome.symm.trans hrow) ▸ hdone) hnotDone
    | finished hsome hprocessing =>
        rw [Option.some.inj (hsome.symm.trans hrow), hdone] at hprocessing
        exact absurd hprocessing (by decide)
    | settled hsome _ hpending =>
        exact absurd (Option.some.inj (hsome.symm.trans hrow) ▸ hpending) hnot
    | kept hsome hsame hladder =>
        obtain rfl := Option.some.inj (hsome.symm.trans hrow)
        exact ⟨hsame.trans hdone, by rwa [hladder]⟩

/-! ## Runs -/

namespace RowRuns

variable {s t : RowRuns} {a : RowAction}

/-- What one transaction can do. -/
inductive Stepped (s : RowRuns) (a : RowAction) : RowRuns → Prop
  | idle : Stepped s a s
  | deleted {ownerId : Option UUID} (hop : a.op = .deleteJob ownerId) :
      Stepped s a ⟨s.table.erase a.jobId, Function.update s.settled a.jobId 0⟩
  | written {job : Job} (hwritten : Written (s.table.lookup a.jobId) job) :
      Stepped s a (s.written a.jobId job)

theorem stepped_of_step (hstep : step s a = some t) : Stepped s a t := by
  obtain ⟨jobId, now, op⟩ := a
  by_cases hdelete : ∃ ownerId, op = .deleteJob ownerId
  · obtain ⟨ownerId, rfl⟩ := hdelete
    cases hgone : s.table.deleteJob jobId ownerId with
    | none =>
        simp only [step, hgone] at hstep
        obtain rfl := Option.some.inj hstep
        exact .idle
    | some gone =>
        simp only [step, hgone] at hstep
        obtain rfl := Option.some.inj hstep
        obtain ⟨row, table⟩ := gone
        rw [(JobTable.deleteJob_some hgone).2.2]
        exact .deleted rfl
  · have hwrite : (if op.inserts ∧ (s.table.lookup jobId).isSome then none
        else match op.apply jobId now (s.table.lookup jobId) with
          | .ok (some job) => some (s.written jobId job)
          | .ok none | .error _ => some s) = some t := by
      rw [← hstep]
      cases op <;> first | rfl | exact absurd ⟨_, rfl⟩ hdelete
    by_cases hexists : op.inserts ∧ (s.table.lookup jobId).isSome
    · simp [hexists] at hwrite
    · rw [if_neg hexists] at hwrite
      split at hwrite
      · rename_i job hok
        obtain rfl := Option.some.inj hwrite
        refine .written (RowOp.apply_written (fun hinserts => ?_) hok)
        by_contra hrow
        exact hexists ⟨hinserts, Option.isSome_iff_ne_none.mpr hrow⟩
      all_goals
        obtain rfl := Option.some.inj hwrite
        exact .idle

/-- Only done rows have anything a run fills, and a ladder that was settled is so once and
for good. -/
structure RowsInvariant (s : RowRuns) : Prop where
  plain : ∀ jobId, Plain (s.table.lookup jobId)
  settled : ∀ jobId, s.settled jobId = 0 ∨ s.settled jobId = 1 ∧
    ∃ job, s.table.lookup jobId = some job ∧ job.status = .done ∧ job.hlsStatus ≠ .pending

theorem RowsInvariant.step (hs : RowsInvariant s) (hstep : RowRuns.step s a = some t) :
    RowsInvariant t := by
  cases stepped_of_step hstep with
  | idle => exact hs
  | deleted hop =>
      constructor
      · intro jobId
        by_cases hjob : jobId = a.jobId
        · subst hjob
          rintro job hlookup
          simp at hlookup
        · rw [AList.lookup_erase_ne hjob]
          exact hs.plain jobId
      · intro jobId
        by_cases hjob : jobId = a.jobId
        · exact Or.inl (by simp [hjob])
        · simp only [Function.update_of_ne hjob, AList.lookup_erase_ne hjob]
          exact hs.settled jobId
  | written hwritten =>
      constructor
      · intro jobId
        by_cases hjob : jobId = a.jobId
        · subst hjob
          simp only [RowRuns.written, AList.lookup_insert]
          exact hwritten.plain (hs.plain _)
        · simp only [RowRuns.written, AList.lookup_insert_ne hjob]
          exact hs.plain jobId
      · intro jobId
        by_cases hjob : jobId = a.jobId
        · subst hjob
          simp only [RowRuns.written, AList.lookup_insert, Function.update_self]
          exact (hwritten.settles_once (hs.settled _)).imp_right fun ⟨hone, hdone⟩ =>
            ⟨hone, _, rfl, hdone⟩
        · simp only [RowRuns.written, AList.lookup_insert_ne hjob, Function.update_of_ne hjob]
          exact hs.settled jobId

/-- What holds of the jobs table in every run. -/
structure RowsSound (s : RowRuns) : Prop where
  checks : ∀ jobId job, s.table.lookup jobId = some job → job.Checks
  unfilled : ∀ jobId job, s.table.lookup jobId = some job → job.status ≠ .done → Unfilled job
  /-- `done` is terminal until the row is deleted. -/
  terminal : ∀ a t, RowRuns.step s a = some t → ∀ jobId job,
    s.table.lookup jobId = some job → job.status = .done →
      (∃ later, t.table.lookup jobId = some later ∧ later.status = .done) ∨
        a.jobId = jobId ∧ ∃ ownerId, a.op = .deleteJob ownerId
  /-- The ladder of a done row leaves `pending` at most once. -/
  settledOnce : ∀ jobId, s.settled jobId ≤ 1
  /-- No write is refused by a constraint. -/
  accepted : ∀ a : RowAction, a.op.Promised →
    a.op.apply a.jobId a.now (s.table.lookup a.jobId) ≠ .error .integrityError

theorem RowsInvariant.sound (hs : RowsInvariant s) : RowsSound s where
  checks _ job _ := job.checks
  unfilled jobId job hjob hstatus := hs.plain jobId job hjob hstatus
  terminal a t hstep jobId job hjob hdone := by
    cases stepped_of_step hstep with
    | idle => exact Or.inl ⟨job, hjob, hdone⟩
    | deleted hop =>
        by_cases hid : jobId = a.jobId
        · exact Or.inr ⟨hid.symm, _, hop⟩
        · exact Or.inl ⟨job, by rw [AList.lookup_erase_ne hid, hjob], hdone⟩
    | written hwritten =>
        by_cases hid : jobId = a.jobId
        · subst hid
          exact Or.inl ⟨_, AList.lookup_insert _, hwritten.done hjob hdone⟩
        · refine Or.inl ⟨job, ?_, hdone⟩
          simp only [RowRuns.written, AList.lookup_insert_ne hid]
          exact hjob
  settledOnce jobId := by
    rcases hs.settled jobId with hzero | ⟨hone, -⟩ <;> omega
  accepted a hpromised := RowOp.apply_accepted hpromised (hs.plain a.jobId) a.jobId a.now

/-- **The rows stay sound in every run** of writes whose callers keep their promises. -/
theorem rows_sound {s : RowRuns} (hs : rowSystem.ReachableUnder (fun _ a => a.op.Promised) s) :
    RowsSound s := by
  have hinvariant : RowsInvariant s := by
    refine hs.invariant RowsInvariant ?_ fun s a t _ hs _ hstep => hs.step hstep
    rintro s rfl
    exact ⟨fun jobId job hjob => by simp at hjob, fun jobId => Or.inl rfl⟩
  exact hinvariant.sound

/-- A job that is created, encoded and given its ladder and its preview. -/
def encodedJob : List RowAction :=
  [⟨1, 10, .createJob 7 "clip.mp4" "uploads/1" 30⟩, ⟨1, 11, .markProcessing⟩,
    ⟨1, 12, .markDone
      { outputKey := "outputs/1/1.mp4", ladderPending := true,
        width := some 1920, height := some 1080 }⟩,
    ⟨1, 13, .markLadderReady "outputs/1/hls/master.m3u8"⟩,
    ⟨1, 14, .markPreviewReady "outputs/1/preview.vtt"⟩]

theorem rows_sound_encodedJob : ∃ s : RowRuns,
    rowSystem.ReachableUnder (fun _ a => a.op.Promised) s ∧ s.settled 1 = 1 ∧ RowsSound s := by
  have hreached : ∃ s, rowSystem.ReachableUnder (fun _ a => a.op.Promised) s ∧
      decide (s.settled 1 = 1) = true :=
    StepSystem.ReachableUnder.exists_of_runUnder (.init rfl) encodedJob _ (by decide)
  obtain ⟨s, hs, hsettled⟩ := hreached
  exact ⟨s, hs, of_decide_eq_true hsettled, rows_sound hs⟩

end RowRuns

end Worker
end MediaPlayer
