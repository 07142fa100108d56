import MediaPlayer.Api.Jobs
import MediaPlayer.Services.ObjectKeys
import MediaPlayer.Worker.RowRuns

/-!
# What becomes of the keys of a job

A write of a worker, of the reaper or of a request leaves a row its operations and its source,
and the only output it names is the job's own.

* `Kept` — every row is a later row of one there was, `Persists` — no row is gone.
* `kept_writeRow`, `kept_handle` — what the writes and the requests leave.
-/

namespace MediaPlayer
namespace Api

open Library Models Repositories Services

/-- `output_key_for`. -/
def keyed (outputPrefix : String) (jobId : UUID) (name : String) : Worker.RowOp → Bool
  | .markDone result =>
      result.outputKey = objectKey outputPrefix jobId name ∧ '/' ∉ name.toList
  | op => !op.inserts

/-- What a write leaves of the table. -/
def writeRow (table : JobTable) (jobId : UUID) (now : Timestamp) : Worker.RowOp → JobTable
  | .deleteJob ownerId => ((table.deleteJob jobId ownerId).map (·.2)).getD table
  | op =>
      match op.apply jobId now (table.lookup jobId) with
      | .ok row => table.put jobId row
      | .error _ => table

/-! ## Later rows -/

/-- A key under which the worker stores the output of the job. -/
def OwnOutput (outputPrefix : String) (jobId : UUID) (key : String) : Prop :=
  ∃ name, '/' ∉ name.toList ∧ key = objectKey outputPrefix jobId name

theorem OwnOutput.namedFor {outputPrefix key : String} {jobId : UUID}
    (hown : OwnOutput outputPrefix jobId key) : NamedFor jobId key :=
  ⟨outputPrefix, hown⟩

/-- A later row of the same job, as far as its keys go. -/
structure RowKept (outputPrefix : String) (jobId : UUID) (before after : Job) : Prop where
  operations : after.operations = before.operations
  sourceKey : after.sourceKey = before.sourceKey
  done : before.status = .done → after.status = .done
  output : ∀ key, after.outputKey = some key →
    before.outputKey = some key ∨ OwnOutput outputPrefix jobId key

theorem RowKept.refl (outputPrefix : String) (jobId : UUID) (job : Job) :
    RowKept outputPrefix jobId job job :=
  ⟨rfl, rfl, id, fun _ => Or.inl⟩

/-- Every row of the later table is a later row of the earlier one. -/
def Kept (outputPrefix : String) (before after : JobTable) : Prop :=
  ∀ jobId job, after.lookup jobId = some job →
    ∃ earlier, before.lookup jobId = some earlier ∧ RowKept outputPrefix jobId earlier job

/-- No row of the earlier table is gone. -/
def Persists (before after : JobTable) : Prop := ∀ jobId ∈ before, jobId ∈ after

theorem Kept.refl (outputPrefix : String) (table : JobTable) : Kept outputPrefix table table :=
  fun jobId job hjob => ⟨job, hjob, .refl outputPrefix jobId job⟩

/-- A row that persists is a later row of the job. -/
theorem Kept.forward {outputPrefix : String} {before after : JobTable}
    (hkept : Kept outputPrefix before after) (hpersists : Persists before after) {jobId : UUID}
    {job : Job} (hjob : before.lookup jobId = some job) :
    ∃ later, after.lookup jobId = some later ∧ RowKept outputPrefix jobId job later := by
  have hmem : jobId ∈ before := AList.lookup_isSome.mp (by simp [hjob])
  obtain ⟨later, hlater⟩ := Option.isSome_iff_exists.mp
    (AList.lookup_isSome.mpr (hpersists jobId hmem))
  obtain ⟨earlier, hearlier, hrow⟩ := hkept jobId later hlater
  obtain rfl := Option.some.inj (hearlier.symm.trans hjob)
  exact ⟨later, hlater, hrow⟩

theorem kept_erase (outputPrefix : String) (table : JobTable) (jobId : UUID) :
    Kept outputPrefix table (table.erase jobId) := by
  intro other job hjob
  by_cases hother : other = jobId
  · subst hother
    simp [AList.lookup_erase] at hjob
  · rw [AList.lookup_erase_ne hother] at hjob
    exact ⟨job, hjob, .refl outputPrefix other job⟩

/-- A row after an insert is the inserted one, or one of the others as before. -/
theorem lookup_insert_cases {table : JobTable} {jobId other : UUID} {created job : Job}
    (hjob : (table.insert jobId created).lookup other = some job) :
    (other = jobId ∧ created = job) ∨ (other ≠ jobId ∧ table.lookup other = some job) :=
  JobTable.lookup_put_some
    (show (table.put jobId (some created)).lookup other = some job from hjob)

theorem kept_insert {outputPrefix : String} {table : JobTable} {jobId : UUID}
    {before after : Job}
    (hrow : table.lookup jobId = some before)
    (hkept : RowKept outputPrefix jobId before after) :
    Kept outputPrefix table (table.insert jobId after) := by
  intro other job hjob
  rcases lookup_insert_cases hjob with ⟨rfl, rfl⟩ | ⟨-, hold⟩
  · exact ⟨before, hrow, hkept⟩
  · exact ⟨job, hold, .refl outputPrefix other job⟩

section

variable {outputPrefix : String} {jobId : UUID}

/-- A transition of a run: it begins in a row that is not done. -/
theorem rowKept_of_transition {expected next : JobStatus} {values : TransitionValues}
    {now : Timestamp} {row : Option Job} {after : Job} (hexpected : expected ≠ .done)
    (houtput : ∀ key, values.outputKey = some key → OwnOutput outputPrefix jobId key)
    (hok : transition jobId expected next values now row = .ok after) :
    ∃ before, row = some before ∧ RowKept outputPrefix jobId before after := by
  obtain ⟨before, hrow, hstatus, hcolumns⟩ := transition_ok hok
  refine ⟨before, hrow, ⟨?_, ?_, fun hdone => absurd (hstatus.symm.trans hdone) hexpected, ?_⟩⟩
  · rw [hcolumns]
    rfl
  · rw [hcolumns]
    rfl
  · intro key hkey
    rw [hcolumns] at hkey
    exact Or.inr (houtput key hkey)

/-- A write beside a run's transitions: it keeps the status of a done row, and names no
output. -/
theorem rowKept_of_columns {before after : Job} (hdone : before.status = .done →
      after.status = .done) (houtput : after.outputKey = none ∨ after.outputKey = before.outputKey)
    (hoperations : after.operations = before.operations)
    (hsource : after.sourceKey = before.sourceKey) : RowKept outputPrefix jobId before after :=
  ⟨hoperations, hsource, hdone, fun key hkey => houtput.elim
    (fun hnone => by simp [hnone] at hkey) fun hsame => Or.inl (hsame ▸ hkey)⟩

theorem rowKept_of_settleLadder {hlsStatus : HlsStatus} {hlsKey : Option String}
    {now : Timestamp} {row : Option Job} {after : Job}
    (hok : settleLadder hlsStatus hlsKey now row = .ok (some after)) :
    ∃ before, row = some before ∧ RowKept outputPrefix jobId before after := by
  obtain ⟨before, hrow, -, -, hcolumns⟩ := settleLadder_some hok
  refine ⟨before, hrow, rowKept_of_columns ?_ (Or.inr ?_) ?_ ?_⟩ <;> rw [hcolumns]
  exact id

theorem rowKept_of_markPreviewReady {previewKey : String} {now : Timestamp} {row : Option Job}
    {after : Job} (hok : markPreviewReady previewKey now row = .ok (some after)) :
    ∃ before, row = some before ∧ RowKept outputPrefix jobId before after := by
  obtain ⟨before, hrow, -, -, hcolumns⟩ := markPreviewReady_columns hok
  refine ⟨before, hrow, rowKept_of_columns ?_ (Or.inr ?_) ?_ ?_⟩ <;> rw [hcolumns]
  exact id

theorem rowKept_of_markStaleFailed {now : Timestamp} {row : Option Job} {after : Job}
    (hok : markStaleFailed now row = .ok (some after)) :
    ∃ before, row = some before ∧ RowKept outputPrefix jobId before after := by
  obtain ⟨before, hrow, hprocessing, hcolumns⟩ := markStaleFailed_columns hok
  refine ⟨before, hrow, rowKept_of_columns (fun hdone => ?_) (Or.inr ?_) ?_ ?_⟩
  · exact absurd (hprocessing.symm.trans hdone) (by decide)
  all_goals rw [hcolumns]

theorem rowKept_of_prepareRetry {ownerId : UUID} {now : Timestamp} {row : Option Job}
    {after : Job} (hok : prepareRetry jobId ownerId now row = .ok after) :
    ∃ before, row = some before ∧ RowKept outputPrefix jobId before after := by
  obtain ⟨before, hrow, hfailed, -, hcolumns⟩ := prepareRetry_columns hok
  refine ⟨before, hrow, rowKept_of_columns (fun hdone => ?_) (Or.inl ?_) ?_ ?_⟩
  · exact absurd (hfailed.symm.trans hdone) (by decide)
  all_goals rw [hcolumns]

theorem rowKept_of_deletedAt {before after : Job} {deletedAt : Option Timestamp}
    (hcolumns : after.toJobColumns = { before.toJobColumns with deletedAt := deletedAt }) :
    RowKept outputPrefix jobId before after := by
  refine rowKept_of_columns ?_ (Or.inr ?_) ?_ ?_ <;> rw [hcolumns]
  exact id

/-- Every write of a worker and of the reaper leaves a later row of the job. -/
theorem rowKept_of_apply {name : String} {now : Timestamp} {op : Worker.RowOp}
    {row : Option Job} {after : Job} (hkeyed : keyed outputPrefix jobId name op = true)
    (hok : op.apply jobId now row = .ok (some after)) :
    ∃ before, row = some before ∧ RowKept outputPrefix jobId before after := by
  cases op with
  | createJob | createEditJob => simp [keyed, Worker.RowOp.inserts] at hkeyed
  | markProcessing | markInterrupted =>
      exact rowKept_of_transition (by decide) (by simp) (Worker.map_some_eq_ok hok)
  | markDone result =>
      obtain ⟨hkey, hname⟩ := of_decide_eq_true hkeyed
      have hdone := markDone_transition (Worker.map_some_eq_ok hok)
      refine rowKept_of_transition (by decide) (fun key hsome => ?_) hdone
      obtain rfl : result.outputKey = key := Option.some.inj hsome
      exact ⟨name, hname, hkey⟩
  | markFailed error =>
      have hfailed := markFailed_transition (Worker.map_some_eq_ok hok)
      exact rowKept_of_transition (by decide) (by simp) hfailed
  | markLadderReady hlsKey => exact rowKept_of_settleLadder (markLadderReady_settles hok)
  | markLadderUnavailable => exact rowKept_of_settleLadder hok
  | markPreviewReady previewKey => exact rowKept_of_markPreviewReady hok
  | markStaleFailed => exact rowKept_of_markStaleFailed hok
  | prepareRetry ownerId => exact rowKept_of_prepareRetry (Worker.map_some_eq_ok hok)
  | trashJob ownerId =>
      obtain ⟨before, hrow, -, -, hcolumns⟩ := trashJob_some (Except.ok.inj hok)
      exact ⟨before, hrow, rowKept_of_deletedAt hcolumns⟩
  | restoreJob ownerId =>
      obtain ⟨before, hrow, -, -, hcolumns⟩ := restoreJob_some (Except.ok.inj hok)
      exact ⟨before, hrow, rowKept_of_deletedAt hcolumns⟩
  | deleteJob ownerId => simp [Worker.RowOp.apply] at hok

theorem kept_deleteJob (table : JobTable) (ownerId : Option UUID) :
    Kept outputPrefix table (((table.deleteJob jobId ownerId).map (·.2)).getD table) := by
  cases hdelete : table.deleteJob jobId ownerId with
  | none => exact .refl outputPrefix table
  | some deleted =>
      obtain ⟨gone, after⟩ := deleted
      obtain ⟨-, -, rfl⟩ := JobTable.deleteJob_some hdelete
      exact kept_erase outputPrefix table jobId

theorem kept_writeRow {name : String} {now : Timestamp} {op : Worker.RowOp}
    (table : JobTable) (hkeyed : keyed outputPrefix jobId name op = true) :
    Kept outputPrefix table (writeRow table jobId now op) := by
  by_cases hdelete : ∃ ownerId, op = .deleteJob ownerId
  · obtain ⟨ownerId, rfl⟩ := hdelete
    exact kept_deleteJob table ownerId
  · have hwrite : writeRow table jobId now op =
        match op.apply jobId now (table.lookup jobId) with
        | .ok row => table.put jobId row
        | .error _ => table := by
      cases op <;> first | rfl | exact absurd ⟨_, rfl⟩ hdelete
    rw [hwrite]
    cases happly : op.apply jobId now (table.lookup jobId) with
    | error e => exact .refl outputPrefix table
    | ok row =>
        cases row with
        | none => exact .refl outputPrefix table
        | some after =>
            obtain ⟨before, hrow, hkept⟩ := rowKept_of_apply hkeyed happly
            exact kept_insert hrow hkept

theorem kept_deleteJobAndStorage (user : UUID) (table : JobTable) :
    Kept outputPrefix table ((deleteJobAndStorage table (some user) jobId).table table) := by
  unfold deleteJobAndStorage
  cases table.deleteJob jobId (some user) with
  | none => exact .refl outputPrefix table
  | some deleted => exact kept_erase outputPrefix table jobId

/-- A request that makes no edit leaves later rows of the jobs. -/
theorem kept_handle (settings : JobsSettings) (user : UUID) (world : World) (table : JobTable)
    {request : JobsRequest} (hedit : ∀ jobId edit, request ≠ .editJobById jobId edit) :
    Kept outputPrefix table ((handle settings user world table request).table table) := by
  cases request with
  | getJobs | getTrash => exact .refl outputPrefix table
  | restoreJobById jobId =>
      simp only [handle, restoreJobById]
      cases hrestore : restoreJob user (table.lookup jobId) with
      | none => exact .refl outputPrefix table
      | some job =>
          obtain ⟨before, hrow, -, -, hcolumns⟩ := restoreJob_some hrestore
          exact kept_insert hrow (rowKept_of_deletedAt hcolumns)
  | deleteJobPermanently jobId => exact kept_deleteJobAndStorage user table
  | getJobById jobId =>
      simp only [handle, getJobById]
      split <;> exact .refl outputPrefix table
  | retryJobById jobId =>
      simp only [handle, retryJobById]
      cases hretry : prepareRetry jobId user world.now (table.lookup jobId) with
      | error e => exact .refl outputPrefix table
      | ok job =>
          obtain ⟨before, hrow, hkept⟩ := rowKept_of_prepareRetry hretry
          cases world.enqueue with
          | raisedBefore | raisedAfter => exact .refl outputPrefix table
          | returned =>
              cases world.commit with
              | raisedBefore => exact .refl outputPrefix table
              | returned | raisedAfter => exact kept_insert hrow hkept
  | editJobById jobId edit => exact absurd rfl (hedit jobId edit)
  | deleteJobById jobId =>
      simp only [handle, deleteJobById]
      split
      · cases htrash : trashJob user world.now (table.lookup jobId) with
        | none => exact .refl outputPrefix table
        | some job =>
            obtain ⟨before, hrow, -, -, hcolumns⟩ := trashJob_some htrash
            exact kept_insert hrow (rowKept_of_deletedAt hcolumns)
      · exact kept_deleteJobAndStorage user table
  | getHlsPart jobId path =>
      simp only [handle, getHlsPart]
      split
      · exact .refl outputPrefix table
      · split <;> exact .refl outputPrefix table
  | getPreviewIndex jobId =>
      simp only [handle, getPreviewIndex]
      split
      · exact .refl outputPrefix table
      · split <;> exact .refl outputPrefix table

/-! ## Rows that stay -/

/-- The requests that delete a job for good. -/
def deletesForGood (settings : JobsSettings) : JobsRequest → Bool
  | .deleteJobPermanently _ => true
  | .deleteJobById _ => settings.trashRetentionDays ≤ 0
  | _ => false

theorem Persists.refl (table : JobTable) : Persists table table := fun _ hmem => hmem

theorem persists_insert (table : JobTable) (jobId : UUID) (job : Job) :
    Persists table (table.insert jobId job) :=
  fun _ hmem => (AList.mem_insert table).mpr (Or.inr hmem)

theorem persists_writeRow {now : Timestamp} {op : Worker.RowOp}
    (table : JobTable) (hop : ∀ ownerId, op ≠ .deleteJob ownerId) :
    Persists table (writeRow table jobId now op) := by
  have hwrite : writeRow table jobId now op =
      match op.apply jobId now (table.lookup jobId) with
      | .ok row => table.put jobId row
      | .error _ => table := by
    cases op <;> first | rfl | exact absurd rfl (hop _)
  rw [hwrite]
  cases op.apply jobId now (table.lookup jobId) with
  | error e => exact .refl table
  | ok row =>
      cases row with
      | none => exact .refl table
      | some after => exact persists_insert table jobId after

/-- A request that makes no edit and deletes nothing for good leaves every row there. -/
theorem persists_handle (settings : JobsSettings) (user : UUID) (world : World)
    (table : JobTable) {request : JobsRequest}
    (hedit : ∀ jobId edit, request ≠ .editJobById jobId edit)
    (hdeletes : deletesForGood settings request = false) :
    Persists table ((handle settings user world table request).table table) := by
  cases request with
  | getJobs | getTrash => exact .refl table
  | restoreJobById jobId =>
      simp only [handle, restoreJobById]
      split
      · exact .refl table
      · exact persists_insert table jobId _
  | deleteJobPermanently jobId => simp [deletesForGood] at hdeletes
  | getJobById jobId =>
      simp only [handle, getJobById]
      split <;> exact .refl table
  | retryJobById jobId =>
      simp only [handle, retryJobById]
      split
      · exact .refl table
      · cases world.enqueue with
        | raisedBefore | raisedAfter => exact .refl table
        | returned =>
            cases world.commit with
            | raisedBefore => exact .refl table
            | returned | raisedAfter => exact persists_insert table jobId _
  | editJobById jobId edit => exact absurd rfl (hedit jobId edit)
  | deleteJobById jobId =>
      have hretention : 0 < settings.trashRetentionDays := by
        simpa [deletesForGood] using hdeletes
      simp only [handle, deleteJobById, hretention, if_true]
      split
      · exact .refl table
      · exact persists_insert table jobId _
  | getHlsPart jobId path =>
      simp only [handle, getHlsPart]
      split
      · exact .refl table
      · split <;> exact .refl table
  | getPreviewIndex jobId =>
      simp only [handle, getPreviewIndex]
      split
      · exact .refl table
      · split <;> exact .refl table

end

end Api
end MediaPlayer
