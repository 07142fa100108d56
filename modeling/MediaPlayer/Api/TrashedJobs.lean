import MediaPlayer.Api.Jobs
import MediaPlayer.Worker.RowRuns

/-!
# A job in the trash

`get_job` hides an owner's trash from its owner, and so does the query of the library.
`prepare_retry` updates a failed row without a look at its `deleted_at`.

* `trashed_as_missing_iff` — every request on a trashed job, beside its restore and its
  permanent deletion, is answered as if the job did not exist, unless it retries a job that
  was trashed as failed.
* `trashed_job_retried` — a job that failed, was trashed, and is queued again.
-/

namespace MediaPlayer
namespace Api

open Library Models Repositories Schemas Services

/-- The requests on a trashed job that neither restore it nor delete it for good. -/
def OnTrashed (settings : JobsSettings) (jobId : UUID) : JobsRequest → Prop
  | .getJobById id | .retryJobById id | .editJobById id _ | .getHlsPart id _
  | .getPreviewIndex id => id = jobId
  -- Without a trash this route is the permanent deletion.
  | .deleteJobById id => id = jobId ∧ 0 < settings.trashRetentionDays
  | _ => False

/-- The request is answered as if the row of `jobId` were not there, and changes nothing. -/
structure AsMissing (settings : JobsSettings) (user : UUID) (world : World) (table : JobTable)
    (jobId : UUID) (request : JobsRequest) : Prop where
  answer : (handle settings user world table request).answer =
    (handle settings user world (table.erase jobId) request).answer
  writes : (handle settings user world table request).writes = []
  calls : (handle settings user world table request).calls = []

section

variable {settings : JobsSettings} {user : UUID} {world : World} {table : JobTable}
  {jobId : UUID} {job : Job} {request : JobsRequest}

theorem ownRow_erase (ownerId : UUID) (table : JobTable) (jobId : UUID) :
    ownRow ownerId ((table.erase jobId).lookup jobId) = none := by
  simp [AList.lookup_erase, ownRow]

/-- A request on the id that is answered 404 at once. -/
theorem AsMissing.of_notFound (hrequest : request.jobId? = some jobId)
    (hreply : handle settings user world table request = { answer := notFound }) :
    AsMissing settings user world table jobId request := by
  have hmissing := handle_of_not_own settings user world hrequest (ownRow_erase user table jobId)
  exact ⟨by rw [hreply, hmissing], by rw [hreply], by rw [hreply]⟩

/-- An owner does not see a row in the trash. -/
theorem getJob_trashed (hrow : table.lookup jobId = some job) (htrashed : job.deletedAt ≠ none) :
    table.getJob jobId (some user) false = none := by
  simp [JobTable.getJob, hrow, Option.isSome_iff_ne_none, htrashed]

theorem trashJob_trashed (htrashed : job.deletedAt ≠ none) (now : Timestamp) :
    trashJob user now (some job) = none := by
  simp [trashJob, htrashed]

/-- A retry of a trashed job that has not failed finds no job. -/
theorem prepareRetry_trashed (jobId user : UUID) (htrashed : job.deletedAt ≠ none)
    (hstatus : job.status ≠ .failed) (now : Timestamp) :
    prepareRetry jobId user now (some job) = .error (.jobNotFound s!"{jobId}") := by
  simp [prepareRetry, htrashed, hstatus]

/-- A retry of a failed job is not answered that there is none, or it is queued. -/
theorem retryJobById_failed (world : World) (hrow : table.lookup jobId = some job)
    (howner : job.ownerId = user) (hfailed : job.status = .failed) :
    (retryJobById user world table jobId).calls = [.enqueueJob jobId] ∨
      (retryJobById user world table jobId).answer = .raised := by
  unfold retryJobById
  cases hretry : prepareRetry jobId user world.now (table.lookup jobId) with
  | ok after => exact Or.inl rfl
  | error e =>
      right
      rw [hrow] at hretry
      simp only [prepareRetry, howner, hfailed, and_self, if_true] at hretry
      -- Only a constraint refuses the row of a failed job.
      obtain rfl : e = .integrityError := by
        unfold store at hretry
        split at hretry
        · simp at hretry
        · exact (Except.error.inj hretry).symm
      rfl

/-- A library page shows no job of the trash. -/
theorem getJobs_hides_trash (hrow : table.lookup jobId = some job)
    (htrashed : job.deletedAt ≠ none) {page : Page} {responses : List JobResponse}
    (hpage : (getJobs settings user world table page).answer = .jobs responses) :
    ∀ response ∈ responses, response.id ≠ jobId := by
  obtain rfl := JobsAnswer.jobs.inj hpage
  intro response hresponse hid
  obtain ⟨row, hlisted, rfl⟩ := List.mem_map.mp hresponse
  obtain ⟨hlookup, hvisible⟩ := JobTable.mem_query.mp (JobTable.mem_of_mem_page hlisted)
  obtain rfl : row.1 = jobId := hid
  rw [hrow] at hlookup
  obtain rfl := Option.some.inj hlookup
  simp [htrashed] at hvisible

end

/-- A trashed job answers its owner as a missing one does, but for a retry of a job that was
trashed as failed; and the library never lists it. -/
theorem trashed_as_missing_iff {settings : JobsSettings} {user : UUID} {table : JobTable}
    {jobId : UUID} {job : Job} (hrow : table.lookup jobId = some job)
    (howner : job.ownerId = user) (htrashed : job.deletedAt ≠ none) (world : World) :
    (∀ request, OnTrashed settings jobId request →
      (AsMissing settings user world table jobId request ↔
        ¬ (request = .retryJobById jobId ∧ job.status = .failed))) ∧
      ∀ page responses, (handle settings user world table (.getJobs page)).answer =
        .jobs responses → ∀ response ∈ responses, response.id ≠ jobId := by
  have hhidden : table.getJob jobId (some user) false = none := getJob_trashed hrow htrashed
  refine ⟨fun request hrequest => ?_, fun page responses => getJobs_hides_trash hrow htrashed⟩
  cases request with
  | getJobs | getTrash | restoreJobById | deleteJobPermanently => exact hrequest.elim
  | getJobById id =>
      obtain rfl : id = jobId := hrequest
      refine iff_of_true (.of_notFound rfl ?_) (by simp)
      simp only [handle, getJobById, hhidden]
  | editJobById id edit =>
      obtain rfl : id = jobId := hrequest
      refine iff_of_true (.of_notFound rfl ?_) (by simp)
      simp only [handle, editJobById, hhidden]
  | getHlsPart id path =>
      obtain rfl : id = jobId := hrequest
      refine iff_of_true (.of_notFound rfl ?_) (by simp)
      simp only [handle, getHlsPart, hhidden, Option.bind_none]
  | getPreviewIndex id =>
      obtain rfl : id = jobId := hrequest
      refine iff_of_true (.of_notFound rfl ?_) (by simp)
      simp only [handle, getPreviewIndex, hhidden, Option.filter_none, Option.bind_none]
  | deleteJobById id =>
      obtain ⟨rfl, hretention⟩ := hrequest
      refine iff_of_true (.of_notFound rfl ?_) (by simp)
      simp only [handle, deleteJobById, hretention, if_true, hrow, trashJob_trashed htrashed]
  | retryJobById id =>
      obtain rfl : id = jobId := hrequest
      by_cases hfailed : job.status = .failed
      · refine iff_of_false (fun h => ?_) (by simp [hfailed])
        have hmissing : handle settings user world (table.erase id) (.retryJobById id) =
            { answer := notFound } :=
          handle_of_not_own settings user world rfl (ownRow_erase user table id)
        rcases retryJobById_failed world hrow howner hfailed with hcalls | hraised
        · exact absurd (hcalls.symm.trans h.calls) (by simp)
        · have hanswer := hraised.symm.trans h.answer
          rw [hmissing] at hanswer
          exact absurd hanswer (by simp [notFound])
      · refine iff_of_true (.of_notFound rfl ?_) (by simp [hfailed])
        have hretry := prepareRetry_trashed id user htrashed hfailed world.now
        simp only [handle, retryJobById, hrow, hretry]
        rfl

/-- A video trashed before its encode. -/
def trashedUpload : Job where
  toJobColumns := { newColumns 7 "a.mp4" "uploads/1/a.mp4" none 30 0 with deletedAt := some 3 }
  checks := by decide

/-- A retry of it is answered as if it were not there. -/
theorem trashed_as_missing_upload :
    AsMissing {} 7 {} ((∅ : JobTable).insert 1 trashedUpload) 1 (.retryJobById 1) :=
  ((trashed_as_missing_iff (AList.lookup_insert ∅) rfl
    (by decide : trashedUpload.deletedAt ≠ none) {}).1 (.retryJobById 1) rfl).mpr
      fun h => absurd h.2 (by decide)

/-- The writes that upload a video, fail its encode, and trash it. -/
def trashedFailure : List Worker.RowAction :=
  [⟨1, 0, .createJob 7 "a.mp4" "uploads/1/a.mp4" 30⟩, ⟨1, 1, .markProcessing⟩,
    ⟨1, 2, .markFailed "the video is damaged"⟩, ⟨1, 3, .trashJob 7⟩]

/-- A job that failed and was trashed is accepted for a retry and put back on the queue. -/
theorem trashed_job_retried : ∃ s, Worker.rowSystem.Reachable s ∧
    ∃ job, s.table.lookup 1 = some job ∧ job.ownerId = 7 ∧ job.deletedAt = some 3 ∧
      job.status = .failed ∧ OnTrashed {} 1 (.retryJobById 1) ∧
      ¬ AsMissing {} 7 {} s.table 1 (.retryJobById 1) ∧
      (handle {} 7 {} s.table (.retryJobById 1)).answer = .accepted 1 ∧
      (handle {} 7 {} s.table (.retryJobById 1)).calls = [.enqueueJob 1] := by
  have hinit : Worker.rowSystem.Reachable {} := .init rfl
  obtain ⟨s, hs, hrun⟩ := hinit.exists_of_run trashedFailure
    (fun s => (s.table.lookup 1).any fun job => job.ownerId = 7 ∧ job.deletedAt = some 3 ∧
      job.status = .failed ∧ (handle {} 7 {} s.table (.retryJobById 1)).answer = .accepted 1 ∧
      (handle {} 7 {} s.table (.retryJobById 1)).calls = [.enqueueJob 1]) (by decide +kernel)
  obtain ⟨job, hrow, hjob⟩ := (Option.any_eq_true _ _).mp hrun
  simp only [decide_eq_true_eq] at hjob
  obtain ⟨howner, htrashed, hfailed, hanswer, hcalls⟩ := hjob
  refine ⟨s, hs, job, hrow, howner, htrashed, hfailed, rfl, fun h => ?_, hanswer, hcalls⟩
  exact absurd (hcalls.symm.trans h.calls) (by simp)

end Api
end MediaPlayer
