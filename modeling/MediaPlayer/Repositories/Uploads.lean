import MediaPlayer.Library.Parties
import MediaPlayer.Models.Upload

/-!
# The upload repository

`app/repositories/uploads.py`.  Its functions share the caller's transaction, which holds
the row locks of the owner and of the session until it commits or rolls back: a handler
is a sequence of `Span`s between two commits, and `SpanEnd` is what a span leaves.
-/

namespace MediaPlayer
namespace Repositories

open Library Models

/-- `MAX_OPEN_UPLOADS`. -/
def maxOpenUploads : ℕ := 5

/-- `RESERVED_STATES`. -/
def reservedStates : List UploadState := [.open, .completing, .aborting]

/-- The table, by the ids of the sessions. -/
abbrev UploadTable := Parties UUID UploadSession

/-- The count of `add_upload`. -/
def reservedUploads (table : UploadTable) (ownerId : UUID) : ℕ :=
  Parties.count table fun _ upload => upload.ownerId = ownerId ∧ upload.state ∈ reservedStates

/-- How a span ends: without a commit, or with the row, and a new job, to commit; and
where its party goes on. -/
inductive SpanEnd (ρ : Type)
  | rollback (next : ρ)
  | commit (upload : UploadSession) (job : Option (UUID × Job)) (next : ρ)

/-- `get_upload`: whether `lock_owner` finds the account is `accountExists`. -/
def getUpload (accountExists : Bool) (session : Option UploadSession) (ownerId : UUID) :
    Option UploadSession :=
  if accountExists then session.filter (·.ownerId = ownerId) else none

/-- What `add_upload` raises. -/
inductive AddUploadError
  | notFound
  | uploadLimitReached

/-- `add_upload`, up to its commit; `reserved` is the number of the owner's sessions that
hold a slot. -/
def addUpload (accountExists : Bool) (reserved : ℕ) : Except AddUploadError Unit :=
  if accountExists = false then .error .notFound
  else if maxOpenUploads ≤ reserved then .error .uploadLimitReached
  else .ok ()

/-- The job of `create_upload_job`. -/
def uploadJob (upload : UploadSession) (now : Timestamp) : Job where
  ownerId := upload.ownerId
  filename := upload.filename
  sourceKey := upload.sourceKey
  maxFps := upload.maxFps
  status := .queued
  createdAt := now
  updatedAt := now
  checks :=
    { outputKey := by simp
      error := by simp
      operations := by simp
      hlsReadyHasKey := by simp
      width := by simp
      height := by simp
      durationSeconds := by simp
      maxFps := upload.ckUploadMaxFps
      previewNeedsLadder := Or.inl rfl }

/-- `create_upload_job`: one transaction adds the job and makes the session ready. -/
def createUploadJob {ρ : Type} (upload : UploadSession) (now : Timestamp) (next : ρ) :
    SpanEnd ρ :=
  .commit { upload with state := .ready } (some (upload.jobId, uploadJob upload now)) next

theorem getUpload_some {accountExists : Bool} {session : Option UploadSession} {ownerId : UUID}
    {upload : UploadSession} (hsome : getUpload accountExists session ownerId = some upload) :
    session = some upload ∧ upload.ownerId = ownerId := by
  unfold getUpload at hsome
  split at hsome
  · obtain ⟨hsession, howner⟩ := Option.filter_eq_some_iff.mp hsome
    exact ⟨hsession, of_decide_eq_true howner⟩
  · exact absurd hsome (by simp)

end Repositories
end MediaPlayer
