import MediaPlayer.Models.Job

/-!
# Upload sessions

`UploadSession` of `app/models/upload.py`, without its id: a session is the one the
requests name.  The CHECK constraints of the table are fields, so that no update of the
other columns has to prove them again.
-/

namespace MediaPlayer
namespace Models

/-- `ck_upload_state`. -/
inductive UploadState
  | open
  | completing
  | ready
  | completed
  | aborting
  | aborted
  deriving DecidableEq, Repr

/-- The text stored for a state. -/
def UploadState.value : UploadState → String
  | .open => "open"
  | completing => "completing"
  | ready => "ready"
  | completed => "completed"
  | aborting => "aborting"
  | aborted => "aborted"

namespace UploadState

/-- The session has created its job. -/
def Settled : UploadState → Prop
  | ready | completed => True
  | .open | completing | aborting | aborted => False

/-- The session has been given up. -/
def Cancelled : UploadState → Prop
  | aborting | aborted => True
  | .open | completing | ready | completed => False

instance : DecidablePred Settled
  | ready | completed => .isTrue trivial
  | .open | completing | aborting | aborted => .isFalse id

instance : DecidablePred Cancelled
  | aborting | aborted => .isTrue trivial
  | .open | completing | ready | completed => .isFalse id

theorem Cancelled.not_settled {state : UploadState} (hcancelled : state.Cancelled) :
    ¬ state.Settled := by
  cases state <;> simp_all [Cancelled, Settled]

end UploadState

/-- A part of a manifest. -/
structure UploadedPart where
  n : ℤ
  etag : String
  deriving DecidableEq

/-- A row of the table. -/
structure UploadSession where
  ownerId : UUID
  filename : String
  sourceKey : String
  storageId : Option String := none
  size : ℤ
  partSize : ℤ
  state : UploadState := .open
  maxFps : ℤ := 30
  manifest : Option (List UploadedPart) := none
  jobId : UUID
  createdAt : Timestamp
  expiresAt : Timestamp
  ckUploadSize : 0 < size ∧ 0 < partSize
  ckUploadMaxFps : maxFps = 30 ∨ maxFps = 60
  deriving DecidableEq

/-- `part_count`. -/
def UploadSession.partCount (upload : UploadSession) : ℤ :=
  (upload.size + upload.partSize - 1) / upload.partSize

/-- `not upload.storage_id` is false. -/
def UploadSession.initialized (upload : UploadSession) : Bool :=
  upload.storageId.any (· != "")

end Models
end MediaPlayer
