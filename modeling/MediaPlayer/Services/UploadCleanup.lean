import MediaPlayer.Repositories.Uploads
import MediaPlayer.Services.MultipartStorage

/-!
# Cleaning expired uploads

`cleanup_expired` of `app/services/upload_cleanup.py`: the sessions a pass selects, and
its transaction on each of them.
-/

namespace MediaPlayer
namespace Services

open Models Repositories

/-- The states a pass looks for. -/
def cleanable : UploadState → Bool
  | .open | .completing | .aborting => true
  | .ready | .completed | .aborted => false

/-- Whether the select of a pass names the session. -/
def expired (now : Timestamp) (upload : UploadSession) : Bool :=
  decide (upload.expiresAt ≤ now) && cleanable upload.state

/-- The transaction on one candidate.  The lock is kept over the storage calls, so that
complete cannot race cleanup; an exception rolls back. -/
def cleanOne (accountExists : Bool) (session : Option UploadSession) (ownerId : UUID) :
    Span (SpanEnd Unit) :=
  match getUpload accountExists session ownerId with
  | none => pure (.rollback ())
  | some upload =>
      if cleanable upload.state = false then pure (.rollback ())
      else do
        MultipartStorage.abort { upload with state := .aborting }
        pure (.commit { upload with state := .aborted } none ())

end Services
end MediaPlayer
