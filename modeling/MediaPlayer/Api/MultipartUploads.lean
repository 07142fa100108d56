import MediaPlayer.Repositories.Uploads
import MediaPlayer.Schemas.Upload
import MediaPlayer.Services.MultipartStorage

/-!
# The endpoints of the direct uploads

`app/api/multipart_uploads.py`, cut at its commits.  Each definition is a span: it starts
with the read of the row under the locks, works outside the database, and ends with an
answer or with what it commits and where the request goes on (`RequestPhase`).

`begin` is the first span of each endpoint, `proceed` the one after a commit.
-/

namespace MediaPlayer
namespace Api

open Library Models Repositories Schemas Services

/-- What a client is answered. -/
inductive Response
  | error (status : ℕ) (detail : String)
  | started (partSize partCount : ℤ)
  | urls (parts : List MultipartStorage.PresignedPart)
  | progress (partsDone : List UploadedPart) (state : UploadState) (partSize partCount : ℤ)
      (jobId : Option UUID)
  | completed (jobId : UUID)
  | noContent
  deriving DecidableEq

/-- Where a request goes on after a commit. -/
inductive RequestPhase
  /-- `start`, before the row is read again. -/
  | starting (user : UUID)
  /-- `complete`, after its manifest was frozen. -/
  | frozen (user : UUID) (manifest : List UploadedPart)
  /-- `complete`, after the job was created. -/
  | created (user : UUID)
  /-- `discard`, after its intent was committed. -/
  | discarding (ownerId : UUID) (answer : Response)
  | answered (response : Response)
  deriving DecidableEq

/-- What a span meets beside the row. -/
structure Circumstances where
  /-- The clock, at its first and at a second reading. -/
  now : Timestamp
  later : Timestamp := now
  accountExists : Bool := true
  /-- The owner's sessions that hold a slot. -/
  reserved : ℕ := 0
  /-- The id the store draws for a new multipart upload. -/
  drawn : String := "upload"
  /-- How the calls outside and the commit end. -/
  outcomes : List CallOutcome := []
  commit : CallOutcome := .returned

/-- `UploadRoute`: the answer to what a handler raises. -/
def errorResponse : RequestError → Response
  | .http status detail => .error status detail
  | .notFound message => .error 404 message
  | .clientError _ | .connectionError =>
      .error 503 "upload could not be confirmed; refresh and try again"

abbrev RequestSpan := Span (SpanEnd RequestPhase)

/-- `owned`. -/
def owned (c : Circumstances) (session : Option UploadSession) (ownerId : UUID) :
    Span UploadSession :=
  match getUpload c.accountExists session ownerId with
  | none => throw (.notFound "not found")
  | some upload => pure upload

/-- `active`. -/
def active (c : Circumstances) (upload : UploadSession) : Span Unit :=
  if upload.expiresAt ≤ c.now then throw (.http 410 "upload expired; start a new upload")
  else if upload.state ≠ .open then throw (.http 409 "upload no longer accepts parts")
  else pure ()

/-- An answer without a commit. -/
def answer (response : Response) : RequestSpan := pure (.rollback (.answered response))

/-! ## Starting -/

/-- `PurePosixPath(raw).name`. -/
def pathName (raw : String) : String :=
  (((raw.splitOn "/").filter fun part => part ≠ "" ∧ part ≠ ".").getLast?).getD ""

/-- A character `_UNSAFE_FILENAME_CHARS` leaves alone. -/
def safeFilenameChar (c : Char) : Bool :=
  ('A' ≤ c ∧ c ≤ 'Z') ∨ ('a' ≤ c ∧ c ≤ 'z') ∨ ('0' ≤ c ∧ c ≤ '9') ∨ c = '.' ∨ c = '_' ∨ c = '-'

/-- `safe_filename` of `app/api/uploads.py`. -/
def safeFilename (raw : String) : String :=
  let name := (pathName raw).toList.map fun c => if safeFilenameChar c then c else '_'
  let cut := (name.dropWhile (· = '.')).take 100
  if cut = [] then "upload.bin" else String.ofList cut

/-- The names `safe_filename` leaves have no slash. -/
theorem safeFilename_no_slash (raw : String) : '/' ∉ (safeFilename raw).toList := by
  intro hslash
  simp only [safeFilename] at hslash
  split at hslash
  · revert hslash
    decide
  · rw [String.toList_ofList] at hslash
    have hmem := (List.dropWhile_sublist _).subset (List.mem_of_mem_take hslash)
    obtain ⟨c, -, hc⟩ := List.mem_map.mp hmem
    split at hc
    · rename_i hsafe
      subst hc
      exact absurd hsafe (by decide)
    · exact absurd hc (by decide)

/-- The row `start` adds; `jobId` is the id it draws for the job. -/
def newUpload (user jobId : UUID) (request : StartUpload) (now : Timestamp) : UploadSession where
  ownerId := user
  jobId := jobId
  filename := safeFilename request.filename
  sourceKey := s!"uploads/{jobId}/{safeFilename request.filename}"
  size := request.size
  partSize := partSize
  maxFps := request.maxFps
  createdAt := now
  expiresAt := now + 24 * 3600 * 1000000
  ckUploadSize := ⟨request.sizeBounds.1, by decide⟩
  ckUploadMaxFps := request.maxFpsLiteral

/-- `start`, up to the commit of the row.  The row comes first, so that no interruption
leaves an object the orphan sweep would take. -/
def start (maxUploadBytes : ℤ) (c : Circumstances) (user jobId : UUID) (request : StartUpload) :
    RequestSpan :=
  if maxUploadBytes < request.size then
    throw (.http 413 s!"upload exceeds maximum size of {maxUploadBytes} bytes")
  else
    match addUpload c.accountExists c.reserved with
    | .error .notFound => throw (.notFound "not found")
    | .error .uploadLimitReached =>
        throw (.http 429 s!"at most {maxOpenUploads} unfinished uploads are allowed")
    | .ok () => pure (.commit (newUpload user jobId request c.now) none (.starting user))

/-- The rest of `start`. -/
def startStorage (c : Circumstances) (upload : UploadSession) : RequestSpan := do
  let storageId ← MultipartStorage.initiate c.drawn
  pure (.commit { upload with storageId := some storageId } none
    (.answered (.started upload.partSize upload.partCount)))

/-! ## Signing and resuming -/

/-- `sign_parts`. -/
def signParts (c : Circumstances) (upload : UploadSession) (request : SignParts) :
    RequestSpan := do
  active c upload
  if upload.initialized = false then
    throw (.http 409 "upload initialization is incomplete; start a new upload")
  else if (request.partNumbers.max?).any (upload.partCount < ·) then
    throw (.http 422 "part number exceeds this upload's part count")
  else
    let expires := max 1 (min 900 ((upload.expiresAt - c.later).tdiv 1000000))
    answer (.urls (MultipartStorage.sign upload request.partNumbers expires))

/-- The parts `resume` tells: of the store while the session is open, of the manifest
afterwards. -/
def partsDone (c : Circumstances) (upload : UploadSession) : Span (List UploadedPart) :=
  if upload.state = .open then do
    active c upload
    let parts ← if upload.initialized then MultipartStorage.parts upload else pure []
    pure (parts.map fun part => ⟨part.n, part.etag⟩)
  else pure (upload.manifest.getD [])

/-- `resume`. -/
def resume (c : Circumstances) (upload : UploadSession) : RequestSpan := do
  let parts ← partsDone c upload
  answer (.progress parts upload.state upload.partSize upload.partCount
    (if upload.state = .ready ∨ upload.state = .completed then some upload.jobId else none))

/-! ## Completing -/

/-- The size part `n` must have. -/
def expectedPartSize (upload : UploadSession) (n : ℤ) : ℤ :=
  min upload.partSize (upload.size - (n - 1) * upload.partSize)

/-- Whether `validate_parts` accepts what the store lists. -/
def partsMatch (upload : UploadSession) (actual : List StoredPart) : Bool :=
  let expected := upload.manifest.getD []
  let stored := actual.insertionSort fun a b => a.n ≤ b.n
  (expected.zip stored).all fun (supplied, part) =>
    supplied.n = part.n ∧ supplied.etag = part.etag ∧ part.size = expectedPartSize upload part.n

/-- `validate_parts`. -/
def validateParts (upload : UploadSession) (actual : List StoredPart) : Span Unit :=
  if (actual.length : ℤ) ≠ upload.partCount ∨
      ((upload.manifest.getD []).length : ℤ) ≠ upload.partCount then
    throw (.http 422 "all parts must be uploaded before completion")
  else if partsMatch upload actual then pure ()
  else throw (.http 422 "part ETags and sizes must match the uploaded parts")

/-- `discard`, up to the commit of its intent; the request is answered in the end. -/
def discard (upload : UploadSession) (response : Response) : SpanEnd RequestPhase :=
  .commit { upload with state := .aborting } none (.discarding upload.ownerId response)

/-- The rest of `discard`. -/
def discardStorage (upload : UploadSession) (response : Response) : RequestSpan := do
  MultipartStorage.abort upload
  pure (.commit { upload with state := .aborted } none (.answered response))

/-- `complete`, from `if upload.state == "ready"` on. -/
def completeReady (upload : UploadSession) : RequestSpan :=
  if upload.state = .ready then do
    -- The job is committed before it is put on the queue.
    enqueueJob upload.jobId
    pure (.commit { upload with state := .completed } none (.answered (.completed upload.jobId)))
  else if upload.state ≠ .completed then
    throw (.http 409 "upload cannot be completed in its current state")
  else answer (.completed upload.jobId)

/-- The length of the object, which is merged if the first `head` found none. -/
def mergedLength (upload : UploadSession) (head : Option ℤ) : Span (Option ℤ) :=
  match head with
  | some contentLength => pure (some contentLength)
  | none => do
      MultipartStorage.complete upload
      MultipartStorage.head

/-- `complete`, from `if upload.state == "completing"` on. -/
def completeMerging (c : Circumstances) (user : UUID) (upload : UploadSession)
    (manifest : List UploadedPart) : RequestSpan :=
  if upload.state = .completing then
    if upload.manifest ≠ some manifest then
      throw (.http 409 "completion already started with different parts")
    else do
      let first ← MultipartStorage.head
      let head ← mergedLength upload first
      match head with
      | none => throw (.http 503 "uploaded object is not available; retry completion")
      | some contentLength =>
          if contentLength ≠ upload.size then
            pure (discard upload (.error 422 "uploaded size does not match the declared size"))
          else do
            let bytes ← MultipartStorage.sniff
            if sniffVideoType bytes = none then
              pure (discard upload (.error 415 "file content is not a recognized video format"))
            else pure (createUploadJob upload c.now (.created user))
  else completeReady upload

/-- `complete` on an open session.  The manifest is frozen before the store is told to
merge. -/
def freeze (user : UUID) (upload : UploadSession) (manifest : List UploadedPart) :
    RequestSpan :=
  if upload.initialized = false then
    throw (.http 409 "upload initialization is incomplete")
  else do
    let upload := { upload with manifest := some manifest }
    let actual ← MultipartStorage.parts upload
    validateParts upload actual
    pure (.commit { upload with state := .completing } none (.frozen user manifest))

/-- `complete`, from its beginning. -/
def complete (c : Circumstances) (user : UUID) (upload : UploadSession)
    (request : CompleteUpload) : RequestSpan :=
  match upload.state with
  | .completed => answer (.completed upload.jobId)
  | .aborting | .aborted => throw (.http 409 "upload was cancelled")
  | .open => do
      active c upload
      freeze user upload request.manifest
  | .completing | .ready => completeMerging c user upload request.manifest

/-! ## Aborting -/

/-- `abort`. -/
def abort (upload : UploadSession) : RequestSpan :=
  match upload.state with
  | .ready | .completed =>
      throw (.http 409 "upload already created a job; delete the job instead")
  | .completing => throw (.http 409 "completion has started; retry completion")
  | .aborted => answer .noContent
  | .open | .aborting => pure (discard upload .noContent)

/-! ## Requests -/

/-- A request on an upload. -/
inductive ApiCall
  | start (jobId : UUID) (request : StartUpload)
  | signParts (request : SignParts)
  | complete (request : CompleteUpload)
  | resume
  | abort

/-- The first span of a request. -/
def begin (maxUploadBytes : ℤ) (c : Circumstances) (session : Option UploadSession)
    (user : UUID) : ApiCall → RequestSpan
  | .start jobId request => start maxUploadBytes c user jobId request
  | .signParts request => do signParts c (← owned c session user) request
  | .complete request => do complete c user (← owned c session user) request
  | .resume => do resume c (← owned c session user)
  | .abort => do abort (← owned c session user)

/-- The span after a commit. -/
def proceed (c : Circumstances) (session : Option UploadSession) :
    RequestPhase → Option RequestSpan
  | .starting user => some do startStorage c (← owned c session user)
  | .frozen user manifest => some do completeMerging c user (← owned c session user) manifest
  | .created user => some do completeReady (← owned c session user)
  | .discarding ownerId response => some do discardStorage (← owned c session ownerId) response
  | .answered _ => none

end Api
end MediaPlayer
