import MediaPlayer.Api.Hls
import MediaPlayer.Api.JobsRetry
import MediaPlayer.Api.MultipartUploads
import MediaPlayer.Repositories.JobQueries
import MediaPlayer.Schemas.Edit
import MediaPlayer.Services.JobCleanup

/-!
# The jobs API

The routes of `app/api/jobs.py`, `app/api/hls.py` and `app/api/preview.py` a signed-in user
reaches.  A route reads the table and gives its answer, the calls it makes outside the
database, and the rows it writes.  What it meets there (clocks, drawn ids, the order of rows,
answers of Redis and of storage) is in `World`.

* `handle` — one definition for each route, under the source's name.
* `serve` — a sequence of one user's requests.
-/

namespace MediaPlayer
namespace Api

open Library Models Repositories Schemas Services

/-- The settings the routes read. -/
structure JobsSettings where
  apiPublicPrefix : String := "/api"
  trashRetentionDays : ℤ := 30
  workerFfmpegMaxHeight : ℤ := 1080
  av1PopularViews : ℤ := 0
  deriving DecidableEq

/-- What a request meets outside the database, and what the database leaves open. -/
structure World where
  now : Timestamp := 0
  newJobId : UUID := 0
  listOrder : RowOrder := .byId
  rowOrders : ℕ → RowOrder := fun _ => .byId
  progress : UUID → Option ℕ := fun _ => none
  createUrl : String → String := id
  createInlineUrl : String → String := id
  /-- The text of an object, or an exception. -/
  readObject : String → Option String := fun _ => none
  enqueue : CallOutcome := .returned
  commit : CallOutcome := .returned

/-- `EditSource`. -/
structure EditSource where
  jobId : UUID
  width : Option ℤ
  height : Option ℤ
  durationSeconds : Option ℚ
  deriving DecidableEq

/-- `JobResponse`. -/
structure JobResponse where
  id : UUID
  filename : String
  status : JobStatus
  outputUrl : Option String
  hlsUrl : Option String
  hlsStatus : HlsStatus
  width : Option ℤ
  height : Option ℤ
  durationSeconds : Option ℚ
  thumbnailUrl : Option String
  previewVttUrl : Option String
  maxFps : ℤ
  editSource : Option EditSource
  editOptions : Option ScaleOptions
  progress : Option ℕ
  error : Option String
  deletedAt : Option Timestamp
  purgeAt : Option Timestamp
  deriving DecidableEq

/-- What a client is answered. -/
inductive JobsAnswer
  | job (response : JobResponse)
  | jobs (responses : List JobResponse)
  /-- 202, with the id of the job that was queued. -/
  | accepted (jobId : UUID)
  | noContent
  | playlist (body : String)
  | previewIndex (body : String)
  /-- 307. -/
  | redirect (url : String)
  | error (status : ℕ) (text : String)
  /-- An exception the route does not catch. -/
  | raised
  deriving DecidableEq

def notFound : JobsAnswer := .error 404 "not found"

/-- A call outside the database that leaves something there. -/
inductive OutsideCall
  | enqueueJob (jobId : UUID)
  | recordPlay (jobId : UUID) (threshold : ℤ)
  /-- `delete_job_storage`: the keys, and the folders with what is in them. -/
  | deleteStorage (keys folders : List String)
  deriving DecidableEq

/-- A row a route writes, or the row it deletes. -/
inductive RowWrite
  | put (jobId : UUID) (job : Job)
  | delete (jobId : UUID)
  deriving DecidableEq

def RowWrite.jobId : RowWrite → UUID
  | put jobId _ => jobId
  | delete jobId => jobId

def RowWrite.apply (table : JobTable) : RowWrite → JobTable
  | put jobId job => table.insert jobId job
  | delete jobId => table.erase jobId

structure JobsReply where
  answer : JobsAnswer
  calls : List OutsideCall := []
  writes : List RowWrite := []
  deriving DecidableEq

def JobsReply.table (reply : JobsReply) (table : JobTable) : JobTable :=
  reply.writes.foldl RowWrite.apply table

/-! ## The shape of a job -/

/-- `_edit_base`. -/
def editBase (job root : JobRow) : JobRow := if root.2.operations = none then root else job

/-- `_editable_height`: of an upload the original's, not its MP4's. -/
def baseHeight (settings : JobsSettings) (base : Job) : Option ℤ :=
  if base.operations = none then base.height.filter (0 < ·)
  else editableHeight base.height true settings.workerFfmpegMaxHeight

/-- `_edit_options`. -/
def editOptions (settings : JobsSettings) (job base : Job) : Option ScaleOptions :=
  if job.status ≠ .done then none else scaleOptions (baseHeight settings base)

/-- `_edit_source`. -/
def editSource (job : Job) (base : JobRow) : Option EditSource :=
  if job.status ≠ .done then none
  else some ⟨base.1, base.2.width, base.2.height, base.2.durationSeconds⟩

/-- A text column that is neither null nor empty. -/
def given (text : Option String) : Option String := text.filter (· ≠ "")

/-- `settings.api_public_prefix.rstrip("/")`. -/
def publicPrefix (settings : JobsSettings) : String :=
  String.ofList (settings.apiPublicPrefix.toList.rdropWhile (· = '/'))

/-- `preview_vtt_path`. -/
def previewVttPath (jobId : UUID) : String := s!"/jobs/{jobId}/preview.vtt"

/-- `_to_response`. -/
def toResponse (settings : JobsSettings) (world : World) (row root : JobRow)
    (progress : Option ℕ) : JobResponse :=
  let job := row.2
  let base := editBase row root
  let done := job.status = .done
  { id := row.1
    filename := job.filename
    status := job.status
    outputUrl := if done then (given job.outputKey).map world.createUrl else none
    hlsUrl := if done then (given job.hlsKey).map fun _ =>
      s!"{publicPrefix settings}/jobs/{row.1}/hls/master.m3u8" else none
    hlsStatus := job.hlsStatus
    width := job.width
    height := job.height
    durationSeconds := job.durationSeconds
    thumbnailUrl := if done then (given job.thumbnailKey).map world.createUrl else none
    previewVttUrl := if done ∧ (given job.hlsKey).isSome then (given job.previewKey).map fun _ =>
      publicPrefix settings ++ previewVttPath row.1 else none
    maxFps := job.maxFps
    editSource := editSource job base
    editOptions := editOptions settings job base.2
    progress := if job.status = .processing then progress else none
    error := if job.status = .failed then job.error else none
    deletedAt := job.deletedAt
    purgeAt := job.deletedAt.map (· + max 0 settings.trashRetentionDays * 86400 * 1000000) }

/-- The responses for a list of rows, with the progress of those still encoding. -/
def toResponses (settings : JobsSettings) (world : World) (table : JobTable)
    (progress : UUID → Option ℕ) (rows : List JobRow) : List JobResponse :=
  let roots := table.resolveEditRoots world.rowOrders rows
  rows.map fun row =>
    toResponse settings world row (JobTable.rootOf roots row) (progress row.1)

/-- The response for one row. -/
def toOneResponse (settings : JobsSettings) (world : World) (table : JobTable)
    (progress : UUID → Option ℕ) (row : JobRow) : JobResponse :=
  toResponse settings world row
    (JobTable.rootOf (table.resolveEditRoots world.rowOrders [row]) row) (progress row.1)

/-! ## The routes -/

/-- The query parameters of a page, as validation leaves them. -/
structure Page where
  limit : ℕ := 50
  offset : ℕ := 0
  bounds : 1 ≤ limit ∧ limit ≤ 200 := by decide

variable (settings : JobsSettings) (user : UUID) (world : World) (table : JobTable)

/-- `get_jobs`. -/
def getJobs (page : Page) : JobsReply where
  answer := .jobs (toResponses settings world table world.progress
    (table.listJobs world.listOrder (some user) page.limit page.offset))

/-- `get_trash`. -/
def getTrash (page : Page) : JobsReply where
  answer := .jobs (toResponses settings world table (fun _ => none)
    (table.listTrash world.listOrder user page.limit page.offset))

/-- `restore_job_by_id`, which resolves the roots after its commit. -/
def restoreJobById (jobId : UUID) : JobsReply :=
  match restoreJob user (table.lookup jobId) with
  | none => { answer := notFound }
  | some job =>
      { answer := .job (toOneResponse settings world (table.insert jobId job) (fun _ => none)
          (jobId, job))
        writes := [.put jobId job] }

/-- `_delete_job_and_storage`, and the routes' answer to it; no owner is any owner. -/
def deleteJobAndStorage (ownerId : Option UUID) (jobId : UUID) : JobsReply :=
  match table.deleteJob jobId ownerId with
  | none => { answer := notFound }
  | some (job, _) =>
      { answer := .noContent
        calls := [.deleteStorage (storageKeys job) (storagePrefixes job)]
        writes := [.delete jobId] }

/-- `delete_job_permanently`. -/
def deleteJobPermanently (jobId : UUID) : JobsReply :=
  deleteJobAndStorage table (some user) jobId

/-- `get_job_by_id`. -/
def getJobById (jobId : UUID) : JobsReply :=
  match table.getJob jobId (some user) false with
  | none => { answer := notFound }
  | some job => { answer := .job (toOneResponse settings world table world.progress (jobId, job)) }

/-- What a refused or a finished retry is answered. -/
def retryAnswer : RetryAnswer → JobsAnswer
  | .accepted jobId => .accepted jobId
  | .error status text => .error status text
  | .raised => .raised

/-- `retry_job_by_id`: a commit that raises may have gone through. -/
def retryJobById (jobId : UUID) : JobsReply :=
  match prepareRetry jobId user world.now (table.lookup jobId) with
  | .error e => { answer := retryAnswer (retryRefused e) }
  | .ok job =>
      { answer := retryAnswer (world.enqueue.next
          (world.commit.next (.accepted jobId) retryUnconfirmed) retryUnconfirmed)
        calls := [.enqueueJob jobId]
        writes := world.enqueue.next (world.commit.effect ([RowWrite.put jobId job] ++ ·) []) [] }

/-- `PurePosixPath(text).stem`. -/
def pathStem (text : String) : String :=
  let name := pathName text
  let stem := beforeLast '.' name
  if '.' ∈ name.toList ∧ stem ≠ "" ∧ stem.length + 1 < name.length then stem else name

/-- The name of the edited file. -/
def editedFilename (source : Job) (request : EditRequest) : String :=
  let stem := if pathStem source.filename = "" then "edited-video" else pathStem source.filename
  s!"{stem}-edited.{request.outputExtension}"

/-- What the new edit starts from. -/
def editSourceKey (base : Job) : Option String :=
  if base.operations = none then some base.sourceKey else base.outputKey

/-- `edit_job_by_id`.  Without a source key, or with an id that is taken, the database
refuses the row. -/
def editJobById (jobId : UUID) (request : EditRequest) : JobsReply :=
  match table.getJob jobId (some user) false with
  | none => { answer := notFound }
  | some source =>
      if source.status ≠ .done ∨ given source.outputKey = none then
        { answer := .error 409 "only completed jobs can be edited" }
      else
        let row : JobRow := (jobId, source)
        let base := editBase row
          (JobTable.rootOf (table.resolveEditRoots world.rowOrders [row]) row)
        match checkEditOperations request.operations (baseHeight settings base.2) base.2.width with
        | .error message => { answer := .error 422 message }
        | .ok () =>
            match (editSourceKey base.2).filter fun _ => (table.lookup world.newJobId).isNone with
            | none => { answer := .raised }
            | some sourceKey =>
                match createEditJob user (editedFilename source request) sourceKey
                  request.operations base.2.maxFps world.now with
                | .error _ => { answer := .raised }
                | .ok created =>
                    { answer := world.enqueue.next (.accepted world.newJobId)
                        (.error 503 "edit could not be queued; please try again")
                      calls := [.enqueueJob world.newJobId]
                      writes := RowWrite.put world.newJobId created ::
                        world.enqueue.next [] [.delete world.newJobId] }

/-- `delete_job_by_id`: to the trash first, when there is one. -/
def deleteJobById (jobId : UUID) : JobsReply :=
  if 0 < settings.trashRetentionDays then
    match trashJob user world.now (table.lookup jobId) with
    | none => { answer := notFound }
    | some job => { answer := .noContent, writes := [.put jobId job] }
  else deleteJobAndStorage table (some user) jobId

/-- `get_hls_part`. -/
def getHlsPart (jobId : UUID) (path : String) : JobsReply :=
  match (table.getJob jobId (some user) false).bind (·.hlsKey) with
  | none => { answer := notFound }
  | some hlsKey =>
      match safeHlsPath path with
      | none => { answer := notFound }
      | some safe =>
          let key := beforeLast '/' hlsKey ++ "/" ++ safe
          { answer :=
              if endsWith safe ".m3u8" then
                match world.readObject key with
                | none => notFound
                | some body => .playlist body
              else .redirect (world.createInlineUrl key)
            calls := if safe = "master.m3u8" then [.recordPlay jobId settings.av1PopularViews]
              else [] }

/-- One line of the index: a cue names a sheet before its rectangle. -/
def signCue (sign : String → String) (line : String) : String :=
  let name := line.toList.takeWhile (· ∈ nameChars)
  let rest := line.toList.drop name.length
  if 1 ≤ name.length ∧ name.length ≤ 64 ∧ ".jpg#xywh=".toList.isPrefixOf rest then
    sign (String.ofList (name ++ ".jpg".toList)) ++ String.ofList (rest.drop ".jpg".length)
  else line

/-- `_SHEET_CUE.sub` over the index. -/
def signCues (sign : String → String) (body : String) : String :=
  "\n".intercalate ((body.toList.splitOn '\n').map fun line => signCue sign (String.ofList line))

/-- `get_preview_index`. -/
def getPreviewIndex (jobId : UUID) : JobsReply :=
  match ((table.getJob jobId (some user) false).filter (·.status = .done)).bind
    fun job => given job.previewKey with
  | none => { answer := notFound }
  | some previewKey =>
      match world.readObject previewKey with
      | none => { answer := notFound }
      | some body =>
          { answer := .previewIndex (signCues (fun name =>
              world.createInlineUrl (beforeLast '/' previewKey ++ "/" ++ name)) body) }

/-- `get_all_jobs`, of the operators' routes. -/
def getAllJobs (page : Page) : JobsReply where
  answer := .jobs (toResponses settings world table world.progress
    (table.listJobs world.listOrder none page.limit page.offset))

/-- `delete_job_by_id_as_operator`: whoever owns the job. -/
def deleteJobByIdAsOperator (jobId : UUID) : JobsReply := deleteJobAndStorage table none jobId

/-- A request of a signed-in user. -/
inductive JobsRequest
  | getJobs (page : Page)
  | getTrash (page : Page)
  | restoreJobById (jobId : UUID)
  | deleteJobPermanently (jobId : UUID)
  | getJobById (jobId : UUID)
  | retryJobById (jobId : UUID)
  | editJobById (jobId : UUID) (request : EditRequest)
  | deleteJobById (jobId : UUID)
  | getHlsPart (jobId : UUID) (path : String)
  | getPreviewIndex (jobId : UUID)

/-- The job a request asks for by its id. -/
def JobsRequest.jobId? : JobsRequest → Option UUID
  | getJobs _ | getTrash _ => none
  | restoreJobById jobId | deleteJobPermanently jobId | getJobById jobId | retryJobById jobId
  | editJobById jobId _ | deleteJobById jobId | getHlsPart jobId _ | getPreviewIndex jobId =>
      some jobId

def handle : JobsRequest → JobsReply
  | .getJobs page => getJobs settings user world table page
  | .getTrash page => getTrash settings user world table page
  | .restoreJobById jobId => restoreJobById settings user world table jobId
  | .deleteJobPermanently jobId => deleteJobPermanently user table jobId
  | .getJobById jobId => getJobById settings user world table jobId
  | .retryJobById jobId => retryJobById user world table jobId
  | .editJobById jobId request => editJobById settings user world table jobId request
  | .deleteJobById jobId => deleteJobById settings user world table jobId
  | .getHlsPart jobId path => getHlsPart settings user world table jobId path
  | .getPreviewIndex jobId => getPreviewIndex user world table jobId

variable {table}

/-- Every route answers an id of another owner, or of no job at all, with the same 404, and
does nothing. -/
theorem handle_of_not_own {request : JobsRequest} {jobId : UUID}
    (hrequest : request.jobId? = some jobId) (hrow : ownRow user (table.lookup jobId) = none) :
    handle settings user world table request = { answer := notFound } := by
  have hget : table.getJob jobId (some user) false = none := by
    rw [JobTable.getJob_ownRow, hrow, Option.filter_none]
  have hdelete : deleteJobAndStorage table (some user) jobId = { answer := notFound } := by
    simp only [deleteJobAndStorage, JobTable.deleteJob_ownRow, hrow, Option.map_none]
  have hrestore : restoreJob user (table.lookup jobId) = none := by
    rw [← restoreJob_ownRow, hrow, restoreJob]
  have htrash : trashJob user world.now (table.lookup jobId) = none := by
    rw [← trashJob_ownRow, hrow, trashJob]
  have hretry : prepareRetry jobId user world.now (table.lookup jobId) =
      .error (.jobNotFound s!"{jobId}") := by
    rw [← prepareRetry_ownRow, hrow, prepareRetry]
  cases request with
  | getJobs | getTrash => simp [JobsRequest.jobId?] at hrequest
  | restoreJobById id =>
      obtain rfl : id = jobId := Option.some.inj hrequest
      simp only [handle, restoreJobById, hrestore]
  | deleteJobPermanently id =>
      obtain rfl : id = jobId := Option.some.inj hrequest
      exact hdelete
  | getJobById id =>
      obtain rfl : id = jobId := Option.some.inj hrequest
      simp only [handle, getJobById, hget]
  | retryJobById id =>
      obtain rfl : id = jobId := Option.some.inj hrequest
      simp only [handle, retryJobById, hretry]
      rfl
  | editJobById id edit =>
      obtain rfl : id = jobId := Option.some.inj hrequest
      simp only [handle, editJobById, hget]
  | deleteJobById id =>
      obtain rfl : id = jobId := Option.some.inj hrequest
      by_cases hretention : 0 < settings.trashRetentionDays
      · simp only [handle, deleteJobById, hretention, if_true, htrash]
      · simp only [handle, deleteJobById, hretention, if_false]
        exact hdelete
  | getHlsPart id path =>
      obtain rfl : id = jobId := Option.some.inj hrequest
      simp only [handle, getHlsPart, hget, Option.bind_none]
  | getPreviewIndex id =>
      obtain rfl : id = jobId := Option.some.inj hrequest
      simp only [handle, getPreviewIndex, hget, Option.filter_none, Option.bind_none]

/-- What an edit starts from, as the route finds it. -/
def editBaseOf (world : World) (table : JobTable) (row : JobRow) : JobRow :=
  editBase row (JobTable.rootOf (table.resolveEditRoots world.rowOrders [row]) row)

/-- A request for an edit is answered at once, or adds the new row, and takes it back if the
queue refuses it. -/
theorem editJobById_cases (table : JobTable) (jobId : UUID) (request : EditRequest) :
    (∃ answer, editJobById settings user world table jobId request = { answer := answer }) ∨
      ∃ source sourceKey created, table.getJob jobId (some user) false = some source ∧
        source.status = .done ∧
        editSourceKey (editBaseOf world table (jobId, source)).2 = some sourceKey ∧
        table.lookup world.newJobId = none ∧
        created.toJobColumns = newColumns user (editedFilename source request) sourceKey
          (some request.operations) (editBaseOf world table (jobId, source)).2.maxFps world.now ∧
        editJobById settings user world table jobId request =
          { answer := world.enqueue.next (.accepted world.newJobId)
              (.error 503 "edit could not be queued; please try again")
            calls := [.enqueueJob world.newJobId]
            writes := RowWrite.put world.newJobId created ::
              world.enqueue.next [] [.delete world.newJobId] } := by
  simp only [editJobById]
  split
  · exact Or.inl ⟨_, rfl⟩
  · rename_i source hsource
    split
    · exact Or.inl ⟨_, rfl⟩
    · rename_i hdone
      split
      · exact Or.inl ⟨_, rfl⟩
      · split
        · exact Or.inl ⟨_, rfl⟩
        · rename_i sourceKey hsourceKey
          obtain ⟨hkey, hfresh⟩ := Option.filter_eq_some_iff.mp hsourceKey
          split
          · exact Or.inl ⟨_, rfl⟩
          · rename_i created hcreated
            rw [createEditJob, if_neg request.operations_ne_nil] at hcreated
            exact Or.inr ⟨source, sourceKey, created, hsource,
              not_not.mp (not_or.mp hdone).1, hkey, Option.isNone_iff_eq_none.mp hfresh,
              store_eq_ok_iff.mp hcreated, rfl⟩

/-- A sequence of requests, each with the world it meets: the replies, and the table after
the last. -/
def serve (table : JobTable) : List (World × JobsRequest) → List JobsReply × JobTable
  | [] => ([], table)
  | (world, request) :: rest =>
      let reply := handle settings user world table request
      let served := serve (reply.table table) rest
      (reply :: served.1, served.2)

end Api
end MediaPlayer
