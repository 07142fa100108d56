import MediaPlayer.Api.UploadKeys

/-!
# The orphan sweep

The end of `run_once` of `app/worker/reaper.py`, beside everything that makes and gives up the
objects it looks at: any number of upload sessions, of one-request uploads and of edits, and
the requests and writes of a job's life but its deletion for good.

* A sweep fixes its cutoff, reads the known source keys in one statement, lists the objects
  under `uploads/` page by page, and deletes one after the other.
* A span of a session reaches the store first and commits later; a one-request upload stores
  its object first and creates its row later, within the grace time; an edit reads what it
  starts from first and adds its row later.
* The store tells a merged object the time its multipart upload was initiated.
-/

namespace MediaPlayer
namespace Worker

open Library Models Repositories Schemas Services Api

/-- The settings of the sweep, and those of the endpoints beside it. -/
structure SweepSettings where
  jobs : JobsSettings := {}
  maxUploadBytes : ℤ := 2147483648
  /-- `reaper_orphan_grace_seconds`. -/
  reaperOrphanGraceSeconds : ℕ := 3600

/-- The grace time, in the database's microseconds. -/
def SweepSettings.grace (settings : SweepSettings) : Timestamp :=
  settings.reaperOrphanGraceSeconds * 1000000

/-- What an id was drawn for. -/
inductive Draw
  | session (id : ℕ)
  | upload (party : ℕ)
  | edit
  deriving DecidableEq

/-- A session, with the span that holds its row and what the store tells of it. -/
structure SessionRuns where
  runs : UploadRuns := {}
  /-- A span that has reached the store and is still to commit: what it will have left. -/
  held : Option UploadRuns := none
  /-- When the store has initiated the multipart upload. -/
  initiatedAt : Option Timestamp := none

/-- A one-request upload whose object is stored. -/
structure StoredUpload where
  ownerId : UUID
  jobId : UUID
  filename : String
  maxFps : ℤ
  storedAt : Timestamp

def StoredUpload.sourceKey (upload : StoredUpload) : String :=
  objectKey "uploads" upload.jobId upload.filename

/-- Where a sweep is. -/
inductive SweepPhase
  | started (graceBefore : Timestamp)
  | knowing (graceBefore : Timestamp) (sourceKeys : List String)
      (listed : List (String × Timestamp))
  | stopped

structure SweepRuns where
  clock : Timestamp := 0
  /-- The ids that were ever drawn, which nothing reads. -/
  drawn : Parties UUID Draw := ∅
  table : JobTable := ∅
  /-- The objects, with the time the store tells. -/
  objects : Parties String Timestamp := ∅
  sessions : Parties ℕ SessionRuns := ∅
  uploads : Parties ℕ StoredUpload := ∅
  /-- The requests for an edit that are still to write. -/
  edits : Parties ℕ (List RowWrite) := ∅
  sweeps : Parties ℕ SweepPhase := ∅
  /-- The objects the sweeps have deleted, which nothing reads. -/
  swept : List String := []

inductive SweepAction
  | tick (elapsed : ℕ)
  /-- A span of a session, up to its commit. -/
  | span (session : ℕ) (action : UploadAction)
  | commit (session : ℕ)
  /-- `upload_stream` of a one-request upload. -/
  | storeUpload (party : ℕ) (ownerId jobId : UUID) (filename : String) (maxFps : ℤ)
      (outcome : CallOutcome)
  /-- `create_job` of a one-request upload. -/
  | createUpload (party : ℕ) (outcome : CallOutcome)
  /-- A request on jobs, but for an edit and for a deletion for good. -/
  | request (user : UUID) (world : World) (request : JobsRequest)
  | readEdit (party : ℕ) (user : UUID) (world : World) (jobId : UUID) (edit : EditRequest)
  | writeEdit (party : ℕ) (outcome : CallOutcome)
  /-- A write of a worker or of the reaper; `name` is that of the output of a done job. -/
  | write (jobId : UUID) (now : Timestamp) (name : String) (op : RowOp)
  | startSweep (party : ℕ)
  | readKeys (party : ℕ)
  | listPage (party : ℕ) (keys : List String)
  | deleteOrphan (party : ℕ) (key : String) (outcome : CallOutcome)

/-- The prefix the sweep lists. -/
def underUploads (key : String) : Bool := "uploads/".toList.isPrefixOf key.toList

/-- The states of a session whose source key `list_source_keys` reads. -/
def keepsSource : UploadState → Bool
  | .open | .completing | .aborting => true
  | .ready | .completed | .aborted => false

namespace SessionRuns

/-- The session as its next span finds it: the object may be gone meanwhile. -/
def load (row : SessionRuns) (objects : Parties String Timestamp) : UploadRuns :=
  match row.runs.session with
  | none => row.runs
  | some upload => { row.runs with bucket := { row.runs.bucket with
      object := (objects.lookup upload.sourceKey).bind fun _ => row.runs.bucket.object } }

/-- The time of initiation after a span: the first at which the store held anything for the
key. -/
def initiation (row : SessionRuns) (clock : Timestamp) (bucket : Bucket) : Option Timestamp :=
  row.initiatedAt.or
    (if bucket.uploads.entries.isEmpty ∧ bucket.object = none then none else some clock)

end SessionRuns

/-- The id a request draws for a new session's job. -/
def drawnId : UploadAction → Option UUID
  | .call _ _ (.start jobId _) _ => some jobId
  | _ => none

namespace SweepRuns

variable (settings : SweepSettings) (s : SweepRuns)

/-- `list_source_keys`. -/
def listSourceKeys : List String :=
  s.table.entries.map (·.2.sourceKey) ++ s.sessions.entries.filterMap fun session =>
    (session.2.runs.session.filter fun upload => keepsSource upload.state).map (·.sourceKey)

/-- What the store holds under the key of a session after a span. -/
def storeObject (key : String) (object : Option (List UInt8)) (modified : Timestamp) :
    Parties String Timestamp :=
  match object with
  | none => s.objects.erase key
  | some _ => s.objects.insert key modified

/-- A span has reached the store.  Without a row there is no lock to hold and no store to
reach, and the span is over at once. -/
def reach (id : ℕ) (row : SessionRuns) (after : UploadRuns) : SweepRuns :=
  let initiatedAt := row.initiation s.clock after.bucket
  match row.runs.session with
  | none => { s with sessions := s.sessions.insert id { row with runs := after, initiatedAt } }
  | some upload =>
      { s with
        sessions := s.sessions.insert id { row with held := some after, initiatedAt }
        objects := s.storeObject upload.sourceKey after.bucket.object (initiatedAt.getD s.clock) }

/-- The jobs a span has created. -/
def addJobs (table : JobTable) (jobs : List (UUID × Job)) : JobTable :=
  jobs.foldl (fun table row => table.insert row.1 row.2) table

/-- An id is drawn. -/
def draw (id : UUID) (purpose : Draw) : SweepRuns :=
  { s with drawn := s.drawn.insert id purpose }

def unused (id : Option UUID) : Bool := id.all fun id => (s.drawn.lookup id).isNone

/-- One atomic step. -/
def step : SweepAction → Option SweepRuns
  | .tick elapsed => some { s with clock := s.clock + elapsed }
  | .span id action =>
      let row := (s.sessions.lookup id).getD {}
      if row.held.isNone ∧ s.unused (drawnId action) then
        (UploadRuns.step settings.maxUploadBytes (row.load s.objects) action).map fun after =>
          match drawnId action with
          | none => s.reach id row after
          | some jobId => (s.draw jobId (.session id)).reach id row after
      else none
  | .commit id =>
      match s.sessions.lookup id with
      | none => none
      | some row => row.held.map fun after =>
          { s with
            sessions := s.sessions.insert id { row with runs := after, held := none }
            table := addJobs s.table (after.jobs.drop row.runs.jobs.length) }
  | .storeUpload party ownerId jobId filename maxFps outcome =>
      if (s.uploads.lookup party).isNone ∧ s.unused (some jobId) ∧ '/' ∉ filename.toList then
        let upload : StoredUpload := ⟨ownerId, jobId, filename, maxFps, s.clock⟩
        some { s.draw jobId (.upload party) with
          objects := outcome.effect (·.insert upload.sourceKey s.clock) s.objects
          uploads := outcome.next (s.uploads.insert party upload) s.uploads }
      else none
  | .createUpload party outcome =>
      match s.uploads.lookup party with
      | none => none
      | some upload =>
          if s.clock ≤ upload.storedAt + settings.grace then
            match createJob upload.ownerId upload.filename upload.sourceKey upload.maxFps
              s.clock with
            | .error _ => some { s with uploads := s.uploads.erase party }
            | .ok job => some { s with
                uploads := s.uploads.erase party
                table := outcome.effect (·.insert upload.jobId job) s.table }
          else none
  | .request user world request =>
      match request with
      | .editJobById _ _ => none
      | request =>
          if deletesForGood settings.jobs request then none
          else some { s with
            table := (handle settings.jobs user world s.table request).table s.table }
  | .readEdit party user world jobId edit =>
      if (s.edits.lookup party).isNone ∧ s.unused (some world.newJobId) then
        some { s.draw world.newJobId .edit with
          edits := s.edits.insert party
            (editJobById settings.jobs user world s.table jobId edit).writes }
      else none
  | .writeEdit party outcome =>
      match s.edits.lookup party with
      | some (write :: rest) => some { s with
          table := outcome.effect (fun table => write.apply table) s.table
          edits := outcome.next (s.edits.insert party rest) (s.edits.erase party) }
      | some [] | none => none
  | .write jobId now name op =>
      match op with
      | .deleteJob _ => none
      | op =>
          if keyed "outputs" jobId name op then
            some { s with table := writeRow s.table jobId now op }
          else none
  | .startSweep party =>
      if (s.sweeps.lookup party).isNone then
        some { s with
          sweeps := s.sweeps.insert party (.started (s.clock - settings.grace)) }
      else none
  | .readKeys party =>
      match s.sweeps.lookup party with
      | some (.started graceBefore) => some { s with
          sweeps := s.sweeps.insert party (.knowing graceBefore s.listSourceKeys []) }
      | _ => none
  | .listPage party keys =>
      match s.sweeps.lookup party with
      | some (.knowing graceBefore sourceKeys listed) =>
          let page := (keys.filter underUploads).filterMap fun key =>
            (s.objects.lookup key).map fun modified => (key, modified)
          some { s with
            sweeps := s.sweeps.insert party (.knowing graceBefore sourceKeys (listed ++ page)) }
      | _ => none
  | .deleteOrphan party key outcome =>
      match s.sweeps.lookup party with
      | some (.knowing graceBefore sourceKeys listed) =>
          if key ∉ sourceKeys ∧ (listed.any fun entry => entry.1 = key ∧ entry.2 < graceBefore) then
            some { s with
              objects := outcome.effect (·.erase key) s.objects
              swept := outcome.effect (key :: ·) s.swept
              sweeps := outcome.next s.sweeps (s.sweeps.insert party .stopped) }
          else none
      | _ => none

/-- The source of a job, or of a session that is open or completing. -/
inductive Wanted (s : SweepRuns) : String → Prop
  | job {id : UUID} {job : Job} (hrow : s.table.lookup id = some job) : Wanted s job.sourceKey
  | session {id : ℕ} {row : SessionRuns} {upload : UploadSession}
      (hrow : s.sessions.lookup id = some row) (hsession : row.runs.session = some upload)
      (hstate : upload.state = .open ∨ upload.state = .completing) : Wanted s upload.sourceKey

end SweepRuns

end Worker
end MediaPlayer
