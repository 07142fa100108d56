import Mathlib.Data.Finset.Basic
import MediaPlayer.Api.AbortedUploads
import MediaPlayer.Repositories.JobQueries
import MediaPlayer.Repositories.Uploads
import MediaPlayer.Services.JobCleanup
import MediaPlayer.Services.MultipartStorage

/-!
# Deleting an account

`delete_account` of `app/api/admin_users.py`, with `account_contents` and `delete_account_rows`
of `app/repositories/admin_users.py` and `MultipartStorage.abort` on a store of many keys.
Storage comes first: the sessions and then the jobs, and the rows in one transaction after that.
Every call of the database and of the store may raise.

* `LeftByRuns` — the sessions and their objects are as the runs of `uploadSystem` leave them.
* `StorageGone`, `AccountGone` — what is gone of the store and of the rows.
* `deleteAccountWork_ensures` — the work either raises, with nothing but objects gone, or has
  emptied the store of the account.
* `delete_account_all_or_nothing` — so the rows are as they were, or all of the account is gone.
-/

namespace MediaPlayer
namespace Api

open Library Models Repositories Services

/-! ## The database and the store -/

/-- The three tables. -/
structure Accounts where
  users : Finset UUID
  uploads : UploadTable
  jobs : JobTable

/-- The objects of the store, and the multipart uploads that are open in it, by key and id. -/
structure AccountStore where
  objects : List String
  uploads : List (String × String)

/-- The work of a request, as far as it reaches the store. -/
abbrev AccountSpan := EStateM RequestError AccountStore

/-- How the calls of a request end.  The sessions come in an order of the database's own. -/
structure AccountWorld where
  locks : Bool := true
  reads : Bool := true
  arrange : List (UUID × UploadSession) → List (UUID × UploadSession) := id
  perm : ∀ rows, (arrange rows).Perm rows
  abortUpload : UUID → CallOutcome := fun _ => .returned
  deleteUpload : UUID → CallOutcome := fun _ => .returned
  cleanup : UUID → CleanupWorld := fun _ => ⟨fun _ => true, fun _ => .returned⟩
  deletesUploads : Bool := true
  deletesJobs : Bool := true
  deletesUser : Bool := true
  commit : CallOutcome := .returned

/-- A statement that raises unless it goes through. -/
def statement (goesThrough : Bool) : AccountSpan Unit :=
  if goesThrough then pure () else throw .connectionError

/-- A call of the store. -/
def storeCall (out : CallOutcome) (perform : AccountStore → Except String AccountStore) :
    AccountSpan Unit :=
  fun store =>
    match perform store with
    | .error code => .error (out.next (.clientError code) .connectionError) store
    | .ok after =>
        let store := out.effect (fun _ => after) store
        out.next (.ok () store) (.error .connectionError store)

namespace AccountStore

def abortMultipartUpload (key uploadId : String) (store : AccountStore) :
    Except String AccountStore :=
  if (key, uploadId) ∈ store.uploads then
    .ok { store with uploads := store.uploads.filter (· ≠ (key, uploadId)) }
  else .error "NoSuchUpload"

def deleteObject (key : String) (store : AccountStore) : Except String AccountStore :=
  .ok { store with objects := store.objects.filter (· ≠ key) }

end AccountStore

/-! ## The handler -/

/-- `MultipartStorage.abort` of a session. -/
def abortSession (world : AccountWorld) (id : UUID) (upload : UploadSession) :
    AccountSpan Unit := do
  if upload.initialized then
    tryCatch (storeCall (world.abortUpload id)
        (AccountStore.abortMultipartUpload upload.sourceKey (upload.storageId.getD "")))
      fun
      | .clientError code =>
          if code = "NoSuchUpload" then pure () else throw (.clientError code)
      | e => throw e
  storeCall (world.deleteUpload id) (AccountStore.deleteObject upload.sourceKey)

/-- One round of the loop over the sessions. -/
def cleanUpload (world : AccountWorld) (jobIds : List UUID) (row : UUID × UploadSession) :
    AccountSpan Unit :=
  if row.2.state ∉ [.ready, .completed, .aborted] then abortSession world row.1 row.2
  else if row.2.state ∈ [.ready, .completed] ∧ row.2.jobId ∉ jobIds then
    -- The job was deleted by itself, which may have left its source.
    storeCall (world.deleteUpload row.1) (AccountStore.deleteObject row.2.sourceKey)
  else pure ()

/-- `delete_job_storage` of one job, which is not best effort here. -/
def cleanJob (world : AccountWorld) (row : JobRow) : AccountSpan Unit :=
  fun store =>
    let cleanup := deleteJobStorage false (world.cleanup row.1) row.2 store.objects
    let store := { store with objects := cleanup.objects }
    if cleanup.raised then .error .connectionError store else .ok () store

/-- `lock_owner`: whether there is such an account. -/
def lockOwner (world : AccountWorld) (userId : UUID) (accounts : Accounts) : AccountSpan Bool := do
  statement world.locks
  pure (userId ∈ accounts.users)

/-- The uploads of `account_contents`. -/
def accountUploads (world : AccountWorld) (userId : UUID) (accounts : Accounts) :
    List (UUID × UploadSession) :=
  world.arrange ((accounts.uploads.entries.map fun row => (row.1, row.2)).filter
    fun row => row.2.ownerId = userId)

/-- The jobs of `account_contents`, in the order of their ids. -/
def accountJobs (userId : UUID) (accounts : Accounts) : List JobRow :=
  accounts.jobs.rowsById.filter fun row => row.2.ownerId = userId

/-- What the three deletes leave. -/
def withoutAccount (userId : UUID) (accounts : Accounts) : Accounts where
  users := accounts.users.erase userId
  uploads := accounts.uploads.filter fun _ upload => upload.ownerId ≠ userId
  jobs := Parties.filter accounts.jobs fun _ job => job.ownerId ≠ userId

/-- `delete_account_rows`, in the transaction that is still open. -/
def deleteAccountRows (world : AccountWorld) (userId : UUID) (accounts : Accounts) :
    AccountSpan Accounts := do
  statement world.deletesUploads
  statement world.deletesJobs
  statement world.deletesUser
  pure (withoutAccount userId accounts)

/-- What is done before the commit. -/
def deleteAccountWork (world : AccountWorld) (userId : UUID) (accounts : Accounts) :
    AccountSpan Accounts := do
  if ← lockOwner world userId accounts then
    statement world.reads
    let jobs := accountJobs userId accounts
    forM (accountUploads world userId accounts) (cleanUpload world (jobs.map Prod.fst))
    forM jobs (cleanJob world)
    deleteAccountRows world userId accounts
  else throw (.notFound "not found")

/-- The answer of the request, and what it leaves. -/
structure AccountReply where
  status : ℕ
  error : Option String := none
  accounts : Accounts
  store : AccountStore

/-- `delete_account`. -/
def deleteAccount (world : AccountWorld) (operator userId : UUID) (accounts : Accounts)
    (store : AccountStore) : AccountReply :=
  let unconfirmed : Option String :=
    some "account deletion could not be confirmed; please try again"
  if userId = operator then
    ⟨409, some "an operator cannot delete their own account", accounts, store⟩
  else
    match deleteAccountWork world userId accounts store with
    | .error (.notFound message) store => ⟨404, some message, accounts, store⟩
    | .error _ store => ⟨503, unconfirmed, accounts, store⟩
    | .ok after store =>
        { status := world.commit.next 204 503
          error := world.commit.next none unconfirmed
          accounts := world.commit.effect (fun _ => after) accounts
          store := store }

/-! ## What is gone -/

/-- Every call returns. -/
structure AccountWorld.Returns (world : AccountWorld) : Prop where
  locks : world.locks = true
  reads : world.reads = true
  abortUpload : ∀ id, world.abortUpload id = .returned
  deleteUpload : ∀ id, world.deleteUpload id = .returned
  lists : ∀ id folder, (world.cleanup id).lists folder = true
  deletes : ∀ id key, (world.cleanup id).deletes key = .returned
  deletesUploads : world.deletesUploads = true
  deletesJobs : world.deletesJobs = true
  deletesUser : world.deletesUser = true
  commit : world.commit = .returned

/-- Nothing has come to the store. -/
structure Shrinks (before after : AccountStore) : Prop where
  objects : ∀ key ∈ after.objects, key ∈ before.objects
  uploads : ∀ upload ∈ after.uploads, upload ∈ before.uploads

theorem Shrinks.refl (store : AccountStore) : Shrinks store store :=
  ⟨fun _ => id, fun _ => id⟩

theorem Shrinks.trans {first second third : AccountStore} (h : Shrinks first second)
    (h' : Shrinks second third) : Shrinks first third :=
  ⟨fun key hkey => h.objects key (h'.objects key hkey),
    fun upload hupload => h.uploads upload (h'.uploads upload hupload)⟩

/-- The session is aborted and its object removed, unless it has a job that is still there or had
been aborted before. -/
structure SessionGone (jobIds : List UUID) (upload : UploadSession) (store : AccountStore) :
    Prop where
  object : ¬upload.state.Settled → upload.state ≠ .aborted → upload.sourceKey ∉ store.objects
  multipart : ¬upload.state.Settled → upload.state ≠ .aborted → upload.initialized = true →
    (upload.sourceKey, upload.storageId.getD "") ∉ store.uploads
  orphan : upload.state.Settled → upload.jobId ∉ jobIds → upload.sourceKey ∉ store.objects

/-- Nothing is left of what the job's row names. -/
structure StorageGone (job : Job) (store : AccountStore) : Prop where
  keys : ∀ key ∈ storageKeys job, key ∉ store.objects
  folders : ∀ folder ∈ storagePrefixes job, ∀ key ∈ store.objects, startsWith key folder = false

theorem SessionGone.mono {jobIds : List UUID} {upload : UploadSession}
    {before after : AccountStore} (h : SessionGone jobIds upload before)
    (hshrinks : Shrinks before after) : SessionGone jobIds upload after where
  object hunsettled haborted hkey := h.object hunsettled haborted (hshrinks.objects _ hkey)
  multipart hunsettled haborted hinit hupload :=
    h.multipart hunsettled haborted hinit (hshrinks.uploads _ hupload)
  orphan hsettled hjob hkey := h.orphan hsettled hjob (hshrinks.objects _ hkey)

theorem StorageGone.mono {job : Job} {before after : AccountStore} (h : StorageGone job before)
    (hshrinks : Shrinks before after) : StorageGone job after where
  keys key hkey hmem := h.keys key hkey (hshrinks.objects _ hmem)
  folders folder hfolder key hmem := h.folders folder hfolder key (hshrinks.objects _ hmem)

/-- A raise: nothing has come to the store by then, and some call did not return. -/
def Interrupted (world : AccountWorld) (before : AccountStore) (e : RequestError)
    (after : AccountStore) : Prop :=
  Shrinks before after ∧ ¬world.Returns ∧ ∀ message, e ≠ .notFound message

/-! ## What the calls leave -/

section Calls

variable {world : AccountWorld} {start : AccountStore}

theorem statement_ensures {goesThrough : Bool} {p : AccountStore → Prop}
    (hp : ∀ store, p store → Shrinks start store)
    (hraises : goesThrough = false → ¬world.Returns) :
    Ensures p (statement goesThrough) (fun _ => p) (Interrupted world start) := by
  cases goesThrough with
  | true => exact Ensures.pure _ fun _ hstore => hstore
  | false => exact Ensures.throw _ fun store hstore => ⟨hp store hstore, hraises rfl, by simp⟩

/-- A call that returns has done what it says; one that raises may have. -/
theorem storeCall_ensures {out : CallOutcome} {perform : AccountStore → Except String AccountStore}
    {q : AccountStore → Prop} {r : RequestError → AccountStore → Prop} {p : AccountStore → Prop}
    (hok : ∀ store after, p store → perform store = .ok after → q after)
    (hcode : ∀ store code, p store → perform store = .error code → r (.clientError code) store)
    (hbefore : ∀ store, p store → out ≠ .returned → r .connectionError store)
    (hafter : ∀ store after, p store → perform store = .ok after → out ≠ .returned →
      r .connectionError after) :
    Ensures p (storeCall out perform) (fun _ => q) r := by
  intro store hstore
  unfold storeCall
  cases hperform : perform store with
  | error code =>
      cases out with
      | returned => exact hcode store code hstore hperform
      | raisedBefore | raisedAfter => exact hbefore store hstore (by simp)
  | ok after =>
      cases out with
      | returned => exact hok store after hstore hperform
      | raisedBefore => exact hbefore store hstore (by simp)
      | raisedAfter => exact hafter store after hstore hperform (by simp)

theorem shrinks_abortMultipartUpload {key uploadId : String} {store after : AccountStore}
    (hok : AccountStore.abortMultipartUpload key uploadId store = .ok after) :
    Shrinks store after ∧ (key, uploadId) ∉ after.uploads := by
  unfold AccountStore.abortMultipartUpload at hok
  split at hok
  · obtain rfl := Except.ok.inj hok
    exact ⟨⟨fun _ => id, fun _ hupload => List.mem_of_mem_filter hupload⟩, by simp⟩
  · cases hok

theorem shrinks_deleteObject {key : String} {store after : AccountStore}
    (hok : AccountStore.deleteObject key store = .ok after) :
    Shrinks store after ∧ key ∉ after.objects ∧ after.uploads = store.uploads := by
  obtain rfl := Except.ok.inj hok
  exact ⟨⟨fun _ hkey => List.mem_of_mem_filter hkey, fun _ => id⟩, by simp, rfl⟩

/-- A delete; what is known of the multipart uploads stays known. -/
theorem deleteObject_ensures {id : UUID} {key : String} {p : List (String × String) → Prop} :
    Ensures (fun store => Shrinks start store ∧ p store.uploads)
      (storeCall (world.deleteUpload id) (AccountStore.deleteObject key))
      (fun _ store => Shrinks start store ∧ p store.uploads ∧ key ∉ store.objects)
      (Interrupted world start) := by
  refine storeCall_ensures ?_ ?_ ?_ ?_
  · rintro store after ⟨hstore, huploads⟩ hok
    obtain ⟨hshrinks, hgone, hsame⟩ := shrinks_deleteObject hok
    exact ⟨hstore.trans hshrinks, hsame ▸ huploads, hgone⟩
  · intro store code _ herror
    cases herror
  · rintro store ⟨hstore, -⟩ hraised
    exact ⟨hstore, fun hreturns => hraised (hreturns.deleteUpload id), by simp⟩
  · rintro store after ⟨hstore, -⟩ hok hraised
    exact ⟨hstore.trans (shrinks_deleteObject hok).1,
      fun hreturns => hraised (hreturns.deleteUpload id), by simp⟩

/-- `abort` leaves neither the multipart upload nor the object. -/
theorem abortSession_ensures (id : UUID) (upload : UploadSession) :
    Ensures (Shrinks start) (abortSession world id upload)
      (fun _ store => Shrinks start store ∧ (upload.initialized = true →
        (upload.sourceKey, upload.storageId.getD "") ∉ store.uploads) ∧
        upload.sourceKey ∉ store.objects)
      (Interrupted world start) := by
  have hcall : Ensures (Shrinks start) (storeCall (world.abortUpload id)
      (AccountStore.abortMultipartUpload upload.sourceKey (upload.storageId.getD "")))
      (fun _ store => Shrinks start store ∧
        (upload.sourceKey, upload.storageId.getD "") ∉ store.uploads)
      fun e store => (e = .connectionError ∧ Interrupted world start e store) ∨
        e = .clientError "NoSuchUpload" ∧
          Shrinks start store ∧ (upload.sourceKey, upload.storageId.getD "") ∉ store.uploads := by
    refine storeCall_ensures ?_ ?_ ?_ ?_
    · intro store after hstore hok
      obtain ⟨hshrinks, hgone⟩ := shrinks_abortMultipartUpload hok
      exact ⟨hstore.trans hshrinks, hgone⟩
    · intro store code hstore herror
      unfold AccountStore.abortMultipartUpload at herror
      split at herror
      · cases herror
      · rename_i hmissing
        obtain rfl := Except.error.inj herror
        exact Or.inr ⟨rfl, hstore, hmissing⟩
    · intro store hstore hraised
      exact Or.inl ⟨rfl, hstore, fun hreturns => hraised (hreturns.abortUpload id), by simp⟩
    · intro store after hstore hok hraised
      exact Or.inl ⟨rfl, hstore.trans (shrinks_abortMultipartUpload hok).1,
        fun hreturns => hraised (hreturns.abortUpload id), by simp⟩
  have hdelete : Ensures (fun store => Shrinks start store ∧ (upload.initialized = true →
      (upload.sourceKey, upload.storageId.getD "") ∉ store.uploads))
      (storeCall (world.deleteUpload id) (AccountStore.deleteObject upload.sourceKey))
      (fun _ store => Shrinks start store ∧ (upload.initialized = true →
        (upload.sourceKey, upload.storageId.getD "") ∉ store.uploads) ∧
        upload.sourceKey ∉ store.objects) (Interrupted world start) :=
    deleteObject_ensures (p := fun uploads => upload.initialized = true →
      (upload.sourceKey, upload.storageId.getD "") ∉ uploads)
  unfold abortSession
  split
  · refine Ensures.bind (hcall.tryCatch fun e store hstore => ?_) fun _ =>
      hdelete.pre fun store hstore => ⟨hstore.1, fun _ => hstore.2⟩
    rcases hstore with ⟨rfl, hinterrupted⟩ | ⟨rfl, hgone⟩
    · exact hinterrupted
    · -- An upload that is not there is as good as an aborted one.
      dsimp only
      rw [if_pos rfl]
      exact hgone
  · rename_i hinit
    exact hdelete.pre fun store hstore => ⟨hstore, fun h => absurd h hinit⟩

theorem cleanUpload_ensures (jobIds : List UUID) (row : UUID × UploadSession) :
    Ensures (Shrinks start) (cleanUpload world jobIds row)
      (fun _ store => Shrinks start store ∧ SessionGone jobIds row.2 store)
      (Interrupted world start) := by
  obtain ⟨id, upload⟩ := row
  unfold cleanUpload
  refine Ensures.ite (fun hstate => ?_) fun hstate =>
    Ensures.ite (fun horphan => ?_) fun hkept => ?_
  · refine (abortSession_ensures id upload).conseq (fun _ h => h) ?_ fun _ _ h => h
    rintro - store ⟨hstore, hmultipart, hobject⟩
    exact ⟨hstore, fun _ _ => hobject, fun _ _ => hmultipart, fun _ _ => hobject⟩
  · refine Ensures.conseq (deleteObject_ensures (p := fun _ => True)) (fun _ h => ⟨h, trivial⟩) ?_
      fun _ _ h => h
    rintro - store ⟨hstore, -, hobject⟩
    have hsettled : upload.state.Settled := by
      cases hvalue : upload.state <;> simp_all [UploadState.Settled]
    exact ⟨hstore, fun h => absurd hsettled h, fun h => absurd hsettled h, fun _ _ => hobject⟩
  · refine Ensures.pure _ fun store hstore => ⟨hstore, ?_, ?_, ?_⟩
    · intro hunsettled haborted
      cases hvalue : upload.state <;> simp_all [UploadState.Settled]
    · intro hunsettled haborted
      cases hvalue : upload.state <;> simp_all [UploadState.Settled]
    · intro hsettled hjob
      cases hvalue : upload.state <;> simp_all [UploadState.Settled]

theorem cleanJob_ensures (row : JobRow) :
    Ensures (Shrinks start) (cleanJob world row)
      (fun _ store => Shrinks start store ∧ StorageGone row.2 store)
      (Interrupted world start) := by
  intro store hstore
  have hshrinks : Shrinks store { store with
      objects := (deleteJobStorage false (world.cleanup row.1) row.2 store.objects).objects } :=
    ⟨fun _ hkey => deleteJobStorage_subset hkey, fun _ => id⟩
  unfold cleanJob
  dsimp only
  cases hraised : (deleteJobStorage false (world.cleanup row.1) row.2 store.objects).raised with
  | true =>
      refine ⟨hstore.trans hshrinks, fun hreturns => ?_, by simp⟩
      rw [not_raised_of_returned (hreturns.lists row.1) (hreturns.deletes row.1)] at hraised
      cases hraised
  | false =>
      obtain ⟨hkeys, hfolders⟩ := storage_gone hraised
      exact ⟨hstore.trans hshrinks, hkeys, hfolders⟩

/-- Where a loop stands that only takes away. -/
def GoneAfter {β : Type} (start : AccountStore) (kept : AccountStore → Prop)
    (gone : β → AccountStore → Prop) (done : List β) (store : AccountStore) : Prop :=
  Shrinks start store ∧ kept store ∧ ∀ row ∈ done, gone row store

/-- What is gone after a round of such a loop stays gone. -/
theorem shrinking_loop {β : Type} {rows : List β} {body : β → AccountSpan Unit}
    {gone : β → AccountStore → Prop} {kept : AccountStore → Prop}
    (hgone : ∀ row before after, gone row before → Shrinks before after → gone row after)
    (hkept : ∀ before after, kept before → Shrinks before after → kept after)
    (hbody : ∀ start, ∀ row ∈ rows, Ensures (Shrinks start) (body row)
      (fun _ store => Shrinks start store ∧ gone row store) (Interrupted world start)) :
    Ensures (GoneAfter start kept gone []) (forM rows body)
      (fun _ => GoneAfter start kept gone rows) (Interrupted world start) := by
  refine Ensures.loop fun done row hmem => ?_
  rintro store ⟨hstore, hstays, hdone⟩
  have hround := hbody store row hmem store (Shrinks.refl store)
  cases hrun : body row store with
  | error e after =>
      rw [hrun] at hround
      obtain ⟨hshrinks, hraised⟩ := hround
      exact ⟨hstore.trans hshrinks, hraised⟩
  | ok u after =>
      rw [hrun] at hround
      obtain ⟨hshrinks, hrow⟩ := hround
      refine ⟨hstore.trans hshrinks, hkept _ _ hstays hshrinks, fun other hother => ?_⟩
      rcases List.mem_append.mp hother with hold | hnew
      · exact hgone other store after (hdone other hold) hshrinks
      · exact List.mem_singleton.mp hnew ▸ hrow

end Calls

/-! ## The whole work -/

/-- The store has been emptied of the account, as far as its rows tell. -/
structure StoreEmptied (userId : UUID) (accounts : Accounts) (store : AccountStore) : Prop where
  jobs : ∀ row ∈ accountJobs userId accounts, StorageGone row.2 store
  sessions : ∀ id upload, accounts.uploads.lookup id = some upload → upload.ownerId = userId →
    SessionGone ((accountJobs userId accounts).map Prod.fst) upload store

theorem mem_accountUploads {world : AccountWorld} {userId : UUID} {accounts : Accounts}
    {row : UUID × UploadSession} : row ∈ accountUploads world userId accounts ↔
      accounts.uploads.lookup row.1 = some row.2 ∧ row.2.ownerId = userId := by
  unfold accountUploads
  rw [(world.perm _).mem_iff, List.mem_filter, List.mem_map, decide_eq_true_iff]
  refine and_congr_left fun _ => ⟨?_, fun hlookup => ?_⟩
  · rintro ⟨entry, hentry, rfl⟩
    exact AList.mem_lookup_iff.mpr hentry
  · exact ⟨⟨row.1, row.2⟩, AList.mem_lookup_iff.mp hlookup, rfl⟩

theorem mem_accountJobs {userId : UUID} {accounts : Accounts} {row : JobRow} :
    row ∈ accountJobs userId accounts ↔
      accounts.jobs.lookup row.1 = some row.2 ∧ row.2.ownerId = userId := by
  unfold accountJobs
  rw [List.mem_filter, JobTable.mem_rowsById, decide_eq_true_iff]

/-- The work has emptied the store and goes on to delete the rows, or it raises, and then nothing
but what it removed has changed. -/
theorem deleteAccountWork_ensures (world : AccountWorld) {userId : UUID} {accounts : Accounts}
    (start : AccountStore) (huser : userId ∈ accounts.users) :
    Ensures (Shrinks start) (deleteAccountWork world userId accounts)
      (fun after store => Shrinks start store ∧ after = withoutAccount userId accounts ∧
        StoreEmptied userId accounts store)
      (Interrupted world start) := by
  have hlock : Ensures (Shrinks start) (lockOwner world userId accounts)
      (fun found store => found = true ∧ Shrinks start store) (Interrupted world start) := by
    refine (statement_ensures (fun _ => id) fun hraises hreturns => ?_).bind fun _ =>
      Ensures.pure _ fun store hstore => ⟨decide_eq_true huser, hstore⟩
    exact absurd hreturns.locks (by simp [hraises])
  have hsessions : Ensures (Shrinks start)
      (forM (accountUploads world userId accounts)
        (cleanUpload world ((accountJobs userId accounts).map Prod.fst)))
      (fun _ => GoneAfter start (fun _ => True) (fun row : UUID × UploadSession =>
        SessionGone ((accountJobs userId accounts).map Prod.fst) row.2)
        (accountUploads world userId accounts))
      (Interrupted world start) :=
    Ensures.pre (shrinking_loop (fun _ _ _ => SessionGone.mono) (fun _ _ _ _ => trivial)
      fun start row _ => cleanUpload_ensures _ row) fun _ hstore => ⟨hstore, trivial, by simp⟩
  -- What the first loop has removed stays gone through the second.
  have hjobs : Ensures (fun store => Shrinks start store ∧
        ∀ row ∈ accountUploads world userId accounts,
          SessionGone ((accountJobs userId accounts).map Prod.fst) row.2 store)
      (forM (accountJobs userId accounts) (cleanJob world))
      (fun _ => GoneAfter start (fun store => ∀ row ∈ accountUploads world userId accounts,
          SessionGone ((accountJobs userId accounts).map Prod.fst) row.2 store)
        (fun row : JobRow => StorageGone row.2) (accountJobs userId accounts))
      (Interrupted world start) :=
    Ensures.pre (shrinking_loop (fun _ _ _ => StorageGone.mono)
      (fun _ _ hgone hshrinks row hrow => (hgone row hrow).mono hshrinks)
      fun start row _ => cleanJob_ensures row) fun _ hstore => ⟨hstore.1, hstore.2, by simp⟩
  unfold deleteAccountWork
  refine hlock.bind fun found => Ensures.ite (fun _ => ?_) fun hnot => ?_
  · refine Ensures.bind ((statement_ensures (fun _ => id) fun hraises hreturns => ?_).pre
      fun _ h => h.2) fun _ => hsessions.bind fun _ =>
      (hjobs.pre fun _ hstore => ⟨hstore.1, hstore.2.2⟩).bind fun _ => ?_
    · exact absurd hreturns.reads (by simp [hraises])
    unfold deleteAccountRows
    refine (statement_ensures (fun _ h => h.1) fun hraises hreturns => ?_).bind fun _ =>
      (statement_ensures (fun _ h => h.1) fun hraises hreturns => ?_).bind fun _ =>
      (statement_ensures (fun _ h => h.1) fun hraises hreturns => ?_).bind fun _ =>
      Ensures.pure _ ?_
    · exact absurd hreturns.deletesUploads (by simp [hraises])
    · exact absurd hreturns.deletesJobs (by simp [hraises])
    · exact absurd hreturns.deletesUser (by simp [hraises])
    · rintro store ⟨hstore, hsessions, hjobs⟩
      refine ⟨hstore, rfl, hjobs, fun id upload hlookup howner => ?_⟩
      exact hsessions (id, upload) (mem_accountUploads.mpr ⟨hlookup, howner⟩)
  · exact Ensures.throw _ fun store hstore => absurd hstore.1 hnot

/-- Without the account nothing is done. -/
theorem deleteAccountWork_missing (world : AccountWorld) {userId : UUID} {accounts : Accounts}
    (start : AccountStore) (huser : userId ∉ accounts.users) :
    Ensures (· = start) (deleteAccountWork world userId accounts) (fun _ _ => False)
      fun _ store => store = start := by
  have hlock : Ensures (· = start) (lockOwner world userId accounts)
      (fun found store => found = false ∧ store = start) fun _ store => store = start := by
    unfold lockOwner statement
    refine Ensures.bind (Ensures.ite (fun _ => ?_) fun _ => ?_) fun _ =>
      Ensures.pure _ fun store hstore => ⟨decide_eq_false huser, hstore⟩
    · exact Ensures.pure _ fun _ h => h
    · exact Ensures.throw _ fun _ h => h
  unfold deleteAccountWork
  refine hlock.bind fun found => Ensures.ite (fun hfound => ?_) fun _ => ?_
  · rintro store ⟨hnot, -⟩
    rw [hnot] at hfound
    cases hfound
  · exact Ensures.throw _ fun _ h => h.2

/-! ## The answers -/

/-- The store is at most what the runs of the sessions have left: a key of a session has an object
only if the run that led to the row has one. -/
def LeftByRuns (maxUploadBytes : ℤ) (accounts : Accounts) (store : AccountStore) : Prop :=
  ∀ id upload, accounts.uploads.lookup id = some upload →
    ∃ s : UploadRuns, (uploadSystem maxUploadBytes).Reachable s ∧ s.session = some upload ∧
      (upload.sourceKey ∈ store.objects → s.bucket.object ≠ none)

theorem LeftByRuns.mono {maxUploadBytes : ℤ} {accounts : Accounts} {before after : AccountStore}
    (h : LeftByRuns maxUploadBytes accounts before) (hshrinks : Shrinks before after) :
    LeftByRuns maxUploadBytes accounts after := by
  intro id upload hlookup
  obtain ⟨s, hs, hsession, hobject⟩ := h id upload hlookup
  exact ⟨s, hs, hsession, fun hkey => hobject (hshrinks.objects _ hkey)⟩

/-- All of the account is gone, and no row of another one. -/
structure AccountGone (userId : UUID) (accounts after : Accounts) (store : AccountStore) :
    Prop where
  users : ∀ other, other ∈ after.users ↔ other ≠ userId ∧ other ∈ accounts.users
  uploads : ∀ id upload, after.uploads.lookup id = some upload ↔
    accounts.uploads.lookup id = some upload ∧ upload.ownerId ≠ userId
  jobs : ∀ id job, after.jobs.lookup id = some job ↔
    accounts.jobs.lookup id = some job ∧ job.ownerId ≠ userId
  storage : ∀ id job, accounts.jobs.lookup id = some job → job.ownerId = userId →
    StorageGone job store
  objects : ∀ id upload, accounts.uploads.lookup id = some upload → upload.ownerId = userId →
    ¬upload.state.Settled → upload.sourceKey ∉ store.objects
  aborted : ∀ id upload, accounts.uploads.lookup id = some upload → upload.ownerId = userId →
    ¬upload.state.Settled → upload.state ≠ .aborted → upload.initialized = true →
    (upload.sourceKey, upload.storageId.getD "") ∉ store.uploads
  /-- The source of a job that was deleted by itself. -/
  orphans : ∀ id upload, accounts.uploads.lookup id = some upload → upload.ownerId = userId →
    upload.state.Settled →
    (∀ job, accounts.jobs.lookup upload.jobId = some job → job.ownerId ≠ userId) →
    upload.sourceKey ∉ store.objects

/-- An emptied store, and the rows of the others. -/
theorem StoreEmptied.accountGone {maxUploadBytes : ℤ} {userId : UUID} {accounts : Accounts}
    {store : AccountStore} (h : StoreEmptied userId accounts store)
    (hruns : LeftByRuns maxUploadBytes accounts store) :
    AccountGone userId accounts (withoutAccount userId accounts) store where
  users other := Finset.mem_erase
  uploads id upload := by
    simp only [withoutAccount, Parties.lookup_filter, Option.filter_eq_some_iff, decide_eq_true_iff]
  jobs id job := by
    simp only [withoutAccount, Parties.lookup_filter, Option.filter_eq_some_iff, decide_eq_true_iff]
  storage id job hlookup howner := h.jobs (id, job) (mem_accountJobs.mpr ⟨hlookup, howner⟩)
  objects id upload hlookup howner hunsettled := by
    by_cases haborted : upload.state = .aborted
    · -- It was removed when the session was aborted.
      obtain ⟨s, hs, hsession, hobject⟩ := hruns id upload hlookup
      exact fun hkey => hobject hkey (UploadRuns.aborted_object_gone hs hsession haborted)
    · exact (h.sessions id upload hlookup howner).object hunsettled haborted
  aborted id upload hlookup howner := (h.sessions id upload hlookup howner).multipart
  orphans id upload hlookup howner hsettled hnone := by
    refine (h.sessions id upload hlookup howner).orphan hsettled fun hmem => ?_
    obtain ⟨⟨jobId, job⟩, hjob, rfl⟩ := List.mem_map.mp hmem
    obtain ⟨hjob, hjobOwner⟩ := mem_accountJobs.mp hjob
    exact hnone job hjob hjobOwner

section Answers

variable {world : AccountWorld} {operator userId : UUID} {accounts : Accounts}
  {store : AccountStore}

/-- The answers to a request for an account that is there. -/
theorem deleteAccount_found (world : AccountWorld) (store : AccountStore)
    (hoperator : userId ≠ operator) (huser : userId ∈ accounts.users) :
    ∃ left, Shrinks store left ∧
      ((deleteAccount world operator userId accounts store).store = left) ∧
      ((¬world.Returns ∧ (deleteAccount world operator userId accounts store).status = 503 ∧
          (deleteAccount world operator userId accounts store).accounts = accounts) ∨
        (StoreEmptied userId accounts left ∧
          (deleteAccount world operator userId accounts store).status = world.commit.next 204 503 ∧
          (deleteAccount world operator userId accounts store).accounts =
            world.commit.effect (fun _ => withoutAccount userId accounts) accounts)) := by
  have hwork := deleteAccountWork_ensures world store huser store (Shrinks.refl store)
  unfold deleteAccount
  rw [if_neg hoperator]
  cases hrun : deleteAccountWork world userId accounts store with
  | ok after left =>
      rw [hrun] at hwork
      obtain ⟨hshrinks, rfl, hemptied⟩ := hwork
      exact ⟨left, hshrinks, rfl, Or.inr ⟨hemptied, rfl, rfl⟩⟩
  | error e left =>
      rw [hrun] at hwork
      obtain ⟨hshrinks, hraised, hfound⟩ := hwork
      refine ⟨left, hshrinks, ?_⟩
      cases e with
      | notFound message => exact absurd rfl (hfound message)
      | http | clientError | connectionError => exact ⟨rfl, Or.inl ⟨hraised, rfl, rfl⟩⟩

/-- Nothing happens to an account that is not there, nor to the operator's own. -/
theorem deleteAccount_refused (world : AccountWorld) (store : AccountStore)
    (hrefused : userId = operator ∨ userId ∉ accounts.users) :
    (deleteAccount world operator userId accounts store).status ≠ 204 ∧
      (deleteAccount world operator userId accounts store).accounts = accounts ∧
      (deleteAccount world operator userId accounts store).store = store := by
  unfold deleteAccount
  split
  · exact ⟨by simp, rfl, rfl⟩
  · rename_i hoperator
    have huser : userId ∉ accounts.users := hrefused.resolve_left hoperator
    have hwork := deleteAccountWork_missing world store huser store rfl
    cases hrun : deleteAccountWork world userId accounts store with
    | ok after left =>
        rw [hrun] at hwork
        exact hwork.elim
    | error e left =>
        rw [hrun] at hwork
        obtain rfl : left = store := hwork
        cases e with
        | notFound | http | clientError | connectionError => exact ⟨by simp, rfl, rfl⟩

/-- A request that was not confirmed can be made again: from the rows and the store it left, one
whose calls return deletes the account. -/
def Repeatable (operator userId : UUID) (accounts : Accounts) (store : AccountStore) : Prop :=
  ∀ again : AccountWorld, again.Returns → userId ≠ operator → userId ∈ accounts.users →
    (deleteAccount again operator userId accounts store).status = 204 ∧
    AccountGone userId accounts (deleteAccount again operator userId accounts store).accounts
      (deleteAccount again operator userId accounts store).store

theorem repeatable {maxUploadBytes : ℤ} (hruns : LeftByRuns maxUploadBytes accounts store) :
    Repeatable operator userId accounts store := by
  intro again hreturns hoperator huser
  obtain ⟨left, hshrinks, hstore, hend⟩ := deleteAccount_found again store
    hoperator huser
  rcases hend with ⟨hraised, -⟩ | ⟨hemptied, hstatus, haccounts⟩
  · exact absurd hreturns hraised
  · rw [hstatus, haccounts, hstore, hreturns.commit]
    exact ⟨rfl, hemptied.accountGone (hruns.mono hshrinks)⟩

/-- However the calls of the request end: when it is confirmed, all of the account is gone; when
it is not, every row is as it was and the request can be made again.  Only a commit that raised
after it took effect leaves the request unconfirmed with the account gone. -/
theorem delete_account_all_or_nothing {maxUploadBytes : ℤ}
    (hruns : LeftByRuns maxUploadBytes accounts store) :
    ((deleteAccount world operator userId accounts store).status = 204 →
      AccountGone userId accounts (deleteAccount world operator userId accounts store).accounts
        (deleteAccount world operator userId accounts store).store) ∧
    ((deleteAccount world operator userId accounts store).status ≠ 204 →
      world.commit ≠ .raisedAfter →
      (deleteAccount world operator userId accounts store).accounts = accounts ∧
      Repeatable operator userId accounts
        (deleteAccount world operator userId accounts store).store) ∧
    ((deleteAccount world operator userId accounts store).accounts = accounts ∨
      AccountGone userId accounts (deleteAccount world operator userId accounts store).accounts
        (deleteAccount world operator userId accounts store).store) := by
  by_cases hrefused : userId = operator ∨ userId ∉ accounts.users
  · obtain ⟨hstatus, haccounts, hstore⟩ :=
      deleteAccount_refused world store hrefused
    exact ⟨fun h => absurd h hstatus,
      fun _ _ => ⟨haccounts, hstore.symm ▸ repeatable hruns⟩, Or.inl haccounts⟩
  · obtain ⟨hoperator, huser⟩ := not_or.mp hrefused
    obtain ⟨left, hshrinks, hstore, hend⟩ := deleteAccount_found world store
      hoperator (not_not.mp huser)
    have hleft : LeftByRuns maxUploadBytes accounts left := hruns.mono hshrinks
    rcases hend with ⟨-, hstatus, haccounts⟩ | ⟨hemptied, hstatus, haccounts⟩
    · rw [hstatus, haccounts, hstore]
      exact ⟨by simp, fun _ _ => ⟨rfl, repeatable hleft⟩, Or.inl rfl⟩
    · have hgone := hemptied.accountGone hleft
      rw [hstatus, haccounts, hstore]
      cases world.commit with
      | returned => exact ⟨fun _ => hgone, fun h => absurd rfl h, Or.inr hgone⟩
      | raisedBefore =>
          exact ⟨by simp, fun _ _ => ⟨rfl, repeatable hleft⟩, Or.inl rfl⟩
      | raisedAfter => exact ⟨by simp, fun _ h => absurd rfl h, Or.inr hgone⟩

end Answers

/-! ## An account with a session and a job -/

/-- The first account has begun an upload and has a job, the second has a job. -/
def sharedTables : Accounts where
  users := {1, 2}
  uploads := (∅ : UploadTable).insert 7 (newUpload 1 7 UploadRuns.startSmall 0)
  jobs := (JobTable.put ∅ 3 (some (uploadJob (newUpload 1 3 UploadRuns.startSmall 0) 0))).put 4
    (some (uploadJob (newUpload 2 4 UploadRuns.startSmall 0) 0))

def sharedStore : AccountStore := ⟨["uploads/3/clip.mp4", "uploads/4/clip.mp4"], []⟩

theorem leftByRuns_shared : LeftByRuns 1000 sharedTables sharedStore := by
  intro id upload hlookup
  have hinit : (uploadSystem 1000).Reachable {} := .init rfl
  obtain ⟨s, hstep, hsession⟩ : ∃ s, (uploadSystem 1000).step {}
      (.call 0 1 (.start 7 UploadRuns.startSmall) { now := 0 }) = some s ∧
      s.session = some (newUpload 1 7 UploadRuns.startSmall 0) := ⟨_, rfl, rfl⟩
  obtain rfl : upload = newUpload 1 7 UploadRuns.startSmall 0 := by
    by_cases hid : id = 7
    · subst hid
      exact (Option.some.inj hlookup).symm
    · have hnone : sharedTables.uploads.lookup id = none := AList.lookup_insert_ne hid
      rw [hnone] at hlookup
      cases hlookup
  exact ⟨s, hinit.next hstep, hsession, fun hkey => absurd hkey (by decide)⟩

/-- The second account deletes the first. -/
theorem delete_account_all_or_nothing_shared :
    ∃ reply, reply = deleteAccount { perm := fun _ => .refl _ } 2 1 sharedTables sharedStore ∧
      reply.status = 204 ∧ AccountGone 1 sharedTables reply.accounts reply.store := by
  have hreturns : AccountWorld.Returns { perm := fun _ => .refl _ } := by
    constructor <;> intros <;> rfl
  have hstatus := (repeatable leftByRuns_shared _ hreturns (by decide : (1 : UUID) ≠ 2)
    (by decide : 1 ∈ sharedTables.users)).1
  exact ⟨_, rfl, hstatus, (delete_account_all_or_nothing leftByRuns_shared).1 hstatus⟩

end Api
end MediaPlayer
