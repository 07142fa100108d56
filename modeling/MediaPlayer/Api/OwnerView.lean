import MediaPlayer.Api.Jobs

/-!
# What a user's requests see and touch

Two tables that hold the same rows of a user (`SameRows`) are one table to this user's
requests, whatever else is in them.

* `resolveEditRoots_same` — the originals of the user's edits are followed through the
  user's rows alone.
* `handle_same` — one request reads nothing else, `handle_confined` — and writes nothing else.
* `owner_noninterference` — so it is in every sequence of the user's requests.
-/

namespace MediaPlayer
namespace Api

open Library Models Repositories Schemas Services

/-- The tables differ only in rows of other owners. -/
def SameRows (user : UUID) (a b : JobTable) : Prop :=
  ∀ jobId, ownRow user (a.lookup jobId) = ownRow user (b.lookup jobId)

/-- What a table holds of the row of another owner. -/
def foreignRow (user : UUID) (row : Option Job) : Option Job :=
  row.filter fun job => job.ownerId ≠ user

variable {user : UUID} {a b table : JobTable}

theorem SameRows.lookup_iff (hsame : SameRows user a b) {jobId : UUID} {job : Job}
    (howner : job.ownerId = user) : a.lookup jobId = some job ↔ b.lookup jobId = some job := by
  have hown := hsame jobId
  constructor <;> intro hrow
  · rw [hrow, ownRow_of_own howner] at hown
    exact (ownRow_eq_some.mp hown.symm).1
  · rw [hrow, ownRow_of_own howner] at hown
    exact (ownRow_eq_some.mp hown).1

/-! ## Queries -/

/-- A query that asks for the owner sees the user's rows alone. -/
theorem query_same (hsame : SameRows user a b) (order : RowOrder) {p : JobRow → Bool}
    (hp : ∀ row : JobRow, p row = true → row.2.ownerId = user) :
    a.query order p = b.query order p :=
  JobTable.query_congr order fun row hrow => hsame.lookup_iff (hp row hrow)

theorem editParent_owner {candidates : List JobRow} {current parent : JobRow}
    (hparent : JobTable.editParent candidates current = some parent) :
    parent.2.ownerId = current.2.ownerId := by
  have hfound := (Option.filter_eq_some_iff.mp hparent).2
  exact (of_decide_eq_true hfound).1

/-- The hops from the user's jobs stay among the user's rows. -/
theorem followEdits_same (hsame : SameRows user a b) (orders : ℕ → RowOrder) (hops : ℕ)
    {pending : List (UUID × JobRow)} (hpending : ∀ entry ∈ pending, entry.2.2.ownerId = user)
    (roots : List (UUID × JobRow)) :
    a.followEdits orders hops pending roots = b.followEdits orders hops pending roots := by
  induction hops generalizing pending roots with
  | zero => rfl
  | succ hops ih =>
      have hcandidates : a.editCandidates (orders hops) (pending.map (·.2)) =
          b.editCandidates (orders hops) (pending.map (·.2)) := by
        refine query_same hsame _ fun row hrow => ?_
        obtain ⟨hmem, -⟩ := of_decide_eq_true hrow
        obtain ⟨current, hcurrent, howner⟩ := List.mem_map.mp hmem
        obtain ⟨entry, hentry, rfl⟩ := List.mem_map.mp hcurrent
        exact howner ▸ hpending entry hentry
      simp only [JobTable.followEdits, hcandidates]
      split
      · rfl
      · refine ih (fun entry hentry => ?_) _
        obtain ⟨hfound, -⟩ := List.mem_filter.mp hentry
        obtain ⟨child, hchild, hsome⟩ := List.mem_filterMap.mp hfound
        obtain ⟨parent, hparent, rfl⟩ := Option.map_eq_some_iff.mp hsome
        exact (editParent_owner hparent).trans (hpending child hchild)

theorem resolveEditRoots_same (hsame : SameRows user a b) (orders : ℕ → RowOrder)
    {jobs : List JobRow} (hjobs : ∀ row ∈ jobs, row.2.ownerId = user) :
    a.resolveEditRoots orders jobs = b.resolveEditRoots orders jobs := by
  refine followEdits_same hsame orders _ (fun entry hentry => ?_) _
  obtain ⟨row, hrow, rfl⟩ := List.mem_map.mp hentry
  exact hjobs row (List.mem_filter.mp hrow).1

/-! ## One request -/

theorem getJob_same (hsame : SameRows user a b) (jobId : UUID) (includeTrashed : Bool) :
    a.getJob jobId (some user) includeTrashed = b.getJob jobId (some user) includeTrashed := by
  rw [JobTable.getJob_ownRow, JobTable.getJob_ownRow, hsame jobId]

theorem getJob_own {jobId : UUID} {includeTrashed : Bool} {job : Job}
    (hjob : table.getJob jobId (some user) includeTrashed = some job) :
    table.lookup jobId = some job ∧ job.ownerId = user := by
  rw [JobTable.getJob_ownRow] at hjob
  exact ownRow_eq_some.mp (Option.filter_eq_some_iff.mp hjob).1

theorem toResponses_same (hsame : SameRows user a b) (settings : JobsSettings) (world : World)
    (progress : UUID → Option ℕ) {rows : List JobRow}
    (hrows : ∀ row ∈ rows, row.2.ownerId = user) :
    toResponses settings world a progress rows = toResponses settings world b progress rows := by
  simp only [toResponses, resolveEditRoots_same hsame world.rowOrders hrows]

theorem toOneResponse_same (hsame : SameRows user a b) (settings : JobsSettings) (world : World)
    (progress : UUID → Option ℕ) (row : JobRow) (hrow : row.2.ownerId = user) :
    toOneResponse settings world a progress row = toOneResponse settings world b progress row := by
  simp only [toOneResponse,
    resolveEditRoots_same hsame world.rowOrders (List.forall_mem_singleton.mpr hrow)]

theorem SameRows.insert (hsame : SameRows user a b) (jobId : UUID) (job : Job) :
    SameRows user (a.insert jobId job) (b.insert jobId job) := by
  intro other
  by_cases hother : other = jobId
  · subst hother
    rw [AList.lookup_insert, AList.lookup_insert]
  · rw [AList.lookup_insert_ne hother, AList.lookup_insert_ne hother]
    exact hsame other

theorem SameRows.erase (hsame : SameRows user a b) (jobId : UUID) :
    SameRows user (a.erase jobId) (b.erase jobId) := by
  intro other
  by_cases hother : other = jobId
  · subst hother
    rw [AList.lookup_erase, AList.lookup_erase]
  · rw [AList.lookup_erase_ne hother, AList.lookup_erase_ne hother]
    exact hsame other

theorem SameRows.apply (hsame : SameRows user a b) (write : RowWrite) :
    SameRows user (write.apply a) (write.apply b) := by
  cases write with
  | put jobId job => exact hsame.insert jobId job
  | delete jobId => exact hsame.erase jobId

theorem deleteJobAndStorage_same (hsame : SameRows user a b) (jobId : UUID) :
    deleteJobAndStorage a (some user) jobId = deleteJobAndStorage b (some user) jobId := by
  simp only [deleteJobAndStorage, JobTable.deleteJob_ownRow, hsame jobId]
  cases ownRow user (b.lookup jobId) <;> rfl

theorem getJobs_same (hsame : SameRows user a b) (settings : JobsSettings) (world : World)
    (page : Page) : getJobs settings user world a page = getJobs settings user world b page := by
  have howned : ∀ row : JobRow, decide (row.2.deletedAt = none ∧
      (some user).all (· = row.2.ownerId)) = true → row.2.ownerId = user := by
    intro row hrow
    simpa [eq_comm] using (of_decide_eq_true hrow).2
  have hquery := query_same hsame world.listOrder howned
  simp only [getJobs, JobTable.listJobs, hquery]
  rw [toResponses_same hsame]
  exact fun row hrow => howned row (JobTable.mem_query.mp (JobTable.mem_of_mem_page hrow)).2

theorem getTrash_same (hsame : SameRows user a b) (settings : JobsSettings) (world : World)
    (page : Page) :
    getTrash settings user world a page = getTrash settings user world b page := by
  have howned : ∀ row : JobRow, decide (row.2.ownerId = user ∧ row.2.deletedAt ≠ none) = true →
      row.2.ownerId = user := fun row hrow => (of_decide_eq_true hrow).1
  have hquery := query_same hsame world.listOrder howned
  simp only [getTrash, JobTable.listTrash, hquery]
  rw [toResponses_same hsame]
  exact fun row hrow => howned row (JobTable.mem_query.mp (JobTable.mem_of_mem_page hrow)).2

/-- The restored row is the user's, so its roots are looked for among the same rows. -/
theorem restoreJobById_same (hsame : SameRows user a b) (settings : JobsSettings) (world : World)
    (jobId : UUID) :
    restoreJobById settings user world a jobId = restoreJobById settings user world b jobId := by
  have hrestore : restoreJob user (a.lookup jobId) = restoreJob user (b.lookup jobId) := by
    rw [← restoreJob_ownRow, hsame jobId, restoreJob_ownRow]
  simp only [restoreJobById, hrestore]
  cases hrow : restoreJob user (b.lookup jobId) with
  | none => rfl
  | some job =>
      obtain ⟨before, -, howner, -, hcolumns⟩ := restoreJob_some hrow
      have hown : job.ownerId = user := by
        rw [hcolumns]
        exact howner
      simp only [toOneResponse_same (hsame.insert jobId job) settings world _
        (jobId, job) hown]

theorem editJobById_same (hsame : SameRows user a b) (settings : JobsSettings) {world : World}
    (hfresh : a.lookup world.newJobId = none ∧ b.lookup world.newJobId = none) (jobId : UUID)
    (request : EditRequest) :
    editJobById settings user world a jobId request =
      editJobById settings user world b jobId request := by
  simp only [editJobById, getJob_same hsame, hfresh.1, hfresh.2]
  cases hjob : b.getJob jobId (some user) false with
  | none => rfl
  | some source =>
      have hroots := resolveEditRoots_same hsame world.rowOrders
        (List.forall_mem_singleton.mpr (getJob_own hjob).2 :
          ∀ row ∈ [(jobId, source)], row.2.ownerId = user)
      simp only [hroots]

/-- The reply to a user reads no other owner's row. -/
theorem handle_same (hsame : SameRows user a b) (settings : JobsSettings) {world : World}
    (hfresh : a.lookup world.newJobId = none ∧ b.lookup world.newJobId = none)
    (request : JobsRequest) :
    handle settings user world a request = handle settings user world b request := by
  cases request with
  | getJobs page => exact getJobs_same hsame settings world page
  | getTrash page => exact getTrash_same hsame settings world page
  | restoreJobById jobId => exact restoreJobById_same hsame settings world jobId
  | deleteJobPermanently jobId => exact deleteJobAndStorage_same hsame jobId
  | getJobById jobId =>
      simp only [handle, getJobById, getJob_same hsame]
      cases hjob : b.getJob jobId (some user) false with
      | none => rfl
      | some job =>
          simp only [toOneResponse_same hsame settings world _ (jobId, job)
            (getJob_own hjob).2]
  | retryJobById jobId =>
      have hretry : prepareRetry jobId user world.now (a.lookup jobId) =
          prepareRetry jobId user world.now (b.lookup jobId) := by
        rw [← prepareRetry_ownRow, hsame jobId, prepareRetry_ownRow]
      simp only [handle, retryJobById, hretry]
  | editJobById jobId edit => exact editJobById_same hsame settings hfresh jobId edit
  | deleteJobById jobId =>
      have htrash : trashJob user world.now (a.lookup jobId) =
          trashJob user world.now (b.lookup jobId) := by
        rw [← trashJob_ownRow, hsame jobId, trashJob_ownRow]
      simp only [handle, deleteJobById, htrash, deleteJobAndStorage_same hsame jobId]
  | getHlsPart jobId path => simp only [handle, getHlsPart, getJob_same hsame]
  | getPreviewIndex jobId => simp only [handle, getPreviewIndex, getJob_same hsame]

/-! ## What a request writes -/

/-- A write on a row of the user's, or on a new one, that leaves it the user's. -/
structure Confined (user : UUID) (world : World) (table : JobTable) (write : RowWrite) : Prop where
  row : (∃ job, table.lookup write.jobId = some job ∧ job.ownerId = user) ∨
    write.jobId = world.newJobId
  own : ∀ jobId job, write = .put jobId job → job.ownerId = user

theorem confined_put {world : World} {jobId : UUID} {before job : Job}
    (hrow : table.lookup jobId = some before) (howner : before.ownerId = user)
    (hown : job.ownerId = before.ownerId) : Confined user world table (.put jobId job) where
  row := Or.inl ⟨before, hrow, howner⟩
  own other job' heq := by
    obtain ⟨-, rfl⟩ := RowWrite.put.inj heq
    exact hown.trans howner

theorem deleteJobAndStorage_confined {world : World} {jobId : UUID} {write : RowWrite}
    (hwrite : write ∈ (deleteJobAndStorage table (some user) jobId).writes) :
    Confined user world table write := by
  rw [deleteJobAndStorage, JobTable.deleteJob_ownRow] at hwrite
  cases hown : ownRow user (table.lookup jobId) with
  | none => simp [hown] at hwrite
  | some job =>
      simp only [hown, Option.map_some, List.mem_singleton] at hwrite
      subst hwrite
      exact ⟨Or.inl ⟨job, ownRow_eq_some.mp hown⟩, fun _ _ heq => absurd heq (by simp)⟩

theorem retryJobById_confined {world : World} {jobId : UUID} {write : RowWrite}
    (hwrite : write ∈ (retryJobById user world table jobId).writes) :
    Confined user world table write := by
  unfold retryJobById at hwrite
  cases hretry : prepareRetry jobId user world.now (table.lookup jobId) with
  | error e => simp [hretry] at hwrite
  | ok job =>
      obtain ⟨before, hrow, -, howner, -, -, hown, -⟩ := prepareRetry_ok hretry
      simp only [hretry] at hwrite
      obtain rfl : write = .put jobId job := by
        cases henqueue : world.enqueue <;> cases hcommit : world.commit <;>
          simp [henqueue, hcommit] at hwrite <;> exact hwrite
      exact confined_put hrow howner hown

theorem editJobById_confined {settings : JobsSettings} {world : World} {jobId : UUID}
    {request : EditRequest} {write : RowWrite}
    (hwrite : write ∈ (editJobById settings user world table jobId request).writes) :
    Confined user world table write := by
  rcases editJobById_cases settings user world table jobId request with
    ⟨answer, hreply⟩ | ⟨source, sourceKey, created, -, -, -, -, hcolumns, hreply⟩
  · simp [hreply] at hwrite
  · rw [hreply] at hwrite
    rcases List.mem_cons.mp hwrite with rfl | hdelete
    · refine ⟨Or.inr rfl, fun _ _ heq => ?_⟩
      obtain ⟨-, rfl⟩ := RowWrite.put.inj heq
      rw [hcolumns]
      rfl
    · obtain rfl : write = .delete world.newJobId := by
        cases henqueue : world.enqueue <;> simp [henqueue] at hdelete <;> exact hdelete
      exact ⟨Or.inr rfl, fun _ _ heq => absurd heq (by simp)⟩

/-- A user's request writes the user's rows alone. -/
theorem handle_confined {settings : JobsSettings} {world : World} {request : JobsRequest}
    {write : RowWrite} (hwrite : write ∈ (handle settings user world table request).writes) :
    Confined user world table write := by
  cases request with
  | getJobs | getTrash => simp [handle, getJobs, getTrash] at hwrite
  | restoreJobById jobId =>
      simp only [handle, restoreJobById] at hwrite
      cases hrestore : restoreJob user (table.lookup jobId) with
      | none => simp [hrestore] at hwrite
      | some job =>
          obtain ⟨before, hrow, howner, -, hcolumns⟩ := restoreJob_some hrestore
          obtain rfl : write = .put jobId job := by simpa [hrestore] using hwrite
          exact confined_put hrow howner (by rw [hcolumns])
  | deleteJobPermanently jobId => exact deleteJobAndStorage_confined hwrite
  | getJobById jobId =>
      simp only [handle, getJobById] at hwrite
      split at hwrite <;> simp at hwrite
  | retryJobById jobId => exact retryJobById_confined hwrite
  | editJobById jobId edit => exact editJobById_confined hwrite
  | deleteJobById jobId =>
      simp only [handle, deleteJobById] at hwrite
      split at hwrite
      · cases htrash : trashJob user world.now (table.lookup jobId) with
        | none => simp [htrash] at hwrite
        | some job =>
            obtain ⟨before, hrow, howner, -, hcolumns⟩ := trashJob_some htrash
            obtain rfl : write = .put jobId job := by simpa [htrash] using hwrite
            exact confined_put hrow howner (by rw [hcolumns])
      · exact deleteJobAndStorage_confined hwrite
  | getHlsPart jobId path =>
      simp only [handle, getHlsPart] at hwrite
      split at hwrite
      · simp at hwrite
      · split at hwrite <;> simp at hwrite
  | getPreviewIndex jobId =>
      simp only [handle, getPreviewIndex] at hwrite
      split at hwrite
      · simp at hwrite
      · split at hwrite <;> simp at hwrite

/-! ## A sequence of requests -/

theorem lookup_apply_of_ne {write : RowWrite} {jobId : UUID} (hne : write.jobId ≠ jobId) :
    (write.apply table).lookup jobId = table.lookup jobId := by
  cases write with
  | put other job => exact AList.lookup_insert_ne hne.symm
  | delete other => exact AList.lookup_erase_ne hne.symm

/-- Writes on other rows leave a row as it is. -/
theorem lookup_writes {writes : List RowWrite} {jobId : UUID}
    (hne : ∀ write ∈ writes, write.jobId ≠ jobId) (table : JobTable) :
    (writes.foldl RowWrite.apply table).lookup jobId = table.lookup jobId := by
  induction writes generalizing table with
  | nil => rfl
  | cons write rest ih =>
      obtain ⟨hwrite, hrest⟩ := List.forall_mem_cons.mp hne
      rw [List.foldl_cons, ih hrest, lookup_apply_of_ne hwrite]

theorem foreignRow_apply {write : RowWrite}
    (hrow : foreignRow user (table.lookup write.jobId) = none)
    (hown : ∀ jobId job, write = .put jobId job → job.ownerId = user) (jobId : UUID) :
    foreignRow user ((write.apply table).lookup jobId) = foreignRow user (table.lookup jobId) := by
  by_cases hjob : write.jobId = jobId
  · subst hjob
    rw [hrow]
    cases write with
    | put jobId job => simp [RowWrite.apply, RowWrite.jobId, foreignRow, hown jobId job rfl]
    | delete jobId => simp [RowWrite.apply, RowWrite.jobId, foreignRow]
  · rw [lookup_apply_of_ne hjob]

/-- Confined writes leave every row of another owner as it is. -/
theorem foreignRow_writes {writes : List RowWrite}
    (hwrites : ∀ write ∈ writes, foreignRow user (table.lookup write.jobId) = none ∧
      ∀ jobId job, write = .put jobId job → job.ownerId = user) (jobId : UUID) :
    foreignRow user ((writes.foldl RowWrite.apply table).lookup jobId) =
      foreignRow user (table.lookup jobId) := by
  induction writes generalizing table with
  | nil => rfl
  | cons write rest ih =>
      obtain ⟨⟨hrow, hown⟩, hrest⟩ := List.forall_mem_cons.mp hwrites
      have hkept := foreignRow_apply hrow hown
      rw [List.foldl_cons, ih fun other hother =>
        ⟨(hkept other.jobId).trans (hrest other hother).1, (hrest other hother).2⟩, hkept]

theorem SameRows.writes (hsame : SameRows user a b) (writes : List RowWrite) :
    SameRows user (writes.foldl RowWrite.apply a) (writes.foldl RowWrite.apply b) := by
  induction writes generalizing a b with
  | nil => exact hsame
  | cons write rest ih => exact ih (hsame.apply write)

/-- The ids drawn on the way are new, and drawn once. -/
structure FreshIds (steps : List (World × JobsRequest)) (table : JobTable) : Prop where
  nodup : (steps.map (·.1.newJobId)).Nodup
  unused : ∀ step ∈ steps, table.lookup step.1.newJobId = none

variable {settings : JobsSettings} {world : World} {request : JobsRequest}
  {steps : List (World × JobsRequest)}

/-- They still are after the first request. -/
theorem FreshIds.next (hfresh : FreshIds ((world, request) :: steps) table) :
    FreshIds steps ((handle settings user world table request).table table) := by
  obtain ⟨hfirst, hrest⟩ := List.nodup_cons.mp hfresh.nodup
  refine ⟨hrest, fun step hstep => ?_⟩
  have hunused := hfresh.unused step (List.mem_cons_of_mem _ hstep)
  refine (lookup_writes (fun write hwrite heq => ?_) table).trans hunused
  rcases (handle_confined hwrite).row with ⟨job, hjob, -⟩ | hnew
  · rw [heq, hunused] at hjob
    simp at hjob
  · exact hfirst (List.mem_map.mpr ⟨step, hstep, (heq.symm.trans hnew)⟩)

/-- One request keeps the rows of the other owners. -/
theorem handle_keeps_foreign (hunused : table.lookup world.newJobId = none) (jobId : UUID) :
    foreignRow user (((handle settings user world table request).table table).lookup jobId) =
      foreignRow user (table.lookup jobId) := by
  refine foreignRow_writes (fun write hwrite => ?_) jobId
  have hconfined := handle_confined hwrite
  refine ⟨?_, hconfined.own⟩
  rcases hconfined.row with ⟨job, hjob, howner⟩ | hnew
  · simp [hjob, foreignRow, howner]
  · rw [hnew, hunused]
    rfl

theorem serve_keeps_foreign (hfresh : FreshIds steps table) (jobId : UUID) :
    foreignRow user ((serve settings user table steps).2.lookup jobId) =
      foreignRow user (table.lookup jobId) := by
  induction steps generalizing table with
  | nil => rfl
  | cons step rest ih =>
      exact (ih hfresh.next).trans
        (handle_keeps_foreign (hfresh.unused step (List.mem_cons_self ..)) jobId)

/-- The replies and the user's rows are the same over tables that hold the same rows of the
user. -/
theorem serve_same (hsame : SameRows user a b) (ha : FreshIds steps a) (hb : FreshIds steps b) :
    (serve settings user a steps).1 = (serve settings user b steps).1 ∧
      SameRows user (serve settings user a steps).2 (serve settings user b steps).2 := by
  induction steps generalizing a b with
  | nil => exact ⟨rfl, hsame⟩
  | cons step rest ih =>
      have hreply := handle_same hsame settings
        ⟨ha.unused step (List.mem_cons_self ..), hb.unused step (List.mem_cons_self ..)⟩ step.2
      have hnext := hsame.writes (handle settings user step.1 a step.2).writes
      have hbnext : FreshIds rest ((handle settings user step.1 b step.2).table b) := hb.next
      simp only [serve, ← hreply] at hbnext ⊢
      obtain ⟨hreplies, htables⟩ := ih hnext ha.next hbnext
      exact ⟨congrArg (handle settings user step.1 a step.2 :: ·) hreplies, htables⟩

/-- Owner noninterference: over two tables that differ only in rows of other owners, a
sequence of a user's requests gives the same replies and leaves the same rows of the user; no
row of another owner changes; and an id of another owner is answered as an id of no job is. -/
theorem owner_noninterference (settings : JobsSettings) {user : UUID} {a b : JobTable}
    (hsame : SameRows user a b) {steps : List (World × JobsRequest)} (ha : FreshIds steps a)
    (hb : FreshIds steps b) :
    (serve settings user a steps).1 = (serve settings user b steps).1 ∧
      SameRows user (serve settings user a steps).2 (serve settings user b steps).2 ∧
      (∀ jobId, foreignRow user ((serve settings user a steps).2.lookup jobId) =
        foreignRow user (a.lookup jobId)) ∧
      (∀ jobId, foreignRow user ((serve settings user b steps).2.lookup jobId) =
        foreignRow user (b.lookup jobId)) ∧
      ∀ world (request : JobsRequest) jobId, request.jobId? = some jobId →
        ((∃ job, (serve settings user a steps).2.lookup jobId = some job ∧ job.ownerId ≠ user) ∨
          (serve settings user a steps).2.lookup jobId = none) →
        handle settings user world (serve settings user a steps).2 request =
          { answer := notFound } := by
  obtain ⟨hreplies, htables⟩ : (serve settings user a steps).1 = (serve settings user b steps).1 ∧
      SameRows user (serve settings user a steps).2 (serve settings user b steps).2 :=
    serve_same hsame ha hb
  refine ⟨hreplies, htables, serve_keeps_foreign ha, serve_keeps_foreign hb, ?_⟩
  intro world request jobId hrequest hrow
  refine handle_of_not_own settings user world hrequest ?_
  rcases hrow with ⟨job, hjob, howner⟩ | hnone
  · rw [hjob, ownRow_of_foreign howner]
  · rw [hnone]
    rfl

/-- A row of a foreign owner makes no difference to the user. -/
theorem sameRows_insert_foreign {jobId : UUID} {job : Job} (howner : job.ownerId ≠ user)
    (hrow : table.lookup jobId = none) : SameRows user (table.insert jobId job) table := by
  intro other
  by_cases hother : other = jobId
  · subst hother
    rw [AList.lookup_insert, ownRow_of_foreign howner, hrow]
    rfl
  · rw [AList.lookup_insert_ne hother]

/-- A video just uploaded as job 1. -/
def uploadedBy (ownerId : UUID) : Job :=
  ⟨newColumns ownerId "a.mp4" "uploads/1/a.mp4" none 30 0,
    newColumns_checks (Or.inl rfl) (by simp) ownerId "a.mp4" "uploads/1/a.mp4" 0⟩

/-- Owner 7 asks for the job of owner 8, then trashes the own one. -/
def twoRequests : List (World × JobsRequest) :=
  [({ newJobId := 10 }, .getJobById 2), ({ newJobId := 11 }, .deleteJobById 1)]

theorem owner_noninterference_twoOwners :
    (serve {} 7 (((∅ : JobTable).insert 1 (uploadedBy 7)).insert 2 (uploadedBy 8)) twoRequests).1 =
      (serve {} 7 ((∅ : JobTable).insert 1 (uploadedBy 7)) twoRequests).1 :=
  (owner_noninterference {} (sameRows_insert_foreign (by decide) (by decide))
    ⟨by decide, by decide⟩ ⟨by decide, by decide⟩).1

end Api
end MediaPlayer
