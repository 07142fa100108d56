import MediaPlayer.Api.OwnerView
import MediaPlayer.Api.RowsKept
import MediaPlayer.Repositories.EditRoots

/-!
# The source an edit starts from

`edit_source` names the original upload of a done job, which the page loads before it lets an
edit be made.  `resolve_edit_roots` also finds an original that is in the trash; `get_job` does
not.

`LibraryRuns` is the jobs table under uploads, the requests of any users, and the writes of
workers and reaper.  It begins with any table whose keys are named after their jobs, the
empty one among them.

* `Lineage` — the invariant: who a key is of, and that an original is done before there is an
  edit of it.
* `edit_source_opens_iff` — the source a job names can be opened exactly if the upload its
  chain of edits goes back to is not in the trash.
-/

namespace MediaPlayer
namespace Api

open Library Models Repositories Schemas Services

/-- The table, and the ids that were ever drawn, which nothing reads. -/
structure LibraryRuns where
  table : JobTable := ∅
  drawn : List UUID := []

inductive LibraryAction
  /-- `create_job` of an upload, under the name `safe_filename` leaves. -/
  | upload (ownerId jobId : UUID) (name : String) (maxFps : ℤ) (now : Timestamp)
  /-- A write of a worker or of the reaper; `name` is that of the output of a done job. -/
  | write (jobId : UUID) (now : Timestamp) (name : String) (op : Worker.RowOp)
  | request (user : UUID) (world : World) (request : JobsRequest)

def libraryStep (settings : JobsSettings) (outputPrefix : String) (s : LibraryRuns) :
    LibraryAction → Option LibraryRuns
  | .upload ownerId jobId name maxFps now =>
      if jobId ∈ s.drawn ∨ '/' ∈ name.toList then none
      else
        match createJob ownerId name (objectKey "uploads" jobId name) maxFps now with
        | .ok job => some ⟨s.table.insert jobId job, jobId :: s.drawn⟩
        | .error _ => some ⟨s.table, jobId :: s.drawn⟩
  | .write jobId now name op =>
      if keyed outputPrefix jobId name op then
        some { s with table := writeRow s.table jobId now op }
      else none
  | .request user world request =>
      if world.newJobId ∈ s.drawn then none
      else some ⟨(handle settings user world s.table request).table s.table,
        world.newJobId :: s.drawn⟩

/-- Every key of the table is named after a job, and an upload is done before anything is made
of it. -/
structure Lineage (s : LibraryRuns) : Prop where
  drawn : ∀ {jobId job}, s.table.lookup jobId = some job → jobId ∈ s.drawn
  upload : ∀ {jobId job}, s.table.lookup jobId = some job → job.operations = none →
    NamedFor jobId job.sourceKey
  output : ∀ {jobId job key}, s.table.lookup jobId = some job → job.outputKey = some key →
    NamedFor jobId key
  edit : ∀ {jobId job}, s.table.lookup jobId = some job → job.operations ≠ none →
    ∃ source ∈ s.drawn, NamedFor source job.sourceKey
  original : ∀ {jobId other job upload}, s.table.lookup jobId = some job →
    s.table.lookup other = some upload → job.operations ≠ none → upload.operations = none →
    upload.sourceKey = job.sourceKey → upload.status = .done

/-- Any sequence of uploads, requests and writes, from a table of such rows. -/
def librarySystem (settings : JobsSettings) (outputPrefix : String) :
    StepSystem LibraryRuns LibraryAction where
  init := Lineage
  step := libraryStep settings outputPrefix

theorem lineage_empty : Lineage {} := by
  constructor <;> intros <;> simp_all [AList.lookup_empty]

section

variable {s : LibraryRuns}

theorem Lineage.keysApart (hs : Lineage s) : KeysApart s.table where
  uploads hjob hupload hfirst hsecond hkey :=
    (hs.upload hjob hfirst).unique (hkey ▸ hs.upload hupload hsecond)
  outputs hjob houtput hfirst hsecond := (hs.output hjob hfirst).unique (hs.output houtput hsecond)
  mixed hupload houtput hfirst hkey := (hs.upload hupload hfirst).unique (hs.output houtput hkey)

/-- What an edit of the table was made from is done. -/
theorem Lineage.parent_done (hs : Lineage s) {current parent : JobRow}
    (hcurrent : s.table.lookup current.1 = some current.2)
    (hmade : MadeFrom s.table current parent) : parent.2.status = .done := by
  rcases hmade.key with ⟨hupload, hsource⟩ | ⟨houtput, -⟩
  · exact hs.original hcurrent hmade.row hmade.edit hupload hsource
  · exact parent.2.checks.outputKey.mpr (by simp [houtput])

/-- Up the chain of a done job all jobs are done, and the same owner's. -/
theorem Lineage.chain (hs : Lineage s) {n : ℕ} {row root : JobRow}
    (hrow : s.table.lookup row.1 = some row.2) (hdone : row.2.status = .done)
    (hchain : Chain s.table n row root) :
    s.table.lookup root.1 = some root.2 ∧ root.2.status = .done ∧
      root.2.ownerId = row.2.ownerId := by
  induction n generalizing row with
  | zero =>
      obtain rfl : root = row := hchain
      exact ⟨hrow, hdone, rfl⟩
  | succ n ih =>
      obtain ⟨parent, hmade, hrest⟩ := hchain
      obtain ⟨hroot, hrootDone, howner⟩ := ih hmade.row (hs.parent_done hrow hmade) hrest
      exact ⟨hroot, hrootDone, howner.trans hmade.owner⟩

end

/-! ## What a step keeps -/

section

variable {s : LibraryRuns} {jobId : UUID}

theorem Lineage.of_kept (hs : Lineage s) {outputPrefix : String} {table : JobTable}
    (hkept : Kept outputPrefix s.table table) :
    Lineage { s with table := table } where
  drawn hjob := by
    obtain ⟨before, hbefore, -⟩ := hkept _ _ hjob
    exact hs.drawn hbefore
  upload hjob hupload := by
    obtain ⟨before, hbefore, h⟩ := hkept _ _ hjob
    exact h.sourceKey ▸ hs.upload hbefore (h.operations ▸ hupload)
  output hjob houtput := by
    obtain ⟨before, hbefore, h⟩ := hkept _ _ hjob
    exact (h.output _ houtput).elim (hs.output hbefore) OwnOutput.namedFor
  edit hjob hedit := by
    obtain ⟨before, hbefore, h⟩ := hkept _ _ hjob
    exact h.sourceKey ▸ hs.edit hbefore (h.operations ▸ hedit)
  original hjob hupload hedit hplain hsource := by
    obtain ⟨before, hbefore, h⟩ := hkept _ _ hjob
    obtain ⟨earlier, hearlier, huploadKept⟩ := hkept _ _ hupload
    refine huploadKept.done (hs.original hbefore hearlier (h.operations ▸ hedit)
      (huploadKept.operations ▸ hplain) ?_)
    rw [← huploadKept.sourceKey, hsource, h.sourceKey]

theorem Lineage.draw (hs : Lineage s) (jobId : UUID) :
    Lineage { s with drawn := jobId :: s.drawn } where
  drawn hjob := List.mem_cons_of_mem _ (hs.drawn hjob)
  upload := hs.upload
  output := hs.output
  edit hjob hedit := by
    obtain ⟨source, hsource, hnamed⟩ := hs.edit hjob hedit
    exact ⟨source, List.mem_cons_of_mem _ hsource, hnamed⟩
  original := hs.original

/-- What an edit starts from is a done job of the owner: an upload, or the job itself. -/
structure SoundBase (table : JobTable) (row base : JobRow) : Prop where
  lookup : table.lookup base.1 = some base.2
  done : base.2.status = .done
  owner : base.2.ownerId = row.2.ownerId
  kind : base.2.operations = none ∨ base = row

theorem soundBase_of_chain (hs : Lineage s) {n : ℕ} {row root : JobRow}
    (hrow : s.table.lookup row.1 = some row.2) (hdone : row.2.status = .done)
    (hchain : Chain s.table n row root) : SoundBase s.table row (editBase row root) := by
  unfold editBase
  split
  · rename_i hupload
    obtain ⟨hroot, hrootDone, howner⟩ := hs.chain hrow hdone hchain
    exact ⟨hroot, hrootDone, howner, Or.inl hupload⟩
  · exact ⟨hrow, hdone, rfl, Or.inr rfl⟩

theorem Lineage.editBaseOf_sound (hs : Lineage s) (world : World) (row : JobRow)
    (hrow : s.table.lookup row.1 = some row.2) (hdone : row.2.status = .done) :
    SoundBase s.table row (editBaseOf world s.table row) := by
  obtain ⟨n, -, hchain, -⟩ := rootOf_spec hs.keysApart world.rowOrders
    (by simp) (List.mem_singleton.mpr rfl)
  exact soundBase_of_chain hs hrow hdone hchain

/-- An edit of a done job keeps the lineage. -/
theorem Lineage.addEdit (hs : Lineage s) {row base : JobRow} (hbase : SoundBase s.table row base)
    {sourceKey : String} (hkey : editSourceKey base.2 = some sourceKey) (jobId : UUID)
    {created : Job} (hoperations : created.operations ≠ none) (houtput : created.outputKey = none)
    (hsource : created.sourceKey = sourceKey) :
    Lineage ⟨s.table.insert jobId created, jobId :: s.drawn⟩ := by
  refine ⟨fun hjob => ?_, fun hjob hupload => ?_, fun hjob hsome => ?_, fun hjob hedit => ?_,
    fun hjob hupload hedit hplain hshared => ?_⟩
  · rcases lookup_insert_cases hjob with ⟨rfl, -⟩ | ⟨-, hold⟩
    · exact List.mem_cons_self ..
    · exact List.mem_cons_of_mem _ (hs.drawn hold)
  · rcases lookup_insert_cases hjob with ⟨-, rfl⟩ | ⟨-, hold⟩
    · exact absurd hupload hoperations
    · exact hs.upload hold hupload
  · rcases lookup_insert_cases hjob with ⟨-, rfl⟩ | ⟨-, hold⟩
    · simp [houtput] at hsome
    · exact hs.output hold hsome
  · rcases lookup_insert_cases hjob with ⟨-, rfl⟩ | ⟨-, hold⟩
    · refine ⟨base.1, List.mem_cons_of_mem _ (hs.drawn hbase.lookup), ?_⟩
      rw [hsource]
      unfold editSourceKey at hkey
      split at hkey
      · rename_i hupload
        exact Option.some.inj hkey ▸ hs.upload hbase.lookup hupload
      · exact hs.output hbase.lookup hkey
    · obtain ⟨source, hmem, hnamed⟩ := hs.edit hold hedit
      exact ⟨source, List.mem_cons_of_mem _ hmem, hnamed⟩
  · rcases lookup_insert_cases hupload with ⟨-, rfl⟩ | ⟨-, huploadOld⟩
    · exact absurd hplain hoperations
    rcases lookup_insert_cases hjob with ⟨-, rfl⟩ | ⟨-, hold⟩
    · -- An upload that shares the new edit's source is what the edit starts from.
      rw [hsource] at hshared
      unfold editSourceKey at hkey
      split at hkey
      · rename_i hbaseUpload
        have hid := hs.keysApart.uploads huploadOld hbase.lookup hplain hbaseUpload
          (hshared.trans (Option.some.inj hkey).symm)
        subst hid
        rw [hbase.lookup] at huploadOld
        exact Option.some.inj huploadOld ▸ hbase.done
      · rename_i hbaseEdit
        have hid := hs.keysApart.mixed huploadOld hbase.lookup hplain (hshared ▸ hkey)
        subst hid
        rw [hbase.lookup] at huploadOld
        exact absurd (Option.some.inj huploadOld ▸ hplain) hbaseEdit
    · exact hs.original hold huploadOld hedit hplain hshared

/-- A new upload is not done, and its key is new as well. -/
theorem Lineage.addUpload (hs : Lineage s) (hnew : jobId ∉ s.drawn) {created : Job}
    (hoperations : created.operations = none) (houtput : created.outputKey = none)
    (hnamed : NamedFor jobId created.sourceKey) :
    Lineage ⟨s.table.insert jobId created, jobId :: s.drawn⟩ := by
  refine ⟨fun hjob => ?_, fun hjob hupload => ?_, fun hjob hsome => ?_, fun hjob hedit => ?_,
    fun hjob hupload hedit hplain hshared => ?_⟩
  · rcases lookup_insert_cases hjob with ⟨rfl, -⟩ | ⟨-, hold⟩
    · exact List.mem_cons_self ..
    · exact List.mem_cons_of_mem _ (hs.drawn hold)
  · rcases lookup_insert_cases hjob with ⟨rfl, rfl⟩ | ⟨-, hold⟩
    · exact hnamed
    · exact hs.upload hold hupload
  · rcases lookup_insert_cases hjob with ⟨-, rfl⟩ | ⟨-, hold⟩
    · simp [houtput] at hsome
    · exact hs.output hold hsome
  · rcases lookup_insert_cases hjob with ⟨-, rfl⟩ | ⟨-, hold⟩
    · exact absurd hoperations hedit
    · obtain ⟨source, hmem, hsource⟩ := hs.edit hold hedit
      exact ⟨source, List.mem_cons_of_mem _ hmem, hsource⟩
  · rcases lookup_insert_cases hjob with ⟨-, rfl⟩ | ⟨-, hold⟩
    · exact absurd hoperations hedit
    rcases lookup_insert_cases hupload with ⟨rfl, rfl⟩ | ⟨-, huploadOld⟩
    · -- No edit can have a source that is named after a new id.
      obtain ⟨source, hmem, hsource⟩ := hs.edit hold hedit
      exact absurd (hsource.unique (hshared ▸ hnamed) ▸ hmem) hnew
    · exact hs.original hold huploadOld hedit hplain hshared

/-- Every upload, write and request keeps the lineage. -/
theorem Lineage.step {settings : JobsSettings} {outputPrefix : String} {t : LibraryRuns}
    {a : LibraryAction} (hs : Lineage s) (hstep : libraryStep settings outputPrefix s a = some t) :
    Lineage t := by
  cases a with
  | upload ownerId jobId name maxFps now =>
      simp only [libraryStep] at hstep
      split at hstep
      · simp at hstep
      · rename_i hnew
        obtain ⟨hfresh, hname⟩ := not_or.mp hnew
        cases hcreate : createJob ownerId name (objectKey "uploads" jobId name) maxFps now with
        | error e =>
            rw [hcreate] at hstep
            obtain rfl := Option.some.inj hstep
            exact hs.draw jobId
        | ok job =>
            rw [hcreate] at hstep
            obtain rfl := Option.some.inj hstep
            have hcolumns := store_eq_ok_iff.mp hcreate
            refine hs.addUpload hfresh (by rw [hcolumns]; rfl) (by rw [hcolumns]; rfl) ?_
            rw [hcolumns]
            exact ⟨"uploads", name, hname, rfl⟩
  | write jobId now name op =>
      simp only [libraryStep] at hstep
      split at hstep
      · rename_i hkeyed
        obtain rfl := Option.some.inj hstep
        exact hs.of_kept (kept_writeRow s.table hkeyed)
      · simp at hstep
  | request user world request =>
      simp only [libraryStep] at hstep
      split at hstep
      · simp at hstep
      · obtain rfl := Option.some.inj hstep
        by_cases hedit : ∃ jobId edit, request = .editJobById jobId edit
        · obtain ⟨jobId, edit, rfl⟩ := hedit
          rcases editJobById_cases settings user world s.table jobId edit with
            ⟨answer, hreply⟩ |
              ⟨source, sourceKey, created, hsource, hdone, hkey, -, hcolumns, hreply⟩
          · simp only [handle, hreply]
            exact hs.draw world.newJobId
          · simp only [handle, hreply]
            have hrow := (getJob_own hsource).1
            have hbase := hs.editBaseOf_sound world (jobId, source) hrow hdone
            have hoperations : created.operations ≠ none := by
              rw [hcolumns]
              simp [newColumns]
            have hadded := hs.addEdit hbase hkey world.newJobId hoperations
              (by rw [hcolumns]; rfl) (by rw [hcolumns]; rfl)
            cases world.enqueue with
            | returned => exact hadded
            | raisedBefore | raisedAfter =>
                exact hadded.of_kept (kept_erase outputPrefix _ world.newJobId)
        · have hkept : Kept outputPrefix s.table _ := kept_handle settings user world s.table
            fun jobId edit heq => hedit ⟨jobId, edit, heq⟩
          exact (hs.of_kept hkept).draw world.newJobId

end

theorem lineage_of_reachable {settings : JobsSettings} {outputPrefix : String} {s : LibraryRuns}
    (hs : (librarySystem settings outputPrefix).Reachable s) : Lineage s :=
  hs.invariant Lineage (fun _ h => h) fun _ _ _ _ h _ hstep => h.step hstep

/-! ## Which sources open -/

/-- A page of the user's library, or the answer for one job, has the response. -/
def Shows (settings : JobsSettings) (user : UUID) (world : World) (table : JobTable)
    (response : JobResponse) : Prop :=
  (∃ jobId, (handle settings user world table (.getJobById jobId)).answer = .job response) ∨
    ∃ page responses, (handle settings user world table (.getJobs page)).answer =
      .jobs responses ∧ response ∈ responses

/-- `GET /jobs/{id}` answers the user with a done job. -/
def Opens (settings : JobsSettings) (user : UUID) (world : World) (table : JobTable)
    (jobId : UUID) : Prop :=
  ∃ response, (handle settings user world table (.getJobById jobId)).answer = .job response ∧
    response.status = .done

/-- The upload the job was made from, at the end of its chain of edits and within the hops that
are followed, is not in the trash. -/
def OriginalKept (table : JobTable) (jobId : UUID) : Prop :=
  ∀ job root n, table.lookup jobId = some job → n ≤ JobTable.maxEditChain →
    Chain table n (jobId, job) root → root.2.operations = none → root.2.deletedAt = none

section

variable {settings : JobsSettings} {user : UUID} {world : World} {table : JobTable}

/-- What an owner sees of a row: it is the owner's, and not in the trash. -/
theorem getJob_eq_some {jobId : UUID} {job : Job} :
    table.getJob jobId (some user) false = some job ↔
      table.lookup jobId = some job ∧ job.ownerId = user ∧ job.deletedAt = none := by
  rw [JobTable.getJob_ownRow, Option.filter_eq_some_iff, ownRow_eq_some, and_assoc]
  simp

theorem opens_iff {jobId : UUID} : Opens settings user world table jobId ↔
    ∃ job, table.lookup jobId = some job ∧ job.ownerId = user ∧ job.deletedAt = none ∧
      job.status = .done := by
  unfold Opens
  constructor
  · rintro ⟨response, hanswer, hdone⟩
    simp only [handle, getJobById] at hanswer
    cases hjob : table.getJob jobId (some user) false with
    | none => simp [hjob, notFound] at hanswer
    | some job =>
        simp only [hjob, JobsAnswer.job.injEq] at hanswer
        obtain ⟨hrow, howner, hvisible⟩ := getJob_eq_some.mp hjob
        exact ⟨job, hrow, howner, hvisible, by rw [← hdone, ← hanswer]; rfl⟩
  · rintro ⟨job, hrow, howner, hvisible, hdone⟩
    have hjob : table.getJob jobId (some user) false = some job :=
      getJob_eq_some.mpr ⟨hrow, howner, hvisible⟩
    refine ⟨toOneResponse settings world table world.progress (jobId, job), ?_, hdone⟩
    simp only [handle, getJobById, hjob]

/-- A response that is shown is of a visible row of the user, and its root is looked for in a
batch of different jobs. -/
theorem shows_row {response : JobResponse} (hshown : Shows settings user world table response) :
    ∃ row jobs progress, row ∈ jobs ∧ (jobs.map (·.1)).Nodup ∧
      table.lookup row.1 = some row.2 ∧ row.2.ownerId = user ∧ row.2.deletedAt = none ∧
      response = toResponse settings world row
        (JobTable.rootOf (table.resolveEditRoots world.rowOrders jobs) row) progress := by
  rcases hshown with ⟨jobId, hanswer⟩ | ⟨page, responses, hanswer, hresponse⟩
  · simp only [handle, getJobById] at hanswer
    cases hjob : table.getJob jobId (some user) false with
    | none => simp [hjob, notFound] at hanswer
    | some job =>
        simp only [hjob, JobsAnswer.job.injEq] at hanswer
        obtain ⟨hrow, howner, hvisible⟩ := getJob_eq_some.mp hjob
        exact ⟨(jobId, job), [(jobId, job)], world.progress jobId, List.mem_singleton.mpr rfl,
          List.nodup_singleton _, hrow, howner, hvisible, hanswer.symm⟩
  · obtain rfl := JobsAnswer.jobs.inj hanswer
    obtain ⟨row, hrow, rfl⟩ := List.mem_map.mp hresponse
    obtain ⟨hlookup, hvisible⟩ := JobTable.mem_query.mp (JobTable.mem_of_mem_page hrow)
    obtain ⟨hkept, howner⟩ := of_decide_eq_true hvisible
    exact ⟨row, _, world.progress row.1, hrow, JobTable.nodup_page (JobTable.nodup_query ..) ..,
      hlookup, by simpa [eq_comm] using howner, hkept, rfl⟩

end

/-- A done job of the library names a source that can be opened exactly if the upload it goes
back to is not in the trash. -/
theorem edit_source_opens_iff {settings : JobsSettings} {outputPrefix : String} {s : LibraryRuns}
    (hs : (librarySystem settings outputPrefix).Reachable s) {user : UUID} {world : World}
    {response : JobResponse} (hshown : Shows settings user world s.table response)
    (hdone : response.status = .done) :
    ∃ source, response.editSource = some source ∧ ∀ later,
      (Opens settings user later s.table source.jobId ↔ OriginalKept s.table response.id) := by
  have hlineage := lineage_of_reachable hs
  obtain ⟨row, jobs, progress, hrow, hnodup, hlookup, howner, hvisible, rfl⟩ := shows_row hshown
  obtain ⟨m, hm, hchain, hend⟩ := rootOf_spec hlineage.keysApart world.rowOrders
    (fun _ ha _ hb => List.inj_on_of_nodup_map hnodup ha hb) hrow
  generalize JobTable.rootOf (s.table.resolveEditRoots world.rowOrders jobs) row = root at *
  have hstatus : row.2.status = .done := hdone
  have hbase := soundBase_of_chain hlineage hlookup hstatus hchain
  have hsource : editSource row.2 (editBase row root) = some ⟨(editBase row root).1,
      (editBase row root).2.width, (editBase row root).2.height,
      (editBase row root).2.durationSeconds⟩ := by
    simp [editSource, hstatus]
  refine ⟨_, hsource, fun later => opens_iff.trans ⟨?_, fun hkept => ?_⟩⟩
  · rintro ⟨job, hjob, -, hjobVisible, -⟩ found upload n hfound hn hway hupload
    obtain rfl : job = (editBase row root).2 :=
      Option.some.inj (hjob.symm.trans hbase.lookup)
    obtain rfl : found = row.2 := Option.some.inj (hfound.symm.trans hlookup)
    obtain rfl := hway.eq_of_upload hlineage.keysApart hupload hchain
      (hend.imp_left fun hmax => hn.trans_eq hmax.symm)
    rwa [editBase, if_pos hupload] at hjobVisible
  · refine ⟨_, hbase.lookup, hbase.owner.trans howner, ?_, hbase.done⟩
    unfold editBase
    split
    · rename_i hupload
      exact hkept row.2 root m hlookup hm hchain hupload
    · exact hvisible

/-- The job of an answer. -/
def answeredJob : JobsAnswer → Option JobResponse
  | .job response => some response
  | _ => none

theorem answeredJob_eq_some {answer : JobsAnswer} {response : JobResponse}
    (hjob : answeredJob answer = some response) : answer = .job response := by
  cases answer <;> simp_all [answeredJob]

/-- The result of a transcode under the key. -/
def transcodedTo (outputKey : String) : Worker.ProcessingResult where
  outputKey := outputKey

def rotation : EditRequest where
  operations := [.rotate 90]
  length := by decide
  valid := by decide
  unambiguous := by decide
  oneScale := by decide

/-- A video that is uploaded and transcoded. -/
def transcodedUpload : List LibraryAction :=
  [.upload 7 1 "a.mp4" 30 0, .write 1 1 "" .markProcessing,
    .write 1 2 "a.mp4" (.markDone (transcodedTo "outputs/1/a.mp4"))]

/-- An edit of it is made. -/
def editedUpload : List LibraryAction :=
  transcodedUpload ++
    [.request 7 { newJobId := 2 } (.editJobById 1 rotation), .write 2 3 "" .markProcessing,
      .write 2 4 "b.mp4" (.markDone (transcodedTo "outputs/2/b.mp4"))]

/-- Then the original is moved to the trash. -/
def editedThenTrashed : List LibraryAction :=
  editedUpload ++ [.request 7 { newJobId := 3, now := 5 } (.deleteJobById 1)]

/-- The original of the edit is still in the library, and the source the edit names opens. -/
theorem edit_source_opens_iff_kept : ∃ s, (librarySystem {} "outputs").Reachable s ∧
    ∃ response, Shows {} 7 {} s.table response ∧ response.status = .done ∧ response.id = 2 ∧
      OriginalKept s.table 2 ∧ ∃ source, response.editSource = some source ∧ source.jobId = 1 ∧
        ∀ later, Opens {} 7 later s.table source.jobId := by
  have hinit : (librarySystem {} "outputs").Reachable {} := .init lineage_empty
  obtain ⟨s, hs, hrun⟩ := hinit.exists_of_run editedUpload
    (fun s => (answeredJob (handle {} 7 {} s.table (.getJobById 2)).answer).any fun response =>
      response.status = .done ∧ response.id = 2 ∧ response.editSource.any (·.jobId = 1) ∧
        (answeredJob (handle {} 7 {} s.table (.getJobById 1)).answer).any (·.status = .done))
    (by decide +kernel)
  obtain ⟨response, hresponse, hshown⟩ := (Option.any_eq_true _ _).mp hrun
  obtain ⟨hdone, hid, hnamed, hopened⟩ := of_decide_eq_true hshown
  have hshows : Shows {} 7 {} s.table response := Or.inl ⟨2, answeredJob_eq_some hresponse⟩
  obtain ⟨source, hsource, hiff⟩ := edit_source_opens_iff hs hshows hdone
  have hone : source.jobId = 1 := by simpa [hsource] using hnamed
  obtain ⟨original, horiginal, hstatus⟩ := (Option.any_eq_true _ _).mp hopened
  have hopens : Opens {} 7 {} s.table source.jobId :=
    hone ▸ ⟨original, answeredJob_eq_some horiginal, of_decide_eq_true hstatus⟩
  have hkept : OriginalKept s.table 2 := hid ▸ (hiff {}).mp hopens
  exact ⟨s, hs, response, hshows, hdone, hid, hkept, source, hsource, hone,
    fun later => (hiff later).mpr (hid.symm ▸ hkept)⟩

/-- An edit of a video that was then moved to the trash names it as its source, and it is not
found. -/
theorem edit_source_trashed : ∃ s, (librarySystem {} "outputs").Reachable s ∧
    ∃ response, Shows {} 7 {} s.table response ∧ response.status = .done ∧
      ∃ source, response.editSource = some source ∧
        ¬ Opens {} 7 {} s.table source.jobId ∧
        (handle {} 7 {} s.table (.getJobById source.jobId)).answer = notFound := by
  have hinit : (librarySystem {} "outputs").Reachable {} := .init lineage_empty
  obtain ⟨s, hs, hrun⟩ := hinit.exists_of_run editedThenTrashed
    (fun s => (answeredJob (handle {} 7 {} s.table (.getJobById 2)).answer).any fun response =>
      response.status = .done ∧ response.editSource.any (·.jobId = 1) ∧
        (handle {} 7 {} s.table (.getJobById 1)).answer = notFound) (by decide +kernel)
  obtain ⟨response, hresponse, hshown⟩ := (Option.any_eq_true _ _).mp hrun
  obtain ⟨hdone, hsource, hmissing⟩ := of_decide_eq_true hshown
  obtain ⟨source, hsome, hid⟩ := (Option.any_eq_true _ _).mp hsource
  rw [← (of_decide_eq_true hid : source.jobId = 1)] at hmissing
  refine ⟨s, hs, response, Or.inl ⟨2, answeredJob_eq_some hresponse⟩, hdone, source, hsome,
    fun hopens => ?_, hmissing⟩
  obtain ⟨opened, hanswer, -⟩ := hopens
  exact absurd (hanswer.symm.trans hmissing) (by simp [notFound])

end Api
end MediaPlayer
