import MediaPlayer.Worker.OrphanSweep

/-!
# What an orphan sweep relies on

* `Claimed` — a key that is, or may still become, the source of a job or of a session.
* `Young` — every object a sweep has seen or can see under the key is within the grace time.
* `StepKept` — what any step leaves: it claims no key but new ones, and makes no old object.
* `StoreSound`, `SweepSound` — the invariants of the store and of the sweeps: every claimed key
  is known to a sweep that has read the source keys, or young.
-/

namespace MediaPlayer
namespace Worker

open Library Models Repositories Schemas Services Api

theorem not_underUploads_outputs (jobId : UUID) (name : String) :
    underUploads (objectKey "outputs" jobId name) = false := by
  simp [underUploads, toList_objectKey, List.isPrefixOf]

theorem OwnOutput.not_underUploads {jobId : UUID} {key : String}
    (hown : OwnOutput "outputs" jobId key) : underUploads key = false := by
  obtain ⟨name, -, rfl⟩ := hown
  exact not_underUploads_outputs jobId name

theorem newUpload_sourceKey (user jobId : UUID) (request : StartUpload) (now : Timestamp) :
    (newUpload user jobId request now).sourceKey =
      objectKey "uploads" jobId (safeFilename request.filename) := by
  have hroot : "uploads/" = "uploads" ++ "/" := by decide
  simp only [newUpload, objectKey, ← hroot]
  rfl

namespace SweepRuns

variable {settings : SweepSettings} {s t : SweepRuns}

/-- The source of a row. -/
def source (s : SweepRuns) (id : UUID) : Option String := (s.table.lookup id).map (·.sourceKey)

theorem source_of_lookup {id : UUID} {job : Job} (hrow : s.table.lookup id = some job) :
    s.source id = some job.sourceKey := by
  rw [source, hrow, Option.map_some]

/-- A key that is, or may still become, the source of a job or of a session that goes on. -/
inductive Claimed (settings : SweepSettings) (s : SweepRuns) : String → Prop
  | job {id : UUID} {key : String} (hrow : s.source id = some key) : Claimed settings s key
  | edit {party : ℕ} {writes : List RowWrite} {id : UUID} {job : Job}
      (hedit : s.edits.lookup party = some writes) (hwrite : RowWrite.put id job ∈ writes) :
      Claimed settings s job.sourceKey
  | session {id : ℕ} {row : SessionRuns} {upload : UploadSession}
      (hrow : s.sessions.lookup id = some row) (hsession : row.runs.session = some upload)
      (hstate : ¬ upload.state.Cancelled) : Claimed settings s upload.sourceKey
  | upload {party : ℕ} {upload : StoredUpload} (hupload : s.uploads.lookup party = some upload)
      (htime : s.clock ≤ upload.storedAt + settings.grace) :
      Claimed settings s upload.sourceKey

theorem Wanted.claimed {key : String} (hwanted : s.Wanted key) : s.Claimed settings key := by
  cases hwanted with
  | job hrow => exact .job (source_of_lookup hrow)
  | session hrow hsession hstate =>
      refine .session hrow hsession ?_
      rcases hstate with hstate | hstate <;> rw [hstate] <;> exact id

/-- The key is named after an id that was drawn. -/
def Used (s : SweepRuns) (key : String) : Prop :=
  ∃ id purpose, s.drawn.lookup id = some purpose ∧ NamedFor id key

/-- The multipart upload for the key was initiated at that time. -/
inductive Initiated (s : SweepRuns) : String → Timestamp → Prop
  | mk {id : ℕ} {row : SessionRuns} {upload : UploadSession} {modified : Timestamp}
      (hrow : s.sessions.lookup id = some row) (hsession : row.runs.session = some upload)
      (htime : row.initiatedAt = some modified) : Initiated s upload.sourceKey modified

/-- All there is, was listed, or may come to be under the key is within the grace time. -/
structure Young (s : SweepRuns) (graceBefore : Timestamp) (listed : List (String × Timestamp))
    (key : String) : Prop where
  object : ∀ modified, s.objects.lookup key = some modified → graceBefore ≤ modified
  listed : ∀ modified, (key, modified) ∈ listed → graceBefore ≤ modified
  initiated : ∀ modified, s.Initiated key modified → graceBefore ≤ modified

/-- What any step leaves: it claims no key but new ones, and makes no object that is old. -/
structure StepKept (settings : SweepSettings) (s t : SweepRuns) : Prop where
  clock : s.clock ≤ t.clock
  drawn : ∀ id purpose, s.drawn.lookup id = some purpose → t.drawn.lookup id = some purpose
  claimed : ∀ key, underUploads key = true → t.Claimed settings key →
    s.Claimed settings key ∨ ¬ s.Used key
  objects : ∀ key modified, t.objects.lookup key = some modified →
    s.objects.lookup key = some modified ∨ s.clock ≤ modified ∨ s.Initiated key modified
  initiated : ∀ key modified, t.Initiated key modified →
    s.Initiated key modified ∨ s.clock ≤ modified

theorem StepKept.used (hkept : StepKept settings s t) {key : String} (hused : s.Used key) :
    t.Used key := by
  obtain ⟨id, purpose, hdrawn, hnamed⟩ := hused
  exact ⟨id, purpose, hkept.drawn id purpose hdrawn, hnamed⟩

theorem StepKept.young (hkept : StepKept settings s t) {graceBefore : Timestamp}
    {listed : List (String × Timestamp)} {key : String} (hcutoff : graceBefore ≤ s.clock)
    (hyoung : s.Young graceBefore listed key) : t.Young graceBefore listed key where
  object modified hobject := by
    rcases hkept.objects key modified hobject with hold | hnew | hinitiated
    · exact hyoung.object modified hold
    · exact hcutoff.trans hnew
    · exact hyoung.initiated modified hinitiated
  listed := hyoung.listed
  initiated modified hinitiated := by
    rcases hkept.initiated key modified hinitiated with hold | hnew
    · exact hyoung.initiated modified hold
    · exact hcutoff.trans hnew

theorem StepKept.trans {u : SweepRuns} (hfirst : StepKept settings s t)
    (hsecond : StepKept settings t u) : StepKept settings s u where
  clock := hfirst.clock.trans hsecond.clock
  drawn id purpose hid := hsecond.drawn id purpose (hfirst.drawn id purpose hid)
  claimed key hunder hclaimed := by
    rcases hsecond.claimed key hunder hclaimed with hold | hnew
    · exact hfirst.claimed key hunder hold
    · exact Or.inr fun hused => hnew (hfirst.used hused)
  objects key modified hobject := by
    rcases hsecond.objects key modified hobject with hold | hnew | hinitiated
    · exact hfirst.objects key modified hold
    · exact Or.inr (Or.inl (hfirst.clock.trans hnew))
    · exact Or.inr (hfirst.initiated key modified hinitiated).symm
  initiated key modified hinitiated := by
    rcases hsecond.initiated key modified hinitiated with hold | hnew
    · exact hfirst.initiated key modified hold
    · exact Or.inr (hfirst.clock.trans hnew)

/-! ## The invariant -/

/-- A session keeps a row, an object and a job under one key of its own. -/
structure SessionSound (s : SweepRuns) (id : ℕ) (row : SessionRuns) : Prop where
  discards : UploadRuns.Discards row.runs
  untouched : row.runs.session = none → row.initiatedAt = none ∧ row.held = none ∧
    row.runs.bucket.uploads = ∅ ∧ row.runs.bucket.object = none
  drawn : ∀ upload, row.runs.session = some upload →
    s.drawn.lookup upload.jobId = some (.session id)
  named : ∀ upload, row.runs.session = some upload →
    ∃ name, '/' ∉ name.toList ∧ upload.sourceKey = objectKey "uploads" upload.jobId name
  settled : ∀ upload, row.runs.session = some upload → upload.state.Settled →
    s.source upload.jobId = some upload.sourceKey
  unsettled : ∀ upload, row.runs.session = some upload → ¬ upload.state.Settled →
    s.source upload.jobId = none
  held : ∀ after, row.held = some after → UploadRuns.Discards after ∧
    ∀ upload, row.runs.session = some upload → ∃ later job, after.session = some later ∧
      after.jobs = row.runs.jobs ++ job.toList ∧ UploadRuns.Continues upload later job

/-- A row keeps its source, and stores its output elsewhere. -/
structure RowSound (s : SweepRuns) (id : UUID) (job : Job) : Prop where
  used : underUploads job.sourceKey = true → s.Used job.sourceKey
  output : ∀ key, job.outputKey = some key → underUploads key = false
  drawn : ∃ purpose, s.drawn.lookup id = some purpose
  edit : s.drawn.lookup id = some .edit → job.operations ≠ none

/-- An edit writes rows under an id of its own, whose source a row has that stays. -/
structure EditSound (s : SweepRuns) (write : RowWrite) : Prop where
  drawn : s.drawn.lookup write.jobId = some .edit
  put : ∀ id job, write = .put id job → job.operations ≠ none ∧ job.outputKey = none ∧
    (underUploads job.sourceKey = true → ∃ base purpose, s.drawn.lookup base = some purpose ∧
      purpose ≠ .edit ∧ s.source base = some job.sourceKey)

/-- The object of a one-request upload is its own, and its row is still to come. -/
structure UploadSound (s : SweepRuns) (party : ℕ) (upload : StoredUpload) : Prop where
  drawn : s.drawn.lookup upload.jobId = some (.upload party)
  name : '/' ∉ upload.filename.toList
  row : s.source upload.jobId = none
  object : ∀ modified, s.objects.lookup upload.sourceKey = some modified →
    modified = upload.storedAt

/-- What a sweep knows: every claimed key is among the source keys it has read, or young. -/
def PhaseSound (settings : SweepSettings) (s : SweepRuns) : SweepPhase → Prop
  | .started graceBefore => graceBefore + settings.grace ≤ s.clock
  | .knowing graceBefore sourceKeys listed =>
      graceBefore ≤ s.clock ∧
        (∀ entry ∈ listed, underUploads entry.1 = true ∧ s.Used entry.1) ∧
        ∀ key, underUploads key = true → s.Claimed settings key → key ∈ sourceKeys ∨
          s.Young graceBefore listed key
  | .stopped => True

/-- What holds of the rows, the objects and their makers. -/
structure StoreSound (s : SweepRuns) : Prop where
  sessions : ∀ id row, s.sessions.lookup id = some row → SessionSound s id row
  rows : ∀ id job, s.table.lookup id = some job → RowSound s id job
  edits : ∀ party writes, s.edits.lookup party = some writes → ∀ write ∈ writes, EditSound s write
  uploads : ∀ party upload, s.uploads.lookup party = some upload →
    UploadSound s party upload
  objects : ∀ key modified, s.objects.lookup key = some modified → underUploads key = true →
    s.Used key

/-- What holds of the sweeps. -/
structure SweepSound (settings : SweepSettings) (s : SweepRuns) : Prop where
  phases : ∀ party phase, s.sweeps.lookup party = some phase → PhaseSound settings s phase
  swept : ∀ key ∈ s.swept, underUploads key = true ∧ s.Used key ∧ ¬ s.Claimed settings key

theorem SessionSound.namedFor {id : ℕ} {row : SessionRuns} {upload : UploadSession}
    (hrow : SessionSound s id row) (hsession : row.runs.session = some upload) :
    NamedFor upload.jobId upload.sourceKey := by
  obtain ⟨name, hname, hkey⟩ := hrow.named upload hsession
  exact ⟨"uploads", name, hname, hkey⟩

theorem SessionSound.used {id : ℕ} {row : SessionRuns} {upload : UploadSession}
    (hrow : SessionSound s id row) (hsession : row.runs.session = some upload) :
    s.Used upload.sourceKey :=
  ⟨upload.jobId, _, hrow.drawn upload hsession, hrow.namedFor hsession⟩

theorem UploadSound.namedFor {party : ℕ} {upload : StoredUpload}
    (hupload : UploadSound s party upload) :
    NamedFor upload.jobId upload.sourceKey :=
  ⟨"uploads", upload.filename, hupload.name, rfl⟩

/-- A key that is named after an id nobody has drawn is not used. -/
theorem not_used_of_fresh {id : UUID} {key : String} (hfresh : s.drawn.lookup id = none)
    (hnamed : NamedFor id key) : ¬ s.Used key := by
  rintro ⟨other, purpose, hdrawn, hother⟩
  rw [hother.unique hnamed, hfresh] at hdrawn
  simp at hdrawn

theorem StoreSound.row_used (hs : StoreSound s) {id : UUID} {key : String}
    (hunder : underUploads key = true) (hrow : s.source id = some key) : s.Used key := by
  obtain ⟨job, hjob, rfl⟩ := Option.map_eq_some_iff.mp hrow
  exact (hs.rows id job hjob).used hunder

/-- A claimed key under the prefix is used. -/
theorem StoreSound.used (hs : StoreSound s) {key : String} (hunder : underUploads key = true)
    (hclaimed : s.Claimed settings key) : s.Used key := by
  cases hclaimed with
  | job hrow => exact hs.row_used hunder hrow
  | edit hedit hwrite =>
      obtain ⟨-, -, hbase⟩ := (hs.edits _ _ hedit _ hwrite).put _ _ rfl
      obtain ⟨base, purpose, -, -, hrow⟩ := hbase hunder
      exact hs.row_used hunder hrow
  | session hrow hsession hstate => exact (hs.sessions _ _ hrow).used hsession
  | upload hupload htime =>
      have hsound := hs.uploads _ _ hupload
      exact ⟨_, _, hsound.drawn, hsound.namedFor⟩

/-- Nothing there is under a key that is not used. -/
theorem StoreSound.young_of_not_used (hs : StoreSound s) {key : String}
    (hunder : underUploads key = true) (hunused : ¬ s.Used key) {graceBefore : Timestamp}
    {listed : List (String × Timestamp)}
    (hlisted : ∀ entry ∈ listed, underUploads entry.1 = true ∧ s.Used entry.1) :
    s.Young graceBefore listed key where
  object modified hobject := absurd (hs.objects key modified hobject hunder) hunused
  listed modified hmem := absurd (hlisted _ hmem).2 hunused
  initiated modified hinitiated := by
    cases hinitiated with
    | mk hrow hsession htime => exact absurd ((hs.sessions _ _ hrow).used hsession) hunused

/-- What a sweep knows stays so. -/
theorem PhaseSound.of_kept (hs : StoreSound s) (hkept : StepKept settings s t) {phase : SweepPhase}
    (hsound : PhaseSound settings s phase) : PhaseSound settings t phase := by
  cases phase with
  | started graceBefore => exact le_trans hsound hkept.clock
  | stopped => trivial
  | knowing graceBefore sourceKeys listed =>
      obtain ⟨hcutoff, hlisted, hclaims⟩ := hsound
      refine ⟨hcutoff.trans hkept.clock, fun entry hmem =>
        ⟨(hlisted entry hmem).1, hkept.used (hlisted entry hmem).2⟩, fun key hunder hclaimed => ?_⟩
      rcases hkept.claimed key hunder hclaimed with hold | hnew
      · exact (hclaims key hunder hold).imp_right (hkept.young hcutoff)
      · exact Or.inr (hkept.young hcutoff (hs.young_of_not_used hunder hnew hlisted))

/-- What was swept is not claimed again. -/
theorem SweepSound.swept_of_kept (hsweep : SweepSound settings s) (hkept : StepKept settings s t)
    {key : String} (hmem : key ∈ s.swept) :
    underUploads key = true ∧ t.Used key ∧ ¬ t.Claimed settings key := by
  obtain ⟨hunder, hused, hunclaimed⟩ := hsweep.swept key hmem
  refine ⟨hunder, hkept.used hused, fun hclaimed => ?_⟩
  rcases hkept.claimed key hunder hclaimed with hold | hnew
  · exact hunclaimed hold
  · exact hnew hused

/-- A step that is not a sweep's leaves the sweeps sound. -/
theorem SweepSound.of_kept (hsweep : SweepSound settings s) (hs : StoreSound s)
    (hkept : StepKept settings s t) (hsweeps : t.sweeps = s.sweeps) (hswept : t.swept = s.swept) :
    SweepSound settings t where
  phases party phase hphase :=
    (hsweep.phases party phase (hsweeps ▸ hphase)).of_kept hs hkept
  swept _ hmem := hsweep.swept_of_kept hkept (hswept ▸ hmem)

/-! ## What a step leaves alone -/

theorem SessionSound.frame {id : ℕ} {row : SessionRuns} (hrow : SessionSound s id row)
    (hdrawn : ∀ id purpose, s.drawn.lookup id = some purpose → t.drawn.lookup id = some purpose)
    (hsource : ∀ upload, row.runs.session = some upload →
      t.source upload.jobId = s.source upload.jobId) : SessionSound t id row where
  discards := hrow.discards
  untouched := hrow.untouched
  drawn upload hsession := hdrawn _ _ (hrow.drawn upload hsession)
  named := hrow.named
  settled upload hsession hstate := (hsource upload hsession).trans
    (hrow.settled upload hsession hstate)
  unsettled upload hsession hstate := (hsource upload hsession).trans
    (hrow.unsettled upload hsession hstate)
  held := hrow.held

theorem RowSound.frame {id : UUID} {job : Job} (hrow : RowSound s id job)
    (hdrawn : ∀ id purpose, s.drawn.lookup id = some purpose → t.drawn.lookup id = some purpose) :
    RowSound t id job where
  used hunder := by
    obtain ⟨owner, purpose, howner, hnamed⟩ := hrow.used hunder
    exact ⟨owner, purpose, hdrawn _ _ howner, hnamed⟩
  output := hrow.output
  drawn := hrow.drawn.imp fun purpose => hdrawn id purpose
  edit hedit := by
    obtain ⟨purpose, hpurpose⟩ := hrow.drawn
    refine hrow.edit ?_
    rw [hpurpose, ← hdrawn id purpose hpurpose, hedit]

theorem EditSound.frame {write : RowWrite} (hedit : EditSound s write)
    (hdrawn : ∀ id purpose, s.drawn.lookup id = some purpose → t.drawn.lookup id = some purpose)
    (hsource : ∀ id purpose key, s.drawn.lookup id = some purpose → purpose ≠ .edit →
      s.source id = some key → t.source id = some key) : EditSound t write where
  drawn := hdrawn _ _ hedit.drawn
  put id job hput := by
    obtain ⟨hoperations, houtput, hbase⟩ := hedit.put id job hput
    refine ⟨hoperations, houtput, fun hunder => ?_⟩
    obtain ⟨base, purpose, hpurpose, hkind, hrow⟩ := hbase hunder
    exact ⟨base, purpose, hdrawn _ _ hpurpose, hkind, hsource base purpose _ hpurpose hkind hrow⟩

theorem UploadSound.frame {party : ℕ} {upload : StoredUpload} (hupload : UploadSound s party upload)
    (hdrawn : ∀ id purpose, s.drawn.lookup id = some purpose → t.drawn.lookup id = some purpose)
    (hsource : t.source upload.jobId = s.source upload.jobId)
    (hobject : ∀ modified, t.objects.lookup upload.sourceKey = some modified →
      s.objects.lookup upload.sourceKey = some modified) : UploadSound t party upload where
  drawn := hdrawn _ _ hupload.drawn
  name := hupload.name
  row := hsource.trans hupload.row
  object modified hmodified := hupload.object modified (hobject modified hmodified)

end SweepRuns

end Worker
end MediaPlayer
