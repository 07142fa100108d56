import MediaPlayer.Worker.JobDeletion
import MediaPlayer.Worker.LadderLeftovers

/-!
# What a job's row names in storage

`delete_job_storage` finds a job's objects through its row alone.  Every write of the job's
workers, of the API and of the reaper leaves a row that names at least what the row before
named (`JobOp.kept`), since a row that is not done names no output.
-/

namespace MediaPlayer
namespace Worker

open Library Models Repositories Services

/-! ## What the row names -/

/-- Deleting the job would delete the object. -/
def Names (job : Job) (key : String) : Prop :=
  key ∈ storageKeys job ∨ ∃ folder ∈ storagePrefixes job, startsWith key folder = true

/-- A later row of the same job, which names at least as much. -/
structure Extends (before after : Job) : Prop where
  sourceKey : after.sourceKey = before.sourceKey
  operations : after.operations = before.operations
  outputKey : ∀ key, before.outputKey = some key → after.outputKey = some key
  thumbnailKey : ∀ key, before.thumbnailKey = some key → after.thumbnailKey = some key
  hlsKey : ∀ key, before.hlsKey = some key → after.hlsKey = some key
  previewKey : ∀ key, before.previewKey = some key → after.previewKey = some key

theorem Extends.names {before after : Job} (h : Extends before after) {key : String}
    (hnames : Names before key) : Names after key := by
  rcases hnames with hkey | ⟨folder, hfolder, hstarts⟩
  · refine Or.inl (mem_storageKeys.mpr ((mem_storageKeys.mp hkey).imp ?_ ?_))
    · rintro ⟨hoperations, hsource⟩
      exact ⟨h.operations.trans hoperations, hsource.trans h.sourceKey.symm⟩
    · rintro ⟨hstored, hne⟩
      exact ⟨hstored.imp (h.outputKey key) (h.thumbnailKey key), hne⟩
  · obtain ⟨stored, hstored, hne, hparent⟩ := mem_storagePrefixes.mp hfolder
    exact Or.inr ⟨folder, mem_storagePrefixes.mpr
      ⟨stored, hstored.imp (h.hlsKey stored) (h.previewKey stored), hne, hparent⟩, hstarts⟩

theorem Extends.refl (job : Job) : Extends job job :=
  ⟨rfl, rfl, fun _ h => h, fun _ h => h, fun _ h => h, fun _ h => h⟩

/-- An empty row names its source alone. -/
theorem Extends.of_unfilled {before after : Job} (hbefore : Unfilled before)
    (hsource : after.sourceKey = before.sourceKey)
    (hoperations : after.operations = before.operations) : Extends before after where
  sourceKey := hsource
  operations := hoperations
  outputKey key hkey := by simp [hbefore.outputKey] at hkey
  thumbnailKey key hkey := by simp [hbefore.thumbnailKey] at hkey
  hlsKey key hkey := by simp [hbefore.hlsKey] at hkey
  previewKey key hkey := by simp [hbefore.previewKey] at hkey

/-- A row whose ladder and preview are where the workers put them. -/
structure RowSound (folder : String) (row : Option Job) : Prop where
  plain : Plain row
  hlsKey : ∀ job, row = some job → job.hlsKey = none ∨
    job.hlsKey = some (masterKey (ladderPrefix folder))
  previewKey : ∀ job, row = some job → job.previewKey = none ∨
    job.previewKey = some (vttKey folder)

theorem rowSound_none (folder : String) : RowSound folder none :=
  ⟨by simp [Plain], by simp, by simp⟩

/-- The writes on the job's row, with the keys its workers give them. -/
def JobOp (folder : String) : RowOp → Prop
  | .createJob .. | .createEditJob .. | .deleteJob _ => False
  | .markLadderReady hlsKey => hlsKey = masterKey (ladderPrefix folder)
  | .markPreviewReady previewKey => previewKey = vttKey folder
  | .markDone result => result.hlsKey = none
  | _ => True

variable {folder : String} {jobId : UUID}

/-- What a write leaves of the keys on the row. -/
structure KeysKept (folder : String) (before after : Job) : Prop where
  extends_ : Extends before after
  hlsKey : after.hlsKey = none ∨ after.hlsKey = before.hlsKey ∨
    after.hlsKey = some (masterKey (ladderPrefix folder))
  previewKey : after.previewKey = before.previewKey ∨ after.previewKey = some (vttKey folder)

theorem keysKept_of_transition {expected next : JobStatus} {values : TransitionValues}
    {now : Timestamp} {row : Option Job} {after : Job} (hplain : Plain row)
    (hexpected : expected ≠ .done) (hvalues : values.hlsKey = none)
    (hok : transition jobId expected next values now row = .ok after) :
    ∃ before, row = some before ∧ KeysKept folder before after := by
  obtain ⟨before, hrow, hstatus, hcolumns⟩ := transition_ok hok
  have hunfilled := hplain before hrow (by rwa [hstatus])
  refine ⟨before, hrow, Extends.of_unfilled hunfilled ?_ ?_, Or.inl ?_, Or.inl ?_⟩ <;>
    rw [hcolumns]
  exacts [rfl, rfl, hvalues, rfl]

theorem keysKept_of_deletedAt {before after : Job} {deletedAt : Option Timestamp}
    (hcolumns : after.toJobColumns = { before.toJobColumns with deletedAt := deletedAt }) :
    KeysKept folder before after := by
  refine ⟨⟨?_, ?_, ?_, ?_, ?_, ?_⟩, Or.inr (Or.inl ?_), Or.inl ?_⟩ <;> rw [hcolumns] <;>
    exact fun _ h => h

theorem keysKept_of_settleLadder {hlsStatus : HlsStatus} {hlsKey : Option String}
    {now : Timestamp} {row : Option Job} {after : Job}
    (hkey : hlsKey = none ∨ hlsKey = some (masterKey (ladderPrefix folder)))
    (hok : settleLadder hlsStatus hlsKey now row = .ok (some after)) :
    ∃ before, row = some before ∧ KeysKept folder before after := by
  obtain ⟨before, hrow, -, hpending, hcolumns⟩ := settleLadder_some hok
  have hnone : before.hlsKey = none := by
    by_contra hsome
    simpa [hpending] using before.checks.hlsReadyHasKey.mpr hsome
  refine ⟨before, hrow, ⟨?_, ?_, ?_, ?_, ?_, ?_⟩, ?_, Or.inl ?_⟩
  case refine_5 => simp [hnone]
  case refine_7 =>
    rw [hcolumns]
    exact hkey.imp_right Or.inr
  all_goals rw [hcolumns]
  all_goals exact fun _ h => h

theorem keysKept_of_markPreviewReady {now : Timestamp} {row : Option Job} {after : Job}
    (hpreview : ∀ job, row = some job → job.previewKey = none ∨
      job.previewKey = some (vttKey folder))
    (hok : markPreviewReady (vttKey folder) now row = .ok (some after)) :
    ∃ before, row = some before ∧ KeysKept folder before after := by
  obtain ⟨before, hrow, -, -, hcolumns⟩ := markPreviewReady_columns hok
  refine ⟨before, hrow, ⟨?_, ?_, ?_, ?_, ?_, ?_⟩, Or.inr (Or.inl ?_), Or.inr ?_⟩ <;>
    rw [hcolumns]
  case refine_6 =>
    intro key hkey
    rcases hpreview before hrow with hnone | hsame
    · simp [hnone] at hkey
    · exact hsame.symm.trans hkey
  all_goals exact fun _ h => h

theorem keysKept_of_markStaleFailed {now : Timestamp} {row : Option Job} {after : Job}
    (hplain : Plain row) (hok : markStaleFailed now row = .ok (some after)) :
    ∃ before, row = some before ∧ KeysKept folder before after := by
  obtain ⟨before, hrow, hstatus, hcolumns⟩ := markStaleFailed_columns hok
  have hunfilled := hplain before hrow (by simp [hstatus])
  refine ⟨before, hrow, Extends.of_unfilled hunfilled ?_ ?_, Or.inl ?_, Or.inl ?_⟩ <;> rw [hcolumns]
  exact hunfilled.hlsKey

theorem keysKept_of_prepareRetry {ownerId : UUID} {now : Timestamp} {row : Option Job}
    {after : Job} (hplain : Plain row) (hok : prepareRetry jobId ownerId now row = .ok after) :
    ∃ before, row = some before ∧ KeysKept folder before after := by
  obtain ⟨before, hrow, hstatus, -, hcolumns⟩ := prepareRetry_columns hok
  have hunfilled := hplain before hrow (by simp [hstatus])
  refine ⟨before, hrow, Extends.of_unfilled hunfilled ?_ ?_, Or.inl ?_, Or.inl ?_⟩ <;> rw [hcolumns]

/-- Every write on the row keeps what it names. -/
theorem JobOp.keysKept {op : RowOp} (hop : JobOp folder op) {now : Timestamp} {row : Option Job}
    {after : Job} (hrow : RowSound folder row) (hok : op.apply jobId now row = .ok (some after)) :
    ∃ before, row = some before ∧ KeysKept folder before after := by
  cases op with
  | createJob _ _ _ _ | createEditJob _ _ _ _ _ | deleteJob _ => exact absurd hop id
  | markProcessing =>
      exact keysKept_of_transition hrow.plain (by decide) rfl (map_some_eq_ok hok)
  | markInterrupted =>
      exact keysKept_of_transition hrow.plain (by decide) rfl (map_some_eq_ok hok)
  | markDone result =>
      have hdone := markDone_transition (map_some_eq_ok hok)
      refine keysKept_of_transition hrow.plain (by decide) ?_ hdone
      exact hop
  | markFailed error =>
      have hfailed := markFailed_transition (map_some_eq_ok hok)
      exact keysKept_of_transition hrow.plain (by decide) rfl hfailed
  | markLadderReady hlsKey =>
      obtain rfl : hlsKey = _ := hop
      exact keysKept_of_settleLadder (Or.inr rfl) (markLadderReady_settles hok)
  | markLadderUnavailable => exact keysKept_of_settleLadder (Or.inl rfl) hok
  | markPreviewReady previewKey =>
      obtain rfl : previewKey = _ := hop
      exact keysKept_of_markPreviewReady hrow.previewKey hok
  | markStaleFailed => exact keysKept_of_markStaleFailed hrow.plain hok
  | prepareRetry ownerId => exact keysKept_of_prepareRetry hrow.plain (map_some_eq_ok hok)
  | trashJob ownerId =>
      obtain ⟨before, hbefore, -, -, hcolumns⟩ := trashJob_some (Except.ok.inj hok)
      exact ⟨before, hbefore, keysKept_of_deletedAt hcolumns⟩
  | restoreJob ownerId =>
      obtain ⟨before, hbefore, -, -, hcolumns⟩ := restoreJob_some (Except.ok.inj hok)
      exact ⟨before, hbefore, keysKept_of_deletedAt hcolumns⟩

/-- So a write leaves a sound row that extends the one before. -/
theorem JobOp.kept {op : RowOp} (hop : JobOp folder op) (jobId : UUID) {now : Timestamp}
    {row : Option Job}
    {after : Job} (hrow : RowSound folder row) (hok : op.apply jobId now row = .ok (some after)) :
    RowSound folder (some after) ∧ Option.Rel Extends row (some after) := by
  obtain ⟨before, rfl, hkept⟩ := hop.keysKept hrow hok
  have hwritten : Written (some before) after :=
    RowOp.apply_written (fun hinserts => by cases op <;> simp_all [JobOp, RowOp.inserts]) hok
  refine ⟨⟨hwritten.plain hrow.plain, ?_, ?_⟩, .some hkept.extends_⟩
  · rintro job hjob
    obtain rfl := Option.some.inj hjob
    rcases hkept.hlsKey with hnone | hsame | hmaster
    · exact Or.inl hnone
    · rw [hsame]
      exact hrow.hlsKey before rfl
    · exact Or.inr hmaster
  · rintro job hjob
    obtain rfl := Option.some.inj hjob
    rcases hkept.previewKey with hsame | hvtt
    · rw [hsame]
      exact hrow.previewKey before rfl
    · exact Or.inr hvtt

end Worker
end MediaPlayer
