import MediaPlayer.Services.JobCleanup
import MediaPlayer.Worker.StoredKeys

/-!
# Deleting one job leaves the files of the others

The rows are those of the API and the workers, as far as their keys go: an upload has its source
under its own id, an edit borrows the upload or the output it was made from, and what is produced
of either is under its own id.

* `KeyedRow`, `KeyedTable` — such rows, and a table of them.
* `KeyedRow.fileOf` — what the deletion of a row removes is the job's own.
* `delete_job_storage_frame` — so it removes nothing of another job but a source that was
  borrowed from the deleted one.
-/

namespace MediaPlayer
namespace Worker

open Library Models Repositories Services Api

/-- The keys of a row, as its makers write them. -/
structure KeyedRow (outputPrefix : String) (jobId : UUID) (job : Job) : Prop where
  upload : job.operations = none →
    ∃ filename, job.sourceKey = objectKey "uploads" jobId (safeFilename filename)
  outputKey : ∀ key ∈ job.outputKey, ∃ extension ∈ outputExtensions,
    key = outputKeyAs outputPrefix jobId job.sourceKey extension
  thumbnailKey : ∀ key ∈ job.thumbnailKey, key = thumbnailKeyFor outputPrefix jobId
  hlsKey : ∀ key ∈ job.hlsKey, key = masterKey (prefixFor outputPrefix jobId)
  previewKey : ∀ key ∈ job.previewKey, ∃ output ∈ job.outputKey, key = previewKeyFor output

/-- The source of an edit is the upload or the output of a job. -/
def BorrowedFrom (outputPrefix : String) (base : UUID) (sourceKey : String) : Prop :=
  (∃ filename, sourceKey = objectKey "uploads" base (safeFilename filename)) ∨
    ∃ baseSource, ∃ extension ∈ outputExtensions,
      sourceKey = outputKeyAs outputPrefix base baseSource extension

/-- Rows of different jobs.  The job an edit was made from may be gone; while it is there its row
names what the edit borrows. -/
structure KeyedTable (outputPrefix : String) (table : JobTable) : Prop where
  row : ∀ {jobId job}, table.lookup jobId = some job → KeyedRow outputPrefix jobId job
  edit : ∀ {jobId job}, table.lookup jobId = some job → job.operations ≠ none →
    ∃ base, BorrowedFrom outputPrefix base job.sourceKey ∧
      ∀ row, table.lookup base = some row → editSourceKey row = some job.sourceKey

variable {outputPrefix key : String} {jobId : UUID} {job : Job}

/-! ## The folders of a row -/

theorem beforeLast_previewKeyFor (output : String) :
    beforeLast '/' (previewKeyFor output) = pathParent output ++ "/" ++ "preview" := by
  have hslash : '/' ∉ ("sprite.vtt").toList := by decide
  have htext : ("/preview/" : String) = "/" ++ "preview" ++ "/" := by decide
  unfold previewKeyFor previewPrefixFor
  rw [htext, ← String.append_assoc, ← String.append_assoc]
  exact beforeLast_append hslash

theorem parent_previewKeyFor (output : String) :
    beforeLast '/' (previewKeyFor output) ++ "/" = previewPrefixFor output := by
  have htext : "/" ++ "preview" ++ "/" = ("/preview/" : String) := by decide
  unfold previewPrefixFor
  rw [beforeLast_previewKeyFor, String.append_assoc, String.append_assoc, ← htext,
    String.append_assoc]

theorem fileOf_of_output {extension : String} (hextension : extension ∈ outputExtensions)
    (sourceKey : String) :
    FileOf outputPrefix jobId (outputKeyAs outputPrefix jobId sourceKey extension) := by
  obtain ⟨name, hname, -, hkey⟩ := outputKeyAs_named outputPrefix jobId sourceKey hextension
  exact .output hname hkey

theorem BorrowedFrom.fileOf (hborrowed : BorrowedFrom outputPrefix jobId key) :
    FileOf outputPrefix jobId key := by
  rcases hborrowed with ⟨filename, rfl⟩ | ⟨baseSource, extension, hextension, rfl⟩
  · exact .upload (safeFilename_no_slash filename) rfl
  · exact fileOf_of_output hextension baseSource

theorem KeyedRow.fileOf_key (hrow : KeyedRow outputPrefix jobId job)
    (hkey : key ∈ storageKeys job) : FileOf outputPrefix jobId key := by
  rcases mem_storageKeys.mp hkey with ⟨hoperations, rfl⟩ | ⟨houtput | hthumbnail, -⟩
  · obtain ⟨filename, hsource⟩ := hrow.upload hoperations
    exact .upload (safeFilename_no_slash filename) hsource
  · obtain ⟨extension, hextension, rfl⟩ := hrow.outputKey key houtput
    exact fileOf_of_output hextension job.sourceKey
  · exact .output (by decide) (hrow.thumbnailKey key hthumbnail)

theorem KeyedRow.fileOf_folder (hrow : KeyedRow outputPrefix jobId job) {folder : String}
    (hfolder : folder ∈ storagePrefixes job) (hstarts : startsWith key folder = true) :
    FileOf outputPrefix jobId key := by
  obtain ⟨stored, hladder | hpreview, -, rfl⟩ := mem_storagePrefixes.mp hfolder
  · obtain rfl := hrow.hlsKey stored hladder
    rw [LadderDeliveries.beforeLast_masterKey] at hstarts
    exact .ladder hstarts
  · obtain ⟨output, houtput, rfl⟩ := hrow.previewKey stored hpreview
    obtain ⟨extension, hextension, rfl⟩ := hrow.outputKey output houtput
    obtain ⟨name, hname, hletter, hkey⟩ :=
      outputKeyAs_named outputPrefix jobId job.sourceKey hextension
    rw [parent_previewKeyFor, hkey] at hstarts
    exact .preview hname (isPart_of_mem hletter (by decide)) hstarts

/-! ## The frame -/

/-- Whatever of the folders can be listed and whichever of the deletes succeed: an object that is
gone when a job's storage was deleted is no output and no poster frame of another job, in no
ladder or preview of another, and no other upload's source.  If it is the source of an edit, the
edit borrowed it from the deleted job. -/
theorem delete_job_storage_frame {outputPrefix : String} {table : JobTable}
    (htable : KeyedTable (stripSlashes outputPrefix) table) {deleted other : UUID} {job row : Job}
    (hjob : table.lookup deleted = some job) (hother : table.lookup other = some row)
    (hne : deleted ≠ other) (bestEffort : Bool) (world : CleanupWorld) {objects : List String}
    {key : String} (hmem : key ∈ objects)
    (hgone : key ∉ (deleteJobStorage bestEffort world job objects).objects) :
    row.outputKey ≠ some key ∧ row.thumbnailKey ≠ some key ∧
      (∀ folder ∈ storagePrefixes row, startsWith key folder = false) ∧
      (row.sourceKey = key → row.operations ≠ none ∧ editSourceKey job = some key) := by
  have hplain := head_stripSlashes outputPrefix
  have hrow := htable.row hother
  have hdeleted : FileOf (stripSlashes outputPrefix) deleted key := by
    rcases of_removed hmem hgone with hkey | ⟨folder, hfolder, hstarts⟩
    · exact (htable.row hjob).fileOf_key hkey
    · exact (htable.row hjob).fileOf_folder hfolder hstarts
  -- No object is of both jobs.
  have hapart : ¬FileOf (stripSlashes outputPrefix) other key :=
    fun hfile => hne (hdeleted.unique hplain hfile)
  refine ⟨?_, ?_, ?_, ?_⟩
  · intro houtput
    obtain ⟨extension, hextension, rfl⟩ := hrow.outputKey key houtput
    exact hapart (fileOf_of_output hextension row.sourceKey)
  · intro hthumbnail
    exact hapart (.output (by decide) (hrow.thumbnailKey key hthumbnail))
  · intro folder hfolder
    exact (Bool.not_eq_true _).mp fun hstarts => hapart (hrow.fileOf_folder hfolder hstarts)
  · rintro rfl
    have hedit : row.operations ≠ none := by
      intro hupload
      obtain ⟨filename, hsource⟩ := hrow.upload hupload
      exact hapart (.upload (safeFilename_no_slash filename) hsource)
    obtain ⟨base, hborrowed, hbase⟩ := htable.edit hother hedit
    obtain rfl := hdeleted.unique hplain hborrowed.fileOf
    exact ⟨hedit, hbase job hjob⟩

/-! ## An upload and its edit -/

/-- A finished upload with a ladder and a preview. -/
def frameUpload : Job where
  ownerId := 7
  filename := "demo.mov"
  status := .done
  sourceKey := objectKey "uploads" 1 (safeFilename "demo.mov")
  outputKey := some (outputKeyFor "outputs" 1 (objectKey "uploads" 1 (safeFilename "demo.mov")))
  thumbnailKey := some (thumbnailKeyFor "outputs" 1)
  hlsKey := some (masterKey (prefixFor "outputs" 1))
  hlsStatus := .ready
  previewKey := some (previewKeyFor
    (outputKeyFor "outputs" 1 (objectKey "uploads" 1 (safeFilename "demo.mov"))))
  createdAt := 0
  updatedAt := 0
  checks := by
    constructor <;> simp

/-- An edit that was made from it. -/
def frameEdit : Job where
  ownerId := 7
  filename := "demo-edited.mp4"
  sourceKey := objectKey "uploads" 1 (safeFilename "demo.mov")
  operations := some [.flip .horizontal]
  createdAt := 5
  updatedAt := 5
  checks := by
    constructor <;> simp

def frameTable : JobTable := (JobTable.put ∅ 1 (some frameUpload)).put 2 (some frameEdit)

theorem lookup_frameTable {id : UUID} {row : Job} (hrow : frameTable.lookup id = some row) :
    (id = 2 ∧ row = frameEdit) ∨ (id = 1 ∧ row = frameUpload) := by
  rcases JobTable.lookup_put_some hrow with ⟨hid, hjob⟩ | ⟨-, hrest⟩
  · exact Or.inl ⟨hid, hjob.symm⟩
  · rcases JobTable.lookup_put_some hrest with ⟨hid, hjob⟩ | ⟨-, hnone⟩
    · exact Or.inr ⟨hid, hjob.symm⟩
    · simp at hnone

theorem keyedTable_frameTable : KeyedTable "outputs" frameTable where
  row hrow := by
    rcases lookup_frameTable hrow with ⟨rfl, rfl⟩ | ⟨rfl, rfl⟩
    · constructor <;> simp [frameEdit]
    · refine ⟨fun _ => ⟨"demo.mov", rfl⟩, ?_, ?_, ?_, ?_⟩ <;> intro key hkey <;>
        obtain rfl := Option.some.inj hkey
      · exact ⟨"mp4", by decide, rfl⟩
      · rfl
      · rfl
      · exact ⟨_, rfl, rfl⟩
  edit hrow hedit := by
    rcases lookup_frameTable hrow with ⟨rfl, rfl⟩ | ⟨rfl, rfl⟩
    · refine ⟨1, Or.inl ⟨"demo.mov", rfl⟩, fun row hbase => ?_⟩
      rcases lookup_frameTable hbase with ⟨hid, -⟩ | ⟨-, rfl⟩
      · cases hid
      · rfl
    · exact absurd rfl hedit

/-- The upload goes, and what the edit borrowed of it. -/
theorem delete_job_storage_frame_borrowed :
    let key := frameEdit.sourceKey
    frameEdit.outputKey ≠ some key ∧ frameEdit.thumbnailKey ≠ some key ∧
      (∀ folder ∈ storagePrefixes frameEdit, startsWith key folder = false) ∧
      (frameEdit.sourceKey = key → frameEdit.operations ≠ none ∧
        editSourceKey frameUpload = some key) := by
  have hstripped : stripSlashes "/outputs/" = "outputs" := by decide
  have htable : KeyedTable (stripSlashes "/outputs/") frameTable :=
    hstripped ▸ keyedTable_frameTable
  have hupload : frameTable.lookup 1 = some frameUpload := rfl
  have hedit : frameTable.lookup 2 = some frameEdit := rfl
  let world : CleanupWorld := ⟨fun _ => true, fun _ => .returned⟩
  have hmem : frameEdit.sourceKey ∈ [frameEdit.sourceKey] := List.mem_singleton_self _
  refine delete_job_storage_frame htable hupload hedit (by decide) true world hmem ?_
  intro hleft
  have hlisted : frameEdit.sourceKey ∈ listedKeys world frameUpload [frameEdit.sourceKey] :=
    mem_listedKeys.mpr (Or.inl (by simp [storageKeys, frameEdit, frameUpload]))
  simp [deleteJobStorage, hlisted, world] at hleft

end Worker
end MediaPlayer
