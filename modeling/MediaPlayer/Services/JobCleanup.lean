import Mathlib.Data.List.ReduceOption
import MediaPlayer.Library.StepSystem
import MediaPlayer.Models.Job

/-!
# What a deleted job leaves in storage

`delete_job_storage` of `app/services/job_cleanup.py`: the keys a job's row names, and
everything in the folders of its ladder and of its preview.  With best effort a folder that
cannot be listed is left out; otherwise nothing is deleted then.  Every delete is attempted
either way.
-/

namespace MediaPlayer
namespace Services

open Library Models

/-- The keys the row names itself.  An edit borrows its source. -/
def storageKeys (job : Job) : List String :=
  (if job.operations.isNone then [job.sourceKey] else []) ++
    ([job.outputKey, job.thumbnailKey].reduceOption.filter (· ≠ ""))

/-- The folders that go with everything in them. -/
def storagePrefixes (job : Job) : List String :=
  ([job.hlsKey, job.previewKey].reduceOption.filter (· ≠ "")).map fun key =>
    beforeLast '/' key ++ "/"

theorem mem_storageKeys {job : Job} {key : String} :
    key ∈ storageKeys job ↔ (job.operations = none ∧ key = job.sourceKey) ∨
      ((job.outputKey = some key ∨ job.thumbnailKey = some key) ∧ key ≠ "") := by
  unfold storageKeys
  rw [List.mem_append, List.mem_filter, List.reduceOption_mem_iff]
  cases job.operations <;> simp [eq_comm (a := some key)]

theorem mem_storagePrefixes {job : Job} {folder : String} :
    folder ∈ storagePrefixes job ↔ ∃ key, (job.hlsKey = some key ∨ job.previewKey = some key) ∧
      key ≠ "" ∧ beforeLast '/' key ++ "/" = folder := by
  unfold storagePrefixes
  rw [List.mem_map]
  simp [List.mem_filter, List.reduceOption_mem_iff, eq_comm (a := some _), and_assoc]

/-- The keys under a prefix, as `list_objects` gives them. -/
def listObjects (objects : List String) (folder : String) : List String :=
  objects.filter fun key => startsWith key folder

/-- The keys `delete_job_storage` deletes, once it has listed every folder. -/
def keysToDelete (job : Job) (objects : List String) : List String :=
  (storageKeys job ++ (storagePrefixes job).flatMap (listObjects objects)).eraseDups

/-! ## One cleanup -/

/-- How the store answers: whether a folder can be listed, and what becomes of a delete. -/
structure CleanupWorld where
  lists : String → Bool
  deletes : String → CallOutcome

/-- What a cleanup leaves of the objects, and whether it raised. -/
structure Cleanup where
  raised : Bool
  objects : List String

/-- The keys that are deleted of the folders that were listed. -/
def listedKeys (world : CleanupWorld) (job : Job) (objects : List String) : List String :=
  (storageKeys job ++
    ((storagePrefixes job).filter world.lists).flatMap (listObjects objects)).eraseDups

/-- `delete_job_storage`. -/
def deleteJobStorage (bestEffort : Bool) (world : CleanupWorld) (job : Job)
    (objects : List String) : Cleanup :=
  if ¬bestEffort ∧ ¬(storagePrefixes job).all world.lists then ⟨true, objects⟩
  else
    let keys := listedKeys world job objects
    { raised := !bestEffort && keys.any fun key => world.deletes key != .returned
      objects := objects.filter fun key => key ∉ keys ∨ world.deletes key = .raisedBefore }

variable {bestEffort : Bool} {world : CleanupWorld} {job : Job} {objects : List String}
  {key : String}

theorem mem_listedKeys : key ∈ listedKeys world job objects ↔ key ∈ storageKeys job ∨
    key ∈ objects ∧ ∃ folder ∈ storagePrefixes job, world.lists folder = true ∧
      startsWith key folder = true := by
  unfold listedKeys listObjects
  rw [List.mem_eraseDups, List.mem_append, List.mem_flatMap]
  simp only [List.mem_filter]
  refine or_congr_right ⟨?_, ?_⟩
  · rintro ⟨folder, ⟨hfolder, hlists⟩, hmem, hstarts⟩
    exact ⟨hmem, folder, hfolder, hlists, hstarts⟩
  · rintro ⟨hmem, folder, hfolder, hlists, hstarts⟩
    exact ⟨folder, ⟨hfolder, hlists⟩, hmem, hstarts⟩

/-- A cleanup makes no object. -/
theorem deleteJobStorage_subset (hkey : key ∈ (deleteJobStorage bestEffort world job
    objects).objects) : key ∈ objects := by
  unfold deleteJobStorage at hkey
  split at hkey
  · exact hkey
  · exact List.mem_of_mem_filter hkey

/-- What a cleanup removes is named by the row, or in a folder of it. -/
theorem of_removed (hmem : key ∈ objects)
    (hgone : key ∉ (deleteJobStorage bestEffort world job objects).objects) :
    key ∈ storageKeys job ∨ ∃ folder ∈ storagePrefixes job, startsWith key folder = true := by
  unfold deleteJobStorage at hgone
  split at hgone
  · exact absurd hmem hgone
  · by_contra hnot
    rw [not_or] at hnot
    refine hgone (List.mem_filter.mpr ⟨hmem, decide_eq_true (Or.inl fun hlisted => ?_)⟩)
    rcases mem_listedKeys.mp hlisted with hkey | ⟨-, folder, hfolder, -, hstarts⟩
    · exact hnot.1 hkey
    · exact hnot.2 ⟨folder, hfolder, hstarts⟩

/-- A cleanup that is not best effort and did not raise has listed every folder, and all its
deletes have returned. -/
theorem calls_of_not_raised (hraised : (deleteJobStorage false world job objects).raised = false) :
    (∀ folder ∈ storagePrefixes job, world.lists folder = true) ∧
      ∀ key ∈ listedKeys world job objects, world.deletes key = .returned := by
  unfold deleteJobStorage at hraised
  split at hraised
  · cases hraised
  · rename_i hlists
    simp only [Bool.false_eq_true, not_false_eq_true, true_and, not_not] at hlists
    have hreturned : ∀ key ∈ listedKeys world job objects, world.deletes key = .returned := by
      simpa using hraised
    exact ⟨List.all_eq_true.mp hlists, hreturned⟩

theorem listedKeys_gone (hraised : (deleteJobStorage false world job objects).raised = false)
    (hkey : key ∈ listedKeys world job objects) :
    key ∉ (deleteJobStorage false world job objects).objects := by
  obtain ⟨hlists, hdeletes⟩ := calls_of_not_raised hraised
  intro hleft
  unfold deleteJobStorage at hleft
  rw [if_neg (by simpa using hlists)] at hleft
  rcases of_decide_eq_true (List.mem_filter.mp hleft).2 with hnot | hbefore
  · exact hnot hkey
  · rw [hdeletes key hkey] at hbefore
    cases hbefore

/-- So nothing is left of what the row names. -/
theorem storage_gone (hraised : (deleteJobStorage false world job objects).raised = false) :
    (∀ key ∈ storageKeys job, key ∉ (deleteJobStorage false world job objects).objects) ∧
      ∀ folder ∈ storagePrefixes job, ∀ key ∈ (deleteJobStorage false world job objects).objects,
        startsWith key folder = false := by
  refine ⟨fun key hkey => listedKeys_gone hraised (mem_listedKeys.mpr (Or.inl hkey)), ?_⟩
  intro folder hfolder key hleft
  refine (Bool.not_eq_true _).mp fun hstarts => ?_
  have hlists := (calls_of_not_raised hraised).1 folder hfolder
  exact listedKeys_gone hraised (mem_listedKeys.mpr
    (Or.inr ⟨deleteJobStorage_subset hleft, folder, hfolder, hlists, hstarts⟩)) hleft

/-- When every call returns a cleanup does not raise. -/
theorem not_raised_of_returned (hlists : ∀ folder, world.lists folder = true)
    (hdeletes : ∀ key, world.deletes key = .returned) :
    (deleteJobStorage bestEffort world job objects).raised = false := by
  unfold deleteJobStorage
  simp [hlists, hdeletes]

end Services
end MediaPlayer
