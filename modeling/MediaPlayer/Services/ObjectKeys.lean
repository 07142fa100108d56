import MediaPlayer.Library.Lines
import MediaPlayer.Models.Job

/-!
# Object keys

The keys the API and the workers make: a root, the id of the job they are of, and a name.

* `NamedFor.unique` — a key is of one job.
-/

namespace MediaPlayer
namespace Services

open Library Models

/-- `f"{root}/{job_id}/{name}"`. -/
def objectKey (root : String) (jobId : UUID) (name : String) : String :=
  root ++ "/" ++ toString jobId ++ "/" ++ name

/-- The key is one of the job's, under some root. -/
def NamedFor (jobId : UUID) (key : String) : Prop :=
  ∃ root name, '/' ∉ name.toList ∧ key = objectKey root jobId name

theorem toList_objectKey (root : String) (jobId : UUID) (name : String) :
    (objectKey root jobId name).toList =
      root.toList ++ '/' :: (jobId.repr.toList ++ '/' :: name.toList) := by
  simp [objectKey, toString]

theorem NamedFor.unique {jobId other : UUID} {key : String} (hjob : NamedFor jobId key)
    (hother : NamedFor other key) : jobId = other := by
  obtain ⟨root, name, hname, rfl⟩ := hjob
  obtain ⟨root', name', hname', heq⟩ := hother
  have hchars := congrArg (fun key : String => key.toList.reverse) heq
  simp only [toList_objectKey, List.reverse_append, List.reverse_cons, List.append_assoc,
    List.singleton_append] at hchars
  -- From the end: the name, then the id.
  obtain ⟨-, hfolder⟩ := append_cons_inj (by simpa using hname) (by simpa using hname') hchars
  have hid : ∀ n : ℕ, '/' ∉ n.repr.toList.reverse := fun n =>
    List.mem_reverse.not.mpr (not_mem_repr (by decide) n)
  obtain ⟨hsame, -⟩ := append_cons_inj (hid _) (hid _) hfolder
  exact eq_of_repr (List.reverse_inj.mp hsame)

end Services
end MediaPlayer
