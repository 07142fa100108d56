import MediaPlayer.Library.StepSystem
import MediaPlayer.Repositories.Jobs

/-!
# Emptying the trash

`empty_trash` of `app/worker/reaper.py` beside owners who trash, restore and delete
their videos.  The list of expired jobs is read once; then each is deleted by its id,
with the storage work of the earlier ones in between.  Every database call is one step.

* `ListedExpired` — every job the pass has still to come to has been in the trash since
  before the cutoff; every step that restores none of them keeps it.
* `emptied_jobs_expired` — so every row the pass deletes is such a row.
* `restored_job_emptied` — `delete_job` does not look at the trash: a video restored
  after the list was read is deleted all the same.
-/

namespace MediaPlayer
namespace Worker

open Library Models Repositories

/-- A day, in the database's microseconds. -/
def oneDay : ℤ := 24 * 3600 * 1000000

/-- The cutoff of a pass: `now - timedelta(days=max(0, trash_retention_days))`. -/
def trashCutoff (retentionDays : ℤ) (now : Timestamp) : Timestamp :=
  now - max 0 retentionDays * oneDay

/-- Where the pass stands: it has taken its cutoff, read the list, or is removing the
objects of the row it has just deleted. -/
inductive TrashPhase
  | idle
  | listing (before : Timestamp)
  | deleting (before : Timestamp) (left : List UUID)
  | cleaning (before : Timestamp) (gone : UUID × Job) (left : List UUID)
  deriving DecidableEq

structure TrashState where
  table : JobTable
  phase : TrashPhase

inductive TrashAction
  /-- A new pass reads the clock. -/
  | begin (now : Timestamp)
  /-- The next step of the pass. -/
  | reaper
  | trash (jobId ownerId : UUID) (now : Timestamp)
  | restore (jobId ownerId : UUID)
  | delete (jobId ownerId : UUID)

namespace TrashState

/-- The jobs the pass has listed and not yet come to. -/
def left (s : TrashState) : List UUID :=
  match s.phase with
  | .deleting _ left | .cleaning _ _ left => left
  | .idle | .listing _ => []

/-- One step of `empty_trash`. -/
def reaperStep (s : TrashState) : Option TrashState :=
  match s.phase with
  | .idle => none
  | .listing before =>
      some { s with phase := .deleting before ((s.table.listExpiredTrash before).map (·.1)) }
  | .deleting _ [] => some { s with phase := .idle }
  | .deleting before (jobId :: left) =>
      match s.table.deleteJob jobId none with
      | none => some { s with phase := .deleting before left }
      | some (gone, table) =>
          some { table := table, phase := .cleaning before (jobId, gone) left }
  -- `delete_job_storage` with `best_effort`: whatever it meets, the loop goes on.
  | .cleaning before _ left => some { s with phase := .deleting before left }

/-- One atomic step. -/
def step (retentionDays : ℤ) (s : TrashState) : TrashAction → Option TrashState
  | .begin now =>
      match s.phase with
      | .idle => some { s with phase := .listing (trashCutoff retentionDays now) }
      | _ => none
  | .reaper => s.reaperStep
  | .trash jobId ownerId now => some { s with
      table := s.table.put jobId (trashJob ownerId now (s.table.lookup jobId)) }
  | .restore jobId ownerId => some { s with
      table := s.table.put jobId (restoreJob ownerId (s.table.lookup jobId)) }
  | .delete jobId ownerId =>
      match s.table.deleteJob jobId (some ownerId) with
      | none => some s
      | some (_, table) => some { s with table := table }

end TrashState

/-- Passes one after the other, and any number of owners, from any table. -/
def trashSystem (retentionDays : ℤ) : StepSystem TrashState TrashAction where
  init s := s.phase = .idle
  step := TrashState.step retentionDays

namespace TrashState

variable {retentionDays : ℤ} {s t : TrashState}

/-- In the trash since before the cutoff. -/
def Expired (before : Timestamp) (job : Job) : Prop :=
  ∃ since, job.deletedAt = some since ∧ since < before

/-- The pass's cutoff, once it has read its list. -/
def cutoff (s : TrashState) : Option Timestamp :=
  match s.phase with
  | .deleting before _ | .cleaning before _ _ => some before
  | .idle | .listing _ => none

/-- Every job the pass has still to come to is expired, if it is still there. -/
def ListedExpired (s : TrashState) : Prop :=
  ∀ before, s.cutoff = some before → ∀ jobId ∈ s.left, ∀ job,
    s.table.lookup jobId = some job → Expired before job

/-- A restore that succeeds is not of a job the pass has still to come to. -/
def RestoresUnlisted (s : TrashState) : TrashAction → Prop
  | .restore jobId ownerId =>
      (restoreJob ownerId (s.table.lookup jobId)).isSome = true → jobId ∉ s.left
  | _ => True

instance (s : TrashState) : ∀ a, Decidable (RestoresUnlisted s a)
  | .restore jobId ownerId => inferInstanceAs (Decidable
      ((restoreJob ownerId (s.table.lookup jobId)).isSome = true → jobId ∉ s.left))
  | .begin _ | .reaper | .trash _ _ _ | .delete _ _ => .isTrue trivial

/-- What the list gives is expired. -/
theorem expired_of_mem_listExpiredTrash {table : JobTable} {before : Timestamp} {jobId : UUID}
    (hlisted : jobId ∈ (table.listExpiredTrash before).map (·.1)) {job : Job}
    (hjob : table.lookup jobId = some job) : Expired before job := by
  obtain ⟨⟨listedId, listed⟩, hmem, hid⟩ := List.mem_map.mp hlisted
  dsimp only at hid
  subst hid
  obtain ⟨hlookup, hexpired⟩ := JobTable.mem_select.mp hmem
  obtain rfl := Option.some.inj (hlookup.symm.trans hjob)
  obtain ⟨since, hsince, hlt⟩ := (Option.any_eq_true _ _).mp hexpired
  exact ⟨since, hsince, of_decide_eq_true hlt⟩

/-- A row that is still there after a delete was there before. -/
theorem lookup_erase_some {table : JobTable} {jobId other : UUID} {job : Job}
    (hjob : (table.erase jobId).lookup other = some job) : table.lookup other = some job := by
  by_cases hother : other = jobId
  · subst hother
    rw [AList.lookup_erase] at hjob
    simp at hjob
  · rwa [AList.lookup_erase_ne hother] at hjob

/-- A statement that leaves the jobs still to come expired, or alone. -/
theorem ListedExpired.put (hlisted : ListedExpired s) {jobId : UUID} {row : Option Job}
    (hrow : ∀ job, row = some job → jobId ∈ s.left → ∀ before, s.cutoff = some before →
      Expired before job) :
    ListedExpired { s with table := s.table.put jobId row } := by
  cases row with
  | none => exact hlisted
  | some written =>
      intro before hbefore other hother job hjob
      rcases JobTable.lookup_put_some hjob with ⟨rfl, rfl⟩ | ⟨-, hold⟩
      · exact hrow written rfl hother before hbefore
      · exact hlisted before hbefore other hother job hold

/-- Deleting a row leaves the others as they were. -/
theorem ListedExpired.erase (hlisted : ListedExpired s) {jobId : UUID} {phase : TrashPhase}
    (hcutoff : ({ s with phase := phase } : TrashState).cutoff = s.cutoff)
    (hleft : ∀ other ∈ ({ s with phase := phase } : TrashState).left, other ∈ s.left) :
    ListedExpired { table := s.table.erase jobId, phase := phase } := by
  intro before hbefore other hother job hjob
  exact hlisted before (hcutoff ▸ hbefore) other (hleft other hother) job
    (lookup_erase_some hjob)

/-- A step of the pass. -/
theorem ListedExpired.reaperStep (hlisted : ListedExpired s) (hstep : s.reaperStep = some t) :
    ListedExpired t := by
  obtain ⟨table, phase⟩ := s
  cases phase with
  | idle => simp [TrashState.reaperStep] at hstep
  | listing before =>
      simp only [TrashState.reaperStep] at hstep
      obtain rfl := Option.some.inj hstep
      intro cutoff hcutoff jobId hleft job hjob
      obtain rfl : before = cutoff := Option.some.inj hcutoff
      exact expired_of_mem_listExpiredTrash hleft hjob
  | deleting before left =>
      cases left with
      | nil =>
          simp only [TrashState.reaperStep] at hstep
          obtain rfl := Option.some.inj hstep
          intro cutoff hcutoff
          simp [TrashState.cutoff] at hcutoff
      | cons jobId left =>
          cases hdelete : table.deleteJob jobId none with
          | none =>
              simp only [TrashState.reaperStep, hdelete] at hstep
              obtain rfl := Option.some.inj hstep
              intro cutoff hcutoff other hother
              exact hlisted cutoff hcutoff other (List.mem_cons_of_mem _ hother)
          | some result =>
              obtain ⟨gone, after⟩ := result
              simp only [TrashState.reaperStep, hdelete] at hstep
              obtain rfl := Option.some.inj hstep
              obtain ⟨-, -, rfl⟩ := JobTable.deleteJob_some hdelete
              exact hlisted.erase rfl fun other hother => List.mem_cons_of_mem _ hother
  | cleaning before gone left =>
      simp only [TrashState.reaperStep] at hstep
      obtain rfl := Option.some.inj hstep
      exact hlisted

/-- One step keeps what is still to come expired, as long as none of it is restored. -/
theorem ListedExpired.step {a : TrashAction} (hlisted : ListedExpired s)
    (hok : RestoresUnlisted s a) (hstep : TrashState.step retentionDays s a = some t) :
    ListedExpired t := by
  cases a with
  | begin now =>
      obtain ⟨table, phase⟩ := s
      cases phase with
      | idle =>
          simp only [TrashState.step] at hstep
          obtain rfl := Option.some.inj hstep
          intro before hbefore
          simp [cutoff] at hbefore
      | _ => simp [TrashState.step] at hstep
  | reaper => exact hlisted.reaperStep hstep
  | trash jobId ownerId now =>
      obtain rfl := Option.some.inj hstep
      refine hlisted.put ?_
      intro job htrash hleft before hbefore
      -- A job still to come is in the trash already, so this one cannot be trashed.
      obtain ⟨old, hold, -, hnone, -⟩ := trashJob_some htrash
      obtain ⟨since, hsince, -⟩ := hlisted before hbefore jobId hleft old hold
      rw [hnone] at hsince
      simp at hsince
  | restore jobId ownerId =>
      obtain rfl := Option.some.inj hstep
      refine hlisted.put ?_
      intro job hrestore hleft
      exact absurd hleft (hok (by rw [hrestore]; rfl))
  | delete jobId ownerId =>
      cases hdelete : s.table.deleteJob jobId (some ownerId) with
      | none =>
          simp only [TrashState.step, hdelete] at hstep
          obtain rfl := Option.some.inj hstep
          exact hlisted
      | some result =>
          obtain ⟨gone, after⟩ := result
          simp only [TrashState.step, hdelete] at hstep
          obtain rfl := Option.some.inj hstep
          obtain ⟨-, -, rfl⟩ := JobTable.deleteJob_some hdelete
          exact hlisted.erase rfl fun other hother => hother

/-- The row the pass deletes next, if it is still there, is expired. -/
def EmptiesExpired (s : TrashState) : Prop :=
  ∀ before jobId left gone table, s.phase = .deleting before (jobId :: left) →
    s.table.deleteJob jobId none = some (gone, table) → Expired before gone

theorem ListedExpired.emptiesExpired (hlisted : ListedExpired s) : EmptiesExpired s := by
  intro before jobId left gone table hphase hdelete
  have hcutoff : s.cutoff = some before := by simp [cutoff, hphase]
  have hleft : jobId ∈ s.left := by simp [TrashState.left, hphase]
  exact hlisted before hcutoff jobId hleft gone (JobTable.deleteJob_some hdelete).1

/-- **Emptying the trash deletes expired videos only**, in every run in which no job a
pass has listed and not yet come to is restored. -/
theorem emptied_jobs_expired (hs : (trashSystem retentionDays).ReachableUnder RestoresUnlisted s) :
    EmptiesExpired s := by
  have hlisted : ListedExpired s := by
    refine hs.invariant ListedExpired ?_ fun s a t _ hlisted hok hstep => hlisted.step hok hstep
    intro s hinit before hbefore
    rw [cutoff, show s.phase = .idle from hinit] at hbefore
    simp at hbefore
  exact hlisted.emptiesExpired

/-- A video in the trash since the first of the month. -/
def trashedJob (deletedAt : Timestamp) : Job where
  ownerId := 1
  filename := "clip.mp4"
  status := .done
  sourceKey := "uploads/1/clip.mp4"
  outputKey := some "outputs/7/video.mp4"
  deletedAt := some deletedAt
  createdAt := 0
  updatedAt := 0
  checks := ⟨by simp, by simp, by simp, by simp, by simp, by simp, by simp, by simp, by simp⟩

/-- Two videos of one owner, both in the trash. -/
def twoTrashed : TrashState :=
  ⟨((∅ : JobTable).insert 7 (trashedJob 10)).insert 8 (trashedJob 20), .idle⟩

/-- A pass deletes the first video and is about to delete the second. -/
theorem emptied_jobs_expired_twoTrashed :
    ∃ s : TrashState, s.phase = .deleting 100 [8] ∧ EmptiesExpired s := by
  have hinit : (trashSystem 30).ReachableUnder RestoresUnlisted twoTrashed := .init rfl
  obtain ⟨s, hs, hphase⟩ := hinit.exists_of_runUnder
    [.begin (30 * oneDay + 100), .reaper, .reaper, .reaper]
    (fun s => s.phase == .deleting 100 [8]) (by decide)
  exact ⟨s, beq_iff_eq.mp hphase, emptied_jobs_expired hs⟩

/-- The owner restores the second video while the first one's objects are removed; the
pass deletes it all the same. -/
theorem restored_job_emptied :
    ¬ ∀ s : TrashState, (trashSystem 30).Reachable s → EmptiesExpired s := by
  intro hempties
  have hinit : (trashSystem 30).Reachable twoTrashed := .init rfl
  obtain ⟨s, hs, hstate⟩ := StepSystem.Reachable.exists_of_run hinit
    [.begin (30 * oneDay + 100), .reaper, .reaper, .restore 8 1, .reaper]
    (fun s => s.phase == .deleting 100 [8] &&
      (s.table.deleteJob 8 none).any fun result : Job × JobTable =>
        decide (result.1.deletedAt = none)) (by decide)
  rw [Bool.and_eq_true, beq_iff_eq] at hstate
  obtain ⟨⟨gone, table⟩, hdelete, hnone⟩ := (Option.any_eq_true _ _).mp hstate.2
  obtain ⟨since, hsince, -⟩ := hempties s hs 100 8 [] gone table hstate.1 hdelete
  rw [of_decide_eq_true hnone] at hsince
  simp at hsince

end TrashState

end Worker
end MediaPlayer
