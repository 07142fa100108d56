import MediaPlayer.Library.Parties
import MediaPlayer.Library.StepSystem
import MediaPlayer.Repositories.Jobs

/-!
# Failing abandoned jobs

The first loop of `run_once` of `app/worker/reaper.py`: list the rows that have been
processing for some minutes, ask RQ whether a worker still keeps each one alive, and
fail those nobody does.  Beside it, any number of workers claim, finish, fail and give
back jobs, and owners retry them.  Every database call is one step, and so is the read
of a heartbeat.

`StaleState.since` says since when a row has been processing without interruption.  No
process reads it; the row's `updated_at` is the same while it is processing.

* `ListedStale` — a row the pass has still to come to has been processing since before
  the cutoff, if it is processing; every step that claims none of them keeps it.
* `failed_runs_stale` — so every row the pass fails is such a row.
* `healthy_run_failed` — `mark_stale_failed` looks at the status only: a job that was
  given back and claimed by a healthy worker after the list was read is failed.
-/

namespace MediaPlayer
namespace Worker

open Library Models Repositories

/-- The reaper's settings, in the database's microseconds. -/
structure ReaperSettings where
  lease : ℤ := 1800 * 1000000
  abandoned : ℤ := 300 * 1000000
  orphanGrace : ℤ := 3600 * 1000000

/-- A database call of a worker or an owner on one row. -/
inductive RowCall
  | markProcessing
  | markDone (values : DoneValues)
  | markFailed (error : String)
  | markInterrupted
  | prepareRetry (ownerId : UUID)
  deriving DecidableEq

/-- What the call makes of the row. -/
def RowCall.apply (call : RowCall) (jobId : UUID) (now : Timestamp) (row : Option Job) :
    Except JobError Job :=
  match call with
  | .markProcessing => Repositories.markProcessing jobId now row
  | .markDone values => Repositories.markDone jobId values now row
  | .markFailed error => Repositories.markFailed jobId error now row
  | .markInterrupted => Repositories.markInterrupted jobId now row
  | .prepareRetry ownerId => Repositories.prepareRetry jobId ownerId now row

/-- Where the pass stands.  The cutoffs are taken first, the rows are those the list
gave. -/
inductive StalePhase
  | idle
  | listing (leaseBefore abandonedBefore : Timestamp)
  | checking (leaseBefore abandonedBefore : Timestamp) (left : List (UUID × Job))
  | marking (leaseBefore abandonedBefore : Timestamp) (jobId : UUID) (left : List (UUID × Job))
  deriving DecidableEq

structure StaleState where
  table : JobTable
  phase : StalePhase
  since : UUID → Option Timestamp

inductive StaleAction
  /-- A new pass reads the clock. -/
  | begin (now : Timestamp)
  /-- The next step of the pass: the time of its write, and what RQ says of the row. -/
  | reaper (now : Timestamp) (heartbeatAlive : Bool)
  | call (jobId : UUID) (call : RowCall) (now : Timestamp)

namespace StaleState

/-- A write on a row, with the note of since when it has been processing. -/
def write (s : StaleState) (jobId : UUID) (now : Timestamp) (row : Option Job) : StaleState :=
  match row with
  | none => s
  | some job =>
      { s with
        table := s.table.put jobId (some job)
        since := Function.update s.since jobId
          (if job.status ≠ .processing then none
          else if (s.table.lookup jobId).any (·.status = .processing) then s.since jobId
          else some now) }

/-- One step of the loop. -/
def reaperStep (s : StaleState) (now : Timestamp) (heartbeatAlive : Bool) : Option StaleState :=
  match s.phase with
  | .idle => none
  | .listing leaseBefore abandonedBefore => some { s with
      phase := .checking leaseBefore abandonedBefore
        (s.table.listStale .processing abandonedBefore) }
  | .checking _ _ [] => some { s with phase := .idle }
  | .checking leaseBefore abandonedBefore ((jobId, job) :: left) =>
      let hung := decide (job.updatedAt < leaseBefore)
      if !hung && heartbeatAlive then
        some { s with phase := .checking leaseBefore abandonedBefore left }
      else some { s with phase := .marking leaseBefore abandonedBefore jobId left }
  | .marking leaseBefore abandonedBefore jobId left =>
      match markStaleFailed now (s.table.lookup jobId) with
      | .ok row => some { s.write jobId now row with
          phase := .checking leaseBefore abandonedBefore left }
      -- The exception ends the pass.
      | .error _ => some { s with phase := .idle }

/-- One atomic step. -/
def step (settings : ReaperSettings) (s : StaleState) : StaleAction → Option StaleState
  | .begin now =>
      match s.phase with
      | .idle => some { s with
          phase := .listing (now - settings.lease) (now - settings.abandoned) }
      | _ => none
  | .reaper now heartbeatAlive => s.reaperStep now heartbeatAlive
  | .call jobId call now =>
      some (s.write jobId now (call.apply jobId now (s.table.lookup jobId)).toOption)

end StaleState

/-- Passes one after the other beside workers and owners, from any table whose
processing rows have been so since their last write. -/
def staleSystem (settings : ReaperSettings) : StepSystem StaleState StaleAction where
  init s := s.phase = .idle ∧ ∀ jobId job, s.table.lookup jobId = some job →
    job.status = .processing → s.since jobId = some job.updatedAt
  step := StaleState.step settings

namespace StaleState

variable {settings : ReaperSettings} {s t : StaleState}

/-- The rows the pass has listed and neither passed over nor written. -/
def left (s : StaleState) : List UUID :=
  match s.phase with
  | .checking _ _ left => left.map (·.1)
  | .marking _ _ jobId left => jobId :: left.map (·.1)
  | .idle | .listing _ _ => []

/-- The abandoned cutoff of the pass. -/
def cutoff (s : StaleState) : Option Timestamp :=
  match s.phase with
  | .listing _ before | .checking _ before _ | .marking _ before _ _ => some before
  | .idle => none

/-- The note is right, and the rows still to come are stale while they are processing. -/
structure ListedStale (s : StaleState) : Prop where
  since : ∀ jobId job, s.table.lookup jobId = some job → job.status = .processing →
    s.since jobId = some job.updatedAt
  stale : ∀ before, s.cutoff = some before → ∀ jobId ∈ s.left, ∀ job,
    s.table.lookup jobId = some job → job.status = .processing → job.updatedAt < before

/-- A claim that succeeds is not of a row the pass has still to come to. -/
def ClaimsUnlisted (s : StaleState) : StaleAction → Prop
  | .call jobId .markProcessing now =>
      (markProcessing jobId now (s.table.lookup jobId)).isOk = true → jobId ∉ s.left
  | _ => True

instance (s : StaleState) : ∀ a, Decidable (ClaimsUnlisted s a)
  | .call jobId .markProcessing now => inferInstanceAs (Decidable
      ((markProcessing jobId now (s.table.lookup jobId)).isOk = true → jobId ∉ s.left))
  | .begin _ | .reaper _ _ | .call _ (.markDone _) _ | .call _ (.markFailed _) _
  | .call _ .markInterrupted _ | .call _ (.prepareRetry _) _ => .isTrue trivial

/-- A call that succeeds claims the row, or takes it out of `processing`. -/
theorem apply_ok {call : RowCall} {jobId : UUID} {now : Timestamp} {row : Option Job}
    {after : Job} (hok : call.apply jobId now row = .ok after) :
    after.status ≠ .processing ∨
      (call = .markProcessing ∧ after.updatedAt = now ∧
        ∃ before, row = some before ∧ before.status = .queued) := by
  cases call with
  | markProcessing =>
      obtain ⟨before, hrow, hqueued, -, hnow, -⟩ := markProcessing_ok hok
      exact Or.inr ⟨rfl, hnow, before, hrow, hqueued⟩
  | markDone values =>
      obtain ⟨before, -, -, hafter, -⟩ := markDone_ok hok
      exact Or.inl (by simp [hafter])
  | markFailed error =>
      obtain ⟨before, -, -, hafter, -⟩ := markFailed_ok hok
      exact Or.inl (by simp [hafter])
  | markInterrupted =>
      obtain ⟨before, -, -, hafter, -⟩ := markInterrupted_ok hok
      exact Or.inl (by simp [hafter])
  | prepareRetry ownerId =>
      obtain ⟨before, -, -, -, hafter, -⟩ := prepareRetry_ok hok
      exact Or.inl (by simp [hafter])

@[simp] theorem write_none (s : StaleState) (jobId : UUID) (now : Timestamp) :
    s.write jobId now none = s := rfl

@[simp] theorem write_phase (s : StaleState) (jobId : UUID) (now : Timestamp)
    (row : Option Job) : (s.write jobId now row).phase = s.phase := by
  cases row <;> rfl

theorem since_write_of_ne (s : StaleState) {jobId other : UUID} (now : Timestamp) (job : Job)
    (hne : other ≠ jobId) : (s.write jobId now (some job)).since other = s.since other :=
  Function.update_of_ne hne _ _

/-- A written row that is processing has just been claimed, and is none the pass has
still to come to. -/
theorem ListedStale.write (hlisted : ListedStale s) {jobId : UUID} {now : Timestamp} {job : Job}
    (hjob : job.status = .processing → job.updatedAt = now ∧ jobId ∉ s.left ∧
      (s.table.lookup jobId).any (·.status = .processing) = false) :
    ListedStale (s.write jobId now (some job)) := by
  constructor
  · intro other stored hstored hstatus
    rcases JobTable.lookup_put_some hstored with ⟨rfl, rfl⟩ | ⟨hne, hold⟩
    · obtain ⟨hnow, -, hbefore⟩ := hjob hstatus
      simp [StaleState.write, hstatus, hbefore, hnow]
    · rw [since_write_of_ne s now job hne]
      exact hlisted.since other stored hold hstatus
  · intro before hbefore other hother stored hstored hstatus
    rcases JobTable.lookup_put_some hstored with ⟨rfl, rfl⟩ | ⟨-, hold⟩
    · exact absurd hother (hjob hstatus).2.1
    · exact hlisted.stale before hbefore other hother stored hold hstatus

/-- The pass goes on with fewer rows, or ends. -/
theorem ListedStale.phase (hlisted : ListedStale s) {phase : StalePhase}
    (hleft : ∀ before, ({ s with phase := phase } : StaleState).cutoff = some before →
      ∀ jobId ∈ ({ s with phase := phase } : StaleState).left,
        s.cutoff = some before ∧ jobId ∈ s.left) :
    ListedStale { s with phase := phase } :=
  ⟨hlisted.since, fun before hbefore jobId hjobId =>
    hlisted.stale before (hleft before hbefore jobId hjobId).1 jobId
      (hleft before hbefore jobId hjobId).2⟩

/-- What the list gives was processing since before the cutoff. -/
theorem stale_of_mem_listStale {table : JobTable} {before : Timestamp} {jobId : UUID}
    (hlisted : jobId ∈ (table.listStale .processing before).map (·.1)) {job : Job}
    (hjob : table.lookup jobId = some job) : job.updatedAt < before := by
  obtain ⟨⟨listedId, listed⟩, hmem, hid⟩ := List.mem_map.mp hlisted
  dsimp only at hid
  subst hid
  obtain ⟨hlookup, hstale⟩ := JobTable.mem_select.mp hmem
  obtain rfl := Option.some.inj (hlookup.symm.trans hjob)
  exact (of_decide_eq_true hstale).2

/-- A step of the pass. -/
theorem ListedStale.reaperStep (hlisted : ListedStale s) {now : Timestamp}
    {heartbeatAlive : Bool} (hstep : s.reaperStep now heartbeatAlive = some t) :
    ListedStale t := by
  cases hphase : s.phase with
  | idle => simp [StaleState.reaperStep, hphase] at hstep
  | listing leaseBefore abandonedBefore =>
      simp only [StaleState.reaperStep, hphase] at hstep
      obtain rfl := Option.some.inj hstep
      refine ⟨hlisted.since, ?_⟩
      intro before hbefore jobId hleft job hjob _
      obtain rfl : abandonedBefore = before := Option.some.inj hbefore
      exact stale_of_mem_listStale hleft hjob
  | checking leaseBefore abandonedBefore left =>
      cases left with
      | nil =>
          simp only [StaleState.reaperStep, hphase] at hstep
          obtain rfl := Option.some.inj hstep
          exact hlisted.phase fun before hbefore => by simp [cutoff] at hbefore
      | cons row left =>
          simp only [StaleState.reaperStep, hphase] at hstep
          split at hstep
          · obtain rfl := Option.some.inj hstep
            refine hlisted.phase fun before hbefore jobId hjobId => ⟨?_, ?_⟩
            · simpa [cutoff, hphase] using hbefore
            · have hmem : jobId ∈ left.map (·.1) := hjobId
              simp only [StaleState.left, hphase, List.map_cons]
              exact List.mem_cons_of_mem _ hmem
          · obtain rfl := Option.some.inj hstep
            refine hlisted.phase fun before hbefore jobId hjobId => ⟨?_, ?_⟩
            · simpa [cutoff, hphase] using hbefore
            · simpa [StaleState.left, hphase] using hjobId
  | marking leaseBefore abandonedBefore jobId left =>
      cases hfailed : markStaleFailed now (s.table.lookup jobId) with
      | error e =>
          simp only [StaleState.reaperStep, hphase, hfailed] at hstep
          obtain rfl := Option.some.inj hstep
          exact hlisted.phase fun before hbefore => by simp [cutoff] at hbefore
      | ok row =>
          simp only [StaleState.reaperStep, hphase, hfailed] at hstep
          obtain rfl := Option.some.inj hstep
          have hwritten : ListedStale (s.write jobId now row) := by
            cases row with
            | none => exact hlisted
            | some job =>
                obtain ⟨old, -, -, hstatus, -⟩ := markStaleFailed_some hfailed
                exact hlisted.write fun h => by simp [hstatus] at h
          refine hwritten.phase fun before hbefore other hother => ⟨?_, ?_⟩
          · simpa [cutoff, hphase] using hbefore
          · have hmem : other ∈ left.map (·.1) := hother
            simp only [StaleState.left, write_phase, hphase]
            exact List.mem_cons_of_mem _ hmem

/-- One step keeps the rows still to come stale, as long as none of them is claimed. -/
theorem ListedStale.step {a : StaleAction} (hlisted : ListedStale s)
    (hok : ClaimsUnlisted s a) (hstep : StaleState.step settings s a = some t) :
    ListedStale t := by
  cases a with
  | begin now =>
      cases hphase : s.phase with
      | idle =>
          simp only [StaleState.step, hphase] at hstep
          obtain rfl := Option.some.inj hstep
          exact hlisted.phase fun before _ jobId hjobId => by simp [StaleState.left] at hjobId
      | _ => simp [StaleState.step, hphase] at hstep
  | reaper now heartbeatAlive => exact hlisted.reaperStep hstep
  | call jobId call now =>
      obtain rfl := Option.some.inj hstep
      cases hcall : call.apply jobId now (s.table.lookup jobId) with
      | error e => exact hlisted
      | ok job =>
          refine hlisted.write ?_
          intro hstatus
          rcases apply_ok hcall with hne | ⟨rfl, hnow, old, hold, hqueued⟩
          · exact absurd hstatus hne
          · refine ⟨hnow, hok ?_, by simp [hold, hqueued]⟩
            rw [show markProcessing jobId now (s.table.lookup jobId) = .ok job from hcall]
            rfl

/-- A row the pass fails now has been processing without interruption since before the
abandoned cutoff. -/
def FailsStale (s : StaleState) : Prop :=
  ∀ leaseBefore abandonedBefore jobId left now after,
    s.phase = .marking leaseBefore abandonedBefore jobId left →
    markStaleFailed now (s.table.lookup jobId) = .ok (some after) →
    ∃ claimed, s.since jobId = some claimed ∧ claimed < abandonedBefore

theorem ListedStale.failsStale (hlisted : ListedStale s) : FailsStale s := by
  intro leaseBefore abandonedBefore jobId left now after hphase hfailed
  obtain ⟨before, hbefore, hprocessing, -⟩ := markStaleFailed_some hfailed
  refine ⟨before.updatedAt, hlisted.since jobId before hbefore hprocessing, ?_⟩
  exact hlisted.stale abandonedBefore (by simp [cutoff, hphase]) jobId
    (by simp [StaleState.left, hphase]) before hbefore hprocessing

/-- **The reaper fails stale runs only**, in every run in which no row a pass has listed
and not yet come to is claimed. -/
theorem failed_runs_stale (hs : (staleSystem settings).ReachableUnder ClaimsUnlisted s) :
    FailsStale s := by
  have hlisted : ListedStale s := by
    refine hs.invariant ListedStale ?_ fun s a t _ hlisted hok hstep => hlisted.step hok hstep
    rintro s ⟨hphase, hsince⟩
    exact ⟨hsince, fun before hbefore => by simp [cutoff, hphase] at hbefore⟩
  exact hlisted.failsStale

/-- A queued job at time `0`. -/
def queuedJob : Job where
  ownerId := 1
  filename := "clip.mp4"
  sourceKey := "uploads/7/clip.mp4"
  createdAt := 0
  updatedAt := 0
  checks := by decide

def oneQueued : StaleState := ⟨(∅ : JobTable).insert 7 queuedJob, .idle, fun _ => none⟩

theorem oneQueued_init : (staleSystem {}).init oneQueued := by
  refine ⟨rfl, ?_⟩
  intro jobId job hjob hstatus
  have hqueued := Parties.forall_insert (p := fun _ (job : Job) => job.status ≠ .processing)
    (by simp) (by decide) jobId job hjob
  exact absurd hstatus hqueued

/-- Claimed at second 1, still processing at second 400, and no heartbeat: the pass is
about to fail it. -/
theorem failed_runs_stale_deadWorker :
    ∃ s : StaleState, s.phase = .marking (-1400000000) 100000000 7 [] ∧
      s.since 7 = some 1000000 ∧ FailsStale s := by
  have hinit : (staleSystem {}).ReachableUnder ClaimsUnlisted oneQueued := .init oneQueued_init
  obtain ⟨s, hs, hstate⟩ := hinit.exists_of_runUnder
    [.call 7 .markProcessing 1000000, .begin 400000000, .reaper 400000000 false,
      .reaper 400000000 false]
    (fun s => s.phase == .marking (-1400000000) 100000000 7 [] && s.since 7 == some 1000000)
    (by decide)
  rw [Bool.and_eq_true, beq_iff_eq, beq_iff_eq] at hstate
  exact ⟨s, hstate.1, hstate.2, failed_runs_stale hs⟩

/-- After the list was read the worker is told to stop and gives the job back; nobody
keeps it alive when RQ is asked; then a healthy worker claims it, and the pass fails it
within a second. -/
theorem healthy_run_failed :
    ¬ ∀ s : StaleState, (staleSystem {}).Reachable s → FailsStale s := by
  intro hfails
  have hinit : (staleSystem {}).Reachable oneQueued := .init oneQueued_init
  obtain ⟨s, hs, hstate⟩ := StepSystem.Reachable.exists_of_run hinit
    [.call 7 .markProcessing 1000000, .begin 400000000, .reaper 400000000 false,
      .call 7 .markInterrupted 401000000, .reaper 401000000 false,
      .call 7 .markProcessing 402000000]
    (fun s => s.phase == .marking (-1400000000) 100000000 7 [] && s.since 7 == some 402000000 &&
      (match markStaleFailed 403000000 (s.table.lookup 7) with
      | .ok row => row.isSome
      | .error _ => false)) (by decide)
  rw [Bool.and_eq_true, Bool.and_eq_true, beq_iff_eq, beq_iff_eq] at hstate
  obtain ⟨⟨hphase, hsince⟩, hwrite⟩ := hstate
  cases hfailed : markStaleFailed 403000000 (s.table.lookup 7) with
  | error e => simp [hfailed] at hwrite
  | ok row =>
      cases row with
      | none => simp [hfailed] at hwrite
      | some after =>
          obtain ⟨claimed, hclaimed, hlt⟩ := hfails s hs _ _ 7 [] _ after hphase hfailed
          rw [hsince] at hclaimed
          obtain rfl := Option.some.inj hclaimed
          exact absurd hlt (by decide)

end StaleState

end Worker
end MediaPlayer
