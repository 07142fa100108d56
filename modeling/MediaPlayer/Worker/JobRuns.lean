import MediaPlayer.Worker.Tasks

/-!
# Whose outcome is written

The transitions of a run look at the status only.  They keep the runs of one row apart
exactly as long as the row is never claimed while an earlier run is still going:

* `Exclusive` — while the row is processing, the run that claimed it last is the only
  one that can still write an outcome; every step whose claims are alone keeps it.
* `outcome_written_by_claimant` — so every outcome written is the claimant's.
* `late_outcome_lands_on_next_run` — claim, reaped, retried, claimed again: the first
  run's late `mark_done` finishes the second one's job.
-/

namespace MediaPlayer
namespace Worker

open Library Models Repositories

namespace JobRuns

variable {jobId : UUID} {s t : JobRuns}

/-- While the row is processing, nobody but its last claimant is still going. -/
def Exclusive (s : JobRuns) : Prop :=
  ∀ job, s.row = some job → job.status = .processing →
    ∀ run value, s.runs.lookup run = some value → value.live = true → s.claimant = some run

/-- An outcome write that succeeds belongs to a run still going, and takes the row out
of `processing`. -/
theorem outcomeWrite_ok {value : Run} {write : Timestamp → Option Job → Except JobError Job}
    (hwrite : value.outcomeWrite jobId = some write) {now : Timestamp} {row : Option Job}
    {after : Job} (hok : write now row = .ok after) :
    value.live = true ∧ after.status ≠ .processing ∧
      ∃ before, row = some before ∧ before.status = .processing := by
  unfold Run.outcomeWrite at hwrite
  cases hphase : value.phase with
  | recordingFailure reason =>
      simp only [hphase] at hwrite
      obtain rfl := Option.some.inj hwrite
      obtain ⟨before, hrow, hbefore, hafter, -⟩ := markFailed_ok hok
      exact ⟨by simp [Run.live, hphase], by simp [hafter], before, hrow, hbefore⟩
  | recordingDone result =>
      simp only [hphase] at hwrite
      obtain rfl := Option.some.inj hwrite
      obtain ⟨before, hrow, hbefore, hafter, -⟩ := markDone_ok hok
      exact ⟨by simp [Run.live, hphase], by simp [hafter], before, hrow, hbefore⟩
  | givingBack =>
      simp only [hphase] at hwrite
      by_cases hoften : maxInterruptions ≤ value.interruptions + 1
      · rw [if_pos hoften] at hwrite
        obtain rfl := Option.some.inj hwrite
        obtain ⟨before, hrow, hbefore, hafter, -⟩ := markFailed_ok hok
        exact ⟨by simp [Run.live, hphase], by simp [hafter], before, hrow, hbefore⟩
      · rw [if_neg hoften] at hwrite
        obtain rfl := Option.some.inj hwrite
        obtain ⟨before, hrow, hbefore, hafter, -⟩ := markInterrupted_ok hok
        exact ⟨by simp [Run.live, hphase], by simp [hafter], before, hrow, hbefore⟩
  | _ => simp [hphase] at hwrite

theorem live_phaseOnError (interruptions : ℕ) (e : JobError) :
    (⟨interruptions, phaseOnError e⟩ : Run).live = false := by
  cases e <;> rfl

/-- Whenever the row is claimed, no earlier run is still going. -/
def ClaimsAlone (jobId : UUID) (s : JobRuns) : JobRunAction → Prop
  | .claim _ _ now => (markProcessing jobId now s.row).isOk = true →
      s.runs.all (fun _ value => !value.live) = true
  | _ => True

instance (jobId : UUID) (s : JobRuns) : ∀ a, Decidable (ClaimsAlone jobId s a)
  | .claim _ _ now => inferInstanceAs (Decidable ((markProcessing jobId now s.row).isOk = true →
      s.runs.all (fun _ value => !value.live) = true))
  | .stepReturns _ _ | .stepRaises _ _ _ | .writeOutcome _ _ | .handOff _ _ _ | .dies _
  | .markStaleFailed _ | .retry _ _ => .isTrue trivial

theorem Exclusive.of_not_processing
    (hrow : ∀ job, s.row = some job → job.status ≠ .processing) : Exclusive s :=
  fun job hjob hstatus => absurd hstatus (hrow job hjob)

/-- A run that moves without touching the row was going before, if it still is. -/
theorem Exclusive.setRun (hex : Exclusive s) {run : ℕ} {value : Run}
    (hlive : value.live = true → ∃ old, s.runs.lookup run = some old ∧ old.live = true) :
    Exclusive (s.setRun run value) := by
  intro job hjob hstatus
  refine Parties.forall_insert (p := fun r (v : Run) => v.live = true → s.claimant = some r) ?_ ?_
  · intro other v _ hother
    exact hex job hjob hstatus other v hother
  · intro hvalue
    obtain ⟨old, hold, holdLive⟩ := hlive hvalue
    exact hex job hjob hstatus run old hold holdLive

/-- A succeeded claim that is alone leaves its run the only one going. -/
theorem Exclusive.claim {run interruptions : ℕ} {job : Job}
    (halone : s.runs.all (fun _ value => !value.live) = true) :
    Exclusive ({ s.written (some job) with claimant := some run }.setRun run
      ⟨interruptions, .encoding job⟩) := by
  intro after hafter hstatus
  refine Parties.forall_insert (p := fun r (v : Run) => v.live = true → some run = some r) ?_ ?_
  · intro other v _ hother hlive
    have hdead := Parties.all_iff.mp halone other v hother
    simp [hlive] at hdead
  · intro _
    rfl

/-- Writing a row that is not processing. -/
theorem Exclusive.written_of_ne {job : Job} (hne : job.status ≠ .processing) (run : ℕ)
    (value : Run) : Exclusive ((s.written (some job)).setRun run value) := by
  refine Exclusive.of_not_processing ?_
  intro after hafter
  obtain rfl := Option.some.inj hafter
  exact hne

/-- A ladder that could not be queued is settled on a row that is done, or not at all. -/
theorem Exclusive.handOff_failed (hex : Exclusive s) {run interruptions : ℕ} {now : Timestamp}
    (hstep : (match markLadderUnavailable now s.row with
      | .ok row => some ((s.written row).setRun run ⟨interruptions, .returned .done⟩)
      | .error _ => some (s.setRun run ⟨interruptions, .raised⟩)) = some t) : Exclusive t := by
  cases hsettle : markLadderUnavailable now s.row with
  | error e =>
      simp only [hsettle] at hstep
      obtain rfl := Option.some.inj hstep
      exact hex.setRun fun hlive => absurd hlive (by simp [Run.live])
  | ok row =>
      simp only [hsettle] at hstep
      obtain rfl := Option.some.inj hstep
      cases row with
      | none => exact hex.setRun fun hlive => absurd hlive (by simp [Run.live])
      | some job =>
          obtain ⟨before, -, hdone, -, hafter⟩ := settleLadder_some hsettle
          refine Exclusive.written_of_ne ?_ run _
          rw [hafter]
          simp [hdone]

/-- One step keeps the runs apart, as long as claims are alone. -/
theorem Exclusive.step {a : JobRunAction} (hex : Exclusive s) (hok : ClaimsAlone jobId s a)
    (hstep : JobRuns.step jobId s a = some t) : Exclusive t := by
  cases a with
  | claim run interruptions now =>
      cases hrun : s.runs.lookup run with
      | some value => simp [JobRuns.step, hrun] at hstep
      | none =>
          cases hclaim : markProcessing jobId now s.row with
          | ok job =>
              simp only [JobRuns.step, hrun, hclaim] at hstep
              obtain rfl := Option.some.inj hstep
              exact Exclusive.claim (hok (by rw [hclaim]; rfl))
          | error e =>
              simp only [JobRuns.step, hrun, hclaim] at hstep
              obtain rfl := Option.some.inj hstep
              refine hex.setRun ?_
              intro hlive
              rw [live_phaseOnError] at hlive
              exact absurd hlive (by simp)
  | stepReturns run result =>
      cases hrun : s.runs.lookup run with
      | none => simp [JobRuns.step, hrun] at hstep
      | some value =>
          obtain ⟨interruptions, phase⟩ := value
          cases phase with
          | encoding job =>
              simp only [JobRuns.step, hrun] at hstep
              obtain rfl := Option.some.inj hstep
              exact hex.setRun fun _ => ⟨_, hrun, rfl⟩
          | _ => simp [JobRuns.step, hrun] at hstep
  | stepRaises run failure stopRequested =>
      cases hrun : s.runs.lookup run with
      | none => simp [JobRuns.step, hrun] at hstep
      | some value =>
          obtain ⟨interruptions, phase⟩ := value
          cases phase with
          | encoding job =>
              simp only [JobRuns.step, hrun] at hstep
              obtain rfl := Option.some.inj hstep
              exact hex.setRun fun _ => ⟨_, hrun, rfl⟩
          | _ => simp [JobRuns.step, hrun] at hstep
  | writeOutcome run now =>
      obtain ⟨value, hrun, hmap⟩ := Option.bind_eq_some_iff.mp hstep
      obtain ⟨write, hwrite, rfl⟩ := Option.map_eq_some_iff.mp hmap
      cases hresult : write now s.row with
      | ok job =>
          simp only
          exact Exclusive.written_of_ne (outcomeWrite_ok hwrite hresult).2.1 run _
      | error e =>
          simp only
          refine hex.setRun ?_
          intro hlive
          rw [live_phaseOnError] at hlive
          exact absurd hlive (by simp)
  | handOff run enqueued now =>
      cases hrun : s.runs.lookup run with
      | none => simp [JobRuns.step, hrun] at hstep
      | some value =>
          obtain ⟨interruptions, phase⟩ := value
          cases phase with
          | handingOff =>
              simp only [JobRuns.step, hrun] at hstep
              cases enqueued with
              | true =>
                  obtain rfl := Option.some.inj hstep
                  exact hex.setRun fun hlive => absurd hlive (by simp [Run.live])
              | false =>
                  exact hex.handOff_failed hstep
          | _ => simp [JobRuns.step, hrun] at hstep
  | dies run =>
      obtain ⟨value, hrun, rfl⟩ := Option.map_eq_some_iff.mp hstep
      exact hex.setRun fun hlive => absurd hlive (by simp [Run.live])
  | markStaleFailed now =>
      cases hfailed : Repositories.markStaleFailed now s.row with
      | error e =>
          simp only [JobRuns.step, hfailed] at hstep
          obtain rfl := Option.some.inj hstep
          exact hex
      | ok row =>
          simp only [JobRuns.step, hfailed] at hstep
          obtain rfl := Option.some.inj hstep
          cases row with
          | none => exact hex
          | some job =>
              obtain ⟨before, hbefore, -, hafter, -⟩ := markStaleFailed_some hfailed
              refine Exclusive.of_not_processing ?_
              intro after hsome
              obtain rfl := Option.some.inj hsome
              simp [hafter]
  | retry ownerId now =>
      cases hretry : prepareRetry jobId ownerId now s.row with
      | error e =>
          simp only [JobRuns.step, hretry] at hstep
          obtain rfl := Option.some.inj hstep
          exact hex
      | ok job =>
          simp only [JobRuns.step, hretry] at hstep
          obtain rfl := Option.some.inj hstep
          obtain ⟨before, -, -, -, hafter, -⟩ := prepareRetry_ok hretry
          refine Exclusive.of_not_processing ?_
          intro after hsome
          obtain rfl := Option.some.inj hsome
          simp [hafter]

/-- Every outcome a run can write now, it writes as the row's last claimant. -/
def OutcomeOwn (jobId : UUID) (s : JobRuns) : Prop :=
  ∀ run value write now after, s.runs.lookup run = some value →
    value.outcomeWrite jobId = some write → write now s.row = .ok after →
    s.claimant = some run

theorem Exclusive.outcomeOwn (hex : Exclusive s) : OutcomeOwn jobId s := by
  intro run value write now after hrun hwrite hok
  obtain ⟨hlive, -, before, hrow, hstatus⟩ := outcomeWrite_ok hwrite hok
  exact hex before hrow hstatus run value hrun hlive

end JobRuns

open JobRuns in
/-- **A run's outcome is written by that run**, in every run of the system in which no
earlier run of the row is still going when the row is claimed. -/
theorem outcome_written_by_claimant {jobId : UUID} {s : JobRuns}
    (hs : (jobRunSystem jobId).ReachableUnder (ClaimsAlone jobId) s) : OutcomeOwn jobId s := by
  have hexclusive : Exclusive s := by
    refine hs.invariant Exclusive ?_ ?_
    · rintro s ⟨hrow, -, -⟩
      exact Exclusive.of_not_processing hrow
    · intro s a t _ hex hok hstep
      exact hex.step hok hstep
  exact hexclusive.outcomeOwn

/-- A job just uploaded. -/
def uploadedJob : Job where
  ownerId := 1
  filename := "clip.mp4"
  sourceKey := "uploads/1/clip.mp4"
  createdAt := 0
  updatedAt := 0
  checks := by decide

def uploadedJobRuns : JobRuns := ⟨some uploadedJob, ∅, none⟩

/-- One run claims the job and is about to mark it done. -/
theorem outcome_written_by_claimant_oneRun :
    ∃ s, s.claimant = some 0 ∧ s.row.any (·.status = .processing) = true ∧
      JobRuns.OutcomeOwn 7 s := by
  have hinit : (jobRunSystem 7).ReachableUnder (JobRuns.ClaimsAlone 7) uploadedJobRuns := by
    refine .init ⟨?_, rfl, rfl⟩
    rintro job ⟨⟩
    decide
  obtain ⟨s, hs, hstate⟩ := hinit.exists_of_runUnder
    [.claim 0 0 1, .stepReturns 0 { outputKey := "outputs/7/video.mp4" }]
    (fun s => s.claimant = some 0 && s.row.any (·.status = .processing)) (by decide)
  rw [Bool.and_eq_true, decide_eq_true_eq] at hstate
  exact ⟨s, hstate.1, hstate.2, outcome_written_by_claimant hs⟩

/-- The first run stalls, is reaped, and its job is retried and claimed by a second run.
The first then returns at last and its `mark_done` finds the row processing. -/
theorem late_outcome_lands_on_next_run :
    ¬ ∀ s, (jobRunSystem 7).Reachable s → JobRuns.OutcomeOwn 7 s := by
  intro hown
  have hinit : (jobRunSystem 7).Reachable uploadedJobRuns := by
    refine .init ⟨?_, rfl, rfl⟩
    rintro job ⟨⟩
    decide
  obtain ⟨s, hs, hstate⟩ := StepSystem.Reachable.exists_of_run hinit
    [.claim 0 0 1, .markStaleFailed 2, .retry 1 3, .claim 1 0 4,
      .stepReturns 0 { outputKey := "outputs/7/video.mp4" }]
    (fun s => s.claimant = some 1 &&
      s.runs.lookup 0 == some ⟨0, .recordingDone { outputKey := "outputs/7/video.mp4" }⟩ &&
      (markDone 7 { outputKey := "outputs/7/video.mp4" } 5 s.row).isOk) (by decide)
  simp only [Bool.and_eq_true, decide_eq_true_eq, beq_iff_eq] at hstate
  obtain ⟨⟨hclaimant, hrun⟩, hok⟩ := hstate
  cases hdone : markDone 7 { outputKey := "outputs/7/video.mp4" } 5 s.row with
  | error e => simp [hdone, Except.isOk, Except.toBool] at hok
  | ok after =>
      have hfirst := hown s hs 0 _ _ 5 after hrun rfl hdone
      rw [hclaimant] at hfirst
      exact absurd hfirst (by decide)

end Worker
end MediaPlayer
