import MediaPlayer.Worker.JobRuns
import MediaPlayer.Worker.RowRuns
import MediaPlayer.Worker.ToldErrors

/-!
# Jobs and their files

`process_job_async` for any number of deliveries of one job, as in `jobRunSystem`, with the steps
it runs: `get_processing_step` and `get_edit_processing_step` of `app/worker/storage.py` build
them, and they share what is in storage.  The storage calls of one step are one action here.

* `ProcessingSettings.step` — the step a job is given to.
* `processed_job` — a job that is done has a whole output in storage, and what a job's error says
  was written for its owner.
-/

namespace MediaPlayer
namespace Worker

open Library Models Repositories Services Api

/-- The worker's settings, as far as the steps are built from them. -/
structure ProcessingSettings where
  outputPrefix : String
  ffmpegBinary : String
  ffprobeBinary : String
  preset : String
  crf : ℕ
  maxHeight : ℕ
  timeoutSeconds : ℕ
  probeTimeoutSeconds : ℕ
  maxDurationSeconds : ℕ
  thumbnailMaxWidth : ℕ
  thumbnailMaxHeight : ℕ
  chunkedMp4 : Bool
  chunkMinDurationSeconds : ℕ

namespace ProcessingSettings

variable (settings : ProcessingSettings)

def prober : Prober := ⟨settings.ffprobeBinary, settings.probeTimeoutSeconds⟩

def thumbnailer : Thumbnailer :=
  ⟨settings.ffmpegBinary, settings.thumbnailMaxWidth, settings.thumbnailMaxHeight,
    settings.probeTimeoutSeconds⟩

/-- `get_processing_step`. -/
def processingStep : FfmpegProcessor where
  outputPrefix := settings.outputPrefix
  ffmpegBinary := settings.ffmpegBinary
  preset := settings.preset
  crf := settings.crf
  maxHeight := settings.maxHeight
  timeoutSeconds := settings.timeoutSeconds
  buildsLadder := true
  prober := some settings.prober
  sourceCheck := some settings.maxDurationSeconds
  thumbnailer := some settings.thumbnailer
  chunked := if settings.chunkedMp4 then
    some (settings.chunkMinDurationSeconds, settings.timeoutSeconds) else none
  reportsProgress := true

/-- `get_edit_processing_step`. -/
def editProcessingStep (operations : List EditOperation) : EditProcessor where
  operations
  outputPrefix := settings.outputPrefix
  ffmpegBinary := settings.ffmpegBinary
  preset := settings.preset
  crf := settings.crf
  timeoutSeconds := settings.timeoutSeconds
  prober := settings.prober
  thumbnailer := some settings.thumbnailer

/-- `selected_step`. -/
def step (job : Job) : ProcessingStep :=
  match job.operations with
  | none => .ffmpeg settings.processingStep
  | some operations => .edit (settings.editProcessingStep operations)

end ProcessingSettings

/-! ## The system -/

/-- What a step met that was run, and the frame rate it was given. -/
structure RanStep where
  world : StepWorld
  maxFps : ℕ

/-- The runs of a job, with what is in storage, and the steps that were run so far, which nobody
reads. -/
structure ProcessedJob extends JobRuns where
  objects : Objects
  ran : List RanStep := []

inductive ProcessedAction
  /-- The step of a run; `stopRequested` says whether the worker was told to stop. -/
  | process (run : ℕ) (world : StepWorld) (stopRequested : Bool)
  /-- Any other step of the runs. -/
  | run (action : JobRunAction)

/-- An action that says what a step came to. -/
def JobRunAction.ofStep : JobRunAction → Bool
  | stepReturns .. | stepRaises .. => true
  | _ => false

/-- What a run does with the end of its step. -/
def stepEnd (run : ℕ) (stopRequested : Bool) :
    EStateM.Result StepError Objects ProcessingResult → JobRunAction × Objects
  | .ok result after => (.stepReturns run result, after)
  | .error e after =>
      (e.failure.elim (.dies run) fun failure => .stepRaises run failure stopRequested, after)

namespace ProcessedJob

/-- One atomic step. -/
def step (settings : ProcessingSettings) (jobId : UUID) (s : ProcessedJob) :
    ProcessedAction → Option ProcessedJob
  | .process run world stopRequested =>
      match s.runs.lookup run with
      | some ⟨_, .encoding job⟩ =>
          let (action, after) := stepEnd run stopRequested
            ((settings.step job).run world jobId job.sourceKey job.maxFps.toNat s.objects)
          (JobRuns.step jobId s.toJobRuns action).map
            (⟨·, after, s.ran ++ [⟨world, job.maxFps.toNat⟩]⟩)
      | _ => none
  | .run action =>
      if action.ofStep then none
      else (JobRuns.step jobId s.toJobRuns action).map (⟨·, s.objects, s.ran⟩)

end ProcessedJob

/-- The row of a job that was just made. -/
def Fresh (job : Job) : Prop := job.status = .queued ∧ Unfilled job

/-- Any number of deliveries of a job that was just made, whatever is in storage. -/
def processedSystem (settings : ProcessingSettings) (jobId : UUID) :
    StepSystem ProcessedJob ProcessedAction where
  init s := (∃ job, s.row = some job ∧ Fresh job) ∧ s.runs = ∅ ∧ s.claimant = none ∧ s.ran = []
  step := ProcessedJob.step settings jobId

/-! ## What is kept -/

/-- What a step promises of its output, for as long as nobody deletes the job: under its key a whole
file that FFmpeg wrote in one of the steps that were run, and a poster frame where it names one. -/
structure Delivered (step : ProcessingStep) (jobId : UUID) (sourceKey : String)
    (objects : Objects) (ran : List RanStep) (outputKey : Option String)
    (thumbnailKey : Option String) : Prop where
  outputKey : outputKey = some (outputKeyAs step.root jobId sourceKey step.extension)
  output : ∃ other ∈ ran,
    (step.destination other.world jobId sourceKey other.maxFps).HasOutput objects
  thumbnail : ∀ key ∈ thumbnailKey, key = thumbnailKeyFor step.root jobId ∧
    ∃ picture, picture ≠ [] ∧ objects key = some ⟨thumbnailContentType, picture⟩

/-- Rows of one job, as its steps see them. -/
structure SameSource (a b : Job) : Prop where
  operations : a.operations = b.operations
  sourceKey : a.sourceKey = b.sourceKey

/-- What a run may be about to write. -/
def PhaseKept (settings : ProcessingSettings) (jobId : UUID) (job : Job) (objects : Objects)
    (ran : List RanStep) : RunPhase → Prop
  | .encoding claimed => SameSource claimed job
  | .recordingFailure reason => ∃ failure, Worded failure ∧ reason = readableError failure
  | .recordingDone result => Delivered (settings.step job) jobId job.sourceKey objects ran
      (some result.outputKey) result.thumbnailKey
  | _ => True

/-- The invariant: what the row says is so, and so is what a run is about to write on it. -/
structure RowKept (settings : ProcessingSettings) (jobId : UUID) (objects : Objects)
    (ran : List RanStep) (job : Job) : Prop where
  error : ∀ error, job.error = some error → Told error
  done : job.status = .done →
    Delivered (settings.step job) jobId job.sourceKey objects ran job.outputKey job.thumbnailKey

/-- The invariant. -/
def ProcessedJob.Kept (settings : ProcessingSettings) (jobId : UUID) (s : ProcessedJob) : Prop :=
  ∃ job, s.row = some job ∧ RowKept settings jobId s.objects s.ran job ∧
    ∀ run value, s.runs.lookup run = some value →
      PhaseKept settings jobId job s.objects s.ran value.phase

section

variable {settings : ProcessingSettings} {jobId : UUID} {objects : Objects} {ran : List RanStep}
  {before after : Job}

/-! ### The row -/

theorem SameSource.step (hsame : SameSource after before) :
    settings.step after = settings.step before := by
  unfold ProcessingSettings.step
  rw [hsame.operations]

theorem PhaseKept.row {phase : RunPhase}
    (hphase : PhaseKept settings jobId before objects ran phase)
    (hsame : SameSource after before) : PhaseKept settings jobId after objects ran phase := by
  cases phase with
  | encoding claimed =>
      exact ⟨hphase.operations.trans hsame.operations.symm,
        hphase.sourceKey.trans hsame.sourceKey.symm⟩
  | recordingDone result =>
      unfold PhaseKept at hphase ⊢
      rw [hsame.step, hsame.sourceKey]
      exact hphase
  | recordingFailure reason => exact hphase
  | givingBack | handingOff | returned | raised => trivial

/-- A transition that does not finish the job. -/
theorem kept_of_transition {expected next : JobStatus} {values : TransitionValues}
    {now : Timestamp} (hnext : next ≠ .done) (herror : ∀ error ∈ values.error, Told error)
    (hok : transition jobId expected next values now (some before) = .ok after) :
    SameSource after before ∧ RowKept settings jobId objects ran after := by
  obtain ⟨row, hrow, -, hcolumns⟩ := transition_ok hok
  obtain rfl := Option.some.inj hrow
  refine ⟨⟨?_, ?_⟩, ⟨fun error hsome => herror error ?_, fun hdone => absurd ?_ hnext⟩⟩
  · rw [hcolumns]
    rfl
  · rw [hcolumns]
    rfl
  · rw [hcolumns] at hsome
    exact hsome
  · rw [hcolumns] at hdone
    exact hdone

/-- The job is done with what its step has delivered. -/
theorem kept_of_markDone {result : ProcessingResult} {now : Timestamp}
    (hdelivered : Delivered (settings.step before) jobId before.sourceKey objects ran
      (some result.outputKey) result.thumbnailKey)
    (hok : markDone jobId result.doneValues now (some before) = .ok after) :
    SameSource after before ∧ RowKept settings jobId objects ran after := by
  obtain ⟨row, hrow, -, hcolumns⟩ := transition_ok (markDone_transition hok)
  obtain rfl := Option.some.inj hrow
  have hsame : SameSource after before := by
    constructor <;> rw [hcolumns] <;> rfl
  refine ⟨hsame, ⟨fun error hsome => ?_, fun _ => ?_⟩⟩
  · rw [hcolumns] at hsome
    exact absurd hsome (by simp [transitionColumns])
  · rw [hsame.step, hsame.sourceKey, hcolumns]
    exact hdelivered

/-- The ladder of a job that is done is given up. -/
theorem kept_of_markLadderUnavailable {now : Timestamp}
    (hkept : RowKept settings jobId objects ran before)
    (hok : markLadderUnavailable now (some before) = .ok (some after)) :
    SameSource after before ∧ RowKept settings jobId objects ran after := by
  obtain ⟨row, hrow, hdone, -, hcolumns⟩ := settleLadder_some hok
  obtain rfl := Option.some.inj hrow
  have hsame : SameSource after before := by
    constructor <;> rw [hcolumns]
  refine ⟨hsame, ⟨fun error hsome => hkept.error error ?_, fun _ => ?_⟩⟩
  · rw [hcolumns] at hsome
    exact hsome
  · rw [hsame.step, hsame.sourceKey, hcolumns]
    exact hkept.done hdone

theorem kept_of_markStaleFailed {now : Timestamp}
    (hok : markStaleFailed now (some before) = .ok (some after)) :
    SameSource after before ∧ RowKept settings jobId objects ran after := by
  obtain ⟨row, hrow, -, hcolumns⟩ := markStaleFailed_columns hok
  obtain rfl := Option.some.inj hrow
  refine ⟨⟨?_, ?_⟩, ⟨fun error hsome => ?_, fun hdone => ?_⟩⟩
  · rw [hcolumns]
  · rw [hcolumns]
  · rw [hcolumns] at hsome
    exact Option.some.inj hsome ▸ told_stoppedResponding
  · rw [hcolumns] at hdone
    exact absurd hdone (by simp)

theorem kept_of_prepareRetry {ownerId : UUID} {now : Timestamp}
    (hok : prepareRetry jobId ownerId now (some before) = .ok after) :
    SameSource after before ∧ RowKept settings jobId objects ran after := by
  obtain ⟨row, hrow, -, -, hcolumns⟩ := prepareRetry_columns hok
  obtain rfl := Option.some.inj hrow
  refine ⟨⟨?_, ?_⟩, ⟨fun error hsome => ?_, fun hdone => ?_⟩⟩
  · rw [hcolumns]
  · rw [hcolumns]
  · rw [hcolumns] at hsome
    exact absurd hsome (by simp)
  · rw [hcolumns] at hdone
    exact absurd hdone (by simp)

/-- An outcome that a run writes. -/
theorem kept_of_outcomeWrite {value : Run} {write : Timestamp → Option Job → Except JobError Job}
    {now : Timestamp} (hphase : PhaseKept settings jobId before objects ran value.phase)
    (hwrite : value.outcomeWrite jobId = some write) (hok : write now (some before) = .ok after) :
    SameSource after before ∧ RowKept settings jobId objects ran after := by
  obtain ⟨interruptions, phase⟩ := value
  cases phase with
  | recordingFailure reason =>
      obtain rfl := Option.some.inj hwrite
      obtain ⟨failure, hworded, rfl⟩ := hphase
      refine kept_of_transition (by simp) (fun error herror => ?_) (markFailed_transition hok)
      exact Option.some.inj herror ▸ told_of_failure hworded
  | recordingDone result =>
      obtain rfl := Option.some.inj hwrite
      exact kept_of_markDone hphase hok
  | givingBack =>
      simp only [Run.outcomeWrite] at hwrite
      split at hwrite
      · obtain rfl := Option.some.inj hwrite
        refine kept_of_transition (by simp) (fun error herror => ?_) (markFailed_transition hok)
        exact Option.some.inj herror ▸ told_interruptedTooOften
      · obtain rfl := Option.some.inj hwrite
        exact kept_of_transition (by simp) (by simp) hok
  | encoding | handingOff | returned | raised => exact absurd hwrite (by simp [Run.outcomeWrite])

/-- A run that has written an outcome is about to write nothing more. -/
theorem phaseKept_afterWrite {value : Run} {write : Timestamp → Option Job → Except JobError Job}
    (hwrite : value.outcomeWrite jobId = some write) :
    PhaseKept settings jobId after objects ran value.afterWrite := by
  obtain ⟨interruptions, phase⟩ := value
  cases phase with
  | recordingFailure reason => trivial
  | recordingDone result =>
      unfold Run.afterWrite
      dsimp only
      split <;> trivial
  | givingBack =>
      unfold Run.afterWrite
      dsimp only
      split <;> trivial
  | encoding | handingOff | returned | raised => exact absurd hwrite (by simp [Run.outcomeWrite])

/-! ### Storage -/

/-- The end of a step leaves what the job's steps have delivered, or replaces it by as much. -/
theorem Delivered.after_step {step : ProcessingStep} {sourceKey : String} {maxFps : ℕ}
    {w : StepWorld} {outputKey thumbnailKey : Option String}
    (hdelivered : Delivered step jobId sourceKey objects ran outputKey thumbnailKey)
    {action : JobRunAction} {run : ℕ} {stopRequested : Bool} {later : Objects}
    (hend : stepEnd run stopRequested (step.run w jobId sourceKey maxFps objects) =
      (action, later)) :
    Delivered step jobId sourceKey later (ran ++ [⟨w, maxFps⟩]) outputKey thumbnailKey := by
  have hapart := destination_apart step w jobId sourceKey maxFps
  have hchanged : (later (step.destination w jobId sourceKey maxFps).outputKey =
        objects (step.destination w jobId sourceKey maxFps).outputKey ∨
      (step.destination w jobId sourceKey maxFps).HasOutput later) ∧
      (later (step.destination w jobId sourceKey maxFps).thumbnailKey =
        objects (step.destination w jobId sourceKey maxFps).thumbnailKey ∨
      (step.destination w jobId sourceKey maxFps).HasThumbnail later) := by
    have hrun := processing_run step w jobId sourceKey maxFps objects
    cases hresult : step.run w jobId sourceKey maxFps objects with
    | ok result after =>
        rw [hresult] at hend
        obtain ⟨-, rfl⟩ := Prod.mk.inj hend
        have hreturned := hrun.ok rfl hresult
        exact ⟨Or.inr hreturned.output, hreturned.picture⟩
    | error e after =>
        rw [hresult] at hend
        obtain ⟨-, rfl⟩ := Prod.mk.inj hend
        rcases (hrun.error rfl hresult).1 with hkept | huploaded | ⟨-, hillustrated⟩
        · exact ⟨Or.inl (hkept _ hapart.output), Or.inl (hkept _ hapart.thumbnail)⟩
        · exact ⟨Or.inr huploaded.output,
            Or.inl (huploaded.kept _ hapart.thumbnail hapart.ne.symm)⟩
        · exact ⟨Or.inr hillustrated.output, Or.inr hillustrated.thumbnail⟩
  refine ⟨hdelivered.outputKey, ?_, fun key hkey => ?_⟩
  · rcases hchanged.1 with hsame | hnew
    · obtain ⟨other, hran, content, hmade, hstored⟩ := hdelivered.output
      exact ⟨other, List.mem_append_left _ hran, content, hmade, hsame.trans hstored⟩
    · exact ⟨⟨w, maxFps⟩, List.mem_append_right _ (List.mem_singleton_self _), hnew⟩
  · obtain ⟨rfl, picture, hpicture, hstored⟩ := hdelivered.thumbnail key hkey
    refine ⟨rfl, ?_⟩
    rcases hchanged.2 with hsame | hnew
    · exact ⟨picture, hpicture, hsame.trans hstored⟩
    · exact hnew

/-- What a step has delivered that returns. -/
theorem delivered_of_returned {step : ProcessingStep} {sourceKey : String} {w : StepWorld}
    {maxFps : ℕ} {result : ProcessingResult} {later : Objects}
    (hreturned : Returned step (step.destination w jobId sourceKey maxFps) jobId objects result
      later) :
    Delivered step jobId sourceKey later (ran ++ [⟨w, maxFps⟩]) (some result.outputKey)
      result.thumbnailKey := by
  refine ⟨congrArg some hreturned.outputKey,
    ⟨_, List.mem_append_right _ (List.mem_singleton_self _), hreturned.output⟩,
    fun key hkey => ?_⟩
  rcases hreturned.thumbnail with hnone | ⟨hsome, hstored⟩
  · rw [hnone] at hkey
    exact absurd hkey (by simp)
  · rw [hsome] at hkey
    obtain rfl := Option.some.inj hkey
    exact ⟨rfl, hstored⟩

theorem RowKept.after_objects {later : Objects} {laterRan : List RanStep} {job : Job}
    (hkept : RowKept settings jobId objects ran job)
    (hdelivered : ∀ outputKey thumbnailKey,
      Delivered (settings.step job) jobId job.sourceKey objects ran outputKey thumbnailKey →
        Delivered (settings.step job) jobId job.sourceKey later laterRan outputKey thumbnailKey) :
    RowKept settings jobId later laterRan job :=
  ⟨hkept.error, fun hdone => hdelivered _ _ (hkept.done hdone)⟩

end

/-! ### The runs -/

namespace ProcessedJob

variable {settings : ProcessingSettings} {jobId : UUID} {s t : ProcessedJob}

/-- What a step came to, as the run that takes it finds it. -/
def ActionKept (settings : ProcessingSettings) (jobId : UUID) (job : Job) (objects : Objects)
    (ran : List RanStep) : JobRunAction → Prop
  | .stepReturns _ result => Delivered (settings.step job) jobId job.sourceKey objects ran
      (some result.outputKey) result.thumbnailKey
  | .stepRaises _ failure _ => Worded failure
  | _ => True

/-- The row moves on, and at most one run with it. -/
theorem kept_of_moved {runs : JobRuns} {objects : Objects} {ran : List RanStep}
    {before after : Job} {jobRuns : JobRuns}
    (hbefore : ∀ run value, jobRuns.runs.lookup run = some value →
      PhaseKept settings jobId before objects ran value.phase)
    (hmoved : SameSource after before ∧ RowKept settings jobId objects ran after)
    (hrow : runs.row = some after)
    (hruns : ∀ run value, runs.runs.lookup run = some value →
      jobRuns.runs.lookup run = some value ∨
        PhaseKept settings jobId after objects ran value.phase) :
    Kept settings jobId ⟨runs, objects, ran⟩ :=
  ⟨after, hrow, hmoved.2, fun run value hlookup =>
    (hruns run value hlookup).elim (fun hold => (hbefore run value hold).row hmoved.1) id⟩

theorem lookup_setRun {runs : JobRuns} {run : ℕ} {next : Run} {p : Run → Prop} (hnext : p next)
    (other : ℕ) (value : Run) (hlookup : (runs.setRun run next).runs.lookup other = some value) :
    runs.runs.lookup other = some value ∨ p value :=
  Parties.forall_insert (p := fun other value => runs.runs.lookup other = some value ∨ p value)
    (fun _ _ _ hold => Or.inl hold) (Or.inr hnext) other value hlookup

/-- A step of the runs. -/
theorem Kept.jobStep {runs after : JobRuns} {objects : Objects} {ran : List RanStep} {job : Job}
    {action : JobRunAction} (hrow : runs.row = some job)
    (hkept : RowKept settings jobId objects ran job)
    (hphases : ∀ run value, runs.runs.lookup run = some value →
      PhaseKept settings jobId job objects ran value.phase)
    (haction : ActionKept settings jobId job objects ran action)
    (hstep : JobRuns.step jobId runs action = some after) :
    Kept settings jobId ⟨after, objects, ran⟩ := by
  have hstays : SameSource job job ∧ RowKept settings jobId objects ran job := ⟨⟨rfl, rfl⟩, hkept⟩
  cases action with
  | claim run interruptions now =>
      cases hrun : runs.runs.lookup run with
      | some value => simp [JobRuns.step, hrun] at hstep
      | none =>
          rw [JobRuns.step, hrun, hrow] at hstep
          cases hclaim : markProcessing jobId now (some job) with
          | ok claimed =>
              simp only [hclaim] at hstep
              obtain rfl := Option.some.inj hstep
              have hmoved : SameSource claimed job ∧ RowKept settings jobId objects ran claimed :=
                kept_of_transition (by simp) (by simp) hclaim
              exact kept_of_moved hphases hmoved rfl (lookup_setRun ⟨rfl, rfl⟩)
          | error e =>
              simp only [hclaim] at hstep
              obtain rfl := Option.some.inj hstep
              refine kept_of_moved hphases hstays hrow (lookup_setRun ?_)
              cases e <;> trivial
  | stepReturns run result =>
      rw [JobRuns.step] at hstep
      split at hstep
      · obtain rfl := Option.some.inj hstep
        exact kept_of_moved hphases hstays hrow (lookup_setRun haction)
      · exact absurd hstep (by simp)
  | stepRaises run failure stopRequested =>
      rw [JobRuns.step] at hstep
      split at hstep
      · obtain rfl := Option.some.inj hstep
        refine kept_of_moved hphases hstays hrow (lookup_setRun ?_)
        cases stopRequested with
        | true => trivial
        | false => exact ⟨failure, haction, rfl⟩
      · exact absurd hstep (by simp)
  | writeOutcome run now =>
      obtain ⟨value, hrun, hmap⟩ := Option.bind_eq_some_iff.mp hstep
      obtain ⟨write, hwrite, rfl⟩ := Option.map_eq_some_iff.mp hmap
      rw [hrow]
      cases hresult : write now (some job) with
      | ok written =>
          have hmoved := kept_of_outcomeWrite (hphases run value hrun) hwrite hresult
          exact kept_of_moved hphases hmoved rfl (lookup_setRun (phaseKept_afterWrite hwrite))
      | error e =>
          refine kept_of_moved hphases hstays hrow (lookup_setRun ?_)
          cases e <;> trivial
  | handOff run enqueued now =>
      rw [JobRuns.step] at hstep
      split at hstep
      · split at hstep
        · obtain rfl := Option.some.inj hstep
          exact kept_of_moved hphases hstays hrow (lookup_setRun trivial)
        · rw [hrow] at hstep
          cases hgiven : markLadderUnavailable now (some job) with
          | error e =>
              simp only [hgiven] at hstep
              obtain rfl := Option.some.inj hstep
              exact kept_of_moved hphases hstays hrow (lookup_setRun trivial)
          | ok row =>
              simp only [hgiven] at hstep
              obtain rfl := Option.some.inj hstep
              cases row with
              | none => exact kept_of_moved hphases hstays hrow (lookup_setRun trivial)
              | some written =>
                  exact kept_of_moved hphases (kept_of_markLadderUnavailable hkept hgiven) rfl
                    (lookup_setRun trivial)
      · exact absurd hstep (by simp)
  | dies run =>
      obtain ⟨value, hrun, rfl⟩ := Option.map_eq_some_iff.mp hstep
      exact kept_of_moved hphases hstays hrow (lookup_setRun trivial)
  | markStaleFailed now =>
      rw [JobRuns.step, hrow] at hstep
      cases hfailed : Repositories.markStaleFailed now (some job) with
      | error e =>
          simp only [hfailed] at hstep
          obtain rfl := Option.some.inj hstep
          exact kept_of_moved hphases hstays hrow fun _ _ => Or.inl
      | ok row =>
          simp only [hfailed] at hstep
          obtain rfl := Option.some.inj hstep
          cases row with
          | none => exact kept_of_moved hphases hstays hrow fun _ _ => Or.inl
          | some written =>
              exact kept_of_moved hphases (kept_of_markStaleFailed hfailed) rfl fun _ _ => Or.inl
  | retry ownerId now =>
      rw [JobRuns.step, hrow] at hstep
      cases hretry : prepareRetry jobId ownerId now (some job) with
      | error e =>
          simp only [hretry] at hstep
          obtain rfl := Option.some.inj hstep
          exact kept_of_moved hphases hstays hrow fun _ _ => Or.inl
      | ok written =>
          simp only [hretry] at hstep
          obtain rfl := Option.some.inj hstep
          exact kept_of_moved hphases (kept_of_prepareRetry hretry) rfl fun _ _ => Or.inl

/-- The step of a run, and what the run makes of it. -/
theorem Kept.process (hs : Kept settings jobId s) {run : ℕ} {world : StepWorld}
    {stopRequested : Bool}
    (hstep : ProcessedJob.step settings jobId s (.process run world stopRequested) = some t) :
    Kept settings jobId t := by
  obtain ⟨job, hrow, hkept, hphases⟩ := hs
  simp only [ProcessedJob.step] at hstep
  split at hstep
  · rename_i interruptions claimed hrun
    obtain ⟨runs, hjob, rfl⟩ := Option.map_eq_some_iff.mp hstep
    have hclaimed : SameSource claimed job := hphases run _ hrun
    have hsame : settings.step claimed = settings.step job := hclaimed.step
    rw [hsame, hclaimed.sourceKey] at hjob ⊢
    set ended := (settings.step job).run world jobId job.sourceKey claimed.maxFps.toNat s.objects
      with hended
    cases hend : stepEnd run stopRequested ended with
    | mk action later =>
        rw [hend] at hjob
        have hafter : ∀ outputKey thumbnailKey,
            Delivered (settings.step job) jobId job.sourceKey s.objects s.ran outputKey
              thumbnailKey →
            Delivered (settings.step job) jobId job.sourceKey later
              (s.ran ++ [⟨world, claimed.maxFps.toNat⟩]) outputKey thumbnailKey :=
          fun _ _ hdelivered => hdelivered.after_step hend
        refine Kept.jobStep hrow (hkept.after_objects hafter) ?_ ?_ hjob
        · intro other value hlookup
          have hphase := hphases other value hlookup
          generalize value.phase = phase at hphase ⊢
          cases phase with
          | recordingDone result => exact hafter _ _ hphase
          | encoding | recordingFailure | givingBack | handingOff | returned | raised =>
              exact hphase
        · have hran := processing_run (settings.step job) world jobId job.sourceKey
            claimed.maxFps.toNat s.objects
          cases hresult : ended with
          | ok result after =>
              rw [hresult] at hend
              obtain ⟨rfl, rfl⟩ := Prod.mk.inj hend
              exact delivered_of_returned (hran.ok rfl hresult)
          | error e after =>
              rw [hresult] at hend
              obtain ⟨rfl, rfl⟩ := Prod.mk.inj hend
              have htells := (hran.error rfl hresult).2
              cases hfailure : e.failure with
              | none => trivial
              | some failure => exact htells.worded hfailure
  · exact absurd hstep (by simp)

theorem Kept.step (hs : Kept settings jobId s) {action : ProcessedAction}
    (hstep : ProcessedJob.step settings jobId s action = some t) : Kept settings jobId t := by
  cases action with
  | process run world stopRequested => exact hs.process hstep
  | run action =>
      obtain ⟨job, hrow, hkept, hphases⟩ := hs
      simp only [ProcessedJob.step] at hstep
      split at hstep
      · exact absurd hstep (by simp)
      · rename_i hother
        obtain ⟨runs, hjob, rfl⟩ := Option.map_eq_some_iff.mp hstep
        refine Kept.jobStep hrow hkept hphases ?_ hjob
        cases action with
        | stepReturns | stepRaises => exact absurd rfl hother
        | claim | writeOutcome | handOff | dies | markStaleFailed | retry => trivial

theorem kept_of_fresh (hinit : (processedSystem settings jobId).init s) :
    Kept settings jobId s := by
  obtain ⟨⟨job, hrow, hqueued, hunfilled⟩, hruns, -, -⟩ := hinit
  refine ⟨job, hrow, ⟨fun error herror => ?_, fun hdone => ?_⟩, fun run value hlookup => ?_⟩
  · have hchecks := job.checks.error
    rw [if_neg (by simp [hqueued])] at hchecks
    rw [hchecks] at herror
    exact absurd herror (by simp)
  · rw [hqueued] at hdone
    exact absurd hdone (by simp)
  · rw [hruns] at hlookup
    exact absurd hlookup (by simp)

theorem Kept.of_reachable (hs : (processedSystem settings jobId).Reachable s) :
    Kept settings jobId s :=
  hs.invariant _ (fun _ hinit => kept_of_fresh hinit) fun _ _ _ _ hkept _ hstep => hkept.step hstep

end ProcessedJob

/-- However the deliveries of a job and their steps go, whatever FFmpeg and the store do: what the
job's error says was written for its owner, has no path or key in it and fits on a screen, and a job
that is done has in storage, under the key it names, a whole file that FFmpeg wrote in one of its
steps, and a poster frame where it names one. -/
theorem processed_job {settings : ProcessingSettings} {jobId : UUID} {s : ProcessedJob}
    (hs : (processedSystem settings jobId).Reachable s) :
    ∃ job, s.row = some job ∧ (∀ error, job.error = some error → Told error) ∧
      (job.status = .done → Delivered (settings.step job) jobId job.sourceKey s.objects s.ran
        job.outputKey job.thumbnailKey) := by
  obtain ⟨job, hrow, hkept, -⟩ := ProcessedJob.Kept.of_reachable hs
  exact ⟨job, hrow, hkept.error, hkept.done⟩

/-- The settings of a worker that encodes every upload in one run. -/
def singleRunSettings : ProcessingSettings where
  outputPrefix := "outputs"
  ffmpegBinary := "ffmpeg"
  ffprobeBinary := "ffprobe"
  preset := "veryfast"
  crf := 23
  maxHeight := 1080
  timeoutSeconds := 870
  probeTimeoutSeconds := 30
  maxDurationSeconds := 3600
  thumbnailMaxWidth := 640
  thumbnailMaxHeight := 360
  chunkedMp4 := false
  chunkMinDurationSeconds := 120

/-- What ffprobe prints of a clip of eight seconds. -/
def clipProbe : Json :=
  .obj [("streams", .arr [.obj [("width", .int 320), ("height", .int 240)]]),
    ("format", .obj [("duration", .str "8.000000")])]

/-- A run in which every call succeeds. -/
def clipWorld : StepWorld where
  tempDir := "/tmp/clip"
  store _ := {}
  tool _ := .exited 0 "" "" (some [0xff])
  pieced := .declined
  pieces _ := none
  numbers := ⟨fun _ => "8.0", fun _ => "8"⟩
  milliseconds _ := "1.000"
  texts := ⟨fun _ => some clipProbe, fun _ => "None", fun _ => "''"⟩

/-- A job just uploaded, with its file. -/
def clipInStorage : ProcessedJob where
  row := some uploadedJob
  runs := ∅
  claimant := none
  objects key := if key = "uploads/1/clip.mp4" then some ⟨"video/mp4", [0xff]⟩ else none

instance (job : Job) : Decidable (Unfilled job) :=
  decidable_of_iff
    (job.outputKey = none ∧ job.hlsKey = none ∧ job.width = none ∧ job.height = none ∧
      job.durationSeconds = none ∧ job.thumbnailKey = none ∧ job.previewKey = none)
    ⟨fun ⟨houtput, hhls, hwidth, hheight, hduration, hthumbnail, hpreview⟩ =>
        ⟨houtput, hhls, hwidth, hheight, hduration, hthumbnail, hpreview⟩,
      fun ⟨houtput, hhls, hwidth, hheight, hduration, hthumbnail, hpreview⟩ =>
        ⟨houtput, hhls, hwidth, hheight, hduration, hthumbnail, hpreview⟩⟩

/-- The first run is about to record what its step returned. -/
def ProcessedJob.recording (s : ProcessedJob) : Bool :=
  match s.runs.lookup 0 with
  | some ⟨_, .recordingDone result⟩ =>
      s.row.any fun job => decide (job.status = .processing ∧ Unfilled job ∧
        (RowOp.markDone result).Promised)
  | _ => false

theorem strip_objectKey_ne (root : String) (jobId : UUID) (name : String) :
    strip (objectKey root jobId name) ≠ "" := by
  refine strip_ne_of_mem (c := '/') ?_ (by decide)
  unfold objectKey
  simp only [String.toList_append]
  exact List.mem_append_left _ (List.mem_append_right _ (by decide))

/-- The clip is claimed, encoded, stored and recorded. -/
theorem processed_job_clip :
    ∃ s : ProcessedJob, ∃ job, s.row = some job ∧ job.status = .done ∧
      Delivered (singleRunSettings.step job) 7 job.sourceKey s.objects s.ran job.outputKey
        job.thumbnailKey := by
  have hinit : (processedSystem singleRunSettings 7).Reachable clipInStorage :=
    .init ⟨⟨uploadedJob, rfl, rfl, by decide⟩, rfl, rfl, rfl⟩
  obtain ⟨s, hs, hrecording⟩ := hinit.exists_of_run
    [.run (.claim 0 0 1), .process 0 clipWorld false] (·.recording) (by decide +kernel)
  obtain ⟨job, hrow, -, hphases⟩ := ProcessedJob.Kept.of_reachable hs
  unfold ProcessedJob.recording at hrecording
  split at hrecording
  · rename_i interruptions result hrun
    rw [hrow, Option.any_some, decide_eq_true_eq] at hrecording
    obtain ⟨hstatus, hunfilled, hpromised⟩ := hrecording
    have hdelivered : Delivered (singleRunSettings.step job) 7 job.sourceKey s.objects s.ran
        (some result.outputKey) result.thumbnailKey := hphases 0 _ hrun
    have hplain : Plain (some job) := by
      rintro _ ⟨⟩ -
      exact hunfilled
    have houtput : strip result.outputKey ≠ "" := by
      rw [Option.some.inj hdelivered.outputKey]
      exact strip_objectKey_ne _ _ _
    have hthumbnail : ∀ key ∈ result.thumbnailKey, strip key ≠ "" := by
      intro key hkey
      rw [(hdelivered.thumbnail key hkey).1]
      exact strip_objectKey_ne _ _ _
    obtain ⟨after, hmark, -, -⟩ :=
      markDone_of_processing hplain hstatus hpromised houtput hthumbnail 7 2
    obtain ⟨-, -, -, hdone, -⟩ := markDone_ok hmark
    have hstep : ∃ t : ProcessedJob, t.row = some after ∧
        (processedSystem singleRunSettings 7).step s (.run (.writeOutcome 0 2)) = some t := by
      refine ⟨⟨(s.written (some after)).setRun 0 ⟨interruptions, Run.afterWrite ⟨interruptions,
        .recordingDone result⟩⟩, s.objects, s.ran⟩, rfl, ?_⟩
      simp only [processedSystem, ProcessedJob.step, JobRunAction.ofStep, JobRuns.step, hrun,
        Run.outcomeWrite, hrow, hmark, Option.bind_some, Option.map_some]
      rfl
    obtain ⟨t, ht, hstep⟩ := hstep
    obtain ⟨written, hwritten, -, hkept⟩ := processed_job (hs.next hstep)
    obtain rfl := Option.some.inj (ht.symm.trans hwritten)
    exact ⟨t, after, ht, hdone, hkept hdone⟩
  · exact absurd hrecording (by simp)

end Worker
end MediaPlayer
