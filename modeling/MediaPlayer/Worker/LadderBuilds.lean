import MediaPlayer.Worker.Tasks

/-!
# Ladder builds of one job

`build_ladder_async` of `app/worker/tasks.py` with `HlsLadderBuilder.run`, `build` and
`discard` of `app/worker/hls.py`, for any number of builds of one job, together with
the writes of the reaper and of a failed hand-off.  Every database call and every
storage call is one step; a call may raise before or after it took effect.

All builds of a job upload under one prefix, and each discards what is under it when it
is interrupted or finds its row settled:

* `NobodyAtWork` — once the row records a ladder, no build is between its check of the
  row and its own clean-up; every step that records a ladder alone keeps it.
* `ready_ladder_keeps_objects` — so nothing under the prefix is removed any more.
* `second_build_discards_ready_ladder` — two builds of one delivery: the second finds
  the row settled by the first, and discards the first one's segments.
-/

namespace MediaPlayer
namespace Worker

open Library Models Repositories

def masterPlaylistName : String := "master.m3u8"

/-- `prefix_for`; the builder is made with the output prefix stripped of slashes. -/
def prefixFor (outputPrefix : String) (jobId : UUID) : String := s!"{outputPrefix}/{jobId}/hls"

/-- The key `build` returns. -/
def masterKey (keyPrefix : String) : String := s!"{keyPrefix}/{masterPlaylistName}"

/-- The order `build` uploads in: as found, but the master last. -/
def uploadOrder (files : List String) : List String :=
  files.filter (· != masterPlaylistName) ++ files.filter (· == masterPlaylistName)

/-- An upload's ladder is cut from the original, an edit's from the edit. -/
def ladderInput (job : Job) : Option String :=
  if job.operations.isNone then some job.sourceKey else job.outputKey

/-- What a build returns: the ladder state it settled on, `interrupted`, or nothing. -/
inductive BuildOutcome
  | ready
  | unavailable
  | interrupted
  | nothing
  deriving DecidableEq

/-- Where a build stands between two of its steps. -/
inductive BuildPhase
  | checking
  | building (input : Option String)
  | uploading (left : List String)
  | recording (hlsKey : String)
  | givingUp
  | discarding (outcome : BuildOutcome)
  | removing (left : List String) (outcome : BuildOutcome)
  | returned (outcome : BuildOutcome)
  | raised
  deriving DecidableEq

structure LadderBuild where
  interruptions : ℕ
  phase : BuildPhase
  deriving DecidableEq

/-- A build that has seen the ladder pending and may still record or discard one. -/
def LadderBuild.atWork (build : LadderBuild) : Bool :=
  match build.phase with
  | .building _ | .uploading _ | .recording _ | .discarding _ | .removing _ _ => true
  | .checking | .givingUp | .returned _ | .raised => false

/-- The row, and the keys of the objects under the ladder's prefix. -/
structure LadderShared where
  row : Option Job
  objects : List String

/-- What the world shows a build in one step: the clock, how its call ends, whether the
worker is being stopped, and the files its encode left. -/
structure BuildWorld where
  now : Timestamp := 0
  out : CallOutcome := .returned
  stopRequested : Bool := false
  files : List String := []

namespace LadderBuild

/-- `except Exception` around `ladder_step.run`: stopped, not broken, and not too often
-- or given up. -/
def onFailure (build : LadderBuild) (world : BuildWorld) : BuildPhase :=
  if world.stopRequested && build.interruptions + 1 < maxInterruptions then
    .discarding .interrupted
  else .givingUp

/-- What `build_ladder_async` decides from the row it reads. -/
def onCheck : Option Job → BuildPhase
  | none => .returned .nothing
  | some job =>
      if job.status ≠ .done ∨ job.hlsStatus ≠ .pending then .returned .nothing
      else if job.height.isNone || job.width.isNone then .givingUp
      else .building (ladderInput job)

/-- A settle write: what it leaves of the row, and where the build goes on with its
result or with an exception. -/
def settle (shared : LadderShared) (world : BuildWorld)
    (result : Except JobError (Option Job)) (onSettled onMoved : BuildPhase) :
    LadderShared × BuildPhase :=
  match result with
  | .ok (some job) =>
      (world.out.effect (fun shared => { shared with row := some job }) shared,
        world.out.next onSettled .raised)
  | .ok none => (shared, world.out.next onMoved .raised)
  | .error _ => (shared, .raised)

/-- One step of a build; `none` when it has ended. -/
def next (keyPrefix : String) (shared : LadderShared) (build : LadderBuild)
    (world : BuildWorld) : Option (LadderShared × BuildPhase) :=
  match build.phase with
  | .checking => some (shared, world.out.next (onCheck shared.row) .raised)
  | .building _ => some (shared, world.out.next
      (if masterPlaylistName ∈ world.files then .uploading (uploadOrder world.files)
        else build.onFailure world)
      (build.onFailure world))
  | .uploading [] => some (shared, .recording s!"{keyPrefix}/{masterPlaylistName}")
  | .uploading (name :: left) => some
      (world.out.effect
        (fun shared => { shared with objects := shared.objects.insert s!"{keyPrefix}/{name}" })
        shared,
      world.out.next (.uploading left) (build.onFailure world))
  | .recording hlsKey => some (settle shared world (markLadderReady hlsKey world.now shared.row)
      (.returned .ready) (.discarding .nothing))
  | .givingUp => some (settle shared world (markLadderUnavailable world.now shared.row)
      (.returned .unavailable) (.returned .unavailable))
  -- An exception while discarding is suppressed or logged.
  | .discarding outcome => some (shared, world.out.next (.removing shared.objects outcome)
      (.returned outcome))
  | .removing [] outcome => some (shared, .returned outcome)
  | .removing (key :: left) outcome => some
      (world.out.effect
        (fun shared => { shared with objects := shared.objects.filter (· != key) }) shared,
      world.out.next (.removing left outcome) (.returned outcome))
  | .returned _ => none
  | .raised => none

end LadderBuild

structure LadderBuilds where
  shared : LadderShared
  builds : Parties ℕ LadderBuild

inductive LadderAction
  | start (build interruptions : ℕ)
  | build (build : ℕ) (world : BuildWorld)
  | dies (build : ℕ)
  /-- The reaper's, or that of a hand-off whose enqueue raised. -/
  | markLadderUnavailable (now : Timestamp)
  | markStaleFailed (now : Timestamp)

namespace LadderBuilds

/-- The row after a write that may have found nothing to change. -/
def writtenRow (row : Option Job) : Except JobError (Option Job) → Option Job
  | .ok after => after.or row
  | .error _ => row

/-- One atomic step. -/
def step (keyPrefix : String) (s : LadderBuilds) : LadderAction → Option LadderBuilds
  | .start b interruptions =>
      match s.builds.lookup b with
      | some _ => none
      | none => some { s with builds := s.builds.insert b ⟨interruptions, .checking⟩ }
  | .build b world =>
      (s.builds.lookup b).bind fun build =>
        (build.next keyPrefix s.shared world).map fun after =>
          { shared := after.1, builds := s.builds.insert b { build with phase := after.2 } }
  | .dies b =>
      (s.builds.lookup b).map fun build =>
        { s with builds := s.builds.insert b { build with phase := .raised } }
  | .markLadderUnavailable now => some { s with shared := { s.shared with
      row := writtenRow s.shared.row (Repositories.markLadderUnavailable now s.shared.row) } }
  | .markStaleFailed now => some { s with shared := { s.shared with
      row := writtenRow s.shared.row (Repositories.markStaleFailed now s.shared.row) } }

end LadderBuilds

/-- Any number of builds, from any row and any objects. -/
def ladderSystem (keyPrefix : String) : StepSystem LadderBuilds LadderAction where
  init s := s.builds = ∅
  step := LadderBuilds.step keyPrefix

namespace LadderBuilds

variable {keyPrefix : String} {s t : LadderBuilds}

/-- The row records a ladder. -/
def Ready (row : Option Job) : Prop := ∃ job, row = some job ∧ job.hlsStatus = .ready

/-- Once the row records a ladder, no build may still record or discard one. -/
def NobodyAtWork (s : LadderBuilds) : Prop :=
  Ready s.shared.row → ∀ b build, s.builds.lookup b = some build → build.atWork = false

/-- Whether this step of a build makes the row record its ladder. -/
def records (s : LadderBuilds) (b : ℕ) (world : BuildWorld) : Bool :=
  match s.builds.lookup b with
  | some ⟨_, .recording hlsKey⟩ =>
      world.out != .raisedBefore &&
        (match markLadderReady hlsKey world.now s.shared.row with
        | .ok row => row.isSome
        | .error _ => false)
  | _ => false

/-- A step that makes the row record a ladder finds no other build at work. -/
def RecordsAlone (s : LadderBuilds) : LadderAction → Prop
  | .build b world => s.records b world = true →
      s.builds.all (fun other build => other == b || !build.atWork) = true
  | _ => True

instance (s : LadderBuilds) : ∀ a, Decidable (RecordsAlone s a)
  | .build b world => inferInstanceAs (Decidable (s.records b world = true →
      s.builds.all (fun other build => other == b || !build.atWork) = true))
  | .start _ _ | .dies _ | .markLadderUnavailable _ | .markStaleFailed _ => .isTrue trivial

/-! ## What one write can do to the row -/

/-- Giving up on a ladder never makes a row record one. -/
theorem ready_of_markLadderUnavailable {now : Timestamp} {row : Option Job}
    (hready : Ready (writtenRow row (Repositories.markLadderUnavailable now row))) :
    Ready row := by
  cases hresult : Repositories.markLadderUnavailable now row with
  | error e => simpa [hresult, writtenRow] using hready
  | ok after =>
      cases after with
      | none => simpa [hresult, writtenRow] using hready
      | some job =>
          obtain ⟨before, -, -, -, hafter⟩ := settleLadder_some hresult
          obtain ⟨stored, hstored, hstatus⟩ := hready
          rw [hresult] at hstored
          obtain rfl := Option.some.inj hstored
          simp [hafter] at hstatus

/-- A row that records a ladder is not given up on. -/
theorem markLadderUnavailable_of_ready {now : Timestamp} {row : Option Job}
    (hready : Ready row) : Repositories.markLadderUnavailable now row = .ok none := by
  obtain ⟨job, rfl, hstatus⟩ := hready
  simp [Repositories.markLadderUnavailable, settleLadder, hstatus]

theorem ready_of_markStaleFailed {now : Timestamp} {row : Option Job}
    (hready : Ready (writtenRow row (Repositories.markStaleFailed now row))) : Ready row := by
  cases hresult : Repositories.markStaleFailed now row with
  | error e => simpa [hresult, writtenRow] using hready
  | ok after =>
      cases after with
      | none => simpa [hresult, writtenRow] using hready
      | some job =>
          have hunavailable := markStaleFailed_hlsStatus hresult
          obtain ⟨stored, hstored, hstatus⟩ := hready
          rw [hresult] at hstored
          obtain rfl := Option.some.inj hstored
          simp [hunavailable] at hstatus

/-! ## What one step of a build can do -/

/-- A build that is not at work and finds a ladder recorded does nothing and does not
start to work. -/
theorem next_of_ready {build : LadderBuild} {world : BuildWorld} {shared after : LadderShared}
    {phase : BuildPhase} (hready : Ready shared.row) (hidle : build.atWork = false)
    (hnext : build.next keyPrefix shared world = some (after, phase)) :
    after = shared ∧ ({ build with phase := phase } : LadderBuild).atWork = false := by
  obtain ⟨interruptions, before⟩ := build
  cases before with
  | checking =>
      obtain ⟨job, hjob, hstatus⟩ := hready
      simp only [LadderBuild.next, Option.some.injEq, Prod.mk.injEq] at hnext
      obtain ⟨rfl, rfl⟩ := hnext
      refine ⟨rfl, ?_⟩
      have hcheck : LadderBuild.onCheck shared.row = .returned .nothing := by
        simp [hjob, LadderBuild.onCheck, hstatus]
      rw [hcheck]
      cases world.out <;> rfl
  | givingUp =>
      simp only [LadderBuild.next, markLadderUnavailable_of_ready hready, LadderBuild.settle,
        Option.some.injEq, Prod.mk.injEq] at hnext
      obtain ⟨rfl, rfl⟩ := hnext
      refine ⟨rfl, ?_⟩
      cases world.out <;> rfl
  | returned outcome => simp [LadderBuild.next] at hnext
  | raised => simp [LadderBuild.next] at hnext
  | _ => simp [LadderBuild.atWork] at hidle

/-- A settle write that makes the row record a ladder was effective, and ends its build
or leaves it raised. -/
theorem settle_ready {shared : LadderShared} {world : BuildWorld}
    {result : Except JobError (Option Job)} {onSettled onMoved : BuildPhase}
    (hnot : ¬ Ready shared.row)
    (hready : Ready (LadderBuild.settle shared world result onSettled onMoved).1.row) :
    world.out ≠ .raisedBefore ∧ (∃ job, result = .ok (some job) ∧ job.hlsStatus = .ready) ∧
      (LadderBuild.settle shared world result onSettled onMoved).2 =
        world.out.next onSettled .raised := by
  cases result with
  | error e => exact absurd hready hnot
  | ok row =>
      cases row with
      | none => exact absurd hready hnot
      | some job =>
          have hout : world.out ≠ .raisedBefore := by
            intro hbefore
            simp only [LadderBuild.settle, hbefore] at hready
            exact hnot hready
          refine ⟨hout, ⟨job, rfl, ?_⟩, rfl⟩
          obtain ⟨stored, hstored, hstatus⟩ := hready
          cases hend : world.out with
          | raisedBefore => exact absurd hend hout
          | returned | raisedAfter =>
              simp only [LadderBuild.settle, hend] at hstored
              obtain rfl := Option.some.inj hstored
              exact hstatus

/-- The only step of a build that makes the row record a ladder is its own record, and
the build is not at work after it. -/
theorem next_makes_ready {build : LadderBuild} {world : BuildWorld} {shared after : LadderShared}
    {phase : BuildPhase} (hnext : build.next keyPrefix shared world = some (after, phase))
    (hnot : ¬ Ready shared.row) (hready : Ready after.row) :
    (∃ hlsKey job, build.phase = .recording hlsKey ∧ world.out ≠ .raisedBefore ∧
      markLadderReady hlsKey world.now shared.row = .ok (some job)) ∧
      ({ build with phase := phase } : LadderBuild).atWork = false := by
  have hsame : ∀ f : LadderShared → LadderShared, (f shared).row = shared.row →
      (world.out.effect f shared).row = shared.row := fun f hf =>
    CallOutcome.effect_of (p := fun s : LadderShared => s.row = shared.row) rfl hf world.out
  obtain ⟨interruptions, before⟩ := build
  cases before with
  | recording hlsKey =>
      simp only [LadderBuild.next, Option.some.injEq] at hnext
      have hafter := congrArg Prod.fst hnext
      have hphase := congrArg Prod.snd hnext
      dsimp only at hafter hphase
      rw [← hafter] at hready
      obtain ⟨hout, ⟨job, hjob, -⟩, hsettled⟩ := settle_ready hnot hready
      refine ⟨⟨hlsKey, job, rfl, hout, hjob⟩, ?_⟩
      rw [← hphase, hsettled]
      cases world.out <;> rfl
  | givingUp =>
      simp only [LadderBuild.next, Option.some.injEq] at hnext
      have hafter := congrArg Prod.fst hnext
      dsimp only at hafter
      rw [← hafter] at hready
      obtain ⟨-, ⟨job, hjob, hstatus⟩, -⟩ := settle_ready hnot hready
      have hwritten : Ready (writtenRow shared.row
          (Repositories.markLadderUnavailable world.now shared.row)) := by
        rw [hjob]
        exact ⟨job, rfl, hstatus⟩
      exact absurd (ready_of_markLadderUnavailable hwritten) hnot
  | uploading left =>
      cases left with
      | nil =>
          simp only [LadderBuild.next, Option.some.injEq, Prod.mk.injEq] at hnext
          obtain ⟨rfl, -⟩ := hnext
          exact absurd hready hnot
      | cons name left =>
          simp only [LadderBuild.next, Option.some.injEq, Prod.mk.injEq] at hnext
          obtain ⟨rfl, -⟩ := hnext
          rw [hsame _ rfl] at hready
          exact absurd hready hnot
  | removing left outcome =>
      cases left with
      | nil =>
          simp only [LadderBuild.next, Option.some.injEq, Prod.mk.injEq] at hnext
          obtain ⟨rfl, -⟩ := hnext
          exact absurd hready hnot
      | cons key left =>
          simp only [LadderBuild.next, Option.some.injEq, Prod.mk.injEq] at hnext
          obtain ⟨rfl, -⟩ := hnext
          rw [hsame _ rfl] at hready
          exact absurd hready hnot
  | returned outcome => simp [LadderBuild.next] at hnext
  | raised => simp [LadderBuild.next] at hnext
  | checking | building input | discarding outcome =>
      simp only [LadderBuild.next, Option.some.injEq, Prod.mk.injEq] at hnext
      obtain ⟨rfl, -⟩ := hnext
      exact absurd hready hnot

/-- One step keeps the builds apart from a recorded ladder. -/
theorem NobodyAtWork.step {a : LadderAction} (hnobody : NobodyAtWork s) (hok : RecordsAlone s a)
    (hstep : LadderBuilds.step keyPrefix s a = some t) : NobodyAtWork t := by
  intro hready
  cases a with
  | start b interruptions =>
      cases hlookup : s.builds.lookup b with
      | some build => simp [LadderBuilds.step, hlookup] at hstep
      | none =>
          simp only [LadderBuilds.step, hlookup] at hstep
          obtain rfl := Option.some.inj hstep
          exact Parties.forall_insert (fun other build _ => hnobody hready other build) rfl
  | build b world =>
      obtain ⟨build, hlookup, hmap⟩ := Option.bind_eq_some_iff.mp hstep
      obtain ⟨⟨after, phase⟩, hnext, rfl⟩ := Option.map_eq_some_iff.mp hmap
      dsimp only at hready
      by_cases hbefore : Ready s.shared.row
      · have hidle := hnobody hbefore b build hlookup
        exact Parties.forall_insert (fun other build _ => hnobody hbefore other build)
          (next_of_ready hbefore hidle hnext).2
      · obtain ⟨⟨hlsKey, job, hphase, hout, hjob⟩, hidle⟩ :=
          next_makes_ready hnext hbefore hready
        have hrecords : s.records b world = true := by
          obtain ⟨interruptions, before⟩ := build
          subst hphase
          simp [records, hlookup, hjob, hout]
        have halone := Parties.all_iff.mp (hok hrecords)
        refine Parties.forall_insert ?_ hidle
        intro other build' hne hother
        have hother' := halone other build' hother
        simpa [hne] using hother'
  | dies b =>
      obtain ⟨build, hlookup, rfl⟩ := Option.map_eq_some_iff.mp hstep
      exact Parties.forall_insert (fun other build _ => hnobody hready other build) rfl
  | markLadderUnavailable now =>
      obtain rfl := Option.some.inj hstep
      exact hnobody (ready_of_markLadderUnavailable hready)
  | markStaleFailed now =>
      obtain rfl := Option.some.inj hstep
      exact hnobody (ready_of_markStaleFailed hready)

/-- While the row records a ladder, no step removes an object under its prefix. -/
def KeepsObjects (keyPrefix : String) (s : LadderBuilds) : Prop :=
  Ready s.shared.row → ∀ a t, LadderBuilds.step keyPrefix s a = some t →
    ∀ key ∈ s.shared.objects, key ∈ t.shared.objects

theorem NobodyAtWork.keepsObjects (hnobody : NobodyAtWork s) : KeepsObjects keyPrefix s := by
  intro hready a t hstep key hkey
  cases a with
  | start b interruptions =>
      cases hlookup : s.builds.lookup b with
      | some build => simp [LadderBuilds.step, hlookup] at hstep
      | none =>
          simp only [LadderBuilds.step, hlookup] at hstep
          obtain rfl := Option.some.inj hstep
          exact hkey
  | build b world =>
      obtain ⟨build, hlookup, hmap⟩ := Option.bind_eq_some_iff.mp hstep
      obtain ⟨⟨after, phase⟩, hnext, rfl⟩ := Option.map_eq_some_iff.mp hmap
      have hidle := hnobody hready b build hlookup
      obtain ⟨rfl, -⟩ := next_of_ready hready hidle hnext
      exact hkey
  | dies b =>
      obtain ⟨build, hlookup, rfl⟩ := Option.map_eq_some_iff.mp hstep
      exact hkey
  | markLadderUnavailable now =>
      obtain rfl := Option.some.inj hstep
      exact hkey
  | markStaleFailed now =>
      obtain rfl := Option.some.inj hstep
      exact hkey

/-- **A ready ladder keeps its objects**, in every run in which a build that records its
ladder is the only one at work. -/
theorem ready_ladder_keeps_objects {keyPrefix : String} {s : LadderBuilds}
    (hs : (ladderSystem keyPrefix).ReachableUnder RecordsAlone s) : KeepsObjects keyPrefix s := by
  have hnobody : NobodyAtWork s := by
    refine hs.invariant NobodyAtWork ?_ fun s a t _ hnobody hok hstep => hnobody.step hok hstep
    rintro s hinit - b build hlookup
    rw [show s.builds = ∅ from hinit] at hlookup
    simp at hlookup
  exact hnobody.keepsObjects

/-- A finished video whose ladder is pending. -/
def pendingLadderJob : Job where
  ownerId := 1
  filename := "clip.mp4"
  status := .done
  sourceKey := "uploads/1/clip.mp4"
  outputKey := some "outputs/7/video.mp4"
  width := some 1920
  height := some 1080
  durationSeconds := some 12
  createdAt := 0
  updatedAt := 1
  checks := by decide

def pendingLadder : LadderBuilds := ⟨⟨some pendingLadderJob, []⟩, ∅⟩

/-- Build `b` runs to its record: it checks, encodes two files, uploads both and has the
master's key. -/
def buildToRecord (b : ℕ) : List LadderAction :=
  [.start b 0, .build b {}, .build b { files := ["master.m3u8", "v0/seg00000.ts"] },
    .build b {}, .build b {}, .build b {}]

theorem ready_ladder_keeps_objects_oneBuild :
    ∃ s : LadderBuilds,
      s.shared.objects = ["outputs/7/hls/master.m3u8", "outputs/7/hls/v0/seg00000.ts"] ∧
      Ready s.shared.row ∧ KeepsObjects (prefixFor "outputs" 7) s := by
  have hinit : (ladderSystem (prefixFor "outputs" 7)).ReachableUnder RecordsAlone pendingLadder :=
    .init rfl
  obtain ⟨s, hs, hstate⟩ := hinit.exists_of_runUnder
    (buildToRecord 0 ++ [.build 0 {}])
    (fun s => s.shared.objects ==
        ["outputs/7/hls/master.m3u8", "outputs/7/hls/v0/seg00000.ts"] &&
      s.shared.row.any (·.hlsStatus = .ready)) (by decide)
  simp only [Bool.and_eq_true, beq_iff_eq] at hstate
  obtain ⟨job, hjob, hready⟩ := (Option.any_eq_true _ _).mp hstate.2
  exact ⟨s, hstate.1, ⟨job, hjob, of_decide_eq_true hready⟩, ready_ladder_keeps_objects hs⟩

/-- One delivery runs twice.  Both builds check the row while it is pending; build 0
records its ladder, build 1 finds the row settled, takes the ladder for one nobody will
record, and removes the objects both of them uploaded. -/
theorem second_build_discards_ready_ladder :
    ¬ ∀ s, (ladderSystem (prefixFor "outputs" 7)).Reachable s →
      KeepsObjects (prefixFor "outputs" 7) s := by
  intro hkeeps
  have hinit : (ladderSystem (prefixFor "outputs" 7)).Reachable pendingLadder := .init rfl
  obtain ⟨s, hs, hstate⟩ := StepSystem.Reachable.exists_of_run hinit
    (buildToRecord 0 ++ buildToRecord 1 ++ [.build 0 {}, .build 1 {}, .build 1 {}])
    (fun s => s.shared.row.any (fun job : Job => job.hlsStatus = .ready) &&
      (LadderBuilds.step (prefixFor "outputs" 7) s (.build 1 {})).any fun t : LadderBuilds =>
        decide ("outputs/7/hls/master.m3u8" ∈ s.shared.objects) &&
          decide ("outputs/7/hls/master.m3u8" ∉ t.shared.objects)) (by decide)
  rw [Bool.and_eq_true] at hstate
  obtain ⟨job, hjob, hready⟩ := (Option.any_eq_true _ _).mp hstate.1
  obtain ⟨t, hstep, hlost⟩ := (Option.any_eq_true _ _).mp hstate.2
  simp only [Bool.and_eq_true, decide_eq_true_eq] at hlost hready
  exact hlost.2 (hkeeps s hs ⟨job, hjob, hready⟩ _ t hstep _ hlost.1)

end LadderBuilds

end Worker
end MediaPlayer
