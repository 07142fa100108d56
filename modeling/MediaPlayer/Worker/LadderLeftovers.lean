import MediaPlayer.Services.JobCleanup
import MediaPlayer.Worker.LadderBuilds
import MediaPlayer.Worker.RowRuns

/-!
# The deliveries of one ladder

The deliveries of one job's ladder entry, one after the other, each a `LadderBuild`, with
everything else that may happen to the row meanwhile.  Database calls return and a discard
succeeds; downloading, encoding, joining and each upload may raise, before or after it took
effect.  The job's permanent deletion, row and storage, is one step.

* `NoLeftovers` — a build that has returned for good leaves the row with its ladder, or
  nothing under the prefix.
* `UploadFailsClean` — no upload raises when something is in storage already, but for a
  stop that gives the entry back.
* `no_ladder_leftovers` — under that condition the first holds in every run.
* `failed_upload_left_behind` — without it, the path of a failed ladder settles the row and
  leaves what was uploaded.
-/

namespace MediaPlayer
namespace Worker

open Library Models Repositories Services

structure LadderDeliveries where
  shared : LadderShared
  build : LadderBuild

inductive DeliveryAction
  | deliver (interruptions : ℕ)
  | build (world : BuildWorld)
  /-- Another process's write on the row. -/
  | write (op : RowOp) (now : Timestamp)
  /-- The row, then `delete_job_storage`. -/
  | deleteJob

namespace LadderDeliveries

/-- A step that may raise: a download, an encode, a join, an upload. -/
def mayRaise : BuildPhase → Bool
  | .building _ | .uploading _ => true
  | _ => false

/-- The writes of other processes: a row is inserted once, and a ladder recorded by its
build alone. -/
def foreign : RowOp → Bool
  | .createJob .. | .createEditJob .. | .markLadderReady _ | .deleteJob _ => false
  | _ => true

/-- One atomic step. -/
def step (keyPrefix : String) (jobId : UUID) (s : LadderDeliveries) :
    DeliveryAction → Option LadderDeliveries
  | .deliver interruptions =>
      match s.build.phase with
      | .returned _ => some { s with build := ⟨interruptions, .checking⟩ }
      | _ => none
  | .build world =>
      if world.out = .returned ∨ mayRaise s.build.phase then
        (s.build.next keyPrefix s.shared world).map fun after =>
          ⟨after.1, { s.build with phase := after.2 }⟩
      else none
  | .write op now =>
      if foreign op then
        some { s with shared := { s.shared with
          row := LadderBuilds.writtenRow s.shared.row (op.apply jobId now s.shared.row) } }
      else none
  | .deleteJob =>
      s.shared.row.map fun job => { s with shared :=
        { row := none
          objects := s.shared.objects.filter (· ∉ keysToDelete job s.shared.objects) } }

end LadderDeliveries

/-- Any number of deliveries, one at a time, from any row and an empty prefix. -/
def deliverySystem (keyPrefix : String) (jobId : UUID) :
    StepSystem LadderDeliveries DeliveryAction where
  init s := s.shared.objects = [] ∧ ∃ outcome, s.build.phase = .returned outcome
  step := LadderDeliveries.step keyPrefix jobId

namespace LadderDeliveries

variable {keyPrefix : String} {jobId : UUID} {s t : LadderDeliveries}

/-- A build that has returned for good leaves a row that names the ladder, or nothing. -/
def NoLeftovers (keyPrefix : String) (s : LadderDeliveries) : Prop :=
  ∀ outcome, s.build.phase = .returned outcome → outcome ≠ .interrupted →
    (∃ job, s.shared.row = some job ∧ job.hlsKey = some (masterKey keyPrefix)) ∨
      s.shared.objects = []

/-- A done row that names the ladder. -/
def Recorded (keyPrefix : String) (row : Option Job) : Prop :=
  ∃ job, row = some job ∧ job.status = .done ∧ job.hlsKey = some (masterKey keyPrefix)

/-- The build's next step is an upload. -/
def uploads : BuildPhase → Bool
  | .uploading (_ :: _) => true
  | _ => false

/-- An upload that raises leaves storage empty, or its worker is being stopped and its
entry goes back to the queue. -/
def UploadFailsClean (s : LadderDeliveries) : DeliveryAction → Prop
  | .build world => uploads s.build.phase = true → world.out = .returned ∨
      (world.out = .raisedBefore ∧ s.shared.objects = []) ∨
        world.stopRequested = true ∧ s.build.interruptions + 1 < maxInterruptions
  | _ => True

instance (s : LadderDeliveries) : ∀ a, Decidable (UploadFailsClean s a)
  | .build world => inferInstanceAs (Decidable (uploads s.build.phase = true →
      world.out = .returned ∨ (world.out = .raisedBefore ∧ s.shared.objects = []) ∨
        world.stopRequested = true ∧ s.build.interruptions + 1 < maxInterruptions))
  | .deliver _ | .write _ _ | .deleteJob => .isTrue trivial

/-- What is under the prefix while a build stands where it stands. -/
def Accounted (keyPrefix : String) (objects : List String) : BuildPhase → Prop
  | .uploading _ | .discarding _ => True
  | .recording hlsKey => hlsKey = masterKey keyPrefix
  | .removing left _ => ∀ key ∈ objects, key ∈ left
  | .checking | .building _ | .givingUp | .returned _ | .raised => objects = []

/-- A done row that records the ladder, which no build will touch again; or objects that
are accounted for. -/
structure DeliveriesInvariant (keyPrefix : String) (s : LadderDeliveries) : Prop where
  underPrefix : ∀ key ∈ s.shared.objects, ∃ name : String, key = s!"{keyPrefix}/{name}"
  accounted : (Recorded keyPrefix s.shared.row ∧ s.build.atWork = false ∧
      s.build.phase ≠ .givingUp) ∨ Accounted keyPrefix s.shared.objects s.build.phase

/-! ## What one step can do -/

theorem strip_masterKey (keyPrefix : String) : strip (masterKey keyPrefix) ≠ "" :=
  have hname : 'm' ∈ masterPlaylistName.toList := by decide
  strip_ne_of_mem (c := 'm')
    (String.toList_append ▸ List.mem_append_right _ hname) (by decide)

theorem beforeLast_masterKey (keyPrefix : String) :
    beforeLast '/' (masterKey keyPrefix) = keyPrefix := by
  have hslash : '/' ∉ masterPlaylistName.toList := by decide
  exact beforeLast_append hslash

/-- The deletion of a job that records the ladder lists its folder. -/
theorem mem_storagePrefixes_of_recorded {job : Job}
    (hkey : job.hlsKey = some (masterKey keyPrefix)) : keyPrefix ++ "/" ∈ storagePrefixes job := by
  refine mem_storagePrefixes.mpr ⟨_, Or.inl hkey, ?_, by rw [beforeLast_masterKey]⟩
  intro hempty
  exact strip_masterKey keyPrefix (by rw [hempty]; decide)

/-- And so deletes what is under its prefix. -/
theorem mem_keysToDelete_of_recorded {job : Job}
    (hkey : job.hlsKey = some (masterKey keyPrefix)) {objects : List String} {name : String}
    (hmem : s!"{keyPrefix}/{name}" ∈ objects) :
    s!"{keyPrefix}/{name}" ∈ keysToDelete job objects := by
  refine List.mem_eraseDups.mpr (List.mem_append_right _
    (List.mem_flatMap.mpr ⟨_, mem_storagePrefixes_of_recorded hkey, ?_⟩))
  exact List.mem_filter.mpr ⟨hmem, startsWith_append _ _⟩

/-- No write of another process takes the ladder from a row that records it. -/
theorem apply_recorded {op : RowOp} (hforeign : foreign op = true) {now : Timestamp}
    {job after : Job} (hdone : job.status = .done) (hready : job.hlsStatus = .ready)
    (hok : op.apply jobId now (some job) = .ok (some after)) :
    after.status = .done ∧ after.hlsKey = job.hlsKey := by
  cases op with
  | createJob _ _ _ _ | createEditJob _ _ _ _ _ | markLadderReady _ | deleteJob _ =>
      simp [foreign] at hforeign
  | markProcessing =>
      obtain ⟨before, hrow, hstatus, -⟩ := markProcessing_ok (map_some_eq_ok hok)
      simp [← Option.some.inj hrow, hdone] at hstatus
  | markDone result =>
      obtain ⟨before, hrow, hstatus, -⟩ := markDone_ok (map_some_eq_ok hok)
      simp [← Option.some.inj hrow, hdone] at hstatus
  | markFailed error =>
      obtain ⟨before, hrow, hstatus, -⟩ := markFailed_ok (map_some_eq_ok hok)
      simp [← Option.some.inj hrow, hdone] at hstatus
  | markInterrupted =>
      obtain ⟨before, hrow, hstatus, -⟩ := markInterrupted_ok (map_some_eq_ok hok)
      simp [← Option.some.inj hrow, hdone] at hstatus
  | markStaleFailed =>
      have hfailed : Repositories.markStaleFailed now (some job) = .ok (some after) := hok
      obtain ⟨before, hrow, hstatus, -⟩ := markStaleFailed_some hfailed
      simp [← Option.some.inj hrow, hdone] at hstatus
  | prepareRetry ownerId =>
      obtain ⟨before, hrow, hstatus, -⟩ := prepareRetry_ok (map_some_eq_ok hok)
      simp [← Option.some.inj hrow, hdone] at hstatus
  | markLadderUnavailable =>
      have hsettled : settleLadder .unavailable none now (some job) = .ok (some after) := hok
      obtain ⟨before, hrow, -, hpending, -⟩ := settleLadder_some hsettled
      simp [← Option.some.inj hrow, hready] at hpending
  | markPreviewReady previewKey =>
      have hrecorded : Repositories.markPreviewReady previewKey now (some job) =
          .ok (some after) := hok
      obtain ⟨before, hrow, -, -, hcolumns⟩ := markPreviewReady_columns hrecorded
      obtain rfl := Option.some.inj hrow
      exact ⟨by rw [hcolumns]; exact hdone, by rw [hcolumns]⟩
  | trashJob ownerId =>
      obtain ⟨before, hrow, -, -, hcolumns⟩ := trashJob_some (Except.ok.inj hok)
      obtain rfl := Option.some.inj hrow
      exact ⟨by rw [hcolumns]; exact hdone, by rw [hcolumns]⟩
  | restoreJob ownerId =>
      obtain ⟨before, hrow, -, -, hcolumns⟩ := restoreJob_some (Except.ok.inj hok)
      obtain rfl := Option.some.inj hrow
      exact ⟨by rw [hcolumns]; exact hdone, by rw [hcolumns]⟩

theorem Recorded.write {op : RowOp} (hforeign : foreign op = true) (now : Timestamp)
    {row : Option Job} (hrow : Recorded keyPrefix row) :
    Recorded keyPrefix (LadderBuilds.writtenRow row (op.apply jobId now row)) := by
  obtain ⟨job, rfl, hdone, hkey⟩ := hrow
  have hready := job.checks.hlsReadyHasKey.mpr (by simp [hkey])
  cases hresult : op.apply jobId now (some job) with
  | error e => exact ⟨job, rfl, hdone, hkey⟩
  | ok after =>
      cases after with
      | none => exact ⟨job, rfl, hdone, hkey⟩
      | some after =>
          obtain ⟨hstatus, hsame⟩ := apply_recorded hforeign hdone hready hresult
          exact ⟨after, rfl, hstatus, hsame.trans hkey⟩

/-- Recording the ladder either records it or finds that the job moved on. -/
theorem recording_cases (keyPrefix : String) (now : Timestamp) (row : Option Job) :
    (∃ after, markLadderReady (masterKey keyPrefix) now row = .ok (some after) ∧
      Recorded keyPrefix (some after)) ∨
      markLadderReady (masterKey keyPrefix) now row = .ok none := by
  cases hresult : markLadderReady (masterKey keyPrefix) now row with
  | error e =>
      have haccepted := markLadderReady_accepted (masterKey keyPrefix) now row
      simp only [markLadderReady, if_neg (strip_masterKey keyPrefix)] at hresult haccepted
      cases row with
      | none => simp [settleLadder] at hresult
      | some job =>
          simp only [settleLadder] at hresult haccepted
          split at hresult
          · rename_i hpending
            rw [if_pos hpending] at haccepted
            have hrefused : e = .integrityError := by
              unfold storeSome store at hresult
              split at hresult <;> simp_all [Except.map]
            rw [hrefused] at hresult
            exact absurd hresult haccepted
          · simp at hresult
  | ok after =>
      cases after with
      | none => exact Or.inr rfl
      | some after =>
          simp only [markLadderReady, if_neg (strip_masterKey keyPrefix)] at hresult
          obtain ⟨before, -, hdone, -, hcolumns⟩ := settleLadder_some hresult
          refine Or.inl ⟨after, rfl, after, rfl, ?_, ?_⟩ <;> rw [hcolumns]
          exact hdone

/-- A build's step keeps the objects under the prefix. -/
theorem underPrefix_next {shared after : LadderShared} {build : LadderBuild} {world : BuildWorld}
    {phase : BuildPhase} (hnext : build.next keyPrefix shared world = some (after, phase))
    (hunder : ∀ key ∈ shared.objects, ∃ name : String, key = s!"{keyPrefix}/{name}") :
    ∀ key ∈ after.objects, ∃ name : String, key = s!"{keyPrefix}/{name}" := by
  have hsettle : ∀ result onSettled onMoved,
      (LadderBuild.settle shared world result onSettled onMoved).1.objects = shared.objects := by
    intro result onSettled onMoved
    unfold LadderBuild.settle
    split
    · cases world.out <;> rfl
    · rfl
    · rfl
  obtain ⟨interruptions, before⟩ := build
  cases before with
  | uploading left =>
      cases left with
      | nil =>
          obtain ⟨rfl, -⟩ := Prod.mk.inj (Option.some.inj hnext)
          exact hunder
      | cons name left =>
          obtain ⟨rfl, -⟩ := Prod.mk.inj (Option.some.inj hnext)
          refine CallOutcome.effect_of (p := fun shared : LadderShared =>
            ∀ key ∈ shared.objects, ∃ name : String, key = s!"{keyPrefix}/{name}") hunder ?_ _
          intro key hkey
          rcases List.mem_insert_iff.mp hkey with rfl | hold
          · exact ⟨name, rfl⟩
          · exact hunder key hold
  | removing left outcome =>
      cases left with
      | nil =>
          obtain ⟨rfl, -⟩ := Prod.mk.inj (Option.some.inj hnext)
          exact hunder
      | cons gone left =>
          obtain ⟨rfl, -⟩ := Prod.mk.inj (Option.some.inj hnext)
          refine CallOutcome.effect_of (p := fun shared : LadderShared =>
            ∀ key ∈ shared.objects, ∃ name : String, key = s!"{keyPrefix}/{name}") hunder ?_ _
          intro key hkey
          exact hunder key (List.mem_of_mem_filter hkey)
  | recording hlsKey =>
      have hsame : after.objects = shared.objects :=
        (congrArg (·.1.objects) (Option.some.inj hnext)).symm.trans (hsettle ..)
      rwa [hsame]
  | givingUp =>
      have hsame : after.objects = shared.objects :=
        (congrArg (·.1.objects) (Option.some.inj hnext)).symm.trans (hsettle ..)
      rwa [hsame]
  | returned outcome => simp [LadderBuild.next] at hnext
  | raised => simp [LadderBuild.next] at hnext
  | checking | building input | discarding outcome =>
      obtain ⟨rfl, -⟩ := Prod.mk.inj (Option.some.inj hnext)
      exact hunder

/-- A build that gives up on an empty prefix, or goes back to its queue, is accounted for. -/
theorem accounted_onFailure {build : LadderBuild} {world : BuildWorld} {objects : List String}
    (hclean : objects = [] ∨
      world.stopRequested = true ∧ build.interruptions + 1 < maxInterruptions) :
    Accounted keyPrefix objects (build.onFailure world) := by
  unfold LadderBuild.onFailure
  rcases hclean with rfl | ⟨hstop, hfew⟩
  · split
    · trivial
    · rfl
  · rw [if_pos (by simp [hstop, hfew])]
    trivial

/-- From objects that are accounted for, a build's step leaves a recorded ladder, or
objects that are accounted for. -/
theorem accounted_next {s : LadderDeliveries} {world : BuildWorld} {after : LadderShared}
    {phase : BuildPhase} (hclean : UploadFailsClean s (.build world))
    (hreturned : world.out = .returned ∨ mayRaise s.build.phase = true)
    (hnext : s.build.next keyPrefix s.shared world = some (after, phase))
    (haccounted : Accounted keyPrefix s.shared.objects s.build.phase) :
    (Recorded keyPrefix after.row ∧ phase = .returned .ready) ∨
      Accounted keyPrefix after.objects phase := by
  obtain ⟨shared, interruptions, before⟩ := s
  simp only [UploadFailsClean] at hclean
  cases before with
  | checking =>
      have hout := hreturned.resolve_right (by simp [mayRaise])
      simp only [LadderBuild.next, hout, CallOutcome.next_returned, Option.some.injEq,
        Prod.mk.injEq] at hnext
      obtain ⟨rfl, rfl⟩ := hnext
      refine Or.inr ?_
      have hempty : shared.objects = [] := haccounted
      unfold LadderBuild.onCheck
      split
      · exact hempty
      · split
        · exact hempty
        · split <;> exact hempty
  | building input =>
      obtain ⟨rfl, rfl⟩ := Prod.mk.inj (Option.some.inj hnext)
      have hempty : shared.objects = [] := haccounted
      refine Or.inr ?_
      cases world.out with
      | returned =>
          simp only [CallOutcome.next_returned]
          split
          · trivial
          · exact accounted_onFailure (Or.inl hempty)
      | raisedBefore | raisedAfter => exact accounted_onFailure (Or.inl hempty)
  | uploading left =>
      cases left with
      | nil =>
          obtain ⟨rfl, rfl⟩ := Prod.mk.inj (Option.some.inj hnext)
          exact Or.inr rfl
      | cons name left =>
          obtain ⟨rfl, rfl⟩ := Prod.mk.inj (Option.some.inj hnext)
          refine Or.inr ?_
          rcases hclean rfl with hout | ⟨hout, hempty⟩ | hstop
          · rw [hout]
            trivial
          · rw [hout]
            exact accounted_onFailure (Or.inl hempty)
          · cases world.out with
            | returned => trivial
            | raisedBefore | raisedAfter => exact accounted_onFailure (Or.inr hstop)
  | recording hlsKey =>
      have hout := hreturned.resolve_right (by simp [mayRaise])
      obtain rfl : hlsKey = masterKey keyPrefix := haccounted
      rcases recording_cases keyPrefix world.now shared.row with ⟨job, hready, hrecorded⟩ | hmoved
      · simp only [LadderBuild.next, hready, LadderBuild.settle, hout, CallOutcome.next_returned,
          CallOutcome.effect_returned, Option.some.injEq, Prod.mk.injEq] at hnext
        obtain ⟨rfl, rfl⟩ := hnext
        exact Or.inl ⟨hrecorded, rfl⟩
      · simp only [LadderBuild.next, hmoved, LadderBuild.settle, hout, CallOutcome.next_returned,
          Option.some.injEq, Prod.mk.injEq] at hnext
        obtain ⟨rfl, rfl⟩ := hnext
        exact Or.inr trivial
  | givingUp =>
      have hout := hreturned.resolve_right (by simp [mayRaise])
      have hempty : shared.objects = [] := haccounted
      obtain ⟨row, hrow⟩ := markLadderUnavailable_ok world.now shared.row
      refine Or.inr ?_
      cases row with
      | none =>
          simp only [LadderBuild.next, hrow, LadderBuild.settle, hout,
            CallOutcome.next_returned, Option.some.injEq, Prod.mk.injEq] at hnext
          obtain ⟨rfl, rfl⟩ := hnext
          exact hempty
      | some job =>
          simp only [LadderBuild.next, hrow, LadderBuild.settle, hout,
            CallOutcome.next_returned, CallOutcome.effect_returned, Option.some.injEq,
            Prod.mk.injEq] at hnext
          obtain ⟨rfl, rfl⟩ := hnext
          exact hempty
  | discarding outcome =>
      have hout := hreturned.resolve_right (by simp [mayRaise])
      simp only [LadderBuild.next, hout, CallOutcome.next_returned, Option.some.injEq,
        Prod.mk.injEq] at hnext
      obtain ⟨rfl, rfl⟩ := hnext
      exact Or.inr fun key hkey => hkey
  | removing left outcome =>
      have hout := hreturned.resolve_right (by simp [mayRaise])
      have hleft : ∀ key ∈ shared.objects, key ∈ left := haccounted
      refine Or.inr ?_
      cases left with
      | nil =>
          obtain ⟨rfl, rfl⟩ := Prod.mk.inj (Option.some.inj hnext)
          exact List.eq_nil_iff_forall_not_mem.mpr fun key hkey => by simpa using hleft key hkey
      | cons gone left =>
          simp only [LadderBuild.next, hout, CallOutcome.next_returned,
            CallOutcome.effect_returned, Option.some.injEq, Prod.mk.injEq] at hnext
          obtain ⟨rfl, rfl⟩ := hnext
          intro key hkey
          obtain ⟨hmem, hne⟩ := List.mem_filter.mp hkey
          exact (List.mem_cons.mp (hleft key hmem)).resolve_left (by simpa using hne)
  | returned outcome => simp [LadderBuild.next] at hnext
  | raised => simp [LadderBuild.next] at hnext

/-- A build that finds its ladder recorded returns. -/
theorem next_recorded {build : LadderBuild} {world : BuildWorld} {shared after : LadderShared}
    {phase : BuildPhase} (hrow : Recorded keyPrefix shared.row) (hidle : build.atWork = false)
    (hnot : build.phase ≠ .givingUp) (hreturned : world.out = .returned)
    (hnext : build.next keyPrefix shared world = some (after, phase)) :
    after = shared ∧ phase = .returned .nothing := by
  obtain ⟨interruptions, before⟩ := build
  cases before with
  | checking =>
      obtain ⟨job, hjob, -, hkey⟩ := hrow
      have hready := job.checks.hlsReadyHasKey.mpr (by simp [hkey])
      have hcheck : LadderBuild.onCheck shared.row = .returned .nothing := by
        simp [hjob, LadderBuild.onCheck, hready]
      simp only [LadderBuild.next, hreturned, CallOutcome.next_returned, hcheck,
        Option.some.injEq, Prod.mk.injEq] at hnext
      exact ⟨hnext.1.symm, hnext.2.symm⟩
  | givingUp => exact absurd rfl hnot
  | returned outcome => simp [LadderBuild.next] at hnext
  | raised => simp [LadderBuild.next] at hnext
  | building _ | uploading _ | recording _ | discarding _ | removing _ _ =>
      simp [LadderBuild.atWork] at hidle

theorem accounted_filter {objects : List String} {phase : BuildPhase} (p : String → Bool)
    (haccounted : Accounted keyPrefix objects phase) :
    Accounted keyPrefix (objects.filter p) phase := by
  cases phase with
  | uploading left => trivial
  | discarding outcome => trivial
  | recording hlsKey => exact haccounted
  | removing left outcome => exact fun key hkey => haccounted key (List.mem_of_mem_filter hkey)
  | checking | building input | givingUp | returned outcome | raised =>
      have hempty : objects = [] := haccounted
      simp [Accounted, hempty]

theorem DeliveriesInvariant.step {a : DeliveryAction} (hs : DeliveriesInvariant keyPrefix s)
    (hclean : UploadFailsClean s a)
    (hstep : LadderDeliveries.step keyPrefix jobId s a = some t) :
    DeliveriesInvariant keyPrefix t := by
  cases a with
  | deliver interruptions =>
      simp only [LadderDeliveries.step] at hstep
      split at hstep
      · rename_i outcome hphase
        obtain rfl := Option.some.inj hstep
        refine ⟨hs.underPrefix, ?_⟩
        rcases hs.accounted with ⟨hrow, -, -⟩ | haccounted
        · exact Or.inl ⟨hrow, rfl, by simp⟩
        · rw [hphase] at haccounted
          exact Or.inr haccounted
      · simp at hstep
  | build world =>
      simp only [LadderDeliveries.step] at hstep
      split at hstep
      · rename_i hreturned
        obtain ⟨⟨after, phase⟩, hnext, rfl⟩ := Option.map_eq_some_iff.mp hstep
        refine ⟨underPrefix_next hnext hs.underPrefix, ?_⟩
        rcases hs.accounted with ⟨hrow, hidle, hnot⟩ | haccounted
        · have hout : world.out = .returned := by
            refine hreturned.resolve_right fun hraise => ?_
            cases hphase : s.build.phase <;>
              simp [hphase, mayRaise, LadderBuild.atWork] at hraise hidle
          obtain ⟨rfl, rfl⟩ := next_recorded hrow hidle hnot hout hnext
          exact Or.inl ⟨hrow, rfl, by simp⟩
        · rcases accounted_next hclean hreturned hnext haccounted with ⟨hrow, hphase⟩ | hafter
          · subst hphase
            exact Or.inl ⟨hrow, rfl, by simp⟩
          · exact Or.inr hafter
      · simp at hstep
  | write op now =>
      simp only [LadderDeliveries.step] at hstep
      split at hstep
      · rename_i hforeign
        obtain rfl := Option.some.inj hstep
        refine ⟨hs.underPrefix, ?_⟩
        rcases hs.accounted with ⟨hrow, hidle⟩ | haccounted
        · exact Or.inl ⟨hrow.write hforeign now, hidle⟩
        · exact Or.inr haccounted
      · simp at hstep
  | deleteJob =>
      obtain ⟨job, hjob, rfl⟩ := Option.map_eq_some_iff.mp hstep
      refine ⟨fun key hkey => hs.underPrefix key (List.mem_of_mem_filter hkey), Or.inr ?_⟩
      rcases hs.accounted with ⟨⟨recorded, hrow, -, hkey⟩, hidle, hnot⟩ | haccounted
      · obtain rfl := Option.some.inj (hjob.symm.trans hrow)
        have hempty : s.shared.objects.filter
            (· ∉ keysToDelete job s.shared.objects) = [] := by
          refine List.filter_eq_nil_iff.mpr fun key hmem => ?_
          obtain ⟨name, rfl⟩ := hs.underPrefix key hmem
          simpa using mem_keysToDelete_of_recorded hkey hmem
        dsimp only
        rw [hempty]
        cases hphase : s.build.phase <;>
          simp [hphase, LadderBuild.atWork, Accounted] at hidle hnot ⊢
      · exact accounted_filter _ haccounted

/-- **A ladder leaves nothing behind that its row does not name**, in every run in which no
upload raises once something is in storage, unless the entry goes back to its queue. -/
theorem no_ladder_leftovers {keyPrefix : String} {jobId : UUID} {s : LadderDeliveries}
    (hs : (deliverySystem keyPrefix jobId).ReachableUnder UploadFailsClean s) :
    NoLeftovers keyPrefix s := by
  have hinvariant : DeliveriesInvariant keyPrefix s := by
    refine hs.invariant (DeliveriesInvariant keyPrefix) ?_
      fun s a t _ hs hclean hstep => hs.step hclean hstep
    rintro s ⟨hempty, outcome, hphase⟩
    exact ⟨by simp [hempty], Or.inr (by rw [hphase, hempty]; rfl)⟩
  intro outcome hphase _
  refine hinvariant.accounted.imp (fun ⟨⟨job, hrow, _, hkey⟩, _⟩ => ⟨job, hrow, hkey⟩)
    fun haccounted => ?_
  rwa [hphase] at haccounted

/-- A pending ladder that has not been delivered yet. -/
def undelivered : LadderDeliveries :=
  ⟨⟨some LadderBuilds.pendingLadderJob, []⟩, ⟨0, .returned .nothing⟩⟩

/-- A delivery that is stopped in its second upload and discards the first, and one that
records the ladder. -/
theorem no_ladder_leftovers_stoppedOnce : ∃ s : LadderDeliveries,
    s.build.phase = .returned .ready ∧ s.shared.objects.length = 2 ∧
      NoLeftovers (prefixFor "outputs" 7) s := by
  have hinit : (deliverySystem (prefixFor "outputs" 7) 7).ReachableUnder UploadFailsClean
      undelivered := .init ⟨rfl, .nothing, rfl⟩
  obtain ⟨s, hs, hstate⟩ := hinit.exists_of_runUnder
    ([.deliver 0, .build {}, .build { files := ["master.m3u8", "v0/seg00000.ts"] }, .build {},
      .build { out := .raisedAfter, stopRequested := true }, .build {}, .build {}, .build {},
      .build {}, .deliver 1, .build {}, .build { files := ["master.m3u8", "v0/seg00000.ts"] },
      .build {}, .build {}, .build {}, .build {}])
    (fun s => s.build.phase == .returned .ready && s.shared.objects.length == 2) (by decide)
  simp only [Bool.and_eq_true, beq_iff_eq] at hstate
  exact ⟨s, hstate.1, hstate.2, no_ladder_leftovers hs⟩

/-- The first segment is stored, the second upload raises: the ladder is given up on and the
segment stays. -/
theorem failed_upload_left_behind :
    ¬ ∀ s, (deliverySystem (prefixFor "outputs" 7) 7).Reachable s →
      NoLeftovers (prefixFor "outputs" 7) s := by
  intro hclean
  have hinit : (deliverySystem (prefixFor "outputs" 7) 7).Reachable undelivered :=
    .init ⟨rfl, .nothing, rfl⟩
  obtain ⟨s, hs, hstate⟩ := StepSystem.Reachable.exists_of_run hinit
    [.deliver 0, .build {}, .build { files := ["master.m3u8", "v0/seg00000.ts"] }, .build {},
      .build { out := .raisedBefore }, .build {}]
    (fun s => s.build.phase == .returned .unavailable && !s.shared.objects.isEmpty &&
      s.shared.row.all fun job : Job => job.hlsKey == none) (by decide)
  simp only [Bool.and_eq_true, beq_iff_eq, Bool.not_eq_true', List.isEmpty_eq_false_iff]
    at hstate
  obtain ⟨⟨hphase, hobjects⟩, hrow⟩ := hstate
  rcases hclean s hs _ hphase (by decide) with ⟨job, hjob, hkey⟩ | hempty
  · simp [hjob, hkey] at hrow
  · exact hobjects hempty

end LadderDeliveries

end Worker
end MediaPlayer
