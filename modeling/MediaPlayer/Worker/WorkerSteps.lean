import MediaPlayer.Worker.JobNames

/-!
# One step of a job's worker

* `JobWorker.Owns` — the objects a worker has uploaded and is still to record or discard.
* `JobWorker.Borrows` — the folder of another party a rendition or a helper uploads to.
* `WorkKept` — what one step leaves, with one lemma a kind of step (`of_same`, `of_upload`,
  `of_remove`, `of_write`) and one a kind of worker; `JobWorker.next_kept` is all of them.
* `JobWorker.next_board` — whose board is open.
-/

namespace MediaPlayer
namespace Worker

open Library Models Repositories Services

variable {folder : String} {jobId : UUID}

/-! ## What the workers own -/

/-- The objects a worker is still to record or discard. -/
def JobWorker.Owns (folder : String) : JobWorker → String → Prop
  | encode ⟨_, .uploading _ result⟩, key => key ∈ uploadKeys result
  | encode ⟨_, .running (.recordingDone result)⟩, key => key ∈ uploadKeys result
  | ladder ⟨_, .uploading _⟩, key | ladder ⟨_, .recording _⟩, key
  | ladder ⟨_, .discarding _⟩, key => startsWith key (ladderPrefix folder ++ "/") = true
  | ladder ⟨_, .removing left _⟩, key => key ∈ left
  | preview (.uploading _), key | preview .recording, key
  | preview .discarding, key => startsWith key (previewPrefix folder) = true
  | preview (.removing left), key => key ∈ left
  | coordinator kind .clearing, key | coordinator kind (.clearingLeft _), key
  | coordinator kind .coordinating, key
  | coordinator kind .closed, key => startsWith key (kind.folder folder) = true
  | coordinator _ (.removing left), key => key ∈ left
  | _, _ => False

/-- The folder a worker uploads to for others to look after. -/
def JobWorker.Borrows (folder : String) : JobWorker → String → Prop
  | rendition (.building hlsKey), key => startsWith key (beforeLast '/' hlsKey ++ "/") = true
  | helper kind .checked, key => startsWith key (kind.folder folder) = true
  | _, _ => False

/-- A worker that uploads and records the keys it is meant to. -/
def JobWorker.Sound (folder : String) : JobWorker → Prop
  | encode ⟨_, .uploading left result⟩ => (∀ key ∈ left, key ∈ uploadKeys result) ∧
      ∃ facts : EncodeFacts, facts.Measured ∧ result = facts.result folder
  | encode ⟨_, .running (.recordingDone result)⟩ =>
      ∃ facts : EncodeFacts, facts.Measured ∧ result = facts.result folder
  | ladder ⟨_, .recording hlsKey⟩ => hlsKey = masterKey (ladderPrefix folder)
  | ladder ⟨_, .removing left _⟩ =>
      ∀ key ∈ left, startsWith key (ladderPrefix folder ++ "/") = true
  | preview (.uploading left) => ∀ key ∈ left, startsWith key (previewPrefix folder) = true
  | rendition (.building hlsKey) => hlsKey = masterKey (ladderPrefix folder)
  | _ => True

/-- What a worker's step leaves: a row that names as much, no object without an owner but
what was borrowed, and none it has let go of. -/
structure WorkKept (folder : String) (before after : JobShared) (worker worker' : JobWorker) :
    Prop where
  row : Option.Rel Extends before.row after.row
  rowSound : RowSound folder after.row
  sound : worker'.Sound folder
  objects : ∀ key ∈ after.objects,
    key ∈ before.objects ∨ worker'.Owns folder key ∨ worker.Borrows folder key
  owned : ∀ key ∈ after.objects, worker.Owns folder key →
    worker'.Owns folder key ∨ ∃ job, after.row = some job ∧ Names job key

theorem rel_extends_refl (row : Option Job) : Option.Rel Extends row row := by
  cases row with
  | none => exact .none
  | some job => exact .some (.refl job)

/-- A step that leaves row and objects alone. -/
theorem WorkKept.of_same {before after : JobShared} {worker worker' : JobWorker}
    (hrow : after.row = before.row) (hobjects : after.objects = before.objects)
    (hsound : RowSound folder before.row) (hworker : worker'.Sound folder)
    (howned : ∀ key ∈ before.objects, worker.Owns folder key → worker'.Owns folder key) :
    WorkKept folder before after worker worker' where
  row := by
    rw [hrow]
    exact rel_extends_refl _
  rowSound := by rwa [hrow]
  sound := hworker
  objects key hkey := Or.inl (hobjects ▸ hkey)
  owned key hkey h := Or.inl (howned key (hobjects ▸ hkey) h)

/-- An upload the worker owns, or has borrowed a place for. -/
theorem WorkKept.of_upload {before : JobShared} {uploaded : String} {worker worker' : JobWorker}
    (hsound : RowSound folder before.row) (hworker : worker'.Sound folder)
    (huploaded : worker'.Owns folder uploaded ∨ worker.Borrows folder uploaded)
    (howned : ∀ key, worker.Owns folder key → worker'.Owns folder key) :
    WorkKept folder before (before.upload uploaded) worker worker' where
  row := rel_extends_refl _
  rowSound := hsound
  sound := hworker
  objects key hkey := by
    rcases List.mem_insert_iff.mp hkey with rfl | hold
    · exact Or.inr huploaded
    · exact Or.inl hold
  owned key _ h := Or.inl (howned key h)

/-- A removal of the first of the keys a worker is to remove. -/
theorem WorkKept.of_remove {before : JobShared} {gone : String} {worker worker' : JobWorker}
    (hsound : RowSound folder before.row) (hworker : worker'.Sound folder)
    (howned : ∀ key, key ≠ gone → worker.Owns folder key → worker'.Owns folder key) :
    WorkKept folder before (before.remove gone) worker worker' where
  row := rel_extends_refl _
  rowSound := hsound
  sound := hworker
  objects key hkey := Or.inl (List.mem_of_mem_filter hkey)
  owned key hkey h := by
    obtain ⟨-, hne⟩ := List.mem_filter.mp hkey
    exact Or.inl (howned key (by simpa using hne) h)

/-- A write on the row by a worker that owns nothing but what it names. -/
theorem WorkKept.of_write (op : RowOp) (hop : JobOp folder op) {before : JobShared}
    {worker worker' : JobWorker} (jobId : UUID) (now : Timestamp) {job : Job}
    (hok : op.apply jobId now before.row = .ok (some job))
    (hsound : RowSound folder before.row) (hworker : worker'.Sound folder)
    (howned : ∀ key, worker.Owns folder key → Names job key) :
    WorkKept folder before { before with row := some job } worker worker' where
  row := (hop.kept jobId hsound hok).2
  rowSound := (hop.kept jobId hsound hok).1
  sound := hworker
  objects _ hkey := Or.inl hkey
  owned key _ h := Or.inr ⟨job, rfl, howned key h⟩

/-! ## What one step of a worker does -/

theorem map_some_ok {result : Except JobError Job} {job : Job} (hok : result = .ok job) :
    result.map some = .ok (some job) := by
  rw [hok]
  rfl

/-- The result an encode records is one `mark_done` takes. -/
theorem EncodeFacts.promised {facts : EncodeFacts} (hmeasured : facts.Measured) (folder : String) :
    (RowOp.markDone (facts.result folder)).Promised :=
  ⟨hmeasured.1, hmeasured.2.1, hmeasured.2.2, Or.inl rfl⟩

theorem strip_ne_of_dot (before after : String) : strip (before ++ "." ++ after) ≠ "" :=
  strip_ne_of_mem (c := '.') (by simp [show ".".toList = ['.'] from rfl]) (by decide)

theorem EncodeFacts.strip_outputKey (facts : EncodeFacts) (folder : String) :
    strip (facts.result folder).outputKey ≠ "" :=
  strip_ne_of_dot s!"{folder}/{facts.stem}" facts.extension

theorem EncodeFacts.strip_thumbnailKey (facts : EncodeFacts) (folder : String) :
    ∀ key ∈ (facts.result folder).thumbnailKey, strip key ≠ "" := by
  intro key hkey
  have hname : 't' ∈ thumbnailFilename.toList := by decide
  by_cases hthumbnail : facts.thumbnail = true
  · simp only [EncodeFacts.result, if_pos hthumbnail, Option.mem_def, Option.some.injEq] at hkey
    subst hkey
    exact strip_ne_of_mem (c := 't')
      (String.toList_append ▸ List.mem_append_right _ hname) (by decide)
  · simp [EncodeFacts.result, hthumbnail] at hkey

theorem ne_empty_of_strip {text : String} (htext : strip text ≠ "") : text ≠ "" := by
  rintro rfl
  exact htext (by decide)

/-- A row that records an encode names what it uploaded. -/
theorem names_of_recorded {facts : EncodeFacts} {after : Job}
    (houtput : after.outputKey = some (facts.result folder).outputKey)
    (hthumbnail : after.thumbnailKey = (facts.result folder).thumbnailKey) {key : String}
    (hkey : key ∈ uploadKeys (facts.result folder)) : Names after key := by
  refine Or.inl (mem_storageKeys.mpr (Or.inr ?_))
  rcases List.mem_cons.mp hkey with rfl | hkey
  · exact ⟨Or.inl houtput, ne_empty_of_strip (facts.strip_outputKey folder)⟩
  · have hmem := Option.mem_toList.mp hkey
    exact ⟨Or.inr (hthumbnail.trans hmem),
      ne_empty_of_strip (facts.strip_thumbnailKey folder key hmem)⟩

/-- An encode that records its output finds its row processing. -/
def Encode.RecordsOn (row : Option Job) (encode : Encode) : Prop :=
  ∀ result, encode.phase = .running (.recordingDone result) →
    ∃ job, row = some job ∧ job.status = .processing

/-- The outcome of an encode that has uploaded nothing. -/
theorem kept_of_outcome (op : RowOp) (hop : JobOp folder op) (jobId : UUID)
    (write : Timestamp → Option Job → Except JobError Job)
    (hwrite : ∀ now row, (write now row).map some = op.apply jobId now row)
    {shared after : JobShared} {world : WorkerWorld} {interruptions : ℕ} {phase next : RunPhase}
    {encode' : Encode} (hrow : RowSound folder shared.row)
    (hnext : (match write world.now shared.row with
      | .ok job => ({ shared with row := some job }, (⟨interruptions, .running next⟩ : Encode))
      | .error e => (shared, ⟨interruptions, .running (phaseOnError e)⟩)) = (after, encode'))
    (hnothing : ∀ key, ¬ (JobWorker.encode ⟨interruptions, .running phase⟩).Owns folder key)
    (hsound : (JobWorker.encode ⟨interruptions, .running next⟩).Sound folder) :
    WorkKept folder shared after (.encode ⟨interruptions, .running phase⟩) (.encode encode') := by
  cases hmark : write world.now shared.row with
  | error e =>
      rw [hmark] at hnext
      obtain ⟨rfl, rfl⟩ := Prod.mk.inj hnext
      exact .of_same rfl rfl hrow (by cases e <;> trivial) fun key _ h => absurd h (hnothing key)
  | ok job =>
      rw [hmark] at hnext
      obtain ⟨rfl, rfl⟩ := Prod.mk.inj hnext
      exact .of_write op hop jobId world.now ((hwrite ..).symm.trans (map_some_ok hmark)) hrow
        hsound fun key h => absurd h (hnothing key)

theorem Encode.next_kept {shared after : JobShared} {world : WorkerWorld} {encode encode' : Encode}
    (hrow : RowSound folder shared.row) (hworker : (JobWorker.encode encode).Sound folder)
    (hrecords : encode.RecordsOn shared.row)
    (hnext : encode.next folder jobId shared world = some (after, encode')) :
    WorkKept folder shared after (.encode encode) (.encode encode') := by
  obtain ⟨interruptions, phase⟩ := encode
  cases phase with
  | claiming =>
      simp only [Encode.next] at hnext
      cases hmark : markProcessing jobId world.now shared.row with
      | error e =>
          rw [hmark] at hnext
          obtain ⟨rfl, rfl⟩ := Prod.mk.inj (Option.some.inj hnext)
          exact .of_same rfl rfl hrow (by cases e <;> trivial) fun _ _ h => h.elim
      | ok job =>
          rw [hmark] at hnext
          obtain ⟨rfl, rfl⟩ := Prod.mk.inj (Option.some.inj hnext)
          exact .of_write .markProcessing trivial jobId world.now (map_some_ok hmark) hrow trivial
            fun _ h => h.elim
  | uploading left result =>
      cases left with
      | nil =>
          obtain ⟨rfl, rfl⟩ := Prod.mk.inj (Option.some.inj hnext)
          exact .of_same rfl rfl hrow hworker.2 fun _ _ h => h
      | cons key left =>
          obtain ⟨rfl, rfl⟩ := Prod.mk.inj (Option.some.inj hnext)
          refine .of_upload hrow ⟨fun k hk => hworker.1 k (List.mem_cons_of_mem _ hk), hworker.2⟩
            (Or.inl (hworker.1 key (List.mem_cons_self ..))) fun _ h => h
  | running phase =>
      cases phase with
      | encoding job =>
          simp only [Encode.next] at hnext
          cases hencoded : world.encoded with
          | error failure =>
              rw [hencoded] at hnext
              obtain ⟨rfl, rfl⟩ := Prod.mk.inj (Option.some.inj hnext)
              exact .of_same rfl rfl hrow (by cases world.stopRequested <;> trivial)
                fun _ _ h => h.elim
          | ok facts =>
              simp only [hencoded] at hnext
              split at hnext
              · rename_i hmeasured
                obtain ⟨rfl, rfl⟩ := Prod.mk.inj (Option.some.inj hnext)
                exact .of_same rfl rfl hrow ⟨fun _ h => h, facts, hmeasured, rfl⟩
                  fun _ _ h => h.elim
              · simp at hnext
      | handingOff =>
          simp only [Encode.next] at hnext
          split at hnext
          · obtain ⟨rfl, rfl⟩ := Prod.mk.inj (Option.some.inj hnext)
            exact .of_same rfl rfl hrow trivial fun _ _ h => h.elim
          · cases hmark : markLadderUnavailable world.now shared.row with
            | error e =>
                rw [hmark] at hnext
                obtain ⟨rfl, rfl⟩ := Prod.mk.inj (Option.some.inj hnext)
                exact .of_same rfl rfl hrow trivial fun _ _ h => h.elim
            | ok row =>
                rw [hmark] at hnext
                obtain ⟨rfl, rfl⟩ := Prod.mk.inj (Option.some.inj hnext)
                cases row with
                | none => exact .of_same rfl rfl hrow trivial fun _ _ h => h.elim
                | some job =>
                    exact .of_write .markLadderUnavailable trivial jobId world.now hmark hrow
                      trivial fun _ h => h.elim
      | recordingDone result =>
          obtain ⟨facts, hmeasured, rfl⟩ := hworker
          obtain ⟨job, hjob, hstatus⟩ := hrecords _ rfl
          obtain ⟨stored, hmark, houtput, hthumbnail⟩ :=
            markDone_of_processing (hjob ▸ hrow.plain) hstatus (facts.promised hmeasured folder)
              (facts.strip_outputKey folder) (facts.strip_thumbnailKey folder) jobId world.now
          simp only [Encode.next, Run.outcomeWrite, Option.map_some, hjob, hmark] at hnext
          obtain ⟨rfl, rfl⟩ := Prod.mk.inj (Option.some.inj hnext)
          have hwritten : (RowOp.markDone (facts.result folder)).apply jobId world.now shared.row =
              .ok (some stored) := by
            show (markDone jobId (facts.result folder).doneValues world.now shared.row).map some = _
            rw [hjob, hmark]
            rfl
          refine .of_write (.markDone (facts.result folder)) rfl jobId world.now hwritten hrow ?_
            fun key hkey => names_of_recorded houtput hthumbnail hkey
          by_cases hpending : (facts.result folder).ladderPending = true <;>
            simp [Run.afterWrite, hpending, JobWorker.Sound]
      | recordingFailure reason =>
          simp only [Encode.next, Run.outcomeWrite, Option.map_some, Option.some.injEq] at hnext
          exact kept_of_outcome (.markFailed reason) trivial jobId (markFailed jobId reason)
            (fun _ _ => rfl) hrow hnext (fun _ => id) trivial
      | givingBack =>
          simp only [Encode.next, Run.outcomeWrite, Run.afterWrite] at hnext
          by_cases hoften : maxInterruptions ≤ interruptions + 1
          · simp only [if_pos hoften, Option.map_some, Option.some.injEq] at hnext
            exact kept_of_outcome (.markFailed interruptedTooOften) trivial jobId
              (markFailed jobId interruptedTooOften) (fun _ _ => rfl) hrow hnext (fun _ => id) trivial
          · simp only [if_neg hoften, Option.map_some, Option.some.injEq] at hnext
            exact kept_of_outcome .markInterrupted trivial jobId (markInterrupted jobId)
              (fun _ _ => rfl) hrow hnext (fun _ => id) trivial
      | returned outcome => simp [Encode.next, Run.outcomeWrite] at hnext
      | raised => simp [Encode.next, Run.outcomeWrite] at hnext

/-- A phase without keys of its own. -/
def BuildPhase.plain : BuildPhase → Bool
  | recording _ | removing _ _ => false
  | _ => true

theorem ladder_sound {interruptions : ℕ} {phase : BuildPhase} (hplain : phase.plain = true) :
    (JobWorker.ladder ⟨interruptions, phase⟩).Sound folder := by
  cases phase <;> trivial

theorem onCheck_plain (row : Option Job) : (LadderBuild.onCheck row).plain = true := by
  unfold LadderBuild.onCheck
  split
  · rfl
  · split
    · rfl
    · split <;> rfl

theorem onFailure_plain (build : LadderBuild) (world : BuildWorld) :
    (build.onFailure world).plain = true := by
  unfold LadderBuild.onFailure
  split <;> rfl

theorem hlsKey_of_markLadderReady {hlsKey : String} {now : Timestamp} {row : Option Job}
    {after : Job} (hok : markLadderReady hlsKey now row = .ok (some after)) :
    after.hlsKey = some hlsKey := by
  unfold markLadderReady at hok
  split at hok
  · simp at hok
  · obtain ⟨before, -, -, -, hcolumns⟩ := settleLadder_some hok
    rw [hcolumns]

theorem mem_of_mem_merged {objects : List String} {p : String → Bool} {key : String}
    (hkey : key ∈ objects.filter (fun key => !p key) ++ objects.filter p) : key ∈ objects := by
  rcases List.mem_append.mp hkey with hkey | hkey <;> exact List.mem_of_mem_filter hkey

/-- A step of a ladder build that leaves row and objects alone. -/
theorem WorkKept.of_ladder_same {shared : JobShared} {build build' : LadderBuild}
    (hrow : RowSound folder shared.row) (hworker : (JobWorker.ladder build').Sound folder)
    (howned : ∀ key ∈ shared.objects, (JobWorker.ladder build).Owns folder key →
      (JobWorker.ladder build').Owns folder key) :
    WorkKept folder shared
      { shared with objects :=
          shared.objects.filter (fun key => !startsWith key (ladderPrefix folder ++ "/")) ++
            shared.objects.filter (fun key => startsWith key (ladderPrefix folder ++ "/")) }
      (.ladder build) (.ladder build') := by
  exact
    { row := rel_extends_refl _
      rowSound := hrow
      sound := hworker
      objects := fun key hkey => Or.inl (mem_of_mem_merged hkey)
      owned := fun key hkey h => Or.inl (howned key (mem_of_mem_merged hkey) h) }

theorem LadderBuild.nextOf_kept {shared after : JobShared} {world : WorkerWorld}
    {build build' : LadderBuild} (hrow : RowSound folder shared.row)
    (hworker : (JobWorker.ladder build).Sound folder)
    (hnext : build.nextOf folder shared world = some (after, build')) :
    WorkKept folder shared after (.ladder build) (.ladder build') := by
  simp only [LadderBuild.nextOf] at hnext
  split at hnext
  case isFalse => simp at hnext
  rename_i hreturned
  obtain ⟨⟨ladder, phase⟩, hstep, heq⟩ := Option.map_eq_some_iff.mp hnext
  obtain ⟨rfl, rfl⟩ := Prod.mk.inj heq
  obtain ⟨interruptions, before⟩ := build
  cases before with
  | checking =>
      obtain ⟨rfl, rfl⟩ := Prod.mk.inj (Option.some.inj hstep)
      refine .of_ladder_same hrow (ladder_sound ?_) fun _ _ h => h.elim
      cases world.out with
      | returned => exact onCheck_plain shared.row
      | raisedBefore | raisedAfter => rfl
  | building input =>
      obtain ⟨rfl, rfl⟩ := Prod.mk.inj (Option.some.inj hstep)
      refine .of_ladder_same hrow (ladder_sound ?_) fun _ _ h => h.elim
      cases world.out with
      | returned =>
          simp only [CallOutcome.next_returned]
          split
          · rfl
          · exact onFailure_plain _ _
      | raisedBefore | raisedAfter => exact onFailure_plain _ _
  | givingUp =>
      have hout : world.out = .returned := hreturned.resolve_right (by simp [BuildPhase.encodes])
      obtain ⟨row, hmark⟩ := markLadderUnavailable_ok world.now shared.row
      cases row with
      | none =>
          simp only [LadderBuild.next, hmark, LadderBuild.settle, hout, CallOutcome.next_returned,
            Option.some.injEq, Prod.mk.injEq] at hstep
          obtain ⟨rfl, rfl⟩ := hstep
          exact .of_ladder_same hrow trivial fun _ _ h => h.elim
      | some job =>
          simp only [LadderBuild.next, hmark, LadderBuild.settle, hout, CallOutcome.next_returned,
            CallOutcome.effect_returned, Option.some.injEq, Prod.mk.injEq] at hstep
          obtain ⟨rfl, rfl⟩ := hstep
          have hop : JobOp folder .markLadderUnavailable := trivial
          obtain ⟨hsound, hrel⟩ := hop.kept 0 hrow hmark
          exact
            { row := hrel
              rowSound := hsound
              sound := trivial
              objects := fun key hkey => Or.inl (mem_of_mem_merged hkey)
              owned := fun _ _ h => h.elim }
  | uploading left =>
      cases left with
      | nil =>
          obtain ⟨rfl, rfl⟩ := Prod.mk.inj (Option.some.inj hstep)
          exact .of_ladder_same hrow rfl fun _ _ h => h
      | cons name left =>
          have hout : world.out = .returned :=
            hreturned.resolve_right (by simp [BuildPhase.encodes])
          simp only [LadderBuild.next, hout, CallOutcome.next_returned,
            CallOutcome.effect_returned, Option.some.injEq, Prod.mk.injEq] at hstep
          obtain ⟨rfl, rfl⟩ := hstep
          exact
            { row := rel_extends_refl _
              rowSound := hrow
              sound := trivial
              objects := fun key hkey => by
                rcases List.mem_append.mp hkey with hkey | hkey
                · exact Or.inl (List.mem_of_mem_filter hkey)
                · rcases List.mem_insert_iff.mp hkey with rfl | hkey
                  · exact Or.inr (Or.inl (startsWith_append _ name))
                  · exact Or.inl (List.mem_of_mem_filter hkey)
              owned := fun _ _ h => Or.inl h }
  | recording hlsKey =>
      have hout : world.out = .returned := hreturned.resolve_right (by simp [BuildPhase.encodes])
      obtain rfl : hlsKey = masterKey (ladderPrefix folder) := hworker
      rcases LadderDeliveries.recording_cases (ladderPrefix folder) world.now shared.row with
        ⟨job, hmark, -⟩ | hmoved
      · simp only [LadderBuild.next, hmark, LadderBuild.settle, hout, CallOutcome.next_returned,
          CallOutcome.effect_returned, Option.some.injEq, Prod.mk.injEq] at hstep
        obtain ⟨rfl, rfl⟩ := hstep
        have hop : JobOp folder (.markLadderReady (masterKey (ladderPrefix folder))) := rfl
        obtain ⟨hsound, hrel⟩ := hop.kept 0 hrow hmark
        exact
          { row := hrel
            rowSound := hsound
            sound := trivial
            objects := fun key hkey => Or.inl (mem_of_mem_merged hkey)
            owned := fun key _ h => Or.inr ⟨job, rfl, Or.inr
              ⟨_,
                LadderDeliveries.mem_storagePrefixes_of_recorded (hlsKey_of_markLadderReady hmark),
                h⟩⟩ }
      · simp only [LadderBuild.next, hmoved, LadderBuild.settle, hout, CallOutcome.next_returned,
          Option.some.injEq, Prod.mk.injEq] at hstep
        obtain ⟨rfl, rfl⟩ := hstep
        exact .of_ladder_same hrow trivial fun _ _ h => h
  | discarding outcome =>
      have hout : world.out = .returned := hreturned.resolve_right (by simp [BuildPhase.encodes])
      simp only [LadderBuild.next, hout, CallOutcome.next_returned, Option.some.injEq,
        Prod.mk.injEq] at hstep
      obtain ⟨rfl, rfl⟩ := hstep
      exact .of_ladder_same hrow (fun key hkey => (List.mem_filter.mp hkey).2)
        fun key hkey h => List.mem_filter.mpr ⟨hkey, h⟩
  | removing left outcome =>
      cases left with
      | nil =>
          obtain ⟨rfl, rfl⟩ := Prod.mk.inj (Option.some.inj hstep)
          exact .of_ladder_same hrow trivial fun key _ h => by simp [JobWorker.Owns] at h
      | cons gone left =>
          have hout : world.out = .returned :=
            hreturned.resolve_right (by simp [BuildPhase.encodes])
          simp only [LadderBuild.next, hout, CallOutcome.next_returned,
            CallOutcome.effect_returned, Option.some.injEq, Prod.mk.injEq] at hstep
          obtain ⟨rfl, rfl⟩ := hstep
          exact
            { row := rel_extends_refl _
              rowSound := hrow
              sound := fun key hkey => hworker key (List.mem_cons_of_mem _ hkey)
              objects := fun key hkey => by
                rcases List.mem_append.mp hkey with hkey | hkey
                · exact Or.inl (List.mem_of_mem_filter hkey)
                · exact Or.inl (List.mem_of_mem_filter (List.mem_of_mem_filter hkey))
              owned := fun key hkey h => by
                refine Or.inl ((List.mem_cons.mp h).resolve_left ?_)
                rintro rfl
                have hunder := hworker key (List.mem_cons_self ..)
                simp [hunder] at hkey }
  | returned outcome => simp [LadderBuild.next] at hstep
  | raised => simp [LadderBuild.next] at hstep

theorem previewKey_of_markPreviewReady {previewKey : String} {now : Timestamp}
    {row : Option Job} {after : Job}
    (hok : markPreviewReady previewKey now row = .ok (some after)) :
    after.previewKey = some previewKey := by
  obtain ⟨before, -, -, -, hcolumns⟩ := markPreviewReady_columns hok
  rw [hcolumns]

theorem previewPrefix_eq (folder : String) :
    previewPrefix folder = s!"{folder}/preview" ++ "/" := by
  have hsplit : "/preview/" = "/preview" ++ "/" := by decide
  calc previewPrefix folder = folder ++ "/preview/" := rfl
    _ = folder ++ "/preview" ++ "/" := by rw [hsplit, String.append_assoc]
    _ = s!"{folder}/preview" ++ "/" := rfl

theorem parent_vttKey (folder : String) :
    beforeLast '/' (vttKey folder) ++ "/" = previewPrefix folder := by
  have hslash : '/' ∉ "sprite.vtt".toList := by decide
  unfold vttKey
  rw [previewPrefix_eq]
  exact congrArg (· ++ "/") (beforeLast_append hslash)

/-- The deletion of a job that records its preview lists the preview's folder. -/
theorem mem_storagePrefixes_of_previewed {job : Job}
    (hkey : job.previewKey = some (vttKey folder)) :
    previewPrefix folder ∈ storagePrefixes job := by
  have hname : 's' ∈ "sprite.vtt".toList := by decide
  have hne : vttKey folder ≠ "" := ne_empty_of_strip (strip_ne_of_mem (c := 's')
    (String.toList_append ▸ List.mem_append_right _ hname) (by decide))
  exact mem_storagePrefixes.mpr ⟨_, Or.inr hkey, hne, parent_vttKey folder⟩

theorem PreviewPhase.next_kept {shared after : JobShared} {world : WorkerWorld}
    {phase phase' : PreviewPhase} (hrow : RowSound folder shared.row)
    (hworker : (JobWorker.preview phase).Sound folder)
    (hnext : phase.next folder shared world = some (after, phase')) :
    WorkKept folder shared after (.preview phase) (.preview phase') := by
  cases phase with
  | making =>
      obtain ⟨rfl, rfl⟩ := Prod.mk.inj (Option.some.inj hnext)
      refine .of_same rfl rfl hrow ?_ fun _ _ h => h.elim
      split
      · intro key hkey
        rcases List.mem_cons.mp hkey with rfl | hkey
        · exact startsWith_append _ _
        · rw [List.mem_singleton.mp hkey]
          exact startsWith_append _ _
      · trivial
  | uploading left =>
      cases left with
      | nil =>
          obtain ⟨rfl, rfl⟩ := Prod.mk.inj (Option.some.inj hnext)
          exact .of_same rfl rfl hrow trivial fun _ _ h => h
      | cons key left =>
          obtain ⟨rfl, rfl⟩ := Prod.mk.inj (Option.some.inj hnext)
          exact .of_upload hrow (fun k hk => hworker k (List.mem_cons_of_mem _ hk))
            (Or.inl (hworker key (List.mem_cons_self ..))) fun _ h => h
  | recording =>
      simp only [PreviewPhase.next] at hnext
      split at hnext
      · rename_i job hmark
        obtain ⟨rfl, rfl⟩ := Prod.mk.inj (Option.some.inj hnext)
        refine .of_write (.markPreviewReady (vttKey folder)) rfl 0 world.now hmark hrow trivial
          fun key h => Or.inr ⟨previewPrefix folder, ?_, h⟩
        exact mem_storagePrefixes_of_previewed (previewKey_of_markPreviewReady hmark)
      all_goals
        obtain ⟨rfl, rfl⟩ := Prod.mk.inj (Option.some.inj hnext)
        exact .of_same rfl rfl hrow trivial fun _ _ h => h
  | discarding =>
      obtain ⟨rfl, rfl⟩ := Prod.mk.inj (Option.some.inj hnext)
      exact .of_same rfl rfl hrow trivial fun key hkey h => List.mem_filter.mpr ⟨hkey, h⟩
  | removing left =>
      cases left with
      | nil =>
          obtain ⟨rfl, rfl⟩ := Prod.mk.inj (Option.some.inj hnext)
          exact .of_same rfl rfl hrow trivial fun key _ h => by simp [JobWorker.Owns] at h
      | cons key left =>
          obtain ⟨rfl, rfl⟩ := Prod.mk.inj (Option.some.inj hnext)
          exact .of_remove hrow trivial fun k hne h => (List.mem_cons.mp h).resolve_left hne
  | returned => simp [PreviewPhase.next] at hnext

theorem RenditionPhase.next_kept {shared after : JobShared} {world : WorkerWorld}
    {phase phase' : RenditionPhase} (hrow : RowSound folder shared.row)
    (hworker : (JobWorker.rendition phase).Sound folder)
    (hnext : phase.next shared world = some (after, phase')) :
    WorkKept folder shared after (.rendition phase) (.rendition phase') := by
  cases phase with
  | loading =>
      obtain ⟨rfl, rfl⟩ := Prod.mk.inj (Option.some.inj hnext)
      refine .of_same rfl rfl hrow ?_ fun _ _ h => h.elim
      cases hjob : shared.row with
      | none => trivial
      | some job =>
          rcases hrow.hlsKey job hjob with hnone | hmaster
          · simp [hnone, JobWorker.Sound]
          · simp [hmaster, JobWorker.Sound]
  | building hlsKey =>
      simp only [RenditionPhase.next] at hnext
      split at hnext
      · obtain ⟨rfl, rfl⟩ := Prod.mk.inj (Option.some.inj hnext)
        exact .of_same rfl rfl hrow trivial fun _ _ h => h.elim
      · rename_i name hname
        obtain ⟨rfl, rfl⟩ := Prod.mk.inj (Option.some.inj hnext)
        exact .of_upload hrow hworker (Or.inr (startsWith_append _ name)) fun _ h => h.elim
  | returned => simp [RenditionPhase.next] at hnext

theorem PieceCoordinator.next_kept {shared after : JobShared} {kind : PieceKind}
    {phase phase' : PieceCoordinator} (hrow : RowSound folder shared.row)
    (hnext : phase.next folder kind shared = some (after, phase')) :
    WorkKept folder shared after (.coordinator kind phase) (.coordinator kind phase') := by
  cases phase with
  | clearing | coordinating =>
      obtain ⟨rfl, rfl⟩ := Prod.mk.inj (Option.some.inj hnext)
      exact .of_same rfl rfl hrow trivial fun _ _ h => h
  | clearingLeft left =>
      cases left with
      | nil =>
          obtain ⟨rfl, rfl⟩ := Prod.mk.inj (Option.some.inj hnext)
          exact .of_same rfl rfl hrow trivial fun _ _ h => h
      | cons key left =>
          obtain ⟨rfl, rfl⟩ := Prod.mk.inj (Option.some.inj hnext)
          exact .of_remove hrow trivial fun _ _ h => h
  | closed =>
      obtain ⟨rfl, rfl⟩ := Prod.mk.inj (Option.some.inj hnext)
      exact .of_same rfl rfl hrow trivial fun key hkey h => List.mem_filter.mpr ⟨hkey, h⟩
  | removing left =>
      cases left with
      | nil =>
          obtain ⟨rfl, rfl⟩ := Prod.mk.inj (Option.some.inj hnext)
          exact .of_same rfl rfl hrow trivial fun key _ h => by simp [JobWorker.Owns] at h
      | cons key left =>
          obtain ⟨rfl, rfl⟩ := Prod.mk.inj (Option.some.inj hnext)
          exact .of_remove hrow trivial fun k hne h => (List.mem_cons.mp h).resolve_left hne
  | returned => simp [PieceCoordinator.next] at hnext

theorem PieceHelper.next_kept {shared after : JobShared} {kind : PieceKind} {world : WorkerWorld}
    {phase phase' : PieceHelper} (hrow : RowSound folder shared.row)
    (hnext : phase.next folder kind shared world = some (after, phase')) :
    WorkKept folder shared after (.helper kind phase) (.helper kind phase') := by
  cases phase with
  | encoding =>
      obtain ⟨rfl, rfl⟩ := Prod.mk.inj (Option.some.inj hnext)
      exact .of_same rfl rfl hrow (by split <;> trivial) fun _ _ h => h.elim
  | checked =>
      obtain ⟨name, -, heq⟩ := Option.map_eq_some_iff.mp hnext
      obtain ⟨rfl, rfl⟩ := Prod.mk.inj heq
      exact .of_upload hrow trivial (Or.inr (startsWith_append _ name)) fun _ h => h.elim
  | returned => simp [PieceHelper.next] at hnext

/-- Every worker's step keeps what the others rely on. -/
theorem JobWorker.next_kept {shared after : JobShared} {world : WorkerWorld}
    {worker worker' : JobWorker} (hrow : RowSound folder shared.row)
    (hworker : worker.Sound folder)
    (hrecords : ∀ encode, worker = .encode encode → encode.RecordsOn shared.row)
    (hnext : worker.next folder jobId shared world = some (after, worker')) :
    WorkKept folder shared after worker worker' := by
  cases worker with
  | encode encode =>
      obtain ⟨⟨shared', encode'⟩, hstep, heq⟩ := Option.map_eq_some_iff.mp hnext
      obtain ⟨rfl, rfl⟩ := Prod.mk.inj heq
      exact Encode.next_kept hrow hworker (hrecords encode rfl) hstep
  | ladder build =>
      obtain ⟨⟨shared', build'⟩, hstep, heq⟩ := Option.map_eq_some_iff.mp hnext
      obtain ⟨rfl, rfl⟩ := Prod.mk.inj heq
      exact LadderBuild.nextOf_kept hrow hworker hstep
  | preview phase =>
      obtain ⟨⟨shared', phase'⟩, hstep, heq⟩ := Option.map_eq_some_iff.mp hnext
      obtain ⟨rfl, rfl⟩ := Prod.mk.inj heq
      exact PreviewPhase.next_kept hrow hworker hstep
  | rendition phase =>
      obtain ⟨⟨shared', phase'⟩, hstep, heq⟩ := Option.map_eq_some_iff.mp hnext
      obtain ⟨rfl, rfl⟩ := Prod.mk.inj heq
      exact RenditionPhase.next_kept hrow hworker hstep
  | coordinator kind phase =>
      obtain ⟨⟨shared', phase'⟩, hstep, heq⟩ := Option.map_eq_some_iff.mp hnext
      obtain ⟨rfl, rfl⟩ := Prod.mk.inj heq
      exact PieceCoordinator.next_kept hrow hstep
  | helper kind phase =>
      obtain ⟨⟨shared', phase'⟩, hstep, heq⟩ := Option.map_eq_some_iff.mp hnext
      obtain ⟨rfl, rfl⟩ := Prod.mk.inj heq
      exact PieceHelper.next_kept hrow hstep

theorem Encode.next_board {shared after : JobShared} {world : WorkerWorld}
    {encode encode' : Encode}
    (hnext : encode.next folder jobId shared world = some (after, encode')) :
    after.board = shared.board := by
  unfold Encode.next at hnext
  dsimp only at hnext
  repeat' split at hnext
  all_goals first
    | (obtain ⟨rfl, -⟩ := Prod.mk.inj (Option.some.inj hnext); rfl)
    | (obtain ⟨write, -, heq⟩ := Option.map_eq_some_iff.mp hnext
       split at heq <;> (obtain ⟨rfl, -⟩ := Prod.mk.inj heq; rfl))
    | simp at hnext

/-- A board is open for a coordinator that has opened it and not closed it. -/
theorem JobWorker.next_board {shared after : JobShared} {world : WorkerWorld}
    {worker worker' : JobWorker} {kind : PieceKind}
    (hnext : worker.next folder jobId shared world = some (after, worker'))
    (hopen : after.board kind = true) : worker' = .coordinator kind .coordinating ∨
      (shared.board kind = true ∧ worker ≠ .coordinator kind .coordinating) := by
  cases worker with
  | encode encode =>
      obtain ⟨⟨shared', encode'⟩, hstep, heq⟩ := Option.map_eq_some_iff.mp hnext
      obtain ⟨rfl, rfl⟩ := Prod.mk.inj heq
      rw [Encode.next_board hstep] at hopen
      exact Or.inr ⟨hopen, by simp⟩
  | ladder build =>
      obtain ⟨⟨shared', build'⟩, hstep, heq⟩ := Option.map_eq_some_iff.mp hnext
      obtain ⟨rfl, rfl⟩ := Prod.mk.inj heq
      simp only [LadderBuild.nextOf] at hstep
      split at hstep
      · obtain ⟨ladder, -, heq⟩ := Option.map_eq_some_iff.mp hstep
        obtain ⟨rfl, -⟩ := Prod.mk.inj heq
        exact Or.inr ⟨hopen, by simp⟩
      · simp at hstep
  | preview phase =>
      obtain ⟨⟨shared', phase'⟩, hstep, heq⟩ := Option.map_eq_some_iff.mp hnext
      obtain ⟨rfl, rfl⟩ := Prod.mk.inj heq
      refine Or.inr ⟨?_, by simp⟩
      unfold PreviewPhase.next at hstep
      repeat' split at hstep
      all_goals first
        | (obtain ⟨rfl, -⟩ := Prod.mk.inj (Option.some.inj hstep); exact hopen)
        | simp at hstep
  | rendition phase =>
      obtain ⟨⟨shared', phase'⟩, hstep, heq⟩ := Option.map_eq_some_iff.mp hnext
      obtain ⟨rfl, rfl⟩ := Prod.mk.inj heq
      refine Or.inr ⟨?_, by simp⟩
      unfold RenditionPhase.next at hstep
      repeat' split at hstep
      all_goals first
        | (obtain ⟨rfl, -⟩ := Prod.mk.inj (Option.some.inj hstep); exact hopen)
        | simp at hstep
  | coordinator other phase =>
      obtain ⟨⟨shared', phase'⟩, hstep, heq⟩ := Option.map_eq_some_iff.mp hnext
      obtain ⟨rfl, rfl⟩ := Prod.mk.inj heq
      cases phase with
      | clearingLeft left =>
          cases left with
          | nil =>
              obtain ⟨rfl, rfl⟩ := Prod.mk.inj (Option.some.inj hstep)
              by_cases hkind : kind = other
              · exact Or.inl (by rw [hkind])
              · exact Or.inr ⟨by simpa [hkind] using hopen, by simp⟩
          | cons key left =>
              obtain ⟨rfl, rfl⟩ := Prod.mk.inj (Option.some.inj hstep)
              exact Or.inr ⟨hopen, by simp⟩
      | coordinating =>
          obtain ⟨rfl, rfl⟩ := Prod.mk.inj (Option.some.inj hstep)
          by_cases hkind : kind = other
          · simp [hkind] at hopen
          · exact Or.inr ⟨by simpa [hkind] using hopen, by simpa using fun h => hkind h.symm⟩
      | removing left =>
          cases left <;>
            (obtain ⟨rfl, rfl⟩ := Prod.mk.inj (Option.some.inj hstep)
             exact Or.inr ⟨hopen, by simp⟩)
      | clearing | closed =>
          obtain ⟨rfl, rfl⟩ := Prod.mk.inj (Option.some.inj hstep)
          exact Or.inr ⟨hopen, by simp⟩
      | returned => simp [PieceCoordinator.next] at hstep
  | helper other phase =>
      obtain ⟨⟨shared', phase'⟩, hstep, heq⟩ := Option.map_eq_some_iff.mp hnext
      obtain ⟨rfl, rfl⟩ := Prod.mk.inj heq
      refine Or.inr ⟨?_, by simp⟩
      cases phase with
      | encoding =>
          obtain ⟨rfl, -⟩ := Prod.mk.inj (Option.some.inj hstep)
          exact hopen
      | checked =>
          obtain ⟨name, -, heq⟩ := Option.map_eq_some_iff.mp hstep
          obtain ⟨rfl, -⟩ := Prod.mk.inj heq
          exact hopen
      | returned => simp [PieceHelper.next] at hstep

end Worker
end MediaPlayer
