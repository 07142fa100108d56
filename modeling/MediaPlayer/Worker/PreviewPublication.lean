import MediaPlayer.Worker.WorkerSteps

/-!
# The publication of a preview

`PreviewSprite.run` of `app/worker/preview.py`, call by call: the sheet goes into storage
before its index, and the row names the index after both.  Every call may raise, and beside the
run go the writes of the API and of the reaper, and the deletion of the job, which deletes what
its row named.  The deletion of an account deletes the objects first, and keeps the row locked
until it is gone.

* `Publication.Sound` — what holds at every phase of the run.
* `preview_all_or_nothing` — when the run has ended, both objects are there or neither is.
-/

namespace MediaPlayer
namespace Worker

open Library Models Repositories Services

/-- Where `PreviewSprite.run` stands.  A preview that is not recorded is discarded, and then
`run` raises or returns `None`. -/
inductive PreviewRun
  | downloading
  | probing
  | rendering
  | uploading (left : List String)
  | recording
  | discarding (raises : Bool)
  | removing (left : List String) (raises : Bool)
  | published
  | unpublished (raises : Bool)
  deriving DecidableEq

namespace PreviewRun

/-- `run` has returned or raised. -/
def ended : PreviewRun → Bool
  | published | unpublished _ => true
  | _ => false

/-- The calls of `_discard`. -/
def discards : PreviewRun → Bool
  | discarding _ | removing _ _ => true
  | _ => false

end PreviewRun

/-- The row, the objects, the run, and the deletion, which may hold the row's lock. -/
structure Publication where
  row : Option Job
  objects : List String
  run : PreviewRun := .downloading
  deletion : DeletionPhase := .idle
  locked : Bool := false

inductive PublicationAction
  /-- The run's next call. -/
  | call (out : CallOutcome) (now : Timestamp)
  /-- A write of the API or of the reaper on the row. -/
  | write (op : RowOp) (now : Timestamp)
  /-- `delete_job`, before `delete_job_storage`. -/
  | deleteRow
  /-- `account_contents`, before `delete_job_storage`. -/
  | lockRow
  /-- The deletion's next call; of the deletes in flight, the one of `key`. -/
  | delete (key : String) (out : CallOutcome)
  /-- `delete_account_rows`. -/
  | commit

namespace Publication

/-- The run's next call. -/
def nextCall (folder : String) (s : Publication) (out : CallOutcome) (now : Timestamp) :
    Option Publication :=
  match s.run with
  | .downloading => some { s with run := out.next .probing (.unpublished true) }
  | .probing => some { s with run := out.next .rendering (.unpublished true) }
  | .rendering =>
      some { s with run := out.next (.uploading (previewKeys folder)) (.unpublished true) }
  | .uploading (key :: left) =>
      some { s with
        objects := out.effect (·.insert key) s.objects
        run := out.next (.uploading left) (.discarding true) }
  | .uploading [] => some { s with run := .recording }
  | .recording =>
      -- The update waits for the row's lock.
      if s.locked then none
      else match out with
        | .raisedBefore => some { s with run := .discarding true }
        | .returned =>
            match markPreviewReady (vttKey folder) now s.row with
            | .ok (some job) => some { s with row := some job, run := .published }
            | .ok none => some { s with run := .discarding false }
            | .error _ => some { s with run := .discarding true }
        | .raisedAfter =>
            some { s with
              row := LadderBuilds.writtenRow s.row (markPreviewReady (vttKey folder) now s.row)
              run := .discarding true }
  | .discarding raises =>
      let left := listObjects s.objects (previewPrefix folder)
      some { s with run := out.next (.removing left raises) (.unpublished raises) }
  | .removing (key :: left) raises =>
      some { s with
        objects := out.effect (·.filter (· != key)) s.objects
        run := out.next (.removing left raises) (.unpublished raises) }
  | .removing [] raises => some { s with run := .unpublished raises }
  | .published | .unpublished _ => none

/-- The deletion's next call.  That of a job goes on after one that raised. -/
def nextDelete (s : Publication) (key : String) (out : CallOutcome) : Option Publication :=
  if s.locked ∧ out ≠ .returned then none
  else match s.deletion with
    | .idle | .returned => none
    | .listing (folder :: folders) keys =>
        let found := out.next (listObjects s.objects folder) []
        some { s with deletion := .listing folders (keys ++ found) }
    | .listing [] keys => some { s with deletion := .deleting keys.eraseDups }
    | .deleting [] => some { s with deletion := .returned }
    | .deleting left =>
        if key ∈ left then
          some { s with
            objects := out.effect (·.filter (· != key)) s.objects
            deletion := .deleting (left.erase key) }
        else none

/-- One atomic step. -/
def step (folder : String) (jobId : UUID) (s : Publication) :
    PublicationAction → Option Publication
  | .call out now => s.nextCall folder out now
  | .write op now =>
      if s.locked = false ∧ DeletionState.outside op then
        some { s with row := LadderBuilds.writtenRow s.row (op.apply jobId now s.row) }
      else none
  | .deleteRow =>
      if s.locked then none
      else s.row.map fun job =>
        { s with row := none, deletion := .listing (storagePrefixes job) (storageKeys job) }
  | .lockRow =>
      if s.deletion = .idle then
        s.row.map fun job =>
          { s with locked := true, deletion := .listing (storagePrefixes job) (storageKeys job) }
      else none
  | .delete key out => s.nextDelete key out
  | .commit =>
      if s.locked ∧ s.deletion = .returned then some { s with row := none, locked := false }
      else none

/-- The row names the preview. -/
def Named (folder : String) (s : Publication) : Prop :=
  ∃ job, s.row = some job ∧ job.previewKey = some (vttKey folder)

/-- A record that raises has not recorded, a discard succeeds, and the job is deleted before
its preview is recorded, if at all. -/
def Permitted (s : Publication) : PublicationAction → Prop
  | .call out _ =>
      (s.run = .recording → out ≠ .raisedAfter) ∧ (s.run.discards = true → out = .returned)
  | .deleteRow | .lockRow => s.run ≠ .published
  | _ => True

instance (s : Publication) : ∀ action, Decidable (Permitted s action)
  | .call out _ => inferInstanceAs (Decidable
      ((s.run = .recording → out ≠ .raisedAfter) ∧ (s.run.discards = true → out = .returned)))
  | .deleteRow | .lockRow => inferInstanceAs (Decidable (s.run ≠ .published))
  | .write .. | .delete .. | .commit => .isTrue trivial

end Publication

/-- One run, beside everything else, from a row that names no preview and a storage without
one. -/
def publicationSystem (folder : String) (jobId : UUID) :
    StepSystem Publication PublicationAction where
  init s := (∀ job, s.row = some job → job.previewKey = none) ∧
    (∀ key ∈ previewKeys folder, key ∉ s.objects) ∧ s.run = .downloading ∧
    s.deletion = .idle ∧ s.locked = false
  step := Publication.step folder jobId

/-! ## The invariant -/

/-- The other writers leave the preview of a row as it was. -/
theorem previewKey_of_outside {op : RowOp} (hop : DeletionState.outside op = true) {jobId : UUID}
    {now : Timestamp} {row : Option Job} {after : Job}
    (hok : op.apply jobId now row = .ok (some after)) :
    ∃ before, row = some before ∧ after.previewKey = before.previewKey := by
  cases op with
  | markLadderUnavailable =>
      obtain ⟨before, hrow, -, -, hcolumns⟩ := settleLadder_some hok
      exact ⟨before, hrow, by rw [hcolumns]⟩
  | markStaleFailed =>
      obtain ⟨before, hrow, -, hcolumns⟩ := markStaleFailed_columns hok
      exact ⟨before, hrow, by rw [hcolumns]⟩
  | prepareRetry ownerId =>
      obtain ⟨before, hrow, -, -, hcolumns⟩ := prepareRetry_columns (map_some_eq_ok hok)
      exact ⟨before, hrow, by rw [hcolumns]⟩
  | trashJob ownerId =>
      obtain ⟨before, hrow, -, -, hcolumns⟩ := trashJob_some (Except.ok.inj hok)
      exact ⟨before, hrow, by rw [hcolumns]⟩
  | restoreJob ownerId =>
      obtain ⟨before, hrow, -, -, hcolumns⟩ := restoreJob_some (Except.ok.inj hok)
      exact ⟨before, hrow, by rw [hcolumns]⟩
  | createJob | createEditJob | markProcessing | markDone | markFailed | markInterrupted
  | markLadderReady | markPreviewReady | deleteJob => cases hop

/-- A write leaves no row where there was none, and the preview where there was one. -/
theorem previewKey_of_writtenRow {op : RowOp} (hop : DeletionState.outside op = true)
    {jobId : UUID} {now : Timestamp} {row : Option Job} :
    (LadderBuilds.writtenRow row (op.apply jobId now row)).map (·.previewKey) =
      row.map (·.previewKey) := by
  cases hok : op.apply jobId now row with
  | error e => rfl
  | ok after =>
      cases after with
      | none => rfl
      | some after =>
          obtain ⟨before, rfl, hkey⟩ := previewKey_of_outside hop hok
          show some after.previewKey = some before.previewKey
          rw [hkey]

theorem startsWith_of_mem_previewKeys {folder key : String} (hkey : key ∈ previewKeys folder) :
    startsWith key (previewPrefix folder) = true := by
  rcases List.mem_cons.mp hkey with rfl | hkey
  · exact startsWith_append ..
  · obtain rfl := List.mem_singleton.mp hkey
    exact startsWith_append ..

/-- What is recorded is a row that was there, and names the preview. -/
theorem markPreviewReady_some {previewKey : String} {now : Timestamp} {row : Option Job}
    {after : Job} (hok : markPreviewReady previewKey now row = .ok (some after)) :
    row ≠ none ∧ after.previewKey = some previewKey := by
  obtain ⟨before, hrow, -⟩ := markPreviewReady_columns hok
  exact ⟨by simp [hrow], previewKey_of_markPreviewReady hok⟩

namespace Publication

variable {folder : String} {jobId : UUID} {s t : Publication}

/-- What holds of the objects while the run stands where it does. -/
def PhaseSound (folder : String) (s : Publication) : PreviewRun → Prop
  | .downloading | .probing | .rendering | .unpublished _ =>
      ∀ key ∈ previewKeys folder, key ∉ s.objects
  | .uploading left => s.deletion = .idle →
      ∀ key ∈ previewKeys folder, key ∈ s.objects ∨ key ∈ left
  | .recording => s.deletion = .idle → ∀ key ∈ previewKeys folder, key ∈ s.objects
  | .discarding _ => True
  | .removing left _ => ∀ key ∈ previewKeys folder, key ∈ s.objects → key ∈ left
  | .published => s.deletion = .idle ∧ s.Named folder ∧
      ∀ key ∈ previewKeys folder, key ∈ s.objects

/-- The row names a preview once it is published, and until then only a deletion can have
touched the objects; its row is gone or locked. -/
structure Sound (folder : String) (s : Publication) : Prop where
  unnamed : s.run ≠ .published → ∀ job, s.row = some job → job.previewKey = none
  deletion : s.deletion = .idle ∨ s.row = none ∨ s.locked = true
  phase : s.PhaseSound folder s.run

/-- The run goes on, and may have changed the objects. -/
theorem Sound.stores (hs : s.Sound folder) {run : PreviewRun} {objects : List String}
    (hbefore : s.run ≠ .published)
    (hphase : PhaseSound folder { s with objects := objects } run) :
    Sound folder { s with objects := objects, run := run } where
  unnamed _ := hs.unnamed hbefore
  deletion := hs.deletion
  phase := by cases run <;> exact hphase

/-- The run goes on without touching the row and the objects. -/
theorem Sound.goes (hs : s.Sound folder) {run : PreviewRun} (hbefore : s.run ≠ .published)
    (hphase : s.PhaseSound folder run) : Sound folder { s with run := run } :=
  hs.stores hbefore hphase

theorem Sound.nextCall (hs : s.Sound folder) {out : CallOutcome} {now : Timestamp}
    (hok : s.Permitted (.call out now)) (hstep : s.nextCall folder out now = some t) :
    t.Sound folder := by
  obtain ⟨hrecords, hdiscards⟩ := hok
  have hphase := hs.phase
  have hnext : ∀ {onReturn onRaise : PreviewRun}, s.PhaseSound folder onReturn →
      s.PhaseSound folder onRaise → s.PhaseSound folder (out.next onReturn onRaise) :=
    fun hreturn hraise => out.next_of hreturn hraise
  unfold Publication.nextCall at hstep
  cases hrun : s.run with
  | downloading | probing =>
      rw [hrun] at hphase hstep
      obtain rfl := Option.some.inj hstep
      exact hs.goes (by simp [hrun]) (hnext hphase hphase)
  | rendering =>
      rw [hrun] at hphase hstep
      obtain rfl := Option.some.inj hstep
      exact hs.goes (by simp [hrun]) (hnext (fun _ key hkey => .inr hkey) hphase)
  | uploading left =>
      rw [hrun] at hphase hstep
      cases left with
      | nil =>
          obtain rfl := Option.some.inj hstep
          refine hs.goes (by simp [hrun]) fun hidle key hkey => ?_
          exact (hphase hidle key hkey).resolve_right List.not_mem_nil
      | cons first left =>
          obtain rfl := Option.some.inj hstep
          refine hs.stores (by simp [hrun]) ?_
          cases out with
          | returned =>
              intro hidle key hkey
              show key ∈ s.objects.insert first ∨ key ∈ left
              rw [List.mem_insert_iff]
              rcases hphase hidle key hkey with hstored | hleft
              · exact .inl (.inr hstored)
              · exact (List.mem_cons.mp hleft).imp .inl id
          -- Whatever was stored, the run discards it now.
          | raisedBefore | raisedAfter => trivial
  | recording =>
      rw [hrun] at hphase
      simp only [hrun] at hstep
      split at hstep
      · exact absurd hstep nofun
      next hlocked =>
      cases out with
      -- The record may be made and its answer lost; `Permitted` leaves that out.
      | raisedAfter => exact absurd rfl (hrecords hrun)
      | raisedBefore =>
          obtain rfl := Option.some.inj hstep
          exact hs.goes (by simp [hrun]) trivial
      | returned =>
          cases hmark : markPreviewReady (vttKey folder) now s.row with
          | error e =>
              simp only [hmark] at hstep
              obtain rfl := Option.some.inj hstep
              exact hs.goes (by simp [hrun]) trivial
          | ok row =>
              cases row with
              | none =>
                  simp only [hmark] at hstep
                  obtain rfl := Option.some.inj hstep
                  exact hs.goes (by simp [hrun]) trivial
              | some job =>
                  simp only [hmark] at hstep
                  obtain rfl := Option.some.inj hstep
                  obtain ⟨hrow, hkey⟩ := markPreviewReady_some hmark
                  -- No deletion can have begun: its row is gone, or locked.
                  have hidle : s.deletion = .idle := hs.deletion.resolve_right fun h =>
                    h.elim hrow hlocked
                  exact ⟨fun h => absurd rfl h, .inl hidle, hidle, ⟨job, rfl, hkey⟩, hphase hidle⟩
  | discarding raises =>
      rw [hrun] at hstep
      obtain rfl := Option.some.inj hstep
      obtain rfl : out = .returned := hdiscards (by rw [hrun]; rfl)
      -- What is listed under the prefix is all there is of the preview.
      refine hs.goes (by simp [hrun]) fun key hkey hstored => ?_
      exact List.mem_filter.mpr ⟨hstored, startsWith_of_mem_previewKeys hkey⟩
  | removing left raises =>
      obtain rfl : out = .returned := hdiscards (by rw [hrun]; rfl)
      rw [hrun] at hphase hstep
      cases left with
      | nil =>
          obtain rfl := Option.some.inj hstep
          refine hs.goes (by simp [hrun]) fun key hkey hstored => ?_
          exact List.not_mem_nil (hphase key hkey hstored)
      | cons first left =>
          obtain rfl := Option.some.inj hstep
          refine hs.stores (by simp [hrun]) fun key hkey hstored => ?_
          obtain ⟨hmem, hne⟩ := List.mem_filter.mp hstored
          exact (List.mem_cons.mp (hphase key hkey hmem)).resolve_left (bne_iff_ne.mp hne)
  | published | unpublished =>
      rw [hrun] at hstep
      exact absurd hstep nofun

/-- A deletion that has begun may take objects away wherever the run stands. -/
theorem PhaseSound.deleting {run : PreviewRun} (hphase : s.PhaseSound folder run)
    (hrun : run ≠ .published) (hdeletion : t.deletion ≠ .idle)
    (hsub : ∀ key ∈ t.objects, key ∈ s.objects) : t.PhaseSound folder run := by
  cases run with
  | downloading | probing | rendering | unpublished =>
      exact fun key hkey hstored => hphase key hkey (hsub key hstored)
  | uploading | recording => exact fun hidle => absurd hidle hdeletion
  | discarding => trivial
  | removing => exact fun key hkey hstored => hphase key hkey (hsub key hstored)
  | published => exact absurd rfl hrun

theorem Sound.ne_published (hs : s.Sound folder) (hdeletion : s.deletion ≠ .idle) :
    s.run ≠ .published := by
  intro hrun
  have hphase := hs.phase
  rw [hrun] at hphase
  exact hdeletion hphase.1

theorem Sound.nextDelete (hs : s.Sound folder) {key : String} {out : CallOutcome}
    (hstep : s.nextDelete key out = some t) : t.Sound folder := by
  have hgoes : ∀ {objects : List String} {deletion : DeletionPhase}, s.deletion ≠ .idle →
      deletion ≠ .idle → (∀ key ∈ objects, key ∈ s.objects) →
        Sound folder { s with objects := objects, deletion := deletion } := by
    intro objects deletion hbefore hafter hsub
    refine ⟨hs.unnamed, .inr (hs.deletion.resolve_left hbefore), ?_⟩
    exact hs.phase.deleting (hs.ne_published hbefore) hafter hsub
  unfold Publication.nextDelete at hstep
  split_ifs at hstep
  split at hstep
  · exact absurd hstep nofun
  · exact absurd hstep nofun
  · next hdeletion =>
      obtain rfl := Option.some.inj hstep
      exact hgoes (by simp [hdeletion]) (by simp) fun _ h => h
  · next hdeletion =>
      obtain rfl := Option.some.inj hstep
      exact hgoes (by simp [hdeletion]) (by simp) fun _ h => h
  · next hdeletion =>
      obtain rfl := Option.some.inj hstep
      exact hgoes (by simp [hdeletion]) (by simp) fun _ h => h
  · next hdeletion =>
      split_ifs at hstep
      obtain rfl := Option.some.inj hstep
      refine hgoes (by simp [hdeletion]) (by simp) fun other hother => ?_
      cases out with
      | raisedBefore => exact hother
      -- A delete takes a key away and brings none.
      | returned | raisedAfter => exact List.mem_of_mem_filter hother

theorem Sound.write (hs : s.Sound folder) {row : Option Job}
    (hkeys : row.map (·.previewKey) = s.row.map (·.previewKey)) :
    Sound folder { s with row := row } := by
  have hback : ∀ job, row = some job →
      ∃ before, s.row = some before ∧ before.previewKey = job.previewKey := by
    rintro job rfl
    exact Option.map_eq_some_iff.mp hkeys.symm
  refine ⟨fun hrun job hjob => ?_, ?_, ?_⟩
  · obtain ⟨before, hbefore, hkey⟩ := hback job hjob
    exact hkey ▸ hs.unnamed hrun before hbefore
  · refine hs.deletion.imp_right (Or.imp_left fun hnone => ?_)
    rw [hnone] at hkeys
    exact Option.map_eq_none_iff.mp hkeys
  · have hphase := hs.phase
    show PhaseSound folder { s with row := row } s.run
    cases hrun : s.run with
    -- The row that names the preview is written, and its name stays.
    | published =>
        rw [hrun] at hphase
        obtain ⟨hidle, ⟨job, hjob, hkey⟩, hstored⟩ := hphase
        rw [hjob] at hkeys
        obtain ⟨after, hafter, hsame⟩ := Option.map_eq_some_iff.mp hkeys
        exact ⟨hidle, ⟨after, hafter, hsame.trans hkey⟩, hstored⟩
    | _ =>
        rw [hrun] at hphase
        exact hphase

theorem Sound.step (hs : s.Sound folder) {action : PublicationAction}
    (hok : s.Permitted action) (hstep : s.step folder jobId action = some t) :
    t.Sound folder := by
  cases action with
  | call out now => exact hs.nextCall hok hstep
  | delete key out => exact hs.nextDelete hstep
  | write op now =>
      simp only [Publication.step] at hstep
      split_ifs at hstep with hwrites
      obtain rfl := Option.some.inj hstep
      exact hs.write (previewKey_of_writtenRow hwrites.2)
  | deleteRow =>
      simp only [Publication.step] at hstep
      split_ifs at hstep
      obtain ⟨job, -, rfl⟩ := Option.map_eq_some_iff.mp hstep
      exact ⟨fun _ _ h => absurd h nofun, .inr (.inl rfl),
        hs.phase.deleting hok (by simp) fun _ h => h⟩
  | lockRow =>
      simp only [Publication.step] at hstep
      split_ifs at hstep
      obtain ⟨job, -, rfl⟩ := Option.map_eq_some_iff.mp hstep
      exact ⟨hs.unnamed, .inr (.inr rfl), hs.phase.deleting hok (by simp) fun _ h => h⟩
  | commit =>
      simp only [Publication.step] at hstep
      split_ifs at hstep with hcommits
      obtain rfl := Option.some.inj hstep
      have hbegun : s.deletion ≠ .idle := by simp [hcommits.2]
      exact ⟨fun _ _ h => absurd h nofun, .inr (.inl rfl),
        hs.phase.deleting (hs.ne_published hbegun) hbegun fun _ h => h⟩

end Publication

/-- When the run has returned or raised, the sheet and its index are both in storage if the row
names them, and neither is if it does not. -/
theorem preview_all_or_nothing {folder : String} {jobId : UUID} {s : Publication}
    (hs : (publicationSystem folder jobId).ReachableUnder Publication.Permitted s)
    (hended : s.run.ended = true) :
    (s.Named folder → ∀ key ∈ previewKeys folder, key ∈ s.objects) ∧
      (¬s.Named folder → ∀ key ∈ previewKeys folder, key ∉ s.objects) := by
  have hsound : s.Sound folder := by
    refine hs.invariant _ ?_ fun s a t _ hsound hok hstep => hsound.step hok hstep
    rintro s ⟨hrow, hobjects, hrun, hidle, -⟩
    refine ⟨fun _ => hrow, .inl hidle, ?_⟩
    rw [hrun]
    exact hobjects
  have hphase := hsound.phase
  cases hrun : s.run with
  | published =>
      rw [hrun] at hphase
      exact ⟨fun _ => hphase.2.2, fun hnot => absurd hphase.2.1 hnot⟩
  | unpublished raises =>
      rw [hrun] at hphase
      refine ⟨fun ⟨job, hjob, hkey⟩ => ?_, fun _ => hphase⟩
      rw [hsound.unnamed (by simp [hrun]) job hjob] at hkey
      exact absurd hkey nofun
  | _ =>
      rw [hrun] at hended
      exact absurd hended nofun

/-- A video whose ladder is ready. -/
def readyLadderJob : Job where
  ownerId := 1
  filename := "clip.mp4"
  status := .done
  sourceKey := "uploads/7/clip.mp4"
  outputKey := some "outputs/7/clip.mp4"
  hlsKey := some "outputs/7/hls/master.m3u8"
  hlsStatus := .ready
  createdAt := 0
  updatedAt := 1
  checks := by decide

/-- The job is deleted between the two uploads: the record finds no row, and what was uploaded
is discarded. -/
theorem preview_all_or_nothing_deleted :
    ∃ s : Publication, s.run = .unpublished false ∧ ¬s.Named "outputs/7" ∧
      ∀ key ∈ previewKeys "outputs/7", key ∉ s.objects := by
  have hinit : (publicationSystem "outputs/7" 7).ReachableUnder Publication.Permitted
      ⟨some readyLadderJob, ["outputs/7/clip.mp4"], .downloading, .idle, false⟩ := by
    refine .init ⟨?_, by decide +kernel, rfl, rfl, rfl⟩
    rintro job ⟨⟩
    rfl
  obtain ⟨s, hs, hstate⟩ := hinit.exists_of_runUnder
    (List.replicate 4 (.call .returned 2) ++ [.deleteRow] ++
      List.replicate 7 (.call .returned 3))
    (fun s => s.run = .unpublished false && s.row.isNone) (by decide +kernel)
  rw [Bool.and_eq_true, decide_eq_true_eq, Option.isNone_iff_eq_none] at hstate
  have hunnamed : ¬s.Named "outputs/7" := fun ⟨_, hrow, _⟩ =>
    absurd (hstate.2.symm.trans hrow) nofun
  exact ⟨s, hstate.1, hunnamed,
    (preview_all_or_nothing hs (by rw [hstate.1]; rfl)).2 hunnamed⟩

end Worker
end MediaPlayer
