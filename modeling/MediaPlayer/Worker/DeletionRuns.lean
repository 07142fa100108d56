import MediaPlayer.Worker.WorkerSteps

/-!
# Runs of a deletion beside its job's workers

Every object in the job's folder has an owner: the row, which its deletion will read; the
deletion, which is still to list or delete it; or a worker, which is still to record or
discard it.

* `DeletionInvariant.step` — every step keeps every object owned, if its worker notices
  that the row is gone (`Covered`): encodes that record their output, renditions that
  upload and helpers that upload do not look.
* `deleted_job_leaves_nothing` — so nobody owns anything once all have stopped.
* `encode_left_behind` — an encode whose row goes while it uploads.
-/

namespace MediaPlayer
namespace Worker

open Library Models Repositories Services

variable {folder : String} {jobId : UUID}

/-- The objects the deletion is still to list or delete. -/
def DeletionPhase.Owns : DeletionPhase → String → Prop
  | listing folders keys, key => key ∈ keys ∨ ∃ folder ∈ folders, startsWith key folder = true
  | deleting left, key => key ∈ left
  | idle, _ | returned, _ => False

/-- A folder the deletion has not listed. -/
def DeletionPhase.unlisted (folder : String) : DeletionPhase → Bool
  | idle => true
  | listing folders _ => folder ∈ folders
  | deleting _ | returned => false

namespace DeletionState

variable {s t : DeletionState}

/-- Somebody will delete, discard or record the object. -/
def Owned (folder : String) (s : DeletionState) (key : String) : Prop :=
  (∃ job, s.shared.row = some job ∧ Names job key) ∨ s.deletion.Owns key ∨
    ∃ i worker, s.workers.lookup i = some worker ∧ worker.Owns folder key

/-- The job is deleted and everybody has stopped: its folder is empty. -/
def NothingLeft (s : DeletionState) : Prop :=
  s.deletion = .returned → (∀ i worker, s.workers.lookup i = some worker →
    worker.stopped = true) → s.shared.objects = []

/-- An encode records its output on a row that is processing; a rendition uploads to a
folder that the deletion has not listed; a helper uploads while the board is open. -/
def covered (s : DeletionState) (world : WorkerWorld) : JobWorker → Bool
  | .encode ⟨_, .running (.recordingDone _)⟩ => s.shared.row.any (·.status = .processing)
  | .rendition (.building hlsKey) =>
      world.name.isNone || s.deletion.unlisted (beforeLast '/' hlsKey ++ "/")
  | .helper kind .checked => s.shared.board kind
  | _ => true

def Covered (s : DeletionState) : DeletionAction → Prop
  | .work i world => (s.workers.lookup i).all (s.covered world) = true
  | _ => True

instance (s : DeletionState) : ∀ a, Decidable (Covered s a)
  | .work i world => inferInstanceAs (Decidable
      ((s.workers.lookup i).all (s.covered world) = true))
  | .start _ _ | .write _ _ | .deleteRow | .delete _ => .isTrue trivial

structure DeletionInvariant (folder : String) (s : DeletionState) : Prop where
  owned : ∀ key ∈ s.shared.objects, Owned folder s key
  row : RowSound folder s.shared.row
  workers : ∀ i worker, s.workers.lookup i = some worker → worker.Sound folder
  deleted : s.deletion = .idle ↔ s.shared.row ≠ none
  renditions : ∀ i hlsKey, s.workers.lookup i = some (.rendition (.building hlsKey)) →
    ∀ job, s.shared.row = some job → job.hlsKey = some hlsKey
  board : ∀ kind, s.shared.board kind = true →
    ∃ i, s.workers.lookup i = some (.coordinator kind .coordinating)

theorem rel_extends_ne_none {before after : Option Job} (hrel : Option.Rel Extends before after) :
    after ≠ none ↔ before ≠ none := by
  cases hrel <;> simp

theorem rel_extends_some {before : Option Job} {after : Job}
    (hrel : Option.Rel Extends before (some after)) :
    ∃ job, before = some job ∧ Extends job after := by
  cases hrel with
  | some hextends => exact ⟨_, rfl, hextends⟩

/-- A key somebody owns is still owned after a worker's step. -/
theorem Owned.work {key : String} (howned : Owned folder s key) {i : ℕ} {worker worker' : JobWorker}
    {after : JobShared} (hlookup : s.workers.lookup i = some worker)
    (hkept : WorkKept folder s.shared after worker worker') (hkey : key ∈ after.objects) :
    Owned folder { s with shared := after, workers := s.workers.insert i worker' } key := by
  rcases howned with ⟨job, hjob, hnames⟩ | hdeletion | ⟨j, other, hother, howns⟩
  · have hrel := hkept.row
    rw [hjob] at hrel
    obtain ⟨later, hlater⟩ := Option.ne_none_iff_exists'.mp
      ((rel_extends_ne_none hrel).mpr (by simp))
    rw [hlater] at hrel
    obtain ⟨before, hbefore, hextends⟩ := rel_extends_some hrel
    obtain rfl := Option.some.inj hbefore
    exact Or.inl ⟨later, hlater, hextends.names hnames⟩
  · exact Or.inr (Or.inl hdeletion)
  · by_cases hj : j = i
    · subst hj
      obtain rfl := Option.some.inj (hlookup.symm.trans hother)
      rcases hkept.owned key hkey howns with howns' | hnamed
      · exact Or.inr (Or.inr ⟨j, worker', AList.lookup_insert _, howns'⟩)
      · exact Or.inl hnamed
    · exact Or.inr (Or.inr ⟨j, other, by rw [← hother, AList.lookup_insert_ne hj], howns⟩)

/-- What a worker uploads into somebody else's folder has an owner there. -/
theorem DeletionInvariant.owned_of_borrowed (hs : DeletionInvariant folder s) {i : ℕ}
    {worker worker' : JobWorker} {world : WorkerWorld} {after : JobShared}
    (hlookup : s.workers.lookup i = some worker) (hcovered : s.covered world worker = true)
    (hnext : worker.next folder jobId s.shared world = some (after, worker')) {key : String}
    (hborrows : worker.Borrows folder key) (hkey : key ∈ after.objects)
    (hnew : key ∉ s.shared.objects) : Owned folder s key := by
  cases worker with
  | rendition phase =>
      cases phase with
      | building hlsKey =>
          obtain rfl : hlsKey = masterKey (ladderPrefix folder) := hs.workers i _ hlookup
          have hnamed : world.name.isNone = false := by
            cases hname : world.name with
            | none =>
                simp only [JobWorker.next, RenditionPhase.next, hname, Option.map_some] at hnext
                obtain ⟨rfl, -⟩ := Prod.mk.inj (Option.some.inj hnext)
                exact absurd hkey hnew
            | some name => rfl
          simp only [covered, hnamed, Bool.false_or, LadderDeliveries.beforeLast_masterKey]
            at hcovered
          simp only [JobWorker.Borrows, LadderDeliveries.beforeLast_masterKey] at hborrows
          cases hdeletion : s.deletion with
          | idle =>
              obtain ⟨job, hjob⟩ := Option.ne_none_iff_exists'.mp (hs.deleted.mp hdeletion)
              exact Or.inl ⟨job, hjob, Or.inr ⟨_, LadderDeliveries.mem_storagePrefixes_of_recorded
                (hs.renditions i _ hlookup job hjob), hborrows⟩⟩
          | listing folders keys =>
              refine Or.inr (Or.inl ?_)
              rw [hdeletion] at hcovered ⊢
              exact Or.inr ⟨_, of_decide_eq_true hcovered, hborrows⟩
          | deleting left => simp [hdeletion, DeletionPhase.unlisted] at hcovered
          | returned => simp [hdeletion, DeletionPhase.unlisted] at hcovered
      | loading => exact hborrows.elim
      | returned => exact hborrows.elim
  | helper kind phase =>
      cases phase with
      | checked =>
          obtain ⟨j, hj⟩ := hs.board kind hcovered
          exact Or.inr (Or.inr ⟨j, _, hj, hborrows⟩)
      | encoding => exact hborrows.elim
      | returned => exact hborrows.elim
  | encode _ | ladder _ | preview _ | coordinator _ _ => exact hborrows.elim

/-- A rendition that uploads has read its folder from the row. -/
theorem next_building {shared after : JobShared} {world : WorkerWorld} {worker : JobWorker}
    {hlsKey : String}
    (hnext : worker.next folder jobId shared world = some (after, .rendition (.building hlsKey))) :
    after.row = shared.row ∧ (worker = .rendition (.building hlsKey) ∨
      ∀ job, shared.row = some job → job.hlsKey = some hlsKey) := by
  cases worker with
  | rendition phase =>
      obtain ⟨⟨shared', phase'⟩, hstep, heq⟩ := Option.map_eq_some_iff.mp hnext
      obtain ⟨rfl, hphase⟩ := Prod.mk.inj heq
      obtain rfl := JobWorker.rendition.inj hphase
      cases phase with
      | loading =>
          obtain ⟨rfl, hload⟩ := Prod.mk.inj (Option.some.inj hstep)
          refine ⟨rfl, Or.inr fun job hjob => ?_⟩
          rw [hjob] at hload
          cases hkey : job.hlsKey with
          | none => simp [hkey] at hload
          | some key => simpa [hkey] using hload
      | building key =>
          simp only [RenditionPhase.next] at hstep
          split at hstep
          · simp at hstep
          · obtain ⟨rfl, hsame⟩ := Prod.mk.inj (Option.some.inj hstep)
            exact ⟨rfl, Or.inl (by rw [hsame])⟩
      | returned => simp [RenditionPhase.next] at hstep
  | encode _ | ladder _ | preview _ | coordinator _ _ | helper _ _ =>
      obtain ⟨_, -, heq⟩ := Option.map_eq_some_iff.mp hnext
      simp at heq

theorem DeletionInvariant.work (hs : DeletionInvariant folder s) {i : ℕ}
    {worker worker' : JobWorker} {world : WorkerWorld} {after : JobShared}
    (hlookup : s.workers.lookup i = some worker) (hcovered : s.covered world worker = true)
    (hnext : worker.next folder jobId s.shared world = some (after, worker')) :
    DeletionInvariant folder { s with shared := after, workers := s.workers.insert i worker' } := by
  have hrecords : ∀ encode, worker = .encode encode → encode.RecordsOn s.shared.row := by
    rintro ⟨interruptions, phase⟩ rfl result rfl
    obtain ⟨job, hjob, hstatus⟩ := (Option.any_eq_true _ _).mp hcovered
    exact ⟨job, hjob, of_decide_eq_true hstatus⟩
  have hkept := JobWorker.next_kept hs.row (hs.workers i worker hlookup) hrecords hnext
  constructor
  · intro key hkey
    by_cases hold : key ∈ s.shared.objects
    · exact (hs.owned key hold).work hlookup hkept hkey
    · rcases hkept.objects key hkey with hmem | howns | hborrows
      · exact absurd hmem hold
      · exact Or.inr (Or.inr ⟨i, worker', AList.lookup_insert _, howns⟩)
      · exact (hs.owned_of_borrowed hlookup hcovered hnext hborrows hkey hold).work hlookup hkept
          hkey
  · exact hkept.rowSound
  · exact Parties.forall_insert (fun j other _ => hs.workers j other) hkept.sound
  · exact hs.deleted.trans (rel_extends_ne_none hkept.row).symm
  · intro j hlsKey hj job hjob
    by_cases hji : j = i
    · subst hji
      rw [AList.lookup_insert] at hj
      obtain rfl := Option.some.inj hj
      obtain ⟨hrow, hworker⟩ := next_building hnext
      have hbefore : s.shared.row = some job := hrow.symm.trans hjob
      rcases hworker with rfl | hread
      · exact hs.renditions j hlsKey hlookup job hbefore
      · exact hread job hbefore
    · rw [AList.lookup_insert_ne hji] at hj
      have hrel := hkept.row
      dsimp only at hjob
      rw [hjob] at hrel
      obtain ⟨before, hbefore, hextends⟩ := rel_extends_some hrel
      exact hextends.hlsKey hlsKey (hs.renditions j hlsKey hj before hbefore)
  · intro kind hopen
    rcases JobWorker.next_board hnext hopen with rfl | ⟨hbefore, hne⟩
    · exact ⟨i, AList.lookup_insert _⟩
    · obtain ⟨j, hj⟩ := hs.board kind hbefore
      refine ⟨j, ?_⟩
      have hji : j ≠ i := by
        rintro rfl
        exact hne (Option.some.inj (hlookup.symm.trans hj))
      dsimp only
      rw [AList.lookup_insert_ne hji]
      exact hj

/-- What others write on the row keeps everything owned. -/
theorem DeletionInvariant.write (hs : DeletionInvariant folder s) {op : RowOp}
    (hop : outside op = true) (now : Timestamp) :
    DeletionInvariant folder { s with shared := { s.shared with
      row := LadderBuilds.writtenRow s.shared.row (op.apply jobId now s.shared.row) } } := by
  have hkept : RowSound folder
        (LadderBuilds.writtenRow s.shared.row (op.apply jobId now s.shared.row)) ∧
      Option.Rel Extends s.shared.row
        (LadderBuilds.writtenRow s.shared.row (op.apply jobId now s.shared.row)) := by
    cases hresult : op.apply jobId now s.shared.row with
    | error e => exact ⟨hs.row, rel_extends_refl _⟩
    | ok after =>
        cases after with
        | none => exact ⟨hs.row, rel_extends_refl _⟩
        | some after =>
            have hjob : JobOp folder op := by cases op <;> trivial
            exact hjob.kept jobId hs.row hresult
  obtain ⟨hsound, hrel⟩ := hkept
  constructor
  · intro key hkey
    refine (hs.owned key hkey).imp_left ?_
    rintro ⟨job, hjob, hnames⟩
    rw [hjob] at hrel
    obtain ⟨later, hlater⟩ := Option.ne_none_iff_exists'.mp
      ((rel_extends_ne_none hrel).mpr (by simp))
    rw [hlater] at hrel
    obtain ⟨before, hbefore, hextends⟩ := rel_extends_some hrel
    obtain rfl := Option.some.inj hbefore
    exact ⟨later, by rw [← hlater, hjob], hextends.names hnames⟩
  · exact hsound
  · exact hs.workers
  · exact hs.deleted.trans (rel_extends_ne_none hrel).symm
  · intro j hlsKey hj job hjob
    dsimp only at hjob
    rw [hjob] at hrel
    obtain ⟨before, hbefore, hextends⟩ := rel_extends_some hrel
    exact hextends.hlsKey hlsKey (hs.renditions j hlsKey hj before hbefore)
  · exact hs.board

/-- What the deletion has listed and not yet deleted stays its own. -/
theorem owns_of_nextDelete {key : String} {gone : String} (howns : s.deletion.Owns key)
    (hstep : s.nextDelete gone = some t) (hkey : key ∈ t.shared.objects) : t.deletion.Owns key := by
  unfold nextDelete at hstep
  split at hstep
  · simp at hstep
  · simp at hstep
  · rename_i folder folders keys hphase
    obtain rfl := Option.some.inj hstep
    rw [hphase] at howns
    rcases howns with hlisted | ⟨other, hother, hstarts⟩
    · exact Or.inl (List.mem_append_left _ hlisted)
    · rcases List.mem_cons.mp hother with rfl | hother
      · exact Or.inl (List.mem_append_right _ (List.mem_filter.mpr ⟨hkey, hstarts⟩))
      · exact Or.inr ⟨other, hother, hstarts⟩
  · rename_i keys hphase
    obtain rfl := Option.some.inj hstep
    rw [hphase] at howns
    rcases howns with hlisted | ⟨other, hother, -⟩
    · exact List.mem_eraseDups.mpr hlisted
    · simp at hother
  · rename_i hphase
    obtain rfl := Option.some.inj hstep
    rw [hphase] at howns
    simp [DeletionPhase.Owns] at howns
  · rename_i left hphase
    split at hstep
    · obtain rfl := Option.some.inj hstep
      rw [hphase] at howns
      obtain ⟨-, hne⟩ := List.mem_filter.mp hkey
      exact (List.mem_erase_of_ne (by simpa using hne)).mpr howns
    · simp at hstep

/-- The deletion's calls touch neither row, workers nor boards, and upload nothing. -/
theorem frame_of_nextDelete {gone : String} (hstep : s.nextDelete gone = some t) :
    t.shared.row = s.shared.row ∧ t.shared.board = s.shared.board ∧ t.workers = s.workers ∧
      (∀ key ∈ t.shared.objects, key ∈ s.shared.objects) ∧ s.deletion ≠ .idle ∧
      t.deletion ≠ .idle := by
  unfold nextDelete at hstep
  split at hstep
  case h_6 =>
    split at hstep
    · obtain rfl := Option.some.inj hstep
      exact ⟨rfl, rfl, rfl, fun key hkey => List.mem_of_mem_filter hkey, by simp_all, by simp⟩
    · simp at hstep
  all_goals first
    | (obtain rfl := Option.some.inj hstep
       exact ⟨rfl, rfl, rfl, fun key hkey => hkey, by simp_all, by simp⟩)
    | simp at hstep

theorem DeletionInvariant.nextDelete (hs : DeletionInvariant folder s) {gone : String}
    (hstep : s.nextDelete gone = some t) : DeletionInvariant folder t := by
  obtain ⟨hrow, hboard, hworkers, hobjects, hs', ht⟩ := frame_of_nextDelete hstep
  constructor
  · intro key hkey
    rcases hs.owned key (hobjects key hkey) with ⟨job, hjob, hnames⟩ | hdeletion | hworker
    · exact Or.inl ⟨job, hrow.trans hjob, hnames⟩
    · exact Or.inr (Or.inl (owns_of_nextDelete hdeletion hstep hkey))
    · exact Or.inr (Or.inr (by rwa [hworkers]))
  · rw [hrow]
    exact hs.row
  · rw [hworkers]
    exact hs.workers
  · rw [hrow, ← hs.deleted]
    exact iff_of_false ht hs'
  · rw [hworkers, hrow]
    exact hs.renditions
  · rw [hboard, hworkers]
    exact hs.board

theorem fresh_not_building {worker : JobWorker} (hfresh : worker.fresh = true) (hlsKey : String) :
    worker ≠ .rendition (.building hlsKey) := by
  rintro rfl
  simp [JobWorker.fresh] at hfresh

theorem fresh_sound {worker : JobWorker} (hfresh : worker.fresh = true) : worker.Sound folder := by
  unfold JobWorker.fresh at hfresh
  split at hfresh <;> trivial

/-- One step keeps everything owned. -/
theorem DeletionInvariant.step {a : DeletionAction} (hs : DeletionInvariant folder s)
    (hcovered : Covered s a) (hstep : DeletionState.step folder jobId s a = some t) :
    DeletionInvariant folder t := by
  cases a with
  | start i worker =>
      simp only [DeletionState.step] at hstep
      split at hstep
      · rename_i hstart
        obtain rfl := Option.some.inj hstep
        obtain ⟨hfresh, hnew⟩ := hstart
        have hother : ∀ j other, s.workers.lookup j = some other →
            (s.workers.insert i worker).lookup j = some other := by
          intro j other hj
          have hji : j ≠ i := by
            rintro rfl
            simp [hnew] at hj
          rw [AList.lookup_insert_ne hji, hj]
        constructor
        · intro key hkey
          exact (hs.owned key hkey).imp_right (·.imp_right fun ⟨j, other, hj, howns⟩ =>
            ⟨j, other, hother j other hj, howns⟩)
        · exact hs.row
        · exact Parties.forall_insert (fun j other _ => hs.workers j other) (fresh_sound hfresh)
        · exact hs.deleted
        · intro j hlsKey hj
          by_cases hji : j = i
          · subst hji
            rw [AList.lookup_insert] at hj
            exact absurd (Option.some.inj hj) (fresh_not_building hfresh hlsKey)
          · rw [AList.lookup_insert_ne hji] at hj
            exact hs.renditions j hlsKey hj
        · intro kind hopen
          obtain ⟨j, hj⟩ := hs.board kind hopen
          exact ⟨j, hother j _ hj⟩
      · simp at hstep
  | work i world =>
      obtain ⟨worker, hlookup, hmap⟩ := Option.bind_eq_some_iff.mp hstep
      obtain ⟨⟨after, worker'⟩, hnext, rfl⟩ := Option.map_eq_some_iff.mp hmap
      have hworker : s.covered world worker = true := by
        simpa [Covered, hlookup] using hcovered
      exact hs.work hlookup hworker hnext
  | write op now =>
      simp only [DeletionState.step] at hstep
      split at hstep
      · rename_i hop
        obtain rfl := Option.some.inj hstep
        exact hs.write hop now
      · simp at hstep
  | deleteRow =>
      obtain ⟨job, hjob, rfl⟩ := Option.map_eq_some_iff.mp hstep
      constructor
      · intro key hkey
        rcases hs.owned key hkey with ⟨named, hnamed, hnames⟩ | hdeletion | hworker
        · obtain rfl := Option.some.inj (hjob.symm.trans hnamed)
          exact Or.inr (Or.inl hnames)
        · rw [hs.deleted.mpr (by simp [hjob])] at hdeletion
          exact hdeletion.elim
        · exact Or.inr (Or.inr hworker)
      · exact rowSound_none folder
      · exact hs.workers
      · simp
      · intro j hlsKey _ other hother
        simp at hother
      · exact hs.board
  | delete key => exact hs.nextDelete hstep

theorem not_owns_of_stopped {worker : JobWorker} (hstopped : worker.stopped = true) (key : String) :
    ¬ worker.Owns folder key := by
  unfold JobWorker.stopped at hstopped
  split at hstopped <;> first | exact id | simp at hstopped

/-- **A deleted job leaves nothing in storage**, in every run in which an encode records its
output on a row that is processing, a rendition uploads before the deletion lists its
folder, and a helper while the board is open. -/
theorem deleted_job_leaves_nothing {folder : String} {jobId : UUID} {s : DeletionState}
    (hs : (deletionSystem folder jobId).ReachableUnder Covered s) : NothingLeft s := by
  have hinvariant : DeletionInvariant folder s := by
    refine hs.invariant (DeletionInvariant folder) ?_ fun s a t _ hs hcovered hstep =>
      hs.step hcovered hstep
    rintro s ⟨⟨job, hjob, hqueued, hunfilled⟩, hobjects, hboard, hdeletion, hworkers⟩
    constructor
    · simp [hobjects]
    · rw [hjob]
      refine ⟨?_, ?_, ?_⟩
      · rintro other hother -
        rwa [← Option.some.inj hother]
      · rintro other hother
        exact Or.inl (Option.some.inj hother ▸ hunfilled.hlsKey)
      · rintro other hother
        exact Or.inl (Option.some.inj hother ▸ hunfilled.previewKey)
    · simp [hworkers]
    · simp [hdeletion, hjob]
    · simp [hworkers]
    · simp [hboard]
  intro hreturned hstopped
  refine List.eq_nil_iff_forall_not_mem.mpr fun key hkey => ?_
  rcases hinvariant.owned key hkey with ⟨job, hjob, -⟩ | hdeletion | ⟨i, worker, hi, howns⟩
  · have hidle := hinvariant.deleted.mpr (by simp [hjob])
    simp [hreturned] at hidle
  · rw [hreturned] at hdeletion
    exact hdeletion
  · exact not_owns_of_stopped (hstopped i worker hi) key howns

/-- A queued job. -/
def queuedJob : Job where
  ownerId := 1
  filename := "holiday.mp4"
  sourceKey := "uploads/7/holiday.mp4"
  createdAt := 0
  updatedAt := 0
  checks := by decide

def queuedState : DeletionState :=
  ⟨⟨some queuedJob, [], fun _ => false⟩, .idle, ∅⟩

theorem queuedState_init : (deletionSystem (jobFolder "outputs" 7) 7).init queuedState :=
  ⟨⟨queuedJob, rfl, rfl, rfl, rfl, rfl, rfl, rfl, rfl, rfl⟩, rfl, fun _ => rfl, rfl, rfl⟩

/-- An MP4 of 1080 lines with a poster frame. -/
def encodedFacts : EncodeFacts where
  stem := "clip"
  extension := "mp4"
  ladderPending := true
  thumbnail := true
  width := some 1920
  height := some 1080
  durationSeconds := some 12

/-- Encode 0 claims its job, encodes, and uploads the output. -/
def encodeToUpload : List DeletionAction :=
  [.start 0 (.encode ⟨0, .claiming⟩), .work 0 {}, .work 0 { encoded := .ok encodedFacts },
    .work 0 {}]

/-- The job is deleted after its encode has recorded what it uploaded. -/
theorem deleted_job_leaves_nothing_afterEncode : ∃ s : DeletionState,
    s.deletion = .returned ∧ s.workers.all (fun _ worker => worker.stopped) = true ∧
      NothingLeft s := by
  have hinit : (deletionSystem (jobFolder "outputs" 7) 7).ReachableUnder Covered queuedState :=
    .init queuedState_init
  obtain ⟨s, hs, hstate⟩ := hinit.exists_of_runUnder
    (encodeToUpload ++ [.work 0 {}, .work 0 {}, .work 0 {}, .work 0 {}, .deleteRow, .delete "",
      .delete "outputs/7/clip.mp4", .delete "outputs/7/thumbnail.jpg",
      .delete "uploads/7/holiday.mp4", .delete ""])
    (fun s => s.deletion == .returned && s.workers.all fun _ worker => worker.stopped) (by decide)
  simp only [Bool.and_eq_true, beq_iff_eq] at hstate
  exact ⟨s, hstate.1, hstate.2, deleted_job_leaves_nothing hs⟩

/-- The row goes while the encode uploads.  `mark_done` finds no row, and the encode stops
without removing what it has stored. -/
theorem encode_left_behind :
    ¬ ∀ s, (deletionSystem (jobFolder "outputs" 7) 7).Reachable s → NothingLeft s := by
  intro hclean
  have hinit : (deletionSystem (jobFolder "outputs" 7) 7).Reachable queuedState :=
    .init queuedState_init
  obtain ⟨s, hs, hstate⟩ := StepSystem.Reachable.exists_of_run hinit
    (encodeToUpload ++ [.deleteRow, .delete "", .delete "uploads/7/holiday.mp4", .delete "",
      .work 0 {}, .work 0 {}, .work 0 {}])
    (fun s => s.deletion == .returned && s.workers.all (fun _ worker => worker.stopped) &&
      !s.shared.objects.isEmpty) (by decide)
  simp only [Bool.and_eq_true, beq_iff_eq, Bool.not_eq_true', List.isEmpty_eq_false_iff] at hstate
  obtain ⟨⟨hreturned, hstopped⟩, hobjects⟩ := hstate
  exact hobjects (hclean s hs hreturned (Parties.all_iff.mp hstopped))

end DeletionState

end Worker
end MediaPlayer
