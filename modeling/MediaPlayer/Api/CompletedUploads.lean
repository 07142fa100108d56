import MediaPlayer.Api.UploadParts
import MediaPlayer.Api.UploadRuns

/-!
# A completion whose calls return

The three spans of a `complete` on an open session, run where nothing raises: the manifest is
frozen, the parts are merged, and the session becomes a job, or is given up for what the object
turns out to be.

* `complete_run`, `completeMerging_run`, ... — what each span leaves.
* `Completes` — what the whole request comes to.
-/

namespace MediaPlayer
namespace Api

open Library Models Repositories Schemas Services

/-- Nothing goes wrong, and the account is still there. -/
structure Circumstances.Calm (c : Circumstances) : Prop where
  account : c.accountExists = true
  outcomes : c.outcomes = []
  commit : c.commit = .returned

section Calls

variable {α β : Type} {w : Outside}

theorem bind_run {x : Span β} {f : β → Span α} {b : β} {w' : Outside} (hx : x w = .ok b w') :
    (x >>= f) w = f b w' := by
  show EStateM.bind x f w = f b w'
  unfold EStateM.bind
  rw [hx]

/-- A call that is not disturbed. -/
theorem call_run (hw : w.outcomes = []) {operation : StorageCall}
    {perform : Bucket → Except String (α × Bucket)} {a : α} {bucket : Bucket}
    (hperform : perform w.bucket = .ok (a, bucket)) :
    call operation perform w =
      .ok a { w with bucket := bucket, calls := w.calls ++ [operation] } := by
  obtain ⟨store, queue, calls, outcomes⟩ := w
  obtain rfl : outcomes = [] := hw
  unfold call Outside.next
  dsimp only
  rw [show perform store = .ok (a, bucket) from hperform]
  rfl

theorem call_refused (hw : w.outcomes = []) {operation : StorageCall}
    {perform : Bucket → Except String (α × Bucket)} {code : String}
    (hperform : perform w.bucket = .error code) :
    call operation perform w =
      .error (.clientError code) { w with calls := w.calls ++ [operation] } := by
  obtain ⟨store, queue, calls, outcomes⟩ := w
  obtain rfl : outcomes = [] := hw
  unfold call Outside.next
  dsimp only
  rw [show perform store = .error code from hperform]
  rfl

theorem head_run_none (hw : w.outcomes = []) (hobject : w.bucket.object = none) :
    MultipartStorage.head w = .ok none { w with calls := w.calls ++ [.headObject] } := by
  have hcall : call .headObject Bucket.headObject w =
      .error (.clientError "404") { w with calls := w.calls ++ [.headObject] } :=
    call_refused hw (by unfold Bucket.headObject; rw [hobject])
  show EStateM.tryCatch (EStateM.map some (call .headObject Bucket.headObject)) _ w = _
  unfold EStateM.tryCatch EStateM.map
  rw [hcall]
  rfl

theorem head_run (hw : w.outcomes = []) {bytes : List UInt8}
    (hobject : w.bucket.object = some bytes) :
    MultipartStorage.head w =
      .ok (some (bytes.length : ℤ)) { w with calls := w.calls ++ [.headObject] } := by
  have hcall : call .headObject Bucket.headObject w =
      .ok (bytes.length : ℤ) { w with calls := w.calls ++ [.headObject] } :=
    call_run hw (by unfold Bucket.headObject; rw [hobject])
  show EStateM.tryCatch (EStateM.map some (call .headObject Bucket.headObject)) _ w = _
  unfold EStateM.tryCatch EStateM.map
  rw [hcall]

theorem sniff_run (hw : w.outcomes = []) {bytes : List UInt8} (hbytes : bytes ≠ [])
    (hobject : w.bucket.object = some bytes) :
    MultipartStorage.sniff w =
      .ok (bytes.take sniffLength) { w with calls := w.calls ++ [.getObject] } := by
  refine call_run hw ?_
  unfold Bucket.getObject
  rw [hobject]
  cases bytes with
  | nil => exact absurd rfl hbytes
  | cons first rest => rfl

end Calls

section Spans

variable {c : Circumstances} {user : UUID} {upload : UploadSession} {w : Outside}
  {row : Option UploadSession}

/-- The owner finds the row. -/
theorem owned_bind_run (hc : c.Calm) (upload : UploadSession)
    (f : UploadSession → RequestSpan) (w : Outside) :
    (owned c (some upload) upload.ownerId >>= f) w = f upload w := by
  have hfound : getUpload c.accountExists (some upload) upload.ownerId = some upload := by
    simp [getUpload, hc.account]
  refine bind_run ?_
  unfold owned
  rw [hfound]
  rfl

theorem active_run (hlive : c.now < upload.expiresAt) (hopen : upload.state = .open) :
    active c upload w = .ok () w := by
  unfold active
  rw [if_neg (Int.not_le.mpr hlive), if_neg (not_not.mpr hopen)]
  rfl

/-- The first span of `complete`: the manifest is frozen. -/
theorem complete_run (hlive : c.now < upload.expiresAt) (hopen : upload.state = .open)
    (hinitialized : upload.initialized = true) (request : CompleteUpload)
    (hw : w.outcomes = []) {stored : List StoredPart}
    (hstored : w.bucket.uploads.lookup (upload.storageId.getD "") = some stored)
    (hvalid : validateParts { upload with manifest := some request.manifest } stored = pure ()) :
    complete c user upload request w =
      .ok (.commit { upload with manifest := some request.manifest, state := .completing } none
        (.frozen user request.manifest)) { w with calls := w.calls ++ [.listParts] } := by
  have hlist : MultipartStorage.parts { upload with manifest := some request.manifest } w =
      .ok stored { w with calls := w.calls ++ [.listParts] } := by
    refine call_run hw ?_
    unfold Bucket.listParts
    rw [show w.bucket.uploads.lookup (upload.storageId.getD "") = some stored from hstored]
  unfold complete
  rw [hopen]
  refine (bind_run (active_run hlive hopen)).trans ?_
  unfold freeze
  rw [if_neg (by simp [hinitialized])]
  refine (bind_run hlist).trans ?_
  rw [hvalid]
  rfl

/-- The second span: the parts become the object, which is measured and looked into. -/
theorem completeMerging_run {manifest : List UploadedPart} (hcompleting : upload.state = .completing)
    (hmanifest : upload.manifest = some manifest) (hw : w.outcomes = [])
    (hempty : w.bucket.object = none) {bucket : Bucket} {bytes : List UInt8}
    (hmerge : w.bucket.completeMultipartUpload (upload.storageId.getD "") manifest =
      .ok ((), bucket))
    (hobject : bucket.object = some bytes) (hsize : (bytes.length : ℤ) = upload.size) :
    completeMerging c user upload manifest w =
      .ok (if RecognizedVideo bytes then createUploadJob upload c.now (.created user)
          else discard upload (.error 415 "file content is not a recognized video format"))
        { w with
          bucket := bucket
          calls := w.calls ++ [.headObject] ++ [.completeMultipartUpload] ++ [.headObject] ++
            [.getObject] } := by
  have hbytes : bytes ≠ [] := by
    rintro rfl
    exact absurd hsize.symm (Int.ne_of_gt upload.ckUploadSize.1)
  have hcomplete : MultipartStorage.complete upload
      { w with calls := w.calls ++ [.headObject] } =
      .ok () { w with
        bucket := bucket
        calls := w.calls ++ [.headObject] ++ [.completeMultipartUpload] } := by
    refine call_run (by exact hw) ?_
    rw [hmanifest]
    exact hmerge
  unfold completeMerging
  rw [if_pos hcompleting, if_neg (not_not.mpr hmanifest)]
  refine (bind_run (head_run_none hw hempty)).trans ?_
  refine (bind_run ((bind_run hcomplete).trans (head_run (by exact hw) hobject))).trans ?_
  dsimp only
  rw [if_neg (not_not.mpr hsize)]
  refine (bind_run (sniff_run (by exact hw) hbytes hobject)).trans ?_
  by_cases hvideo : RecognizedVideo bytes
  · rw [if_neg hvideo, if_pos hvideo]
    rfl
  · rw [if_pos (not_not.mp hvideo), if_neg hvideo]
    rfl

/-- The third span of a session that has its job. -/
theorem completeReady_run (hready : upload.state = .ready) (hw : w.outcomes = []) :
    completeReady upload w =
      .ok (.commit { upload with state := .completed } none
        (.answered (.completed upload.jobId))) { w with queue := w.queue ++ [upload.jobId] } := by
  obtain ⟨store, queue, calls, outcomes⟩ := w
  obtain rfl : outcomes = [] := hw
  unfold completeReady
  rw [if_pos hready]
  rfl

/-- The third span of a session that was given up: its multipart upload is gone already. -/
theorem discardStorage_run (hinitialized : upload.initialized = true) (response : Response)
    (hw : w.outcomes = [])
    (hgone : w.bucket.uploads.lookup (upload.storageId.getD "") = none) :
    discardStorage upload response w =
      .ok (.commit { upload with state := .aborted } none (.answered response))
        { w with
          bucket := { w.bucket with object := none }
          calls := w.calls ++ [.abortMultipartUpload] ++ [.deleteObject] } := by
  have habort : call .abortMultipartUpload
      (Bucket.abortMultipartUpload (upload.storageId.getD "")) w =
      .error (.clientError "NoSuchUpload") { w with calls := w.calls ++ [.abortMultipartUpload] } :=
    call_refused hw (by unfold Bucket.abortMultipartUpload; rw [hgone])
  have hdelete : call .deleteObject Bucket.deleteObject
      { w with calls := w.calls ++ [.abortMultipartUpload] } =
      .ok () { w with
        bucket := { w.bucket with object := none }
        calls := w.calls ++ [.abortMultipartUpload] ++ [.deleteObject] } :=
    call_run (by exact hw) rfl
  have hstorage : MultipartStorage.abort upload w = .ok () { w with
      bucket := { w.bucket with object := none }
      calls := w.calls ++ [.abortMultipartUpload] ++ [.deleteObject] } := by
    unfold MultipartStorage.abort
    rw [if_pos hinitialized]
    refine (bind_run (b := ()) ?_).trans hdelete
    show EStateM.tryCatch _ _ w = _
    unfold EStateM.tryCatch
    rw [habort]
    rfl
  exact bind_run hstorage

end Spans

/-! ## The request -/

namespace UploadRuns

/-- What a `complete` with these parts comes to: a job and a place on the queue for an object
that is a video, and nothing at all for any other. -/
structure Completes (s t : UploadRuns) (party : ℕ) (upload : UploadSession)
    (bytes : List UInt8) : Prop where
  job : RecognizedVideo bytes → t.state = some .completed ∧ t.bucket.object = some bytes ∧
    (∃ now, t.jobs = s.jobs ++ [(upload.jobId, uploadJob upload now)]) ∧
    t.queue = s.queue ++ [upload.jobId] ∧
    t.parties.lookup party = some (.request (.answered (.completed upload.jobId)))
  noJob : ¬RecognizedVideo bytes → t.state = some .aborted ∧ t.bucket.object = none ∧
    t.jobs = s.jobs ∧ t.queue = s.queue ∧
    t.parties.lookup party = some (.request (.answered
      (.error 415 "file content is not a recognized video format")))

variable {s t : UploadRuns} {party : ℕ} {c : Circumstances}

/-- A party has committed a row and goes on. -/
structure Committed (s t : UploadRuns) (party : ℕ) (after : UploadSession)
    (job : Option (UUID × Job)) (phase : RequestPhase) (w : Outside) : Prop where
  session : t.session = some after
  party : t.parties.lookup party = some (.request phase)
  bucket : t.bucket = w.bucket
  queue : t.queue = w.queue
  jobs : t.jobs = s.jobs ++ job.toList

theorem committed_runRequest (hc : c.Calm) {span : RequestSpan} {after : UploadSession}
    {job : Option (UUID × Job)} {phase : RequestPhase} {w : Outside}
    (hrun : span (s.outside []) = .ok (.commit after job phase) w) :
    Committed s (s.runRequest party c span) party after job phase w := by
  have hend : s.runRequest party c span =
      ((s.reached w).commit after job).move party (.request phase) := by
    unfold runRequest runSpan
    rw [hc.outcomes, hrun]
    dsimp only
    rw [hc.commit]
    rfl
  rw [hend]
  exact ⟨rfl, AList.lookup_insert _, rfl, rfl, rfl⟩

theorem step_call_committed (maxUploadBytes : ℤ) (hc : c.Calm) (user : UUID) (request : ApiCall)
    (hparty : s.parties.lookup party = none) (hpossible : possible request s.session = true)
    {after : UploadSession} {job : Option (UUID × Job)} {phase : RequestPhase} {w : Outside}
    (hrun : begin maxUploadBytes c s.session user request (s.outside []) =
      .ok (.commit after job phase) w) :
    ∃ t, step maxUploadBytes s (.call party user request c) = some t ∧
      Committed s t party after job phase w := by
  refine ⟨_, ?_, committed_runRequest hc hrun⟩
  simp only [step]
  rw [if_pos ⟨by rw [hparty]; rfl, hpossible⟩]

theorem step_proceed_committed (maxUploadBytes : ℤ) (hc : c.Calm) {phase next : RequestPhase}
    {span : RequestSpan}
    (hparty : s.parties.lookup party = some (.request phase))
    (hspan : proceed c s.session phase = some span) {after : UploadSession}
    {job : Option (UUID × Job)} {w : Outside}
    (hrun : span (s.outside []) = .ok (.commit after job next) w) :
    ∃ t, step maxUploadBytes s (.proceed party c) = some t ∧
      Committed s t party after job next w := by
  refine ⟨_, ?_, committed_runRequest hc hrun⟩
  simp only [step, hparty, hspan, Option.map_some]

theorem run_three {maxUploadBytes : ℤ} {t₁ t₂ t₃ : UploadRuns} {a₁ a₂ a₃ : UploadAction}
    (h₁ : step maxUploadBytes s a₁ = some t₁) (h₂ : step maxUploadBytes t₁ a₂ = some t₂)
    (h₃ : step maxUploadBytes t₂ a₃ = some t₃) :
    (uploadSystem maxUploadBytes).run s [a₁, a₂, a₃] = some t₃ :=
  (StepSystem.run_of_step (uploadSystem maxUploadBytes) h₁ _).trans
    ((StepSystem.run_of_step (uploadSystem maxUploadBytes) h₂ _).trans
      (StepSystem.run_of_step (uploadSystem maxUploadBytes) h₃ _))

/-- A `complete` of the owner with the parts the store has. -/
theorem completes_run (maxUploadBytes : ℤ) {upload : UploadSession} {user : UUID}
    (howner : upload.ownerId = user) {request : CompleteUpload}
    {first second third : Circumstances} {stored : List StoredPart} {bucket : Bucket}
    {bytes : List UInt8} (hparty : s.parties.lookup party = none)
    (hsession : s.session = some upload) (hopen : upload.state = .open)
    (hinitialized : upload.initialized = true) (hlive : first.now < upload.expiresAt)
    (hempty : s.bucket.object = none)
    (hstored : s.bucket.uploads.lookup (upload.storageId.getD "") = some stored)
    (hvalid : validateParts { upload with manifest := some request.manifest } stored = pure ())
    (hmerge : s.bucket.completeMultipartUpload (upload.storageId.getD "") request.manifest =
      .ok ((), bucket))
    (hobject : bucket.object = some bytes) (hsize : (bytes.length : ℤ) = upload.size)
    (hgone : bucket.uploads.lookup (upload.storageId.getD "") = none)
    (hfirst : first.Calm) (hsecond : second.Calm) (hthird : third.Calm) :
    ∃ t, (uploadSystem maxUploadBytes).run s [.call party user (.complete request) first,
        .proceed party second, .proceed party third] = some t ∧
      Completes s t party upload bytes := by
  subst howner
  let frozen : UploadSession :=
    { upload with manifest := some request.manifest, state := .completing }
  -- The manifest is frozen.
  obtain ⟨t₁, hstep₁, h₁⟩ := step_call_committed maxUploadBytes hfirst upload.ownerId
    (.complete request) hparty (by rw [hsession]; rfl) (by
      rw [hsession]
      exact (owned_bind_run hfirst upload _ _).trans
        (complete_run hlive hopen hinitialized request rfl hstored hvalid))
  -- The parts are merged, and the object is looked into.
  have hmerged := (owned_bind_run hsecond frozen (fun upload =>
    completeMerging second frozen.ownerId upload request.manifest) (t₁.outside [])).trans
    (completeMerging_run rfl rfl rfl (by rw [← hempty]; exact congrArg Bucket.object h₁.bucket)
      (by rw [← hmerge]; exact congrArg _ h₁.bucket) hobject hsize)
  rw [← h₁.session] at hmerged
  by_cases hvideo : RecognizedVideo bytes
  · rw [if_pos hvideo] at hmerged
    obtain ⟨t₂, hstep₂, h₂⟩ := step_proceed_committed maxUploadBytes hsecond h₁.party rfl hmerged
    -- The job goes onto the queue.
    let ready : UploadSession := { frozen with state := .ready }
    have hready := (owned_bind_run hthird ready completeReady (t₂.outside [])).trans
      (completeReady_run rfl rfl)
    rw [← h₂.session] at hready
    obtain ⟨t₃, hstep₃, h₃⟩ := step_proceed_committed maxUploadBytes hthird h₂.party rfl hready
    refine ⟨t₃, run_three hstep₁ hstep₂ hstep₃,
      fun _ => ⟨?_, ?_, ⟨second.now, ?_⟩, ?_, h₃.party⟩, fun hnot => absurd hvideo hnot⟩
    · unfold UploadRuns.state
      rw [h₃.session]
      rfl
    · rw [h₃.bucket]
      exact (congrArg Bucket.object h₂.bucket).trans hobject
    · rw [h₃.jobs, h₂.jobs, h₁.jobs]
      simp only [Option.toList_none, Option.toList_some, List.append_nil]
      rfl
    · rw [h₃.queue]
      show t₂.queue ++ [upload.jobId] = s.queue ++ [upload.jobId]
      rw [h₂.queue]
      show t₁.queue ++ [upload.jobId] = s.queue ++ [upload.jobId]
      rw [h₁.queue]
      rfl
  · rw [if_neg hvideo] at hmerged
    obtain ⟨t₂, hstep₂, h₂⟩ := step_proceed_committed maxUploadBytes hsecond h₁.party rfl hmerged
    -- The object goes, and the session is given up.
    let given : UploadSession := { frozen with state := .aborting }
    have hgiven := (owned_bind_run hthird given (fun upload => discardStorage upload
      (.error 415 "file content is not a recognized video format")) (t₂.outside [])).trans
      (discardStorage_run (show given.initialized = true from hinitialized) _ rfl
        ((congrArg (fun store : Bucket => store.uploads.lookup (upload.storageId.getD ""))
          h₂.bucket).trans hgone))
    rw [← h₂.session] at hgiven
    obtain ⟨t₃, hstep₃, h₃⟩ := step_proceed_committed maxUploadBytes hthird h₂.party rfl hgiven
    refine ⟨t₃, run_three hstep₁ hstep₂ hstep₃,
      fun hrecognized => absurd hrecognized hvideo, fun _ => ⟨?_, ?_, ?_, ?_, h₃.party⟩⟩
    · unfold UploadRuns.state
      rw [h₃.session]
      rfl
    · rw [h₃.bucket]
    · rw [h₃.jobs, h₂.jobs, h₁.jobs]
      simp only [Option.toList_none, List.append_nil]
    · rw [h₃.queue]
      show t₂.queue = s.queue
      rw [h₂.queue]
      show t₁.queue = s.queue
      rw [h₁.queue]
      rfl

end UploadRuns

end Api
end MediaPlayer
