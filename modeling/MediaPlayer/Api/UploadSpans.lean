import MediaPlayer.Api.MultipartUploads
import MediaPlayer.Services.UploadCleanup

/-!
# What a span may do

One lemma for each span of an upload's endpoints and of its cleanup.  `Advance` is what a
span may commit over the row it read, `SpanSafe` that a span commits nothing else and
leaves the store alone once the session has its job.
-/

namespace MediaPlayer
namespace Api

open Library Models Repositories Schemas Services

/-- The object was merged, measured and recognised. -/
def Merged (upload : UploadSession) (bucket : Bucket) : Prop :=
  ∃ bytes, bucket.object = some bytes ∧ (bytes.length : ℤ) = upload.size ∧ RecognizedVideo bytes

/-- What a span may commit over a row, with a new job or without. -/
structure Advance (before : UploadSession) (bucket : Bucket) (after : UploadSession)
    (job : Option (UUID × Job)) : Prop where
  size : after.size = before.size
  frozen : before.state ≠ .open → after.state ≠ .open ∧ after.manifest = before.manifest
  cancelled : before.state.Cancelled → after.state.Cancelled
  settled : before.state.Settled → after.state.Settled ∧ job = none
  completed : before.state = .completed → after.state = .completed
  unsettled : ¬ before.state.Settled → job = none → ¬ after.state.Settled
  created : job ≠ none → after.state = .ready ∧ Merged after bucket

/-- Where a party may go on after a span on the row `before`.  `cancels` tells the places
that rely on the session being given up. -/
def SpanEnd.Allowed {ρ : Type} (cancels : ρ → Prop) (before : Option UploadSession)
    (bucket : Bucket) : SpanEnd ρ → Prop
  | .rollback next => ¬ cancels next
  | .commit after job next =>
      (∀ upload, before = some upload → Advance upload bucket after job) ∧
        (before = none → after.state = .open ∧ job = none) ∧
        (cancels next → after.state.Cancelled)

/-- A span on the row `before` ends as it may, and disturbs nothing once the session has
its job. -/
def SpanSafe {ρ : Type} (cancels : ρ → Prop) (before : Option UploadSession)
    (span : Span (SpanEnd ρ)) : Prop :=
  ∀ w₀, Ensures (fun w => (∀ upload, before = some upload → upload.state.Settled →
      Undisturbed w₀ w)) span
    (fun r w => (∀ upload, before = some upload → upload.state.Settled → Undisturbed w₀ w) ∧
      SpanEnd.Allowed cancels before w.bucket r)
    fun _ w => ∀ upload, before = some upload → upload.state.Settled → Undisturbed w₀ w

/-- A request that discards relies on the session being given up. -/
def RequestPhase.cancels : RequestPhase → Prop
  | .discarding _ _ => True
  | .starting _ | .frozen _ _ | .created _ | .answered _ => False

namespace SpanSafe

variable {ρ : Type} {cancels : ρ → Prop} {before : Option UploadSession}
  {upload : UploadSession} {span : Span (SpanEnd ρ)}

theorem throw (e : RequestError) :
    SpanSafe cancels before (MonadExcept.throw e : Span (SpanEnd ρ)) :=
  fun _ => Ensures.throw e fun _ hw => hw

theorem pure {r : SpanEnd ρ} (hr : ∀ bucket, SpanEnd.Allowed cancels before bucket r) :
    SpanSafe cancels before (Pure.pure r : Span (SpanEnd ρ)) :=
  fun _ => Ensures.pure r fun w hw => ⟨hw, hr w.bucket⟩

/-- Before the session has its job only the end of a span matters. -/
theorem of_unsettled (hunsettled : ¬ upload.state.Settled)
    (hspan : Ensures (fun _ => True) span
      (fun r w => SpanEnd.Allowed cancels (some upload) w.bucket r) fun _ _ => True) :
    SpanSafe cancels (some upload) span := by
  intro w₀
  have hnothing : ∀ w, ∀ other, some upload = some other → other.state.Settled →
      Undisturbed w₀ w := by
    intro w other hother hsettled
    obtain rfl := Option.some.inj hother
    exact absurd hsettled hunsettled
  exact hspan.conseq (fun _ _ => trivial) (fun r w hr => ⟨hnothing w, hr⟩) fun _ w _ => hnothing w

/-- A span whose calls disturb nothing, and which then ends as it may. -/
theorem of_undisturbed {α : Type} {x : Span α} {f : α → SpanEnd ρ}
    (hx : ∀ w₀, Ensures (Undisturbed w₀) x (fun _ => Undisturbed w₀) fun _ => Undisturbed w₀)
    (hf : ∀ a bucket, SpanEnd.Allowed cancels (some upload) bucket (f a)) :
    SpanSafe cancels (some upload) (x >>= fun a => Pure.pure (f a)) := by
  have hend : ∀ w₀, Ensures (Undisturbed w₀) (x >>= fun a => Pure.pure (f a))
      (fun r w => Undisturbed w₀ w ∧ SpanEnd.Allowed cancels (some upload) w.bucket r)
      fun _ => Undisturbed w₀ :=
    fun w₀ => (hx w₀).bind fun a => Ensures.pure (f a) fun w hw => ⟨hw, hf a w.bucket⟩
  by_cases hsettled : upload.state.Settled
  · intro w₀
    refine (hend w₀).conseq ?_ ?_ ?_
    · exact fun w hw => hw upload rfl hsettled
    · exact fun r w hr => ⟨fun _ _ _ => hr.1, hr.2⟩
    · exact fun _ w hw _ _ _ => hw
  · refine of_unsettled hsettled ?_
    intro w _
    exact (hend w).conseq (fun _ h => h) (fun _ _ h => h.2) (fun _ _ _ => trivial) w
      (Undisturbed.refl w)

/-- `active` lets only an open session pass, and does nothing else. -/
theorem active_bind {c : Circumstances} {row : UploadSession}
    (hspan : row.state = .open → SpanSafe cancels before span) :
    SpanSafe cancels before (active c row >>= fun _ => span) := by
  unfold active
  split
  · exact SpanSafe.throw _
  · split
    · exact SpanSafe.throw _
    · rename_i hopen
      exact hspan (not_not.mp hopen)

/-- After `owned` the span works on the row there is. -/
theorem owned_bind {c : Circumstances} {ownerId : UUID} {f : UploadSession → Span (SpanEnd ρ)}
    (hf : ∀ upload, before = some upload → SpanSafe cancels (some upload) (f upload)) :
    SpanSafe cancels before (owned c before ownerId >>= f) := by
  unfold owned
  cases hfound : getUpload c.accountExists before ownerId with
  | none => exact SpanSafe.throw _
  | some upload =>
      obtain ⟨rfl, -⟩ := getUpload_some hfound
      exact hf upload rfl

end SpanSafe

/-! ## Commits -/

section Commits

variable {upload : UploadSession} {bucket : Bucket}

/-- A commit that changes the state only, and creates no job. -/
theorem Advance.restate {state : UploadState} (hopen : state ≠ .open)
    (hcancelled : upload.state.Cancelled → state.Cancelled)
    (hsettled : upload.state.Settled ↔ state.Settled)
    (hcompleted : upload.state = .completed → state = .completed) :
    Advance upload bucket { upload with state := state } none where
  size := rfl
  frozen _ := ⟨hopen, rfl⟩
  cancelled := hcancelled
  settled h := ⟨hsettled.mp h, rfl⟩
  completed := hcompleted
  unsettled h _ hafter := h (hsettled.mpr hafter)
  created h := absurd rfl h

theorem Advance.aborted (hunsettled : ¬ upload.state.Settled) :
    Advance upload bucket { upload with state := .aborted } none := by
  refine Advance.restate (by simp) (fun _ => trivial) ?_ ?_
  · exact ⟨fun h => absurd h hunsettled, fun h => h.elim⟩
  · intro hcompleted
    rw [hcompleted] at hunsettled
    exact absurd trivial hunsettled

theorem allowed_restate {ρ : Type} {cancels : ρ → Prop} {next : ρ} {after : UploadSession}
    (hadvance : Advance upload bucket after none)
    (hcancels : cancels next → after.state.Cancelled) :
    SpanEnd.Allowed cancels (some upload) bucket (.commit after none next) := by
  refine ⟨?_, by simp, hcancels⟩
  intro other hother
  obtain rfl := Option.some.inj hother
  exact hadvance

/-- The intent to discard may be committed as long as there is no job. -/
theorem allowed_discard (hunsettled : ¬ upload.state.Settled) (response : Response) :
    SpanEnd.Allowed RequestPhase.cancels (some upload) bucket (discard upload response) := by
  refine allowed_restate (Advance.restate (by simp) (fun _ => trivial) ?_ ?_) fun _ => trivial
  · exact ⟨fun h => absurd h hunsettled, fun h => h.elim⟩
  · intro hcompleted
    rw [hcompleted] at hunsettled
    exact absurd trivial hunsettled

/-- A job may be created for a merged object while the session is completing. -/
theorem allowed_createUploadJob (hcompleting : upload.state = .completing) (now : Timestamp)
    (user : UUID) (hmerged : Merged upload bucket) :
    SpanEnd.Allowed RequestPhase.cancels (some upload) bucket
      (createUploadJob upload now (.created user)) := by
  refine ⟨?_, by simp, fun h => h.elim⟩
  intro other hother
  obtain rfl := Option.some.inj hother
  exact
    { size := rfl
      frozen := fun _ => ⟨by simp, rfl⟩
      cancelled := fun h => by simp [hcompleting, UploadState.Cancelled] at h
      settled := fun h => by simp [hcompleting, UploadState.Settled] at h
      completed := fun h => by simp [hcompleting] at h
      unsettled := fun _ h => by simp at h
      created := fun _ => ⟨rfl, hmerged⟩ }

end Commits

/-! ## The spans -/

section Spans

variable {c : Circumstances} {user : UUID} {upload : UploadSession}

theorem startStorage_safe (c : Circumstances) (upload : UploadSession) :
    SpanSafe RequestPhase.cancels (some upload) (startStorage c upload) := by
  unfold startStorage
  refine SpanSafe.of_undisturbed (fun _ => MultipartStorage.initiate_undisturbed c.drawn) ?_
  intro storageId bucket
  refine allowed_restate ?_ fun h => h.elim
  exact
    { size := rfl
      frozen := fun h => ⟨h, rfl⟩
      cancelled := id
      settled := fun h => ⟨h, rfl⟩
      completed := id
      unsettled := fun h _ => h
      created := fun h => absurd rfl h }

theorem completeReady_safe (upload : UploadSession) :
    SpanSafe RequestPhase.cancels (some upload) (completeReady upload) := by
  unfold completeReady
  split
  · rename_i hready
    refine SpanSafe.of_undisturbed (fun _ => enqueueJob_undisturbed upload.jobId) ?_
    intro _ bucket
    refine allowed_restate (Advance.restate ?_ ?_ ?_ ?_) fun h => h.elim
    all_goals simp [hready, UploadState.Cancelled, UploadState.Settled]
  · split
    · exact SpanSafe.throw _
    · exact SpanSafe.pure fun _ => id

/-- The length `complete` compares is the object's, whether it was there or was merged
now. -/
theorem mergedLength_ensures (upload : UploadSession) (first : Option ℤ) :
    Ensures (MultipartStorage.Measured first) (mergedLength upload first)
      MultipartStorage.Measured fun _ _ => True := by
  cases first with
  | some contentLength => exact Ensures.pure _ fun _ hw => hw
  | none =>
      exact ((Ensures.any _).bind fun _ => MultipartStorage.head_ensures)

theorem completeMerging_safe (c : Circumstances) (user : UUID) (upload : UploadSession)
    (manifest : List UploadedPart) :
    SpanSafe RequestPhase.cancels (some upload) (completeMerging c user upload manifest) := by
  unfold completeMerging
  split
  · rename_i hcompleting
    have hunsettled : ¬ upload.state.Settled := by simp [hcompleting, UploadState.Settled]
    refine SpanSafe.of_unsettled hunsettled ?_
    refine Ensures.ite (fun _ => Ensures.throw _ fun _ _ => trivial) fun _ => ?_
    refine MultipartStorage.head_ensures.bind fun first => ?_
    refine (mergedLength_ensures upload first).bind fun head => ?_
    cases head with
    | none => exact Ensures.throw _ fun _ _ => trivial
    | some contentLength =>
        refine Ensures.ite (fun _ => Ensures.pure _ fun _ _ => allowed_discard hunsettled _)
          fun hlength => ?_
        have hmeasured : ∀ w, MultipartStorage.Measured (some contentLength) w →
            ∃ bytes, w.bucket.object = some bytes ∧ (bytes.length : ℤ) = upload.size := by
          intro w hw
          obtain ⟨bytes, hobject, hbytes⟩ := hw contentLength rfl
          exact ⟨bytes, hobject, hbytes.trans (not_not.mp hlength)⟩
        refine (MultipartStorage.sniff_ensures.pre hmeasured).bind fun head => ?_
        refine Ensures.ite (fun _ => Ensures.pure _ fun _ _ => allowed_discard hunsettled _)
          fun hsniffed => Ensures.pure _ ?_
        rintro w ⟨bytes, hobject, hbytes, rfl⟩
        exact allowed_createUploadJob hcompleting c.now user ⟨bytes, hobject, hbytes, hsniffed⟩
  · exact completeReady_safe upload

/-- What `complete` freezes is a manifest over an open row. -/
theorem freeze_safe (user : UUID) (hopen : upload.state = .open) (manifest : List UploadedPart) :
    SpanSafe RequestPhase.cancels (some upload) (freeze user upload manifest) := by
  refine SpanSafe.of_unsettled (by simp [hopen, UploadState.Settled]) ?_
  refine Ensures.ite (fun _ => Ensures.throw _ fun _ _ => trivial) fun _ => ?_
  refine (Ensures.any _).bind fun actual => (Ensures.any _).bind fun _ => Ensures.pure _ ?_
  intro w _
  refine allowed_restate ?_ fun h => h.elim
  exact
    { size := rfl
      frozen := fun h => absurd hopen h
      cancelled := fun h => by simp [hopen, UploadState.Cancelled] at h
      settled := fun h => by simp [hopen, UploadState.Settled] at h
      completed := fun h => by simp [hopen] at h
      unsettled := fun _ _ h => h.elim
      created := fun h => absurd rfl h }

theorem complete_safe (c : Circumstances) (user : UUID) (upload : UploadSession)
    (request : CompleteUpload) :
    SpanSafe RequestPhase.cancels (some upload) (complete c user upload request) := by
  unfold complete
  cases hstate : upload.state with
  | completed => exact SpanSafe.pure fun _ => id
  | aborting | aborted => exact SpanSafe.throw _
  | «open» => exact SpanSafe.active_bind fun hopen => freeze_safe user hopen request.manifest
  | completing | ready => exact completeMerging_safe c user upload request.manifest

theorem signParts_safe (c : Circumstances) (upload : UploadSession) (request : SignParts) :
    SpanSafe RequestPhase.cancels (some upload) (signParts c upload request) := by
  refine SpanSafe.active_bind fun _ => ?_
  split
  · exact SpanSafe.throw _
  · split
    · exact SpanSafe.throw _
    · exact SpanSafe.pure fun _ => id

theorem resume_safe (c : Circumstances) (upload : UploadSession) :
    SpanSafe RequestPhase.cancels (some upload) (resume c upload) := by
  by_cases hopen : upload.state = .open
  · refine SpanSafe.of_unsettled (by simp [hopen, UploadState.Settled]) ?_
    exact (Ensures.any _).bind fun parts => Ensures.pure _ fun _ _ => id
  · unfold resume partsDone
    rw [if_neg hopen]
    exact SpanSafe.pure fun _ => id

theorem abort_safe (upload : UploadSession) :
    SpanSafe RequestPhase.cancels (some upload) (abort upload) := by
  unfold abort
  cases hstate : upload.state with
  | ready | completed | completing => exact SpanSafe.throw _
  | aborted => exact SpanSafe.pure fun _ => id
  | «open» | aborting =>
      refine SpanSafe.pure fun _ => allowed_discard ?_ _
      simp [hstate, UploadState.Settled]

/-- The end of a discard relies on the intent. -/
theorem discardStorage_safe (hcancelled : upload.state.Cancelled) (response : Response) :
    SpanSafe RequestPhase.cancels (some upload) (discardStorage upload response) := by
  refine SpanSafe.of_unsettled hcancelled.not_settled ?_
  refine (Ensures.any _).bind fun _ => Ensures.pure _ fun w _ => ?_
  exact allowed_restate (Advance.aborted hcancelled.not_settled) fun h => h.elim

/-- Cleanup takes only what has no job. -/
theorem cleanOne_safe (accountExists : Bool) (session : Option UploadSession) (ownerId : UUID) :
    SpanSafe (fun _ => False) session (cleanOne accountExists session ownerId) := by
  unfold cleanOne
  cases hfound : getUpload accountExists session ownerId with
  | none => exact SpanSafe.pure fun _ => id
  | some upload =>
      obtain ⟨rfl, -⟩ := getUpload_some hfound
      by_cases hcleanable : cleanable upload.state = false
      · simp only [if_pos hcleanable]
        exact SpanSafe.pure fun _ => id
      · have hunsettled : ¬ upload.state.Settled := by
          intro hsettled
          cases hstate : upload.state <;> simp_all [cleanable, UploadState.Settled]
        simp only [if_neg hcleanable]
        refine SpanSafe.of_unsettled hunsettled ?_
        refine (Ensures.any _).bind fun _ => Ensures.pure _ fun w _ => ?_
        exact allowed_restate (Advance.aborted hunsettled) fun h => h.elim

/-- The first span of a request on the session, or the one that makes it. -/
theorem begin_safe (maxUploadBytes : ℤ) (c : Circumstances) (session : Option UploadSession)
    (user : UUID) (call : ApiCall)
    (hfresh : ∀ jobId request, call = .start jobId request → session = none) :
    SpanSafe RequestPhase.cancels session (begin maxUploadBytes c session user call) := by
  cases call with
  | start jobId request =>
      obtain rfl := hfresh jobId request rfl
      simp only [begin, start]
      split
      · exact SpanSafe.throw _
      · split
        · exact SpanSafe.throw _
        · exact SpanSafe.throw _
        · exact SpanSafe.pure fun _ => ⟨by simp, fun _ => ⟨rfl, rfl⟩, fun h => h.elim⟩
  | signParts request =>
      exact SpanSafe.owned_bind fun upload _ => signParts_safe c upload request
  | complete request =>
      exact SpanSafe.owned_bind fun upload _ => complete_safe c user upload request
  | resume =>
      exact SpanSafe.owned_bind fun upload _ => resume_safe c upload
  | abort =>
      exact SpanSafe.owned_bind fun upload _ => abort_safe upload

/-- The span after a commit, where a request that discards finds the session given up. -/
theorem proceed_safe {session : Option UploadSession} {phase : RequestPhase} {span : RequestSpan}
    (hspan : proceed c session phase = some span)
    (hcancels : phase.cancels → ∃ upload, session = some upload ∧ upload.state.Cancelled) :
    SpanSafe RequestPhase.cancels session span := by
  cases phase with
  | starting user =>
      obtain rfl := Option.some.inj hspan
      exact SpanSafe.owned_bind fun upload _ => startStorage_safe c upload
  | frozen user manifest =>
      obtain rfl := Option.some.inj hspan
      exact SpanSafe.owned_bind fun upload _ => completeMerging_safe c user upload manifest
  | created user =>
      obtain rfl := Option.some.inj hspan
      exact SpanSafe.owned_bind fun upload _ => completeReady_safe upload
  | discarding ownerId response =>
      obtain rfl := Option.some.inj hspan
      obtain ⟨found, hfound, hcancelled⟩ := hcancels trivial
      refine SpanSafe.owned_bind fun upload hupload => ?_
      obtain rfl := Option.some.inj (hfound.symm.trans hupload)
      exact discardStorage_safe hcancelled response
  | answered response => simp [proceed] at hspan

end Spans

end Api
end MediaPlayer
