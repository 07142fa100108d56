import MediaPlayer.Api.SlotRuns
import MediaPlayer.Api.UploadRuns

/-!
# Aborted sessions

A session is committed as aborted only by a span that has just removed its object, and no span
on an aborted session makes one.

* `SpanEmpties` — what a span must keep for that, with one lemma for each span.
* `aborted_object_gone` — in every run an aborted session has no object.
-/

namespace MediaPlayer
namespace Api

open Library Models Repositories Services

/-- If the row is aborted, there is no object. -/
def EmptyIfAborted (row : Option UploadSession) (bucket : Bucket) : Prop :=
  ∀ upload, row = some upload → upload.state = .aborted → bucket.object = none

/-- There is no object under an aborted row; nor under one that is committed as aborted. -/
def SpanEmpties {ρ : Type} (row : Option UploadSession) (span : Span (SpanEnd ρ)) : Prop :=
  Ensures (fun w => EmptyIfAborted row w.bucket) span
    (fun r w => EmptyIfAborted row w.bucket ∧
      SpanEnd.Commits (fun after => EmptyIfAborted (some after) w.bucket) r)
    fun _ w => EmptyIfAborted row w.bucket

theorem EmptyIfAborted.of_empty {row : Option UploadSession} {bucket : Bucket}
    (hempty : bucket.object = none) : EmptyIfAborted row bucket :=
  fun _ _ _ => hempty

theorem EmptyIfAborted.of_state {upload : UploadSession} {bucket : Bucket}
    (hstate : upload.state ≠ .aborted) : EmptyIfAborted (some upload) bucket := by
  intro other hother haborted
  obtain rfl := Option.some.inj hother
  exact absurd haborted hstate

/-- Once both calls have returned there is no object; until then what was gone stays gone. -/
theorem abort_empties {row : Option UploadSession} (upload : UploadSession) :
    Ensures (fun w => EmptyIfAborted row w.bucket) (MultipartStorage.abort upload)
      (fun _ w => w.bucket.object = none) fun _ w => EmptyIfAborted row w.bucket := by
  have hkept : ∀ operation perform, (∀ bucket a (after : Bucket),
        perform bucket = Except.ok (a, after) → bucket.object = none → after.object = none) →
      Ensures (fun w => EmptyIfAborted row w.bucket)
        (call operation perform : Span Unit) (fun _ w => EmptyIfAborted row w.bucket)
        fun _ w => EmptyIfAborted row w.bucket := by
    intro operation perform hperform w hw
    unfold call
    dsimp only
    rw [Outside.next_bucket]
    cases hresult : perform w.bucket with
    | error code =>
        exact hw
    | ok result =>
        have hafter : EmptyIfAborted row result.2 :=
          fun upload hrow haborted => hperform _ _ _ hresult (hw upload hrow haborted)
        cases hout : w.next.1 with
        | returned | raisedAfter => exact hafter
        | raisedBefore => exact hw
  have hdelete : Ensures (fun w => EmptyIfAborted row w.bucket)
      (call .deleteObject Bucket.deleteObject) (fun _ w => w.bucket.object = none)
      fun _ w => EmptyIfAborted row w.bucket := by
    intro w hw
    unfold call Bucket.deleteObject
    dsimp only
    rw [Outside.next_bucket]
    cases w.next.1 with
    | returned => rfl
    | raisedBefore => exact hw
    | raisedAfter => exact EmptyIfAborted.of_empty rfl
  have habort := hkept .abortMultipartUpload
    (Bucket.abortMultipartUpload (upload.storageId.getD "")) fun bucket _ after hok hempty => by
      unfold Bucket.abortMultipartUpload at hok
      split at hok
      · cases hok
      · obtain ⟨-, rfl⟩ := Prod.mk.inj (Except.ok.inj hok)
        exact hempty
  unfold MultipartStorage.abort
  split
  · refine Ensures.bind (habort.tryCatch fun e => ?_) fun _ => hdelete
    cases e with
    | clientError code =>
        exact Ensures.ite (fun _ => Ensures.pure _ fun _ h => h) fun _ =>
          Ensures.throw _ fun _ h => h
    | http | notFound | connectionError => exact Ensures.throw _ fun _ h => h
  · exact hdelete

/-- Only a span that has aborted the parts writes `aborted`. -/
theorem SpanWrite.not_aborted {upload after : UploadSession} {job : Option (UUID × Job)}
    (hwrite : SpanWrite upload after job) (hstate : upload.state ≠ .aborted) :
    after.state ≠ .aborted := by
  cases hwrite with
  | started storageId => exact hstate
  | frozen | created | completed | discarded => simp

namespace SpanEmpties

variable {ρ : Type} {row : Option UploadSession} {upload : UploadSession}
  {span : Span (SpanEnd ρ)}

theorem throw (e : RequestError) : SpanEmpties row (MonadExcept.throw e : Span (SpanEnd ρ)) :=
  Ensures.throw e fun _ hw => hw

theorem rollback (next : ρ) : SpanEmpties row (Pure.pure (.rollback next) : Span (SpanEnd ρ)) :=
  Ensures.pure _ fun _ hw => ⟨hw, trivial⟩

/-- A span on a row that is not aborted may do what it likes, as long as it does not commit the
row as aborted. -/
theorem of_commits (hrow : ∀ upload, row = some upload → upload.state ≠ .aborted)
    (hspan : Commits (fun after => after.state ≠ .aborted) span) : SpanEmpties row span := by
  have hkept : ∀ bucket, EmptyIfAborted row bucket :=
    fun _ upload hupload haborted => absurd haborted (hrow upload hupload)
  refine hspan.conseq (fun _ _ => trivial) (fun r w hr => ⟨hkept _, ?_⟩) fun _ w _ => hkept _
  cases r with
  | rollback next => trivial
  | commit after job next => exact EmptyIfAborted.of_state hr

theorem of_writes (hstate : upload.state ≠ .aborted)
    (hspan : WritesOnly (SpanWrite upload) span) : SpanEmpties (some upload) span := by
  refine SpanEmpties.of_commits (by simpa using hstate) ?_
  refine hspan.conseq (fun _ h => h) (fun r _ hr => ?_) fun _ _ h => h
  cases r with
  | rollback next => trivial
  | commit after job next => exact (hr after job next rfl).not_aborted hstate

/-- After the storage of the session is gone it may be committed as aborted. -/
theorem abort_bind {job : Option (UUID × Job)} {next : ρ} (gone : UploadSession)
    (after : UploadSession) :
    SpanEmpties row (MultipartStorage.abort gone >>= fun _ =>
      Pure.pure (.commit after job next)) :=
  (abort_empties gone).bind fun _ => Ensures.pure _ fun _ hempty =>
    ⟨EmptyIfAborted.of_empty hempty, EmptyIfAborted.of_empty hempty⟩

theorem owned_bind {c : Circumstances} {ownerId : UUID} {f : UploadSession → Span (SpanEnd ρ)}
    (hf : ∀ upload, SpanEmpties (some upload) (f upload)) :
    SpanEmpties row (owned c row ownerId >>= f) := by
  unfold owned
  cases hfound : getUpload c.accountExists row ownerId with
  | none => exact SpanEmpties.throw _
  | some upload =>
      obtain ⟨rfl, -⟩ := getUpload_some hfound
      exact hf upload

/-- `active` stops an aborted session. -/
theorem active_bind {c : Circumstances}
    (hspan : upload.state = .open → SpanEmpties row span) :
    SpanEmpties row (active c upload >>= fun _ => span) := by
  unfold active
  split
  · exact SpanEmpties.throw _
  · split
    · exact SpanEmpties.throw _
    · rename_i hopen
      exact hspan (not_not.mp hopen)

end SpanEmpties

/-! ## The spans -/

section Spans

variable {c : Circumstances} {row : Option UploadSession} {upload : UploadSession}

/-- A late `create_multipart_upload` of a session aborted meanwhile makes no object. -/
theorem startStorage_empties (c : Circumstances) (upload : UploadSession) :
    SpanEmpties (some upload) (startStorage c upload) := by
  intro w hw
  have hsame : ∀ w', Undisturbed w w' → EmptyIfAborted (some upload) w'.bucket :=
    fun w' hundisturbed other hother haborted =>
      hundisturbed.object.trans (hw other hother haborted)
  have hinitiate := (MultipartStorage.initiate_undisturbed c.drawn).conseq
    (fun _ h => h) (fun _ _ h => h) fun _ => hsame
  refine hinitiate.bind (fun storageId => Ensures.pure _ fun w' hundisturbed => ?_) w
    (Undisturbed.refl w)
  refine ⟨hsame w' hundisturbed, fun other hother haborted => ?_⟩
  obtain rfl := Option.some.inj hother
  exact hsame w' hundisturbed upload rfl haborted

theorem completeReady_empties (upload : UploadSession) :
    SpanEmpties (some upload) (completeReady upload) := by
  by_cases haborted : upload.state = .aborted
  · unfold completeReady
    rw [if_neg (by simp [haborted]), if_pos (by simp [haborted])]
    exact SpanEmpties.throw _
  · exact SpanEmpties.of_writes haborted (completeReady_writes upload)

theorem completeMerging_empties (c : Circumstances) (user : UUID) (upload : UploadSession)
    (manifest : List UploadedPart) :
    SpanEmpties (some upload) (completeMerging c user upload manifest) := by
  by_cases haborted : upload.state = .aborted
  · unfold completeMerging
    rw [if_neg (by simp [haborted])]
    exact completeReady_empties upload
  · exact SpanEmpties.of_writes haborted (completeMerging_writes c user upload manifest)

theorem complete_empties (c : Circumstances) (user : UUID) (upload : UploadSession)
    (request : Schemas.CompleteUpload) :
    SpanEmpties (some upload) (complete c user upload request) := by
  by_cases haborted : upload.state = .aborted
  · unfold complete
    rw [haborted]
    exact SpanEmpties.throw _
  · exact SpanEmpties.of_writes haborted (complete_writes c user upload request)

theorem resume_empties (c : Circumstances) (upload : UploadSession) :
    SpanEmpties (some upload) (resume c upload) := by
  by_cases haborted : upload.state = .aborted
  · unfold resume partsDone
    rw [if_neg (by simp [haborted])]
    exact SpanEmpties.rollback _
  · exact SpanEmpties.of_writes haborted (resume_writes c upload)

theorem abort_request_empties (upload : UploadSession) :
    SpanEmpties (some upload) (abort upload) := by
  by_cases haborted : upload.state = .aborted
  · unfold abort
    rw [haborted]
    exact SpanEmpties.rollback _
  · exact SpanEmpties.of_writes haborted (abort_writes upload)

/-- The id of a session that is started is fresh. -/
theorem begin_empties (maxUploadBytes : ℤ) (c : Circumstances) (user : UUID) (request : ApiCall)
    (hpossible : UploadRuns.possible request row = true) :
    SpanEmpties row (begin maxUploadBytes c row user request) := by
  cases request with
  | start jobId request =>
      have hfresh : row = none := by
        cases row with
        | none => rfl
        | some upload => simp [UploadRuns.possible] at hpossible
      refine SpanEmpties.of_commits (by simp [hfresh]) ?_
      simp only [begin, start]
      split
      · exact Commits.throw _
      · split
        · exact Commits.throw _
        · exact Commits.throw _
        · exact Commits.commit (by simp [newUpload])
  | signParts request =>
      refine SpanEmpties.owned_bind fun upload => SpanEmpties.active_bind fun _ => ?_
      split
      · exact SpanEmpties.throw _
      · split
        · exact SpanEmpties.throw _
        · exact SpanEmpties.rollback _
  | complete request => exact SpanEmpties.owned_bind fun upload => complete_empties c user upload _
  | resume => exact SpanEmpties.owned_bind fun upload => resume_empties c upload
  | abort => exact SpanEmpties.owned_bind fun upload => abort_request_empties upload

theorem proceed_empties {phase : RequestPhase} {span : RequestSpan}
    (hspan : proceed c row phase = some span) : SpanEmpties row span := by
  cases phase with
  | starting user =>
      obtain rfl := Option.some.inj hspan
      exact SpanEmpties.owned_bind fun upload => startStorage_empties c upload
  | frozen user manifest =>
      obtain rfl := Option.some.inj hspan
      exact SpanEmpties.owned_bind fun upload => completeMerging_empties c user upload manifest
  | created user =>
      obtain rfl := Option.some.inj hspan
      exact SpanEmpties.owned_bind fun upload => completeReady_empties upload
  | discarding ownerId response =>
      obtain rfl := Option.some.inj hspan
      exact SpanEmpties.owned_bind fun upload => SpanEmpties.abort_bind upload _
  | answered response => cases hspan

theorem cleanOne_empties (accountExists : Bool) (row : Option UploadSession) (ownerId : UUID) :
    SpanEmpties row (cleanOne accountExists row ownerId) := by
  unfold cleanOne
  split
  · exact SpanEmpties.rollback _
  · split
    · exact SpanEmpties.rollback _
    · exact SpanEmpties.abort_bind _ _

end Spans

/-! ## Runs -/

namespace UploadRuns

variable {maxUploadBytes : ℤ} {s t : UploadRuns}

theorem empties_runSpan {ρ : Type} {party : ℕ} {c : Circumstances} {span : Span (SpanEnd ρ)}
    {next : ρ → UploadParty} {raised : RequestError → UploadParty}
    (hs : EmptyIfAborted s.session s.bucket) (hspan : SpanEmpties s.session span) :
    EmptyIfAborted (s.runSpan party c span next raised).session
      (s.runSpan party c span next raised).bucket := by
  have hend := hspan (s.outside c.outcomes) hs
  unfold runSpan
  cases hrun : span (s.outside c.outcomes) with
  | error e w =>
      rw [hrun] at hend
      exact hend
  | ok r w =>
      rw [hrun] at hend
      cases r with
      | rollback phase => exact hend.1
      | commit after job phase =>
          cases c.commit with
          | returned | raisedAfter => exact hend.2
          | raisedBefore => exact hend.1

theorem empties_of_step {a : UploadAction} (hs : EmptyIfAborted s.session s.bucket)
    (hstep : step maxUploadBytes s a = some t) : EmptyIfAborted t.session t.bucket := by
  cases a with
  | call party user request c =>
      simp only [step] at hstep
      split at hstep
      · rename_i hpossible
        obtain rfl := Option.some.inj hstep
        exact empties_runSpan hs (begin_empties _ c user request hpossible.2)
      · cases hstep
  | select party now =>
      simp only [step] at hstep
      split at hstep
      · split at hstep
        · obtain rfl := Option.some.inj hstep
          exact hs
        · cases hstep
      · cases hstep
  | proceed party c =>
      simp only [step] at hstep
      split at hstep
      · obtain ⟨span, hspan, rfl⟩ := Option.map_eq_some_iff.mp hstep
        exact empties_runSpan hs (proceed_empties hspan)
      · obtain rfl := Option.some.inj hstep
        exact empties_runSpan hs (cleanOne_empties _ _ _)
      · cases hstep
      · cases hstep
  | uploadPart uploadId part =>
      obtain rfl := Option.some.inj hstep
      intro upload hupload haborted
      exact (Bucket.uploadPart_object uploadId part s.bucket).trans (hs upload hupload haborted)

/-- An aborted session has no object. -/
theorem aborted_object_gone (hs : (uploadSystem maxUploadBytes).Reachable s)
    {upload : UploadSession} (hupload : s.session = some upload)
    (haborted : upload.state = .aborted) : s.bucket.object = none := by
  have hempty : EmptyIfAborted s.session s.bucket := by
    refine hs.invariant (fun s => EmptyIfAborted s.session s.bucket) ?_
      fun s a t _ hs _ hstep => empties_of_step hs hstep
    rintro s rfl
    exact EmptyIfAborted.of_empty rfl
  exact hempty upload hupload haborted

end UploadRuns

end Api
end MediaPlayer
