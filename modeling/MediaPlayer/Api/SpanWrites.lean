import MediaPlayer.Api.MultipartUploads
import MediaPlayer.Services.UploadCleanup

/-!
# What a span writes

The rows a span of an upload's endpoints may commit over the one it read, one constructor for
each.  Only the spans that abort the parts go further: they write `aborted`.

* `SpanWrite` — the rows, each with the job that is created.
* `complete_writes`, `abort_writes`, ... — one lemma for each span.
-/

namespace MediaPlayer
namespace Api

open Library Models Repositories Schemas Services

/-- A row that is committed over `upload`, and the job that is created with it. -/
inductive SpanWrite (upload : UploadSession) : UploadSession → Option (UUID × Job) → Prop
  | started (storageId : String) :
      SpanWrite upload { upload with storageId := some storageId } none
  | frozen (manifest : List UploadedPart) (hopen : upload.state = .open) :
      SpanWrite upload { upload with manifest := some manifest, state := .completing } none
  | created (now : Timestamp) (hcompleting : upload.state = .completing) :
      SpanWrite upload { upload with state := .ready } (some (upload.jobId, uploadJob upload now))
  | completed (hready : upload.state = .ready) :
      SpanWrite upload { upload with state := .completed } none
  | discarded (hheld : upload.state ∈ reservedStates) :
      SpanWrite upload { upload with state := .aborting } none

/-- Every commit the span may end with meets `P`. -/
def WritesOnly {ρ : Type} (P : UploadSession → Option (UUID × Job) → Prop)
    (span : Span (SpanEnd ρ)) : Prop :=
  Ensures (fun _ => True) span
    (fun r _ => ∀ after job next, r = .commit after job next → P after job) fun _ _ => True

namespace WritesOnly

variable {ρ : Type} {P Q : UploadSession → Option (UUID × Job) → Prop} {span : Span (SpanEnd ρ)}

theorem throw (e : RequestError) : WritesOnly P (MonadExcept.throw e : Span (SpanEnd ρ)) :=
  Ensures.throw e fun _ _ => trivial

theorem rollback (next : ρ) : WritesOnly P (Pure.pure (.rollback next)) :=
  Ensures.pure _ fun _ _ after job next hcommit => by simp at hcommit

theorem commit {after : UploadSession} {job : Option (UUID × Job)} {next : ρ}
    (hP : P after job) : WritesOnly P (Pure.pure (.commit after job next)) := by
  refine Ensures.pure _ fun _ _ other created next hcommit => ?_
  simp only [SpanEnd.commit.injEq] at hcommit
  obtain ⟨rfl, rfl, -⟩ := hcommit
  exact hP

/-- Whatever the calls before come to. -/
theorem bind {α : Type} {x : Span α} {f : α → Span (SpanEnd ρ)}
    (hf : ∀ a, WritesOnly P (f a)) : WritesOnly P (x >>= f) :=
  (Ensures.any x).bind hf

theorem mono (hspan : WritesOnly P span) (hPQ : ∀ after job, P after job → Q after job) :
    WritesOnly Q span :=
  hspan.conseq (fun _ h => h) (fun _ _ hr after job next hcommit =>
    hPQ after job (hr after job next hcommit)) fun _ _ h => h

end WritesOnly

section Spans

variable (c : Circumstances) (user : UUID) (upload : UploadSession)

theorem startStorage_writes : WritesOnly (SpanWrite upload) (startStorage c upload) :=
  WritesOnly.bind fun storageId => WritesOnly.commit (.started storageId)

theorem signParts_writes (request : SignParts) :
    WritesOnly (SpanWrite upload) (signParts c upload request) := by
  refine WritesOnly.bind fun _ => ?_
  split
  · exact WritesOnly.throw _
  · split
    · exact WritesOnly.throw _
    · exact WritesOnly.rollback _

theorem resume_writes : WritesOnly (SpanWrite upload) (resume c upload) :=
  WritesOnly.bind fun _ => WritesOnly.rollback _

theorem completeReady_writes : WritesOnly (SpanWrite upload) (completeReady upload) := by
  unfold completeReady
  split
  · rename_i hready
    exact WritesOnly.bind fun _ => WritesOnly.commit (.completed hready)
  · split
    · exact WritesOnly.throw _
    · exact WritesOnly.rollback _

theorem discard_writes (hheld : upload.state ∈ reservedStates) (response : Response) :
    WritesOnly (SpanWrite upload) (Pure.pure (discard upload response)) :=
  WritesOnly.commit (.discarded hheld)

theorem completeMerging_writes (manifest : List UploadedPart) :
    WritesOnly (SpanWrite upload) (completeMerging c user upload manifest) := by
  unfold completeMerging
  split
  · rename_i hcompleting
    have hheld : upload.state ∈ reservedStates := by
      rw [hcompleting]
      decide
    split
    · exact WritesOnly.throw _
    · refine WritesOnly.bind fun first => WritesOnly.bind fun head => ?_
      cases head with
      | none => exact WritesOnly.throw _
      | some contentLength =>
          dsimp only
          split
          · exact discard_writes upload hheld _
          · refine WritesOnly.bind fun bytes => ?_
            split
            · exact discard_writes upload hheld _
            · exact WritesOnly.commit (.created c.now hcompleting)
  · exact completeReady_writes upload

theorem freeze_writes (hopen : upload.state = .open) (manifest : List UploadedPart) :
    WritesOnly (SpanWrite upload) (freeze user upload manifest) := by
  unfold freeze
  split
  · exact WritesOnly.throw _
  · exact WritesOnly.bind fun _ => WritesOnly.bind fun _ =>
      WritesOnly.commit (.frozen manifest hopen)

theorem complete_writes (request : CompleteUpload) :
    WritesOnly (SpanWrite upload) (complete c user upload request) := by
  unfold complete
  cases hstate : upload.state with
  | completed => exact WritesOnly.rollback _
  | aborting | aborted => exact WritesOnly.throw _
  | «open» => exact WritesOnly.bind fun _ => freeze_writes user upload hstate request.manifest
  | completing | ready => exact completeMerging_writes c user upload request.manifest

theorem abort_writes : WritesOnly (SpanWrite upload) (abort upload) := by
  unfold abort
  cases hstate : upload.state with
  | ready | completed | completing => exact WritesOnly.throw _
  | aborted => exact WritesOnly.rollback _
  | «open» | aborting =>
      refine discard_writes upload ?_ _
      rw [hstate]
      decide

end Spans

end Api
end MediaPlayer
