import MediaPlayer.Api.SlotRuns
import MediaPlayer.Api.UploadParts
import MediaPlayer.Api.UploadRuns

/-!
# The bytes of an upload

What the store has under the key of a session when browsers put slices of one file into it:
whoever completes, merges, discards or cleans meanwhile, and however the calls end.

* `Bucket.HoldsFile` — every part is its slice, and the object is a beginning of the file.
* `KeepsFile` — a span keeps that, and commits only rows of the file (`RowFor`).
* `holdsFile_of_reachable` — it holds in every run.
-/

namespace MediaPlayer
namespace Services

open Library Models Schemas Api

/-- The slice of the file that is part `n`. -/
def partSlice (file : List UInt8) (n : ℤ) : List UInt8 :=
  piece file (cut partSize.toNat file.length (n.toNat - 1))

/-- The parts are slices of the file, and the object is the file as far as it goes. -/
structure Bucket.HoldsFile (file : List UInt8) (bucket : Bucket) : Prop where
  parts : ∀ uploadId parts, bucket.uploads.lookup uploadId = some parts →
    ∀ part ∈ parts, part.data = partSlice file part.n
  object : ∀ bytes, bucket.object = some bytes → bytes <+: file

namespace Bucket

variable {file : List UInt8} {bucket after : Bucket}

/-- A store with nothing in it. -/
theorem holdsFile_empty (file : List UInt8) : HoldsFile file {} :=
  ⟨fun _ _ hparts => absurd hparts (by simp), fun _ hobject => absurd hobject (by simp)⟩

/-- Opening, replacing or adding parts that are slices. -/
theorem HoldsFile.insert (hholds : bucket.HoldsFile file) (uploadId : String)
    {stored : List StoredPart} (hstored : ∀ part ∈ stored, part.data = partSlice file part.n) :
    HoldsFile file { bucket with uploads := bucket.uploads.insert uploadId stored } :=
  ⟨Parties.forall_insert (fun other parts _ hparts => hholds.parts other parts hparts) hstored,
    hholds.object⟩

theorem HoldsFile.erase (hholds : bucket.HoldsFile file) (uploadId : String) :
    HoldsFile file { bucket with uploads := bucket.uploads.erase uploadId } := by
  refine ⟨fun other parts hparts => ?_, hholds.object⟩
  have hother : other ≠ uploadId := by
    rintro rfl
    exact absurd ((AList.lookup_erase other bucket.uploads).symm.trans hparts) (by simp)
  exact hholds.parts other parts ((AList.lookup_erase_ne hother).symm.trans hparts)

theorem HoldsFile.uploadPart (hholds : bucket.HoldsFile file) (uploadId : String)
    {part : StoredPart} (hpart : part.data = partSlice file part.n) :
    (bucket.uploadPart uploadId part).HoldsFile file := by
  unfold Bucket.uploadPart
  split
  · exact hholds
  · rename_i parts hparts
    refine hholds.insert uploadId fun other hother => ?_
    obtain rfl | hother := List.mem_cons.mp hother
    · exact hpart
    · exact hholds.parts uploadId parts hparts other (List.mem_of_mem_filter hother)

/-- Parts named by a manifest, one after the other. -/
theorem flatMap_data_of_mapM {parts merged : List StoredPart} {manifest : List UploadedPart}
    (hslices : ∀ part ∈ parts, part.data = partSlice file part.n)
    (hmerged : manifest.mapM (partFor parts) = some merged) :
    merged.flatMap (·.data) = (manifest.map (·.n)).flatMap (partSlice file) := by
  induction manifest generalizing merged with
  | nil =>
      obtain rfl : [] = merged := by simpa using hmerged
      rfl
  | cons named manifest ih =>
      rw [List.mapM_cons] at hmerged
      obtain ⟨part, hpart, hrest⟩ := Option.bind_eq_some_iff.mp hmerged
      obtain ⟨others, hothers, hcons⟩ := Option.bind_eq_some_iff.mp hrest
      obtain rfl := Option.some.inj hcons
      have hfound := List.find?_some hpart
      have hnumber : part.n = named.n := (of_decide_eq_true hfound).1
      rw [List.flatMap_cons, List.map_cons, List.flatMap_cons, ih hothers,
        hslices part (List.mem_of_find?_eq_some hpart), hnumber]

theorem exists_mapM {parts : List StoredPart} {manifest : List UploadedPart}
    (hfound : ∀ named ∈ manifest, (partFor parts named).isSome) :
    ∃ merged, manifest.mapM (partFor parts) = some merged := by
  induction manifest with
  | nil => exact ⟨[], rfl⟩
  | cons named manifest ih =>
      obtain ⟨part, hpart⟩ := Option.isSome_iff_exists.mp (hfound named List.mem_cons_self)
      obtain ⟨others, hothers⟩ := ih fun other hother => hfound other (List.mem_cons_of_mem _ hother)
      refine ⟨part :: others, ?_⟩
      rw [List.mapM_cons, hpart, hothers]
      rfl

/-- Parts that count up from one are a beginning of the file. -/
theorem flatMap_partSlice (file : List UInt8) (count : ℕ) :
    (partNumbersUpTo count).flatMap (partSlice file) = file.take (count * partSize.toNat) := by
  have hslices : (partNumbersUpTo count).flatMap (partSlice file) =
      (List.range count).flatMap fun i => piece file (cut partSize.toNat file.length i) := by
    rw [partNumbersUpTo_eq, List.flatMap_map]
    refine congrArg (List.flatMap · (List.range count)) (funext fun i => ?_)
    unfold partSlice
    rw [show ((i : ℤ) + 1).toNat - 1 = i by omega]
  rw [hslices, flatMap_piece_cut]

/-- What is merged is a beginning of the file. -/
theorem HoldsFile.complete (hholds : bucket.HoldsFile file) {uploadId : String}
    {manifest : List UploadedPart}
    (hmanifest : manifest.map (·.n) = partNumbersUpTo manifest.length)
    (hcomplete : bucket.completeMultipartUpload uploadId manifest = .ok ((), after)) :
    after.HoldsFile file := by
  unfold completeMultipartUpload at hcomplete
  split at hcomplete
  · cases hcomplete
  · rename_i parts hparts
    split at hcomplete
    · cases hcomplete
    · rename_i merged hmerged
      obtain ⟨-, rfl⟩ := Prod.mk.inj (Except.ok.inj hcomplete)
      refine ⟨(hholds.erase uploadId).parts, fun bytes hbytes => ?_⟩
      obtain rfl := Option.some.inj hbytes
      rw [flatMap_data_of_mapM (hholds.parts uploadId parts hparts) hmerged, hmanifest,
        flatMap_partSlice]
      exact List.take_prefix _ _

end Bucket

end Services

namespace Api

open Library Models Repositories Schemas Services

/-- A row of a session that was started for the file. -/
structure RowFor (file : List UInt8) (upload : UploadSession) : Prop where
  size : upload.size = file.length
  partSize : upload.partSize = Schemas.partSize
  manifest : ∀ manifest, upload.manifest = some manifest →
    manifest.map (·.n) = partNumbersUpTo manifest.length

/-- The store keeps holding the file, however the program ends. -/
def KeepsStore {α : Type} (file : List UInt8) (x : Span α) : Prop :=
  Ensures (fun w => w.bucket.HoldsFile file) x (fun _ w => w.bucket.HoldsFile file)
    fun _ w => w.bucket.HoldsFile file

namespace KeepsStore

variable {α β : Type} {file : List UInt8}

theorem pure (a : α) : KeepsStore file (Pure.pure a) := Ensures.pure a fun _ hw => hw

theorem throw (e : RequestError) : KeepsStore file (MonadExcept.throw e : Span α) :=
  Ensures.throw e fun _ hw => hw

theorem bind {x : Span β} {f : β → Span α} (hx : KeepsStore file x)
    (hf : ∀ b, KeepsStore file (f b)) : KeepsStore file (x >>= f) :=
  Ensures.bind hx hf

theorem tryCatch {x : Span α} {handler : RequestError → Span α} (hx : KeepsStore file x)
    (hhandler : ∀ e, KeepsStore file (handler e)) :
    KeepsStore file (MonadExcept.tryCatch x handler) :=
  Ensures.tryCatch hx hhandler

/-- A call that leaves the bucket alone. -/
theorem read {operation : StorageCall} {perform : Bucket → Except String (α × Bucket)}
    (hperform : ∀ bucket a after, perform bucket = .ok (a, after) → after = bucket) :
    KeepsStore file (call operation perform) :=
  call_keeps fun bucket a after hok hholds => by rwa [hperform bucket a after hok]

/-! ## The calls -/

theorem initiate (drawn : String) : KeepsStore file (MultipartStorage.initiate drawn) := by
  refine call_keeps fun bucket a after hok hholds => ?_
  obtain ⟨-, rfl⟩ := Prod.mk.inj (Except.ok.inj hok)
  exact hholds.insert drawn fun part hpart => absurd hpart List.not_mem_nil

theorem parts (upload : UploadSession) : KeepsStore file (MultipartStorage.parts upload) := by
  refine read fun bucket a after hok => ?_
  unfold Bucket.listParts at hok
  split at hok
  · cases hok
  · exact (Prod.mk.inj (Except.ok.inj hok)).2.symm

theorem head : KeepsStore file MultipartStorage.head := by
  have hcall : KeepsStore file (call .headObject Bucket.headObject) := by
    refine read fun bucket a after hok => ?_
    unfold Bucket.headObject at hok
    split at hok
    · cases hok
    · exact (Prod.mk.inj (Except.ok.inj hok)).2.symm
  unfold MultipartStorage.head
  refine tryCatch ?_ fun e => ?_
  · rw [map_eq_pure_bind]
    exact hcall.bind fun length => pure _
  · cases e with
    | clientError code =>
        exact Ensures.ite (fun _ => KeepsStore.pure _) fun _ => KeepsStore.throw _
    | http | notFound | connectionError => exact throw _

theorem sniff : KeepsStore file MultipartStorage.sniff := by
  refine read fun bucket a after hok => ?_
  unfold Bucket.getObject at hok
  split at hok
  · cases hok
  · cases hok
  · exact (Prod.mk.inj (Except.ok.inj hok)).2.symm

theorem complete {upload : UploadSession} (hrow : RowFor file upload) :
    KeepsStore file (MultipartStorage.complete upload) := by
  have hmanifest : (upload.manifest.getD []).map (·.n) =
      partNumbersUpTo (upload.manifest.getD []).length := by
    cases hstored : upload.manifest with
    | none => rfl
    | some manifest => exact hrow.manifest manifest hstored
  exact call_keeps fun bucket a after hok hholds => hholds.complete hmanifest hok

theorem abort (upload : UploadSession) : KeepsStore file (MultipartStorage.abort upload) := by
  have habort : KeepsStore file (call .abortMultipartUpload
      (Bucket.abortMultipartUpload (upload.storageId.getD ""))) := by
    refine call_keeps fun bucket a after hok hholds => ?_
    unfold Bucket.abortMultipartUpload at hok
    split at hok
    · cases hok
    · obtain ⟨-, rfl⟩ := Prod.mk.inj (Except.ok.inj hok)
      exact hholds.erase _
  have hdelete : KeepsStore file (call .deleteObject Bucket.deleteObject) := by
    refine call_keeps fun bucket a after hok hholds => ?_
    obtain ⟨-, rfl⟩ := Prod.mk.inj (Except.ok.inj hok)
    exact ⟨hholds.parts, fun _ hobject => absurd hobject (by simp)⟩
  unfold MultipartStorage.abort
  split
  · refine bind (habort.tryCatch fun e => ?_) fun _ => hdelete
    cases e with
    | clientError code =>
        exact Ensures.ite (fun _ => KeepsStore.pure _) fun _ => KeepsStore.throw _
    | http | notFound | connectionError => exact throw _
  · exact hdelete

/-- The queue is not the store. -/
theorem enqueueJob (jobId : UUID) : KeepsStore file (enqueueJob jobId) := by
  intro w hw
  have hnext : w.next.2.bucket.HoldsFile file := by rwa [Outside.next_bucket]
  unfold Services.enqueueJob
  dsimp only
  cases w.next.1 with
  | returned | raisedBefore | raisedAfter => exact hnext

end KeepsStore

/-! ## The spans -/

/-- The span keeps the store, and commits a row of the file at most. -/
structure KeepsFile {ρ : Type} (file : List UInt8) (span : Span (SpanEnd ρ)) : Prop where
  store : KeepsStore file span
  commits : Commits (RowFor file) span

namespace KeepsFile

variable {ρ α : Type} {file : List UInt8} {span : Span (SpanEnd ρ)} {c : Circumstances}
  {upload : UploadSession} {row : Option UploadSession}

theorem throw (e : RequestError) : KeepsFile file (MonadExcept.throw e : Span (SpanEnd ρ)) :=
  ⟨KeepsStore.throw e, Commits.throw e⟩

theorem rollback (next : ρ) : KeepsFile file (Pure.pure (.rollback next) : Span (SpanEnd ρ)) :=
  ⟨KeepsStore.pure _, Commits.rollback next⟩

theorem commit {job : Option (UUID × Job)} {next : ρ} (hrow : RowFor file upload) :
    KeepsFile file (Pure.pure (.commit upload job next) : Span (SpanEnd ρ)) :=
  ⟨KeepsStore.pure _, Commits.commit hrow⟩

theorem bind {x : Span α} {f : α → Span (SpanEnd ρ)} (hx : KeepsStore file x)
    (hf : ∀ a, KeepsFile file (f a)) : KeepsFile file (x >>= f) :=
  ⟨hx.bind fun a => (hf a).store, Commits.bind x fun a => (hf a).commits⟩

theorem owned_bind {ownerId : UUID} {f : UploadSession → Span (SpanEnd ρ)}
    (hrow : ∀ upload, row = some upload → RowFor file upload)
    (hf : ∀ upload, RowFor file upload → KeepsFile file (f upload)) :
    KeepsFile file (owned c row ownerId >>= f) := by
  unfold owned
  cases hfound : getUpload c.accountExists row ownerId with
  | none => exact throw _
  | some upload => exact hf upload (hrow upload (getUpload_some hfound).1)

theorem active_bind (hspan : KeepsFile file span) :
    KeepsFile file (active c upload >>= fun _ => span) := by
  unfold active
  split
  · exact throw _
  · split
    · exact throw _
    · exact hspan

end KeepsFile

section Spans

variable {file : List UInt8} {c : Circumstances} {user : UUID} {upload : UploadSession}
  {row : Option UploadSession}

theorem validateParts_keepsStore (actual : List StoredPart) :
    KeepsStore file (validateParts upload actual) := by
  unfold validateParts
  split
  · exact KeepsStore.throw _
  · split
    · exact KeepsStore.pure _
    · exact KeepsStore.throw _

theorem startStorage_keepsFile (hrow : RowFor file upload) :
    KeepsFile file (startStorage c upload) :=
  KeepsFile.bind (.initiate c.drawn) fun _ =>
    KeepsFile.commit ⟨hrow.size, hrow.partSize, hrow.manifest⟩

theorem signParts_keepsFile (request : SignParts) :
    KeepsFile file (signParts c upload request) := by
  refine KeepsFile.active_bind ?_
  split
  · exact KeepsFile.throw _
  · split
    · exact KeepsFile.throw _
    · exact KeepsFile.rollback _

theorem resume_keepsFile : KeepsFile file (resume c upload) := by
  have hparts : KeepsStore file (partsDone c upload) := by
    unfold partsDone
    split
    · refine KeepsStore.bind ?_ fun _ => ?_
      · unfold active
        split
        · exact KeepsStore.throw _
        · split
          · exact KeepsStore.throw _
          · exact KeepsStore.pure _
      · dsimp only
        split
        · exact KeepsStore.bind (.parts upload) fun _ => KeepsStore.pure _
        · exact KeepsStore.pure _
    · exact KeepsStore.pure _
  exact KeepsFile.bind hparts fun _ => KeepsFile.rollback _

theorem discard_keepsFile (hrow : RowFor file upload) (response : Response) :
    KeepsFile file (Pure.pure (discard upload response)) :=
  KeepsFile.commit ⟨hrow.size, hrow.partSize, hrow.manifest⟩

theorem discardStorage_keepsFile (hrow : RowFor file upload) (response : Response) :
    KeepsFile file (discardStorage upload response) :=
  KeepsFile.bind (.abort upload) fun _ =>
    KeepsFile.commit ⟨hrow.size, hrow.partSize, hrow.manifest⟩

theorem completeReady_keepsFile (hrow : RowFor file upload) :
    KeepsFile file (completeReady upload) := by
  unfold completeReady
  split
  · exact KeepsFile.bind (.enqueueJob upload.jobId) fun _ =>
      KeepsFile.commit ⟨hrow.size, hrow.partSize, hrow.manifest⟩
  · split
    · exact KeepsFile.throw _
    · exact KeepsFile.rollback _

theorem completeMerging_keepsFile (hrow : RowFor file upload) (manifest : List UploadedPart) :
    KeepsFile file (completeMerging c user upload manifest) := by
  unfold completeMerging
  split
  · split
    · exact KeepsFile.throw _
    · refine KeepsFile.bind .head fun first => KeepsFile.bind ?_ fun head => ?_
      · cases first with
        | none => exact KeepsStore.bind (.complete hrow) fun _ => .head
        | some contentLength => exact KeepsStore.pure _
      · cases head with
        | none => exact KeepsFile.throw _
        | some contentLength =>
            dsimp only
            split
            · exact discard_keepsFile hrow _
            · refine KeepsFile.bind .sniff fun bytes => ?_
              split
              · exact discard_keepsFile hrow _
              · exact KeepsFile.commit ⟨hrow.size, hrow.partSize, hrow.manifest⟩
  · exact completeReady_keepsFile hrow

/-- The manifest that is frozen has passed the schema. -/
theorem complete_keepsFile (hrow : RowFor file upload) (request : CompleteUpload) :
    KeepsFile file (complete c user upload request) := by
  unfold complete
  cases upload.state with
  | completed => exact KeepsFile.rollback _
  | aborting | aborted => exact KeepsFile.throw _
  | completing | ready => exact completeMerging_keepsFile hrow _
  | «open» =>
      refine KeepsFile.active_bind ?_
      unfold freeze
      split
      · exact KeepsFile.throw _
      · refine KeepsFile.bind (.parts _) fun actual =>
          KeepsFile.bind (validateParts_keepsStore actual) fun _ =>
            KeepsFile.commit ⟨hrow.size, hrow.partSize, fun manifest hmanifest => ?_⟩
        obtain rfl := Option.some.inj hmanifest
        exact request.manifest_numbers

theorem abort_keepsFile (hrow : RowFor file upload) : KeepsFile file (abort upload) := by
  unfold abort
  cases upload.state with
  | ready | completed | completing => exact KeepsFile.throw _
  | aborted => exact KeepsFile.rollback _
  | «open» | aborting => exact discard_keepsFile hrow _

theorem begin_keepsFile (maxUploadBytes : ℤ) {request : ApiCall}
    (hrow : ∀ upload, row = some upload → RowFor file upload)
    (hdeclared : ∀ jobId start, request = .start jobId start → start.size = file.length) :
    KeepsFile file (begin maxUploadBytes c row user request) := by
  cases request with
  | start jobId request =>
      simp only [begin, start]
      split
      · exact KeepsFile.throw _
      · split
        · exact KeepsFile.throw _
        · exact KeepsFile.throw _
        · exact KeepsFile.commit ⟨hdeclared jobId request rfl, rfl,
            fun manifest hmanifest => absurd hmanifest (Option.some_ne_none manifest).symm⟩
  | signParts request => exact .owned_bind hrow fun upload _ => signParts_keepsFile request
  | complete request => exact .owned_bind hrow fun upload hrow => complete_keepsFile hrow request
  | resume => exact .owned_bind hrow fun upload _ => resume_keepsFile
  | abort => exact .owned_bind hrow fun upload hrow => abort_keepsFile hrow

theorem proceed_keepsFile {phase : RequestPhase} {span : RequestSpan}
    (hrow : ∀ upload, row = some upload → RowFor file upload)
    (hspan : proceed c row phase = some span) : KeepsFile file span := by
  cases phase with
  | starting user =>
      obtain rfl := Option.some.inj hspan
      exact .owned_bind hrow fun upload hrow => startStorage_keepsFile hrow
  | frozen user manifest =>
      obtain rfl := Option.some.inj hspan
      exact .owned_bind hrow fun upload hrow => completeMerging_keepsFile hrow manifest
  | created user =>
      obtain rfl := Option.some.inj hspan
      exact .owned_bind hrow fun upload hrow => completeReady_keepsFile hrow
  | discarding ownerId response =>
      obtain rfl := Option.some.inj hspan
      exact .owned_bind hrow fun upload hrow => discardStorage_keepsFile hrow response
  | answered response => cases hspan

theorem cleanOne_keepsFile (accountExists : Bool) (ownerId : UUID)
    (hrow : ∀ upload, row = some upload → RowFor file upload) :
    KeepsFile file (cleanOne accountExists row ownerId) := by
  unfold cleanOne
  split
  · exact KeepsFile.rollback _
  · rename_i upload hfound
    have hupload := hrow upload (getUpload_some hfound).1
    split
    · exact KeepsFile.rollback _
    · exact KeepsFile.bind (.abort _) fun _ =>
        KeepsFile.commit ⟨hupload.size, hupload.partSize, hupload.manifest⟩

end Spans

/-! ## Runs -/

namespace UploadRuns

variable {maxUploadBytes : ℤ} {file : List UInt8} {s t : UploadRuns}

/-- A session is started for the size of the file, and what is put into the store are its
parts. -/
def FromFile (file : List UInt8) : UploadAction → Prop
  | .call _ _ (.start _ request) _ => request.size = file.length
  | .uploadPart _ part => part.data = partSlice file part.n
  | _ => True

/-- The row is the file's, and the store holds the file as far as it was sent. -/
structure HoldsFile (file : List UInt8) (s : UploadRuns) : Prop where
  row : ∀ upload, s.session = some upload → RowFor file upload
  store : s.bucket.HoldsFile file

theorem HoldsFile.runSpan {ρ : Type} {party : ℕ} {c : Circumstances} {span : Span (SpanEnd ρ)}
    {next : ρ → UploadParty} {raised : RequestError → UploadParty} (hs : HoldsFile file s)
    (hspan : KeepsFile file span) : HoldsFile file (s.runSpan party c span next raised) := by
  have hstore := hspan.store (s.outside c.outcomes) hs.store
  have hcommits := hspan.commits (s.outside c.outcomes) trivial
  unfold UploadRuns.runSpan
  cases hrun : span (s.outside c.outcomes) with
  | error e w =>
      rw [hrun] at hstore
      exact ⟨hs.row, hstore⟩
  | ok r w =>
      rw [hrun] at hstore hcommits
      cases r with
      | rollback phase => exact ⟨hs.row, hstore⟩
      | commit after job phase =>
          have hafter : ∀ upload, some after = some upload → RowFor file upload := by
            rintro upload hupload
            obtain rfl := Option.some.inj hupload
            exact hcommits
          cases c.commit with
          | returned | raisedAfter => exact ⟨hafter, hstore⟩
          | raisedBefore => exact ⟨hs.row, hstore⟩

theorem HoldsFile.step {a : UploadAction} (hs : HoldsFile file s) (ha : FromFile file a)
    (hstep : UploadRuns.step maxUploadBytes s a = some t) : HoldsFile file t := by
  cases a with
  | call party user request c =>
      simp only [UploadRuns.step] at hstep
      split at hstep
      · obtain rfl := Option.some.inj hstep
        refine hs.runSpan (begin_keepsFile maxUploadBytes hs.row ?_)
        rintro jobId start rfl
        exact ha
      · cases hstep
  | select party now =>
      simp only [UploadRuns.step] at hstep
      split at hstep
      · split at hstep
        · obtain rfl := Option.some.inj hstep
          exact ⟨hs.row, hs.store⟩
        · cases hstep
      · cases hstep
  | proceed party c =>
      simp only [UploadRuns.step] at hstep
      split at hstep
      · obtain ⟨span, hspan, rfl⟩ := Option.map_eq_some_iff.mp hstep
        exact hs.runSpan (proceed_keepsFile hs.row hspan)
      · obtain rfl := Option.some.inj hstep
        exact hs.runSpan (cleanOne_keepsFile _ _ hs.row)
      · cases hstep
      · cases hstep
  | uploadPart uploadId part =>
      obtain rfl := Option.some.inj hstep
      exact ⟨hs.row, hs.store.uploadPart uploadId ha⟩

/-- The object of a session that has its job is the whole file. -/
theorem HoldsFile.object_eq (hs : HoldsFile file s) (hconsistent : Consistent s)
    (hjobs : s.jobs ≠ []) : s.bucket.object = some file := by
  obtain ⟨upload, hupload, hsettled⟩ : s.Settled := by
    by_contra hopen
    exact hjobs (hconsistent.noJob hopen)
  obtain ⟨-, bytes, hobject, hlength, -⟩ := hconsistent.job upload hupload hsettled
  have hsize := (hs.row upload hupload).size
  have hwhole := (hs.store.object bytes hobject).eq_of_length (by omega)
  rw [hobject, hwhole]

end UploadRuns

end Api
end MediaPlayer
