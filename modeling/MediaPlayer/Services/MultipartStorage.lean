import MediaPlayer.Library.Parties
import MediaPlayer.Library.Raising
import MediaPlayer.Library.StepSystem
import MediaPlayer.Models.Upload
import MediaPlayer.Services.MediaType

/-!
# The multipart store

`MultipartStorage` of `app/services/multipart_storage.py` on the one key of an upload,
and `enqueue_job` of `app/queue.py`: what a request reaches across the network.

* `Bucket` — the object under the key and the open multipart uploads for it, with the
  documented behaviour of the S3 calls the service makes.
* `Outside` — the bucket and the queue, with the calls made so far and how the next ones
  end: a call may raise, whether or not it took effect.
* Every method has one lemma on what it leaves and what it tells its caller.
-/

namespace MediaPlayer
namespace Services

open Library Models

/-- A part as the store holds it. -/
structure StoredPart where
  n : ℤ
  etag : String
  data : List UInt8
  deriving DecidableEq

/-- The size `list_parts` tells. -/
def StoredPart.size (part : StoredPart) : ℤ := part.data.length

/-- What the store holds for one key. -/
structure Bucket where
  object : Option (List UInt8) := none
  uploads : Parties String (List StoredPart) := ∅

/-- The S3 calls of the service. -/
inductive StorageCall
  | createMultipartUpload
  | listParts
  | headObject
  | completeMultipartUpload
  | getObject
  | abortMultipartUpload
  | deleteObject
  deriving DecidableEq

/-- The calls that take something away. -/
def StorageCall.destructive : StorageCall → Bool
  | abortMultipartUpload | deleteObject => true
  | createMultipartUpload | listParts | headObject | completeMultipartUpload | getObject => false

namespace Bucket

/-- The part a manifest entry names. -/
def partFor (parts : List StoredPart) (part : UploadedPart) : Option StoredPart :=
  parts.find? fun stored => stored.n = part.n ∧ stored.etag = part.etag

def createMultipartUpload (drawn : String) (bucket : Bucket) : Except String (String × Bucket) :=
  .ok (drawn, { bucket with uploads := bucket.uploads.insert drawn [] })

def listParts (uploadId : String) (bucket : Bucket) : Except String (List StoredPart × Bucket) :=
  match bucket.uploads.lookup uploadId with
  | none => .error "NoSuchUpload"
  | some parts => .ok (parts, bucket)

def headObject (bucket : Bucket) : Except String (ℤ × Bucket) :=
  match bucket.object with
  | none => .error "404"
  | some bytes => .ok (bytes.length, bucket)

/-- The parts of the manifest, one after the other, become the object. -/
def completeMultipartUpload (uploadId : String) (manifest : List UploadedPart)
    (bucket : Bucket) : Except String (Unit × Bucket) :=
  match bucket.uploads.lookup uploadId with
  | none => .error "NoSuchUpload"
  | some parts =>
      match manifest.mapM (partFor parts) with
      | none => .error "InvalidPart"
      | some merged => .ok ((), { bucket with
          object := some (merged.flatMap (·.data))
          uploads := bucket.uploads.erase uploadId })

/-- A read of the first `length` bytes. -/
def getObject (length : ℕ) (bucket : Bucket) : Except String (List UInt8 × Bucket) :=
  match bucket.object with
  | none => .error "NoSuchKey"
  | some [] => .error "InvalidRange"
  | some bytes => .ok (bytes.take length, bucket)

def abortMultipartUpload (uploadId : String) (bucket : Bucket) : Except String (Unit × Bucket) :=
  match bucket.uploads.lookup uploadId with
  | none => .error "NoSuchUpload"
  | some _ => .ok ((), { bucket with uploads := bucket.uploads.erase uploadId })

def deleteObject (bucket : Bucket) : Except String (Unit × Bucket) :=
  .ok ((), { bucket with object := none })

/-- A browser's `PUT` of a part, which reaches the store directly. -/
def uploadPart (uploadId : String) (part : StoredPart) (bucket : Bucket) : Bucket :=
  match bucket.uploads.lookup uploadId with
  | none => bucket
  | some parts =>
      let others := parts.filter (·.n ≠ part.n)
      { bucket with uploads := bucket.uploads.insert uploadId (part :: others) }

theorem uploadPart_object (uploadId : String) (part : StoredPart) (bucket : Bucket) :
    (bucket.uploadPart uploadId part).object = bucket.object := by
  unfold uploadPart
  split <;> rfl

end Bucket

/-- What a handler raises. -/
inductive RequestError
  /-- `HTTPException`. -/
  | http (status : ℕ) (detail : String)
  /-- `ApiNotFoundError`. -/
  | notFound (message : String)
  /-- botocore's `ClientError`, by its code. -/
  | clientError (code : String)
  /-- Anything else, such as a lost connection. -/
  | connectionError
  deriving DecidableEq

/-- What a request reaches outside the database. -/
structure Outside where
  bucket : Bucket
  /-- The ids put on the queue. -/
  queue : List UUID
  /-- The storage calls made so far; nobody reads them. -/
  calls : List StorageCall
  /-- How the next calls end; once they have run out, calls return. -/
  outcomes : List CallOutcome

/-- A part of a handler between two commits, as far as it works outside the database. -/
abbrev Span := EStateM RequestError Outside

namespace Outside

/-- Take the outcome of the next call. -/
def next (w : Outside) : CallOutcome × Outside :=
  match w.outcomes with
  | [] => (.returned, w)
  | out :: outcomes => (out, { w with outcomes := outcomes })

@[simp] theorem next_bucket (w : Outside) : w.next.2.bucket = w.bucket := by
  unfold next
  split <;> rfl

@[simp] theorem next_calls (w : Outside) : w.next.2.calls = w.calls := by
  unfold next
  split <;> rfl

end Outside

variable {α : Type}

/-- `MultipartStorage.call`. -/
def call (operation : StorageCall) (perform : Bucket → Except String (α × Bucket)) : Span α :=
  fun w =>
    let (out, w) := w.next
    let w := { w with calls := w.calls ++ [operation] }
    match perform w.bucket with
    | .error code =>
        .error (out.next (.clientError code) .connectionError) w
    | .ok (a, bucket) =>
        let w := { w with bucket := out.effect (fun _ => bucket) w.bucket }
        out.next (.ok a w) (.error .connectionError w)

/-- `enqueue_job`. -/
def enqueueJob (jobId : UUID) : Span Unit :=
  fun w =>
    let (out, w) := w.next
    let w := { w with queue := out.effect (· ++ [jobId]) w.queue }
    out.next (.ok () w) (.error .connectionError w)

/-! ## What the calls leave -/

/-- The object is the same, and nothing that takes something away was called. -/
structure Undisturbed (before after : Outside) : Prop where
  object : after.bucket.object = before.bucket.object
  calls : after.calls.filter StorageCall.destructive =
    before.calls.filter StorageCall.destructive

theorem Undisturbed.refl (w : Outside) : Undisturbed w w := ⟨rfl, rfl⟩

/-- A call that returns has done to the bucket what it says. -/
theorem call_ensures {p : Outside → Prop} {q : α → Bucket → Prop} {operation : StorageCall}
    {perform : Bucket → Except String (α × Bucket)}
    (hperform : ∀ w a bucket, p w → perform w.bucket = .ok (a, bucket) → q a bucket) :
    Ensures p (call operation perform) (fun a w => q a w.bucket) fun _ _ => True := by
  intro w hw
  unfold call
  dsimp only
  rw [Outside.next_bucket]
  cases hresult : perform w.bucket with
  | error code => trivial
  | ok result =>
      obtain ⟨a, bucket⟩ := result
      dsimp only
      cases w.next.1 with
      | returned => exact hperform w a bucket hw hresult
      | raisedBefore => trivial
      | raisedAfter => trivial

/-- What a call would keep it keeps, however it ends. -/
theorem call_keeps {P : Bucket → Prop} {operation : StorageCall}
    {perform : Bucket → Except String (α × Bucket)}
    (hperform : ∀ bucket a after, perform bucket = .ok (a, after) → P bucket → P after) :
    Ensures (fun w => P w.bucket) (call operation perform) (fun _ w => P w.bucket)
      fun _ w => P w.bucket := by
  intro w hw
  unfold call
  dsimp only
  rw [Outside.next_bucket]
  cases hresult : perform w.bucket with
  | error code => exact hw
  | ok result =>
      have hafter : P result.2 := hperform _ _ _ hresult hw
      cases hout : w.next.1 with
      | returned | raisedAfter => exact hafter
      | raisedBefore => exact hw

/-- A call that takes nothing away and keeps the object disturbs nothing, however it
ends. -/
theorem call_undisturbed {w₀ : Outside} {operation : StorageCall}
    {perform : Bucket → Except String (α × Bucket)} (hoperation : operation.destructive = false)
    (hperform : ∀ bucket a after, perform bucket = .ok (a, after) → after.object = bucket.object) :
    Ensures (Undisturbed w₀) (call operation perform) (fun _ => Undisturbed w₀)
      fun _ => Undisturbed w₀ := by
  intro w hw
  have hcalls : (w.next.2.calls ++ [operation]).filter StorageCall.destructive =
      w₀.calls.filter StorageCall.destructive := by
    rw [Outside.next_calls, List.filter_append]
    simpa [hoperation] using hw.calls
  unfold call
  dsimp only
  rw [Outside.next_bucket]
  cases hresult : perform w.bucket with
  | error code => exact ⟨by simpa using hw.object, hcalls⟩
  | ok result =>
      obtain ⟨a, bucket⟩ := result
      have hobject : (w.next.1.effect (fun _ => bucket) w.bucket).object =
          w₀.bucket.object := by
        refine CallOutcome.effect_of (p := fun b : Bucket => b.object = w₀.bucket.object)
          hw.object ?_ _
        exact (hperform _ _ _ hresult).trans hw.object
      dsimp only
      cases hout : w.next.1 with
      | returned => exact ⟨by simpa [hout] using hobject, hcalls⟩
      | raisedBefore => exact ⟨by simpa [hout] using hobject, hcalls⟩
      | raisedAfter => exact ⟨by simpa [hout] using hobject, hcalls⟩

/-- The queue is not the store. -/
theorem enqueueJob_undisturbed {w₀ : Outside} (jobId : UUID) :
    Ensures (Undisturbed w₀) (enqueueJob jobId) (fun _ => Undisturbed w₀)
      fun _ => Undisturbed w₀ := by
  intro w hw
  have hnext : Undisturbed w₀ w.next.2 :=
    ⟨by simpa using hw.object, by simpa using hw.calls⟩
  unfold enqueueJob
  dsimp only
  cases w.next.1 with
  | returned => exact ⟨hnext.object, hnext.calls⟩
  | raisedBefore => exact ⟨hnext.object, hnext.calls⟩
  | raisedAfter => exact ⟨hnext.object, hnext.calls⟩

namespace MultipartStorage

/-- `initiate`; `drawn` is the id the store gives the new upload. -/
def initiate (drawn : String) : Span String :=
  call .createMultipartUpload (Bucket.createMultipartUpload drawn)

/-- `parts`. -/
def parts (upload : UploadSession) : Span (List StoredPart) :=
  call .listParts (Bucket.listParts (upload.storageId.getD ""))

/-- `head`: the `ContentLength`, or `none` if there is no object. -/
def head : Span (Option ℤ) :=
  tryCatch (some <$> call .headObject Bucket.headObject) fun
    | .clientError code =>
        if code ∈ ["404", "NoSuchKey", "NotFound"] then pure none else throw (.clientError code)
    | e => throw e

/-- `complete`. -/
def complete (upload : UploadSession) : Span Unit :=
  call .completeMultipartUpload
    (Bucket.completeMultipartUpload (upload.storageId.getD "") (upload.manifest.getD []))

/-- `sniff`. -/
def sniff : Span (List UInt8) := call .getObject (Bucket.getObject sniffLength)

/-- `abort`. -/
def abort (upload : UploadSession) : Span Unit := do
  if upload.initialized then
    tryCatch
      (call .abortMultipartUpload (Bucket.abortMultipartUpload (upload.storageId.getD "")))
      fun
      | .clientError code =>
          if code = "NoSuchUpload" then pure () else throw (.clientError code)
      | e => throw e
  -- Also removes a merged object when complete crashed before creating a job.
  call .deleteObject Bucket.deleteObject

/-- What `sign` puts into a URL. -/
structure PresignedPart where
  key : String
  uploadId : String
  partNumber : ℤ
  expiresIn : ℤ
  deriving DecidableEq

/-- `sign`. -/
def sign (upload : UploadSession) (numbers : List ℤ) (expires : ℤ) : List PresignedPart :=
  numbers.map fun n => ⟨upload.sourceKey, upload.storageId.getD "", n, expires⟩

theorem initiate_undisturbed {w₀ : Outside} (drawn : String) :
    Ensures (Undisturbed w₀) (initiate drawn) (fun _ => Undisturbed w₀)
      fun _ => Undisturbed w₀ := by
  refine call_undisturbed rfl ?_
  rintro bucket a after hcreate
  obtain ⟨rfl, rfl⟩ := Prod.mk.inj (Except.ok.inj hcreate)
  rfl

/-- A length told is the object's. -/
def Measured (length : Option ℤ) (w : Outside) : Prop :=
  ∀ contentLength, length = some contentLength →
    ∃ bytes, w.bucket.object = some bytes ∧ (bytes.length : ℤ) = contentLength

/-- `head` tells the object's length. -/
theorem head_ensures {p : Outside → Prop} : Ensures p head Measured fun _ _ => True := by
  have hcall : Ensures p (call .headObject Bucket.headObject)
      (fun contentLength w =>
        ∃ bytes, w.bucket.object = some bytes ∧ (bytes.length : ℤ) = contentLength)
      fun _ _ => True := by
    refine call_ensures (q := fun contentLength bucket =>
      ∃ bytes, bucket.object = some bytes ∧ (bytes.length : ℤ) = contentLength) ?_
    intro w contentLength bucket _ hhead
    unfold Bucket.headObject at hhead
    cases hobject : w.bucket.object with
    | none => simp [hobject] at hhead
    | some bytes =>
        simp only [hobject] at hhead
        obtain ⟨rfl, rfl⟩ := Prod.mk.inj (Except.ok.inj hhead)
        exact ⟨bytes, hobject, rfl⟩
  have htold : Ensures p (some <$> call .headObject Bucket.headObject) Measured
      fun _ _ => True := by
    rw [map_eq_pure_bind]
    refine hcall.bind fun length => Ensures.pure _ ?_
    intro w hw contentLength hsome
    obtain rfl := Option.some.inj hsome
    exact hw
  refine htold.tryCatch fun e => ?_
  cases e with
  | clientError code =>
      apply Ensures.ite
      · exact fun _ => Ensures.pure _ fun w _ contentLength hsome => by simp at hsome
      · exact fun _ => Ensures.throw _ fun _ _ => trivial
  | _ => exact Ensures.throw _ fun _ _ => trivial

/-- `sniff` reads the beginning of the object. -/
theorem sniff_ensures {q : List UInt8 → Prop} :
    Ensures (fun w => ∃ bytes, w.bucket.object = some bytes ∧ q bytes) sniff
      (fun head w => ∃ bytes, w.bucket.object = some bytes ∧ q bytes ∧
        head = bytes.take sniffLength) fun _ _ => True := by
  refine call_ensures (q := fun head bucket =>
    ∃ bytes, bucket.object = some bytes ∧ q bytes ∧ head = bytes.take sniffLength) ?_
  rintro w head bucket ⟨bytes, hobject, hq⟩ hget
  unfold Bucket.getObject at hget
  rw [hobject] at hget
  cases bytes with
  | nil => simp at hget
  | cons b rest =>
      obtain ⟨rfl, rfl⟩ := Prod.mk.inj (Except.ok.inj hget)
      exact ⟨b :: rest, hobject, hq, rfl⟩

end MultipartStorage

end Services
end MediaPlayer
