import Mathlib.Data.List.Sort
import MediaPlayer.Models.Upload

/-!
# Requests of the direct uploads

The request bodies of `app/schemas/upload.py`, as the structures validation leaves:
a body that breaks a rule never reaches its handler.
-/

namespace MediaPlayer
namespace Schemas

open Models

/-- `PART_SIZE`. -/
def partSize : ℤ := 16 * 1024 * 1024

/-- `MAX_PARTS`. -/
def maxParts : ℤ := 10000

/-- `StartUpload`. -/
structure StartUpload where
  filename : String
  size : ℤ
  maxFps : ℤ := 30
  filenameLength : 1 ≤ filename.length ∧ filename.length ≤ 255
  sizeBounds : 0 < size ∧ size ≤ partSize * maxParts
  maxFpsLiteral : maxFps = 30 ∨ maxFps = 60

/-- The default of `max_fps` is one of its literals. -/
theorem defaultMaxFps_literal : (30 : ℤ) = 30 ∨ (30 : ℤ) = 60 := .inl rfl

/-- `PartNumber`. -/
def PartNumber (n : ℤ) : Prop := 1 ≤ n ∧ n ≤ maxParts

instance (n : ℤ) : Decidable (PartNumber n) :=
  inferInstanceAs (Decidable (1 ≤ n ∧ n ≤ maxParts))

/-- `SignParts`. -/
structure SignParts where
  partNumbers : List ℤ
  valid : ∀ n ∈ partNumbers, PartNumber n
  length : 1 ≤ partNumbers.length ∧ partNumbers.length ≤ 100
  unique : partNumbers.Nodup

/-- `sorted(parts, key=lambda part: part.n)`. -/
def sortedParts (parts : List UploadedPart) : List UploadedPart :=
  parts.insertionSort fun a b => a.n ≤ b.n

/-- `list(range(1, length + 1))`. -/
def partNumbersUpTo (length : ℕ) : List ℤ := (List.range length).map fun i => (i : ℤ) + 1

/-- `CompleteUpload`. -/
structure CompleteUpload where
  parts : List UploadedPart
  valid : ∀ part ∈ parts, PartNumber part.n ∧ 1 ≤ part.etag.length ∧ part.etag.length ≤ 128
  length : 1 ≤ parts.length ∧ (parts.length : ℤ) ≤ maxParts
  contiguousParts : (parts.map (·.n)).insertionSort (· ≤ ·) = partNumbersUpTo parts.length

/-- `CompleteUpload.manifest`. -/
def CompleteUpload.manifest (request : CompleteUpload) : List UploadedPart :=
  sortedParts request.parts

/-- A manifest names the parts `1`, `2`, … in this order, each once. -/
theorem CompleteUpload.manifest_numbers (request : CompleteUpload) :
    request.manifest.map (·.n) = partNumbersUpTo request.manifest.length := by
  unfold CompleteUpload.manifest sortedParts
  rw [List.map_insertionSort (s := (· ≤ ·)) _ _ _ (fun _ _ _ _ => Iff.rfl),
    List.length_insertionSort]
  exact request.contiguousParts

end Schemas
end MediaPlayer
