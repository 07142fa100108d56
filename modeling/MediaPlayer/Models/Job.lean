import Mathlib.Data.Rat.Defs
import MediaPlayer.Library.Text

/-!
# Job rows

`Job` of `app/models/job.py` with the operations an edit job stores
(`EditOperation` of `app/schemas/edit.py`).

* `JobColumns` — what a statement writes: every column but the primary key, which
  is the key of the table a row is in.
* `JobColumns.Checks` — the CHECK constraints of the table, by name.
* `Job` — a row that is in the table: columns that pass every check.  The database
  refuses any other, so no later proof has to ask for it.
-/

namespace MediaPlayer
namespace Models

open Library

/-- An id.  Fresh ones are never drawn twice. -/
abbrev UUID := ℕ

/-- A point of time, in the database's microseconds. -/
abbrev Timestamp := ℤ

inductive JobStatus
  | queued
  | processing
  | done
  | failed
  deriving DecidableEq, Repr

/-- The text stored for a status. -/
def JobStatus.value : JobStatus → String
  | queued => "queued"
  | processing => "processing"
  | done => "done"
  | failed => "failed"

/-- Where a job's adaptive ladder stands. -/
inductive HlsStatus
  | pending
  | ready
  | unavailable
  deriving DecidableEq, Repr

inductive FlipAxis
  | horizontal
  | vertical
  deriving DecidableEq

/-- One stored operation of an edit, with its parameters. -/
inductive EditOperation
  | clip (start finish : ℚ)
  | crop (x y w h : ℕ)
  | downscale (height : ℕ)
  | upscale (height : ℕ)
  | rotate (degrees : ℕ)
  | flip (axis : FlipAxis)
  | speed (factor : ℚ)
  | convert (format : String)
  | preset (name : String)
  | adjust (brightness contrast saturation gamma : Option ℚ)
  deriving DecidableEq

/-- The columns of a row beside its id. -/
structure JobColumns where
  ownerId : UUID
  filename : String
  status : JobStatus := .queued
  sourceKey : String
  outputKey : Option String := none
  hlsKey : Option String := none
  operations : Option (List EditOperation) := none
  hlsStatus : HlsStatus := .pending
  width : Option ℤ := none
  height : Option ℤ := none
  durationSeconds : Option ℚ := none
  thumbnailKey : Option String := none
  previewKey : Option String := none
  maxFps : ℤ := 30
  error : Option String := none
  deletedAt : Option Timestamp := none
  createdAt : Timestamp
  updatedAt : Timestamp
  deriving DecidableEq

/-- `btrim(text) <> ''`: some character is not a space. -/
def btrimNonempty (text : String) : Bool := text.toList.any (· != ' ')

/-- The CHECK constraints of the table. -/
structure JobColumns.Checks (columns : JobColumns) : Prop where
  outputKey : columns.status = .done ↔ columns.outputKey ≠ none
  error : if columns.status = .failed then columns.error.any btrimNonempty = true
    else columns.error = none
  operations : columns.operations ≠ some []
  hlsReadyHasKey : columns.hlsStatus = .ready ↔ columns.hlsKey ≠ none
  width : ∀ width ∈ columns.width, 0 < width
  height : ∀ height ∈ columns.height, 0 < height
  durationSeconds : ∀ seconds ∈ columns.durationSeconds, 0 < seconds
  maxFps : columns.maxFps = 30 ∨ columns.maxFps = 60
  previewNeedsLadder : columns.previewKey = none ∨ columns.hlsKey ≠ none

instance (columns : JobColumns) : Decidable columns.Checks :=
  decidable_of_iff
    ((columns.status = .done ↔ columns.outputKey ≠ none) ∧
      (if columns.status = .failed then columns.error.any btrimNonempty = true
        else columns.error = none) ∧
      columns.operations ≠ some [] ∧ (columns.hlsStatus = .ready ↔ columns.hlsKey ≠ none) ∧
      (∀ width ∈ columns.width, 0 < width) ∧ (∀ height ∈ columns.height, 0 < height) ∧
      (∀ seconds ∈ columns.durationSeconds, 0 < seconds) ∧
      (columns.maxFps = 30 ∨ columns.maxFps = 60) ∧
      (columns.previewKey = none ∨ columns.hlsKey ≠ none))
    ⟨fun ⟨h1, h2, h3, h4, h5, h6, h7, h8, h9⟩ => ⟨h1, h2, h3, h4, h5, h6, h7, h8, h9⟩,
      fun ⟨h1, h2, h3, h4, h5, h6, h7, h8, h9⟩ => ⟨h1, h2, h3, h4, h5, h6, h7, h8, h9⟩⟩

/-- A row of the table. -/
structure Job extends JobColumns where
  checks : toJobColumns.Checks

theorem Job.ext_columns {a b : Job} (h : a.toJobColumns = b.toJobColumns) : a = b := by
  cases a
  cases b
  simpa using h

instance : DecidableEq Job := fun a b =>
  decidable_of_iff (a.toJobColumns = b.toJobColumns) ⟨Job.ext_columns, fun h => h ▸ rfl⟩

/-- Stripped text that is not empty passes the check on error texts. -/
theorem btrimNonempty_strip {text : String} (htext : strip text ≠ "") :
    btrimNonempty (strip text) = true := by
  obtain ⟨c, hc, hspace⟩ := exists_not_isSpace_of_strip htext
  refine List.any_eq_true.mpr ⟨c, hc, ?_⟩
  have hne : c ≠ ' ' := by
    rintro rfl
    exact absurd hspace (by decide)
  simpa using hne

end Models
end MediaPlayer
