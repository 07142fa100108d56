import MediaPlayer.Services.MediaRules

/-!
# Requests for an edit

The request body of `app/schemas/edit.py`, as the structure validation leaves.
-/

namespace MediaPlayer
namespace Schemas

open Models Services

/-- A value that may be left out lies in its `ADJUST_RANGES`. -/
def InRange (low high : ℚ) (value : Option ℚ) : Prop := ∀ x ∈ value, low ≤ x ∧ x ≤ high

instance (low high : ℚ) (value : Option ℚ) : Decidable (InRange low high value) :=
  inferInstanceAs (Decidable (∀ x ∈ value, low ≤ x ∧ x ≤ high))

/-- The parameters' own rules. -/
def ValidParams : EditOperation → Prop
  | .clip start finish => 0 ≤ start ∧ start < finish
  | .crop _ _ w h => 0 < w ∧ 0 < h
  | .downscale height | .upscale height => 0 < height
  | .rotate degrees => 90 ≤ degrees ∧ degrees ≤ 270 ∧ degrees % 90 = 0
  | .flip _ => True
  | .speed factor => 1 / 2 ≤ factor ∧ factor ≤ 2 ∧ (factor * 4).den = 1
  | .convert format => format ∈ ["mkv", "mp3"]
  | .preset name => name ∈ ["bw", "warm", "cool", "vintage", "vivid"]
  | .adjust brightness contrast saturation gamma =>
      (brightness.isSome ∨ contrast.isSome ∨ saturation.isSome ∨ gamma.isSome) ∧
        InRange (-3 / 10) (3 / 10) brightness ∧ InRange (1 / 2) 2 contrast ∧
        InRange 0 3 saturation ∧ InRange (1 / 2) 2 gamma

instance : ∀ operation, Decidable (ValidParams operation)
  | .clip start finish => inferInstanceAs (Decidable (0 ≤ start ∧ start < finish))
  | .crop _ _ w h => inferInstanceAs (Decidable (0 < w ∧ 0 < h))
  | .downscale height | .upscale height => inferInstanceAs (Decidable (0 < height))
  | .rotate degrees =>
      inferInstanceAs (Decidable (90 ≤ degrees ∧ degrees ≤ 270 ∧ degrees % 90 = 0))
  | .flip _ => .isTrue trivial
  | .speed factor =>
      inferInstanceAs (Decidable (1 / 2 ≤ factor ∧ factor ≤ 2 ∧ (factor * 4).den = 1))
  | .convert format => inferInstanceAs (Decidable (format ∈ ["mkv", "mp3"]))
  | .preset name =>
      inferInstanceAs (Decidable (name ∈ ["bw", "warm", "cool", "vintage", "vivid"]))
  | .adjust brightness contrast saturation gamma => inferInstanceAs (Decidable
      ((brightness.isSome ∨ contrast.isSome ∨ saturation.isSome ∨ gamma.isSome) ∧
        InRange (-3 / 10) (3 / 10) brightness ∧ InRange (1 / 2) 2 contrast ∧
        InRange 0 3 saturation ∧ InRange (1 / 2) 2 gamma))

/-- `EditRequest`. -/
structure EditRequest where
  operations : List EditOperation
  length : 1 ≤ operations.length ∧ operations.length ≤ operationOrder.length
  valid : ∀ operation ∈ operations, ValidParams operation
  unambiguous : (operations.map operationName).Nodup
  oneScale : ¬ (.downscale ∈ operations.map operationName ∧
    .upscale ∈ operations.map operationName)

namespace EditRequest

theorem operations_ne_nil (request : EditRequest) : request.operations ≠ [] := by
  have hlength := request.length.1
  intro hnil
  simp [hnil] at hlength

/-- `operation`. -/
def operation (request : EditRequest) (name : OperationName) : Option EditOperation :=
  request.operations.find? fun item => operationName item = name

/-- The extension of the edited file. -/
def outputExtension (request : EditRequest) : String :=
  match request.operation .convert with
  | some (.convert format) => format
  | _ => "mp4"

/-- A request that lists its operations in another order. -/
def reorder (request : EditRequest) (operations : List EditOperation)
    (hperm : operations.Perm request.operations) : EditRequest where
  operations := operations
  length := hperm.length_eq ▸ request.length
  valid operation hoperation := request.valid operation (hperm.mem_iff.mp hoperation)
  unambiguous := (hperm.map operationName).nodup_iff.mpr request.unambiguous
  oneScale hboth := request.oneScale
    ((hboth.imp (hperm.map operationName).mem_iff.mp) (hperm.map operationName).mem_iff.mp)

end EditRequest

end Schemas
end MediaPlayer
