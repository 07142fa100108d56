import Mathlib.Algebra.BigOperators.Group.List.Basic
import Mathlib.Algebra.GroupWithZero.Nat
import Mathlib.Data.List.Basic

/-!
# A length cut into slices

A slice is a pair of offsets, the second one past its end.

* `Tiles` — slices that follow one another from one offset to another, none of them empty.
* `Tiles.sum_widths` and `Tiles.countP_eq_one` — their widths add up to the distance, and every
  offset in between lies in exactly one of them.
* `cuts` — the slices of a length in steps of a fixed width; the last one takes what is left.
* `flatMap_piece_cut` — the first slices of a list, put together, are its beginning.
-/

namespace MediaPlayer
namespace Library

/-- The slices lead from `start` to `stop` without a gap or an overlap. -/
inductive Tiles : ℕ → List (ℕ × ℕ) → ℕ → Prop
  | nil (start : ℕ) : Tiles start [] start
  | cons {start next stop : ℕ} {slices : List (ℕ × ℕ)} : start < next →
      Tiles next slices stop → Tiles start ((start, next) :: slices) stop

namespace Tiles

variable {start stop : ℕ} {slices : List (ℕ × ℕ)}

/-- One more slice at the end. -/
theorem concat (h : Tiles start slices stop) {last : ℕ} (hlast : stop < last) :
    Tiles start (slices ++ [(stop, last)]) last := by
  induction h with
  | nil start => exact .cons hlast (.nil last)
  | cons hlt _ ih => exact .cons hlt (ih hlast)

theorem nonempty (h : Tiles start slices stop) {slice : ℕ × ℕ} (hslice : slice ∈ slices) :
    slice.1 < slice.2 := by
  induction h with
  | nil => exact absurd hslice List.not_mem_nil
  | cons hlt _ ih =>
      obtain rfl | hrest := List.mem_cons.mp hslice
      · exact hlt
      · exact ih hrest

theorem sum_widths (h : Tiles start slices stop) :
    start + (slices.map fun slice => slice.2 - slice.1).sum = stop := by
  induction h with
  | nil => rfl
  | cons hlt _ ih =>
      rw [List.map_cons, List.sum_cons]
      omega

/-- What lies before the first slice is in none of them. -/
theorem countP_eq_zero (h : Tiles start slices stop) {offset : ℕ} (hbefore : offset < start) :
    slices.countP (fun slice => slice.1 ≤ offset ∧ offset < slice.2) = 0 := by
  induction h with
  | nil => rfl
  | cons hlt _ ih =>
      rw [List.countP_cons_of_neg (by simpa using fun hle => absurd hle (Nat.not_le.mpr hbefore))]
      exact ih (Nat.lt_trans hbefore hlt)

/-- Every offset in between lies in exactly one slice. -/
theorem countP_eq_one (h : Tiles start slices stop) {offset : ℕ} (hstart : start ≤ offset)
    (hstop : offset < stop) :
    slices.countP (fun slice => slice.1 ≤ offset ∧ offset < slice.2) = 1 := by
  induction h with
  | nil => omega
  | @cons start next stop slices hlt hrest ih =>
      by_cases hfirst : offset < next
      · -- In the first slice, and before all the others.
        rw [List.countP_cons_of_pos (by simpa using ⟨hstart, hfirst⟩), hrest.countP_eq_zero hfirst]
      · rw [List.countP_cons_of_neg (by simpa using fun _ => Nat.le_of_not_lt hfirst)]
        exact ih (Nat.le_of_not_lt hfirst) hstop

end Tiles

/-- Boundaries that only grow cut what lies between the first and the last. -/
theorem tiles_range (bound : ℕ → ℕ) (count : ℕ) (hgrows : ∀ i < count, bound i < bound (i + 1)) :
    Tiles (bound 0) ((List.range count).map fun i => (bound i, bound (i + 1))) (bound count) := by
  induction count with
  | zero => exact .nil _
  | succ count ih =>
      rw [List.range_succ, List.map_append]
      exact (ih fun i hi => hgrows i (Nat.lt_succ_of_lt hi)).concat
        (hgrows count (Nat.lt_succ_self count))

/-- The slice with the number `i`, counted from zero. -/
def cut (width length i : ℕ) : ℕ × ℕ := (i * width, min (i * width + width) length)

/-- How many slices there are: the quotient, rounded up. -/
def cutCount (width length : ℕ) : ℕ := (length + width - 1) / width

def cuts (width length : ℕ) : List (ℕ × ℕ) :=
  (List.range (cutCount width length)).map (cut width length)

theorem lt_cutCount_iff {width length i : ℕ} (hwidth : 0 < width) :
    i < cutCount width length ↔ i * width < length := by
  unfold cutCount
  rw [← Nat.succ_le_iff, Nat.le_div_iff_mul_le hwidth, Nat.succ_mul]
  omega

/-- The slices cover the length. -/
theorem tiles_cuts {width : ℕ} (hwidth : 0 < width) (length : ℕ) :
    Tiles 0 (cuts width length) length := by
  -- Up to the last one, the boundaries are the multiples of the width.
  have htiles := tiles_range (fun i => min (i * width) length) (cutCount width length) fun i hi => by
    have hlt := (lt_cutCount_iff hwidth).mp hi
    rw [Nat.succ_mul]
    omega
  -- The multiple behind the last slice is past the length.
  have hlast : min (cutCount width length * width) length = length := by
    have hnot := mt (lt_cutCount_iff hwidth).mpr (Nat.lt_irrefl (cutCount width length))
    exact Nat.min_eq_right (Nat.le_of_not_lt hnot)
  have hslices : cuts width length = (List.range (cutCount width length)).map fun i =>
      (min (i * width) length, min ((i + 1) * width) length) := by
    refine List.map_congr_left fun i hi => ?_
    have hlt := (lt_cutCount_iff hwidth).mp (List.mem_range.mp hi)
    unfold cut
    rw [Nat.succ_mul, Nat.min_eq_left (Nat.le_of_lt hlt)]
  rw [hslices]
  simpa [hlast] using htiles

/-- What lies in a slice of a list. -/
def piece {α : Type*} (xs : List α) (slice : ℕ × ℕ) : List α :=
  (xs.take slice.2).drop slice.1

theorem piece_cut {α : Type*} (xs : List α) (width i : ℕ) :
    piece xs (cut width xs.length i) = (xs.drop (i * width)).take width := by
  unfold piece cut
  rw [← List.take_take, List.take_length, List.drop_take, Nat.add_sub_cancel_left]

theorem length_piece_cut {α : Type*} (xs : List α) (width i : ℕ) :
    (piece xs (cut width xs.length i)).length =
      (cut width xs.length i).2 - (cut width xs.length i).1 := by
  unfold piece cut
  rw [List.length_drop, List.length_take, Nat.min_assoc, Nat.min_self]

/-- Slice after slice from the first one on is the beginning of the list. -/
theorem flatMap_piece_cut {α : Type*} (xs : List α) (width count : ℕ) :
    ((List.range count).flatMap fun i => piece xs (cut width xs.length i)) =
      xs.take (count * width) := by
  induction count with
  | zero => simp
  | succ count ih =>
      rw [List.range_succ, List.flatMap_append, ih, List.flatMap_singleton, piece_cut,
        Nat.succ_mul, List.take_add]

end Library
end MediaPlayer
