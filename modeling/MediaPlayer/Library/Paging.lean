import Mathlib.Data.List.Basic

/-!
# Reading a list page by page

A reader asks for one page after another until one of them is empty.

* `readPages` — the pages together; there is no fuel for a reader that never meets an empty one.
* `readPages_slices` — where the pages are the slices of a list, they are the list.
-/

namespace MediaPlayer
namespace Library

/-- The pages from number `n` on, up to the first that is empty. -/
def readPages {α : Type*} (fetch : ℕ → List α) : ℕ → ℕ → Option (List α)
  | 0, _ => none
  | fuel + 1, n =>
      if (fetch n).isEmpty then some []
      else (readPages fetch fuel (n + 1)).map (fetch n ++ ·)

section

variable {α : Type*} {fetch : ℕ → List α} {xs : List α} {limit : ℕ}

/-- Every page but the last takes something off what is left. -/
theorem readPages_slices (hlimit : 0 < limit)
    (hfetch : ∀ n, fetch n = (xs.drop (n * limit)).take limit) {fuel n : ℕ}
    (hfuel : (xs.drop (n * limit)).length < fuel) :
    readPages fetch fuel n = some (xs.drop (n * limit)) := by
  induction fuel generalizing n with
  | zero => exact absurd hfuel (Nat.not_lt_zero _)
  | succ fuel ih =>
      rw [readPages, hfetch n]
      cases hrest : xs.drop (n * limit) with
      | nil => rw [List.take_nil, List.isEmpty_nil, if_pos rfl]
      | cons x rest =>
          have hnext : xs.drop ((n + 1) * limit) = (x :: rest).drop limit := by
            rw [← hrest, List.drop_drop, Nat.succ_mul]
          have hshorter : (xs.drop ((n + 1) * limit)).length < fuel := by
            rw [hrest, List.length_cons] at hfuel
            rw [hnext, List.length_drop, List.length_cons]
            omega
          have hpage : ((x :: rest).take limit).isEmpty = false := by
            obtain ⟨m, rfl⟩ := Nat.exists_eq_succ_of_ne_zero (Nat.pos_iff_ne_zero.mp hlimit)
            rfl
          rw [hpage, if_neg Bool.false_ne_true, ih hshorter, hnext, Option.map_some,
            List.take_append_drop]

end

end Library
end MediaPlayer
