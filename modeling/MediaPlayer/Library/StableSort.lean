import Mathlib.Data.List.Sort

/-!
# Stable sorting

Python's `list.sort` with a key is stable: of two elements that compare equal the earlier one
stays first.  `List.insertionSort` is stable too.

* `insertionSort_insert` — one more element at the end of a sorted list goes behind all that
  are not above it.
-/

namespace MediaPlayer
namespace Library

section

variable {α : Type*} {r : α → α → Prop} [DecidableRel r] {low high : List α} {x : α}

/-- An element at the end goes ahead of those that are above it. -/
theorem insertionSort_before (hsorted : high.Pairwise r)
    (habove : ∀ y ∈ high, r x y ∧ ¬r y x) : (high ++ [x]).insertionSort r = x :: high := by
  induction high with
  | nil => rfl
  | cons y high ih =>
      obtain ⟨hfirst, hsorted⟩ := List.pairwise_cons.mp hsorted
      have hy := habove y (List.mem_cons_self ..)
      have hrest := ih hsorted fun z hz => habove z (List.mem_cons_of_mem _ hz)
      rw [List.cons_append, List.insertionSort_cons, hrest, List.orderedInsert_of_not_le _ _ hy.2]
      cases high with
      | nil => rfl
      | cons z high =>
          rw [List.orderedInsert_cons_of_le _ _ (hfirst z (List.mem_cons_self ..))]

/-- An element at the end goes behind those that are not above it. -/
theorem insertionSort_insert (hsorted : (low ++ high).Pairwise r) (hbelow : ∀ y ∈ low, r y x)
    (habove : ∀ y ∈ high, r x y ∧ ¬r y x) :
    (low ++ high ++ [x]).insertionSort r = low ++ x :: high := by
  induction low with
  | nil => exact insertionSort_before hsorted habove
  | cons y low ih =>
      obtain ⟨hfirst, hsorted⟩ := List.pairwise_cons.mp hsorted
      have hrest := ih hsorted fun z hz => hbelow z (List.mem_cons_of_mem _ hz)
      have hleast : ∀ z ∈ low ++ high ++ [x], r y z := by
        intro z hz
        rcases List.mem_append.mp hz with hold | hnew
        · exact hfirst z hold
        · obtain rfl := List.mem_singleton.mp hnew
          exact hbelow y (List.mem_cons_self ..)
      rw [List.cons_append, List.cons_append, List.insertionSort_cons_of_forall_rel _ hleast, hrest,
        List.cons_append]

end

end Library
end MediaPlayer
