import MediaPlayer.Library.Text
import Mathlib.Algebra.Order.Round
import Mathlib.Tactic.Linarith

/-!
# Two ways to round a half

`round` of Python takes a half to the even neighbour, C takes it away from zero.

* `roundHalf_cases` — they differ on the halves above an even number, and nowhere else.
* `max_roundHalfEven_eq_iff` — the even numbers of at least two that they lead to differ on all
  of these but the first.
-/

namespace MediaPlayer
namespace Library

/-- The nearest whole number; a half goes to the neighbour further from zero. -/
def roundHalfAway (x : ℚ) : ℤ := if 0 ≤ x then ⌊x + 1 / 2⌋ else ⌈x - 1 / 2⌉

theorem floor_half (k : ℤ) : ⌊(k : ℚ) + 1 / 2⌋ = k := by
  rw [Int.floor_eq_iff]
  constructor <;> linarith

theorem roundHalfEven_half (k : ℤ) : roundHalfEven ((k : ℚ) + 1 / 2) = k + k % 2 := by
  have hrest : (k : ℚ) + 1 / 2 - k = 1 / 2 := add_sub_cancel_left _ _
  unfold roundHalfEven
  dsimp only
  rw [floor_half, hrest, if_neg (lt_irrefl _), if_neg (lt_irrefl _)]
  split <;> omega

theorem roundHalfEven_nonneg {x : ℚ} (hx : 0 ≤ x) : 0 ≤ roundHalfEven x := by
  have hfloor : 0 ≤ ⌊x⌋ := Int.floor_nonneg.mpr hx
  unfold roundHalfEven
  dsimp only
  split_ifs <;> omega

theorem roundHalfAway_half {k : ℤ} (hk : 0 ≤ k) : roundHalfAway ((k : ℚ) + 1 / 2) = k + 1 := by
  have hpos : (0 : ℚ) ≤ k := Int.cast_nonneg hk
  have hnext : (k : ℚ) + 1 / 2 + 1 / 2 = ((k + 1 : ℤ) : ℚ) := by
    push_cast
    ring
  rw [roundHalfAway, if_pos (by linarith), hnext, Int.floor_intCast]

/-- Off the halves there is one nearest number. -/
theorem roundHalfEven_eq_of_ne {x : ℚ} (hx : 0 ≤ x) (hhalf : x - ⌊x⌋ ≠ 1 / 2) :
    roundHalfEven x = roundHalfAway x := by
  have hlow := Int.floor_le x
  have hhigh := Int.lt_floor_add_one x
  unfold roundHalfEven
  dsimp only
  rw [roundHalfAway, if_pos hx]
  rcases lt_or_gt_of_ne hhalf with hbelow | habove
  · rw [if_pos hbelow, eq_comm, Int.floor_eq_iff]
    constructor <;> linarith
  · rw [if_neg (not_lt.mpr habove.le), if_pos habove, eq_comm, Int.floor_eq_iff]
    push_cast
    constructor <;> linarith

section

variable {x : ℚ}

/-- A half above an even number, or no difference. -/
theorem roundHalf_cases (hx : 0 ≤ x) : roundHalfEven x = roundHalfAway x ∨
    ∃ k : ℤ, 0 ≤ k ∧ x = ((2 * k : ℤ) : ℚ) + 1 / 2 := by
  by_cases hhalf : x - ⌊x⌋ = 1 / 2
  · have hfloor : 0 ≤ ⌊x⌋ := Int.floor_nonneg.mpr hx
    have hx : x = (⌊x⌋ : ℚ) + 1 / 2 := by linarith
    generalize ⌊x⌋ = below at hfloor hx
    subst hx
    rcases Int.even_or_odd' below with ⟨k, rfl | rfl⟩
    · exact Or.inr ⟨k, by omega, rfl⟩
    · left
      rw [roundHalfEven_half, roundHalfAway_half hfloor]
      omega
  · exact Or.inl (roundHalfEven_eq_of_ne hx hhalf)

theorem roundHalf_even {k : ℤ} (hk : 0 ≤ k) (hx : x = ((2 * k : ℤ) : ℚ) + 1 / 2) :
    roundHalfEven x = 2 * k ∧ roundHalfAway x = 2 * k + 1 := by
  subst hx
  rw [roundHalfEven_half, roundHalfAway_half (by omega)]
  omega

/-- The smallest of these halves, one half itself, is rounded to two both ways. -/
theorem max_roundHalfEven_eq_iff (hx : 0 ≤ x) :
    max 2 (roundHalfEven x * 2) = max 2 (2 * roundHalfAway x) ↔
      ¬∃ k : ℤ, 1 ≤ k ∧ x = ((2 * k : ℤ) : ℚ) + 1 / 2 := by
  constructor
  · rintro heq ⟨k, hk, hhalf⟩
    obtain ⟨heven, haway⟩ := roundHalf_even (by omega) hhalf
    omega
  · intro hnone
    rcases roundHalf_cases hx with heq | ⟨k, hk, hhalf⟩
    · rw [heq, mul_comm]
    · obtain ⟨heven, haway⟩ := roundHalf_even hk hhalf
      have hzero : k = 0 := by
        by_contra hne
        exact hnone ⟨k, by omega, hhalf⟩
      omega

end

end Library
end MediaPlayer
