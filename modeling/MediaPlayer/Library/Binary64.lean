import Mathlib.Data.Int.Log
import MediaPlayer.Library.Text

/-!
# Python's floats

A float is the rational number it stands for.  Its exponent is not bounded here: a result beyond
`2 ^ 1024`, which is infinite in Python, is still a number.

* `binary64` — what an operation gives whose exact result is a number.
* `floatSum` — `sum(xs)` of floats.
* `roundHalfEven_lt_iff` — what is rounded below a whole number.
* `binary64_lt_natCast_iff` — the exact results that stay below one; `roundsBelow_iff_of_le` for
  one that has fewer digits than a float.
-/

namespace MediaPlayer
namespace Library

/-- The distance of the floats around a number. -/
def lastPlace (x : ℚ) : ℚ := 2 ^ (Int.log 2 |x| - 52)

/-- The float next to a number; of two, the one with the even last digit. -/
def binary64 (x : ℚ) : ℚ := if x = 0 then 0 else roundHalfEven (x / lastPlace x) * lastPlace x

/-- A sum of floats, with what its roundings have lost so far. -/
structure FloatSum where
  total : ℚ := 0
  lost : ℚ := 0

def FloatSum.add (s : FloatSum) (x : ℚ) : FloatSum :=
  let total := binary64 (s.total + x)
  let lost :=
    if |x| ≤ |s.total| then binary64 (binary64 (s.total - total) + x)
    else binary64 (binary64 (x - total) + s.total)
  ⟨total, binary64 (s.lost + lost)⟩

/-- `sum(xs)`: what was lost is added to the last total. -/
def floatSum (xs : List ℚ) : ℚ :=
  let s := xs.foldl FloatSum.add {}
  if s.lost = 0 then s.total else binary64 (s.total + s.lost)

/-! ## Rounding to a whole number -/

/-- The numbers that are rounded below a whole one: a half goes down from it if it is odd. -/
theorem roundHalfEven_lt_iff {x : ℚ} {k : ℤ} :
    roundHalfEven x < k ↔ x < k - 1 / 2 ∨ (k % 2 = 1 ∧ x = k - 1 / 2) := by
  have hle := Int.floor_le x
  have hlt := Int.lt_floor_add_one x
  unfold roundHalfEven
  dsimp only
  generalize ⌊x⌋ = below at hle hlt ⊢
  rcases lt_trichotomy k (below + 1) with hk | rfl | hk
  · -- Nothing is rounded below its floor.
    have hcast : (k : ℚ) ≤ below := Int.cast_le.mpr (Int.lt_add_one_iff.mp hk)
    refine iff_of_false (by split_ifs <;> omega) (not_or.mpr ⟨by linarith, fun hhalf => ?_⟩)
    linarith [hhalf.2]
  · -- Whether it goes down is told by the half, and by the last digit.
    push_cast
    split_ifs with hdown hup heven
    · exact iff_of_true (by omega) (.inl (by linarith))
    · refine iff_of_false (by omega) (not_or.mpr ⟨by linarith, fun hhalf => ?_⟩)
      linarith [hhalf.2]
    · exact iff_of_true (by omega) (.inr ⟨by omega, by linarith⟩)
    · exact iff_of_false (by omega) (not_or.mpr ⟨by linarith, fun hhalf => by omega⟩)
  · have hcast : ((below + 1 + 1 : ℤ) : ℚ) ≤ k := Int.cast_le.mpr hk
    push_cast at hcast
    exact iff_of_true (by split_ifs <;> omega) (.inl (by linarith))

/-! ## Floats and whole numbers -/

section

variable {x : ℚ} {m : ℕ}

theorem lastPlace_pos (x : ℚ) : 0 < lastPlace x := zpow_pos (by norm_num) _

theorem roundHalfEven_div_lt_iff {step : ℚ} (hstep : 0 < step) {k : ℤ} :
    roundHalfEven (x / step) < k ↔
      x < (k - 1 / 2) * step ∨ (k % 2 = 1 ∧ x = (k - 1 / 2) * step) := by
  rw [roundHalfEven_lt_iff, div_lt_iff₀ hstep, div_eq_iff hstep.ne']

/-- What is at least so many steps still is when it is rounded, -/
theorem le_binary64 (hx : x ≠ 0) {k : ℤ} (hk : k * lastPlace x ≤ x) :
    k * lastPlace x ≤ binary64 x := by
  have hplace := lastPlace_pos x
  have hround : ¬roundHalfEven (x / lastPlace x) < k := by
    have hmiddle : (k - 1 / 2 : ℚ) * lastPlace x < k * lastPlace x :=
      mul_lt_mul_of_pos_right (by linarith) hplace
    rw [roundHalfEven_div_lt_iff hplace, not_or]
    exact ⟨(hmiddle.trans_le hk).not_gt, fun hhalf => (hmiddle.trans_le hk).ne' hhalf.2⟩
  rw [binary64, if_neg hx]
  exact mul_le_mul_of_nonneg_right (Int.cast_le.mpr (not_lt.mp hround)) hplace.le

/-- and what is at most so many. -/
theorem binary64_le (hx : x ≠ 0) {k : ℤ} (hk : x ≤ k * lastPlace x) :
    binary64 x ≤ k * lastPlace x := by
  have hplace := lastPlace_pos x
  have hround : roundHalfEven (x / lastPlace x) < k + 1 := by
    have hmiddle : (k : ℚ) * lastPlace x < ((k + 1 : ℤ) - 1 / 2) * lastPlace x :=
      mul_lt_mul_of_pos_right (by push_cast; linarith) hplace
    exact (roundHalfEven_div_lt_iff hplace).mpr (.inl (hk.trans_lt hmiddle))
  rw [binary64, if_neg hx]
  exact mul_le_mul_of_nonneg_right (Int.cast_le.mpr (Int.lt_add_one_iff.mp hround)) hplace.le

theorem binary64_nonpos (hx : x ≤ 0) : binary64 x ≤ 0 := by
  rcases hx.lt_or_eq with hneg | rfl
  · have hle := binary64_le (k := 0) hneg.ne (by rwa [Int.cast_zero, zero_mul])
    rwa [Int.cast_zero, zero_mul] at hle
  · rfl

/-- Steps of a power of two make up every greater one. -/
theorem two_zpow_split (n : ℕ) (e : ℤ) : (2 : ℚ) ^ e = ((2 ^ n : ℤ) : ℚ) * 2 ^ (e - n) := by
  rw [Int.cast_pow, Int.cast_ofNat, ← zpow_natCast, ← zpow_add₀ (by norm_num), add_sub_cancel]

/-- The distance of the floats just below a whole number. -/
def gapBelow (m : ℕ) : ℚ := 2 ^ ((Nat.clog 2 m : ℤ) - 53)

theorem gapBelow_pos (m : ℕ) : 0 < gapBelow m := zpow_pos (by norm_num) _

/-- The steps of that size from zero to the first float that is not below the number. -/
def stepsTo (m : ℕ) : ℤ := ⌈(m : ℚ) / gapBelow m⌉

/-- Below the middle of the last of these steps, or at it where it goes down. -/
def RoundsBelow (x : ℚ) (m : ℕ) : Prop :=
  x < (stepsTo m - 1 / 2) * gapBelow m ∨
    (stepsTo m % 2 = 1 ∧ x = (stepsTo m - 1 / 2) * gapBelow m)

instance (x : ℚ) (m : ℕ) : Decidable (RoundsBelow x m) := inferInstanceAs (Decidable (_ ∨ _))

/-- A whole number lies between two powers of two, each of which is a number of steps. -/
theorem powers_around (hm : 0 < m) :
    ((2 ^ 52 : ℤ) : ℚ) * gapBelow m = 2 ^ ((Nat.clog 2 m : ℤ) - 1) ∧
      ((2 ^ 53 : ℤ) : ℚ) * gapBelow m = 2 ^ (Nat.clog 2 m : ℤ) ∧
      ((2 ^ 52 : ℤ) : ℚ) * gapBelow m < m ∧ (m : ℚ) ≤ ((2 ^ 53 : ℤ) : ℚ) * gapBelow m := by
  have hbelow : ((2 ^ 52 : ℤ) : ℚ) * gapBelow m = 2 ^ ((Nat.clog 2 m : ℤ) - 1) := by
    rw [gapBelow, two_zpow_split 52 ((Nat.clog 2 m : ℤ) - 1)]
    congr 2
    omega
  have habove : ((2 ^ 53 : ℤ) : ℚ) * gapBelow m = 2 ^ (Nat.clog 2 m : ℤ) := by
    rw [gapBelow, two_zpow_split 53 (Nat.clog 2 m : ℤ)]
    rfl
  have hunder := Int.zpow_pred_clog_lt_self (b := 2) (r := (m : ℚ)) (by decide)
    (Nat.cast_pos.mpr hm)
  have hover := Int.self_le_zpow_clog (b := 2) (by decide) (m : ℚ)
  rw [Int.clog_natCast] at hunder hover
  exact ⟨hbelow, habove, hbelow ▸ hunder, habove ▸ hover⟩

/-- The exact results that an operation keeps below a whole number. -/
theorem binary64_lt_natCast_iff (hm : 0 < m) : binary64 x < m ↔ RoundsBelow x m := by
  have hgap := gapBelow_pos m
  obtain ⟨hbelow, habove, hunder, hover⟩ := powers_around hm
  rcases le_or_gt x 0 with hnonpos | hx
  · have hsteps : (1 : ℚ) ≤ stepsTo m := by
      exact_mod_cast Int.ceil_pos.mpr (div_pos (Nat.cast_pos.mpr hm) hgap)
    refine iff_of_true ((binary64_nonpos hnonpos).trans_lt (Nat.cast_pos.mpr hm)) (.inl ?_)
    exact hnonpos.trans_lt (mul_pos (by linarith) hgap)
  have hne := hx.ne'
  have hlow : (2 : ℚ) ^ Int.log 2 x ≤ x := Int.zpow_log_le_self (by decide) hx
  have hhigh : x < (2 : ℚ) ^ (Int.log 2 x + 1) := Int.lt_zpow_succ_log_self (by decide) x
  have hplace : lastPlace x = 2 ^ (Int.log 2 x - 52) := by rw [lastPlace, abs_of_pos hx]
  -- The distance of the floats around `x` decides: finer, the same as below `m`, or coarser.
  rcases lt_trichotomy (Int.log 2 x + 1) (Nat.clog 2 m : ℤ) with hlt | heq | hgt
  · -- No float near the number is past the power of two below `m`.
    have hpower : (2 : ℚ) ^ (Int.log 2 x + 1) ≤ ((2 ^ 52 : ℤ) : ℚ) * gapBelow m :=
      hbelow ▸ zpow_le_zpow_right₀ (by norm_num) (by omega)
    have hplaces : (2 : ℚ) ^ (Int.log 2 x + 1) = ((2 ^ 53 : ℤ) : ℚ) * lastPlace x := by
      rw [hplace, two_zpow_split 53]
      congr 2
      omega
    have hsteps : ((2 ^ 52 + 1 : ℤ) : ℚ) ≤ stepsTo m :=
      Int.cast_le.mpr (Int.lt_ceil.mpr ((lt_div_iff₀ hgap).mpr hunder))
    refine iff_of_true ?_ (.inl ((hhigh.trans_le hpower).trans ?_))
    · exact (binary64_le hne (hplaces ▸ hhigh.le)).trans_lt (hplaces ▸ hpower.trans_lt hunder)
    · refine mul_lt_mul_of_pos_right ?_ hgap
      push_cast at hsteps ⊢
      linarith only [hsteps]
  · -- The floats around the number are those just below `m`.
    have hsame : lastPlace x = gapBelow m := by
      rw [hplace, gapBelow]
      congr 1
      omega
    rw [binary64, if_neg hne, hsame, ← lt_div_iff₀ hgap, ← Int.lt_ceil,
      roundHalfEven_div_lt_iff hgap]
    rfl
  · -- The number is past `m`, and so is the float at the power of two above `m`.
    have hpower : ((2 ^ 53 : ℤ) : ℚ) * gapBelow m ≤ 2 ^ Int.log 2 x :=
      habove ▸ zpow_le_zpow_right₀ (by norm_num) (by omega)
    have hplaces : (2 : ℚ) ^ Int.log 2 x = ((2 ^ 52 : ℤ) : ℚ) * lastPlace x := by
      rw [hplace, two_zpow_split 52, Nat.cast_ofNat]
    have hsteps : (stepsTo m : ℚ) ≤ ((2 ^ 53 : ℤ) : ℚ) :=
      Int.cast_le.mpr (Int.ceil_le.mpr ((div_le_iff₀ hgap).mpr hover))
    have hpast : (stepsTo m - 1 / 2 : ℚ) * gapBelow m < x := by
      refine (mul_lt_mul_of_pos_right ?_ hgap).trans_le (hpower.trans hlow)
      exact (sub_lt_self _ (by norm_num)).trans_le hsteps
    refine iff_of_false (not_lt.mpr ?_) (not_or.mpr ⟨hpast.not_gt, fun hhalf => ?_⟩)
    · exact (hover.trans (hpower.trans hplaces.le)).trans (le_binary64 hne (hplaces ▸ hlow))
    · exact hpast.ne' hhalf.2

/-- A whole number with fewer digits than a float is an even number of steps. -/
theorem natCast_eq_steps (hsmall : m ≤ 2 ^ 52) :
    (m : ℚ) = ((m * 2 ^ (53 - Nat.clog 2 m) : ℕ) : ℤ) * gapBelow m ∧
      ((m * 2 ^ (53 - Nat.clog 2 m) : ℕ) : ℤ) % 2 = 0 := by
  have hclog : Nat.clog 2 m ≤ 52 := Nat.clog_le_of_le_pow hsmall
  constructor
  · have hpow : (2 : ℚ) ^ (53 - Nat.clog 2 m) * gapBelow m = 1 := by
      rw [gapBelow, ← zpow_natCast, ← zpow_add₀ (by norm_num), Nat.cast_sub (by omega)]
      norm_num
    push_cast
    rw [mul_assoc, hpow, mul_one]
  · have hsucc : 53 - Nat.clog 2 m = 52 - Nat.clog 2 m + 1 := by omega
    rw [hsucc, pow_succ, ← mul_assoc]
    omega

/-- Below such a number a half goes up to it. -/
theorem roundsBelow_iff_of_le (hsmall : m ≤ 2 ^ 52) :
    RoundsBelow x m ↔ x < m - gapBelow m / 2 := by
  obtain ⟨hsteps, heven⟩ := natCast_eq_steps hsmall
  have hto : stepsTo m = ((m * 2 ^ (53 - Nat.clog 2 m) : ℕ) : ℤ) := by
    rw [stepsTo]
    nth_rewrite 1 [hsteps]
    rw [mul_div_cancel_right₀ _ (gapBelow_pos m).ne', Int.ceil_intCast]
  rw [← hto] at hsteps heven
  have hmiddle : (stepsTo m - 1 / 2 : ℚ) * gapBelow m = m - gapBelow m / 2 := by
    rw [hsteps]
    ring
  rw [RoundsBelow, hmiddle, heven]
  simp

end

end Library
end MediaPlayer
