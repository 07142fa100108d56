import MediaPlayer.Library.Text

/-!
# Decimal numbers in a text

Python's `float(text)` of a decimal number in ASCII: a sign, digits, a fraction and an exponent.
A float is the number that is written; `inf`, `nan` and underscores between digits are left out,
from `int(text)` as well.

* `floatOf_decimal` — a number printed as digits, a point and digits is read back.
* `intOf_toString` — so is an integer.
-/

namespace MediaPlayer
namespace Library

/-- A sign, if there is one, and what follows it. -/
def signOf : List Char → Bool × List Char
  | '-' :: rest => (true, rest)
  | '+' :: rest => (false, rest)
  | rest => (false, rest)

/-- The exponent of a number, which may be missing. -/
def exponentOf : List Char → Option ℤ
  | [] => some 0
  | c :: rest =>
      let (negative, digits) := signOf rest
      if (c = 'e' ∨ c = 'E') ∧ digits ≠ [] ∧ digits.all Char.isDigit then
        some ((if negative then -1 else 1) * Nat.ofDigitChars 10 digits 0)
      else none

/-- The fraction of a number, if there is one, and what follows it. -/
def fractionOf : List Char → List Char × List Char
  | '.' :: rest => (rest.takeWhile Char.isDigit, rest.dropWhile Char.isDigit)
  | rest => ([], rest)

/-- `float(text)`; `none` where it raises. -/
def floatOf (text : String) : Option ℚ :=
  let (negative, number) := signOf (strip text).toList
  let whole := number.takeWhile Char.isDigit
  let (fraction, rest) := fractionOf (number.dropWhile Char.isDigit)
  if whole = [] ∧ fraction = [] then none
  else (exponentOf rest).map fun exponent : ℤ =>
    (if negative then -1 else 1) * (Nat.ofDigitChars 10 (whole ++ fraction) 0 : ℚ) *
      (10 : ℚ) ^ (exponent - fraction.length)

/-- `int(text)`; `none` where it raises. -/
def intOf (text : String) : Option ℤ :=
  let (negative, digits) := signOf (strip text).toList
  if digits ≠ [] ∧ digits.all Char.isDigit then
    some ((if negative then -1 else 1) * Nat.ofDigitChars 10 digits 0)
  else none

theorem isSpace_of_isDigit {c : Char} (hc : c.isDigit = true) : isSpace c = false := by
  have hrange : 48 ≤ c.toNat ∧ c.toNat ≤ 57 := by
    simpa [Char.isDigit, UInt32.le_iff_toNat_le] using hc
  simp only [isSpace, Bool.or_eq_false_iff, Bool.and_eq_false_iff, decide_eq_false_iff_not,
    beq_eq_false_iff_ne]
  omega

/-- A text without white space is left as it is. -/
theorem strip_eq_self {text : List Char} (htext : ∀ c ∈ text, isSpace c = false) :
    strip (String.ofList text) = String.ofList text := by
  have hleft : text.dropWhile isSpace = text := by
    cases text with
    | nil => rfl
    | cons c rest =>
        rw [List.dropWhile_cons_of_neg]
        simp [htext c (List.mem_cons_self ..)]
  have hright : text.rdropWhile isSpace = text := by
    refine (List.rdropWhile_eq_self_iff).mpr fun hne => ?_
    simp [htext _ (List.getLast_mem hne)]
  rw [strip, String.toList_ofList, hleft, hright]

theorem signOf_digits {text : List Char} (hfirst : ∀ c ∈ text.head?, c.isDigit = true) :
    signOf text = (false, text) := by
  cases text with
  | nil => rfl
  | cons c rest =>
      have hdigit : c.isDigit = true := hfirst c rfl
      unfold signOf
      split
      · rename_i heq
        obtain ⟨rfl, -⟩ := List.cons.inj heq
        exact absurd hdigit (by decide)
      · rename_i heq
        obtain ⟨rfl, -⟩ := List.cons.inj heq
        exact absurd hdigit (by decide)
      · rfl

theorem takeWhile_digits {digits : List Char} (hdigits : ∀ c ∈ digits, c.isDigit = true)
    (rest : List Char) (hrest : ∀ c ∈ rest.head?, c.isDigit = false) :
    (digits ++ rest).takeWhile Char.isDigit = digits ∧
      (digits ++ rest).dropWhile Char.isDigit = rest := by
  rw [List.takeWhile_append_of_pos hdigits, List.dropWhile_append_of_pos hdigits]
  cases rest with
  | nil => simp
  | cons c rest =>
      have hc : ¬c.isDigit = true := by simp [hrest c rfl]
      rw [List.takeWhile_cons_of_neg hc, List.dropWhile_cons_of_neg hc]
      simp

/-- Digits, a point and digits are read as the number they print. -/
theorem floatOf_decimal {whole fraction : List Char} (hne : whole ≠ [])
    (hwhole : ∀ c ∈ whole, c.isDigit = true) (hfraction : ∀ c ∈ fraction, c.isDigit = true) :
    floatOf (String.ofList (whole ++ '.' :: fraction)) =
      some ((Nat.ofDigitChars 10 (whole ++ fraction) 0 : ℚ) / 10 ^ fraction.length) := by
  have hspace : ∀ c ∈ whole ++ '.' :: fraction, isSpace c = false := by
    intro c hc
    rcases List.mem_append.mp hc with hc | hc
    · exact isSpace_of_isDigit (hwhole c hc)
    · rcases List.mem_cons.mp hc with rfl | hc
      · decide
      · exact isSpace_of_isDigit (hfraction c hc)
  have hsign : signOf (whole ++ '.' :: fraction) = (false, whole ++ '.' :: fraction) := by
    refine signOf_digits fun c hc => hwhole c ?_
    cases whole with
    | nil => exact absurd rfl hne
    | cons first rest =>
        obtain rfl : first = c := by simpa using hc
        exact List.mem_cons_self ..
  obtain ⟨htake, hdrop⟩ := takeWhile_digits hwhole ('.' :: fraction)
    (fun c hc => by obtain rfl : '.' = c := by simpa using hc
                    decide)
  obtain ⟨htakeFraction, hdropFraction⟩ :=
    takeWhile_digits hfraction [] (by simp)
  rw [List.append_nil] at htakeFraction hdropFraction
  unfold floatOf
  rw [strip_eq_self hspace, String.toList_ofList, hsign]
  simp only [htake, hdrop, fractionOf, htakeFraction, hdropFraction, exponentOf]
  rw [if_neg fun hboth => hne hboth.1, Option.map_some, Int.zero_sub, zpow_neg, zpow_natCast]
  simp [div_eq_mul_inv]

theorem isDigit_of_mem_toDigits {n : ℕ} {c : Char} (hc : c ∈ Nat.toDigits 10 n) :
    c.isDigit = true :=
  Nat.isDigit_of_mem_toDigits (b := 10) (by decide) (by decide) hc

/-- A printed integer is read back. -/
theorem intOf_toString (n : ℤ) : intOf (toString n) = some n := by
  have hdigits : ∀ n : ℕ, Nat.toDigits 10 n ≠ [] ∧ (Nat.toDigits 10 n).all Char.isDigit :=
    fun n => ⟨Nat.toDigits_ne_nil, List.all_eq_true.mpr fun _ hc => isDigit_of_mem_toDigits hc⟩
  have hspace : ∀ n : ℕ, ∀ c ∈ Nat.toDigits 10 n, isSpace c = false := fun _ _ hc =>
    isSpace_of_isDigit (isDigit_of_mem_toDigits hc)
  cases n with
  | ofNat n =>
      have htext : toString (Int.ofNat n) = String.ofList (Nat.toDigits 10 n) := by
        rw [← Nat.toList_repr, String.ofList_toList]
        rfl
      have hsign : signOf (Nat.toDigits 10 n) = (false, Nat.toDigits 10 n) :=
        signOf_digits fun c hc => isDigit_of_mem_toDigits (List.mem_of_mem_head? hc)
      unfold intOf
      rw [htext, strip_eq_self (hspace n), String.toList_ofList, hsign]
      dsimp only
      rw [if_pos (hdigits n), Nat.ofDigitChars_ten_toDigits]
      simp
  | negSucc n =>
      have htext : toString (Int.negSucc n) =
          String.ofList ('-' :: Nat.toDigits 10 (n + 1)) := by
        rw [← String.toList_inj, toString_negSucc, String.toList_append, Nat.toList_repr]
        simp
      have hstrip : ∀ c ∈ '-' :: Nat.toDigits 10 (n + 1), isSpace c = false := by
        intro c hc
        rcases List.mem_cons.mp hc with rfl | hc
        · decide
        · exact hspace (n + 1) c hc
      unfold intOf
      rw [htext, strip_eq_self hstrip, String.toList_ofList, signOf]
      dsimp only
      rw [if_pos (hdigits (n + 1)), Nat.ofDigitChars_ten_toDigits, if_pos rfl]
      simp [Int.negSucc_eq]

end Library
end MediaPlayer
