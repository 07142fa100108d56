import Mathlib.Computability.RegularExpressions

/-!
# Regular expressions over characters

The parts a pattern of Python's `re` is written with, as regular expressions of Mathlib:
`literal` for plain text, `oneOf` for a class, `optional` for `?`, `oneOrMore` for `+`,
`between` for `{m,n}`.  `rmatch` is then `fullmatch`.

Each part has one lemma that says what it matches.
-/

namespace MediaPlayer
namespace Library

open RegularExpression

/-- `[...]`. -/
def oneOf (chars : List Char) : RegularExpression Char := (chars.map char).sum

def literal (text : String) : RegularExpression Char := (text.toList.map char).prod

/-- `(...)?`. -/
def optional (part : RegularExpression Char) : RegularExpression Char := 1 + part

/-- `(...)+`. -/
def oneOrMore (part : RegularExpression Char) : RegularExpression Char := part * part.star

/-- `(...){least,most}`. -/
def between (least most : ℕ) (part : RegularExpression Char) : RegularExpression Char :=
  (List.replicate least part ++ List.replicate (most - least) (optional part)).prod

variable {text : List Char} {chars : List Char}

theorem rmatch_oneOf : (oneOf chars).rmatch text = true ↔ ∃ c ∈ chars, text = [c] := by
  unfold oneOf
  induction chars with
  | nil => simp [zero_rmatch]
  | cons c chars ih =>
      rw [List.map_cons, List.sum_cons, add_rmatch_iff, char_rmatch_iff, ih]
      simp

theorem rmatch_literal {pattern : String} :
    (literal pattern).rmatch text = true ↔ text = pattern.toList := by
  unfold literal
  induction pattern.toList generalizing text with
  | nil => simp
  | cons c pattern ih =>
      rw [List.map_cons, List.prod_cons, mul_rmatch_iff]
      constructor
      · rintro ⟨first, rest, rfl, hfirst, hrest⟩
        rw [(char_rmatch_iff c first).mp hfirst, ih.mp hrest, List.singleton_append]
      · rintro rfl
        exact ⟨[c], pattern, rfl, (char_rmatch_iff c [c]).mpr rfl, ih.mpr rfl⟩

theorem rmatch_optional {part : RegularExpression Char} :
    (optional part).rmatch text = true ↔ text = [] ∨ part.rmatch text = true := by
  rw [optional, add_rmatch_iff, one_rmatch_iff]

/-- Any number of characters of a class. -/
theorem rmatch_star_oneOf : (oneOf chars).star.rmatch text = true ↔ ∀ c ∈ text, c ∈ chars := by
  rw [star_rmatch_iff]
  constructor
  · rintro ⟨parts, rfl, hparts⟩ c hc
    obtain ⟨part, hpart, hc⟩ := List.mem_flatten.mp hc
    obtain ⟨d, hd, rfl⟩ := rmatch_oneOf.mp (hparts part hpart).2
    rwa [List.mem_singleton.mp hc]
  · intro hall
    refine ⟨text.map fun c => [c], ?_, fun part hpart => ?_⟩
    · induction text with
      | nil => rfl
      | cons c text ih =>
          rw [List.map_cons, List.flatten_cons,
            ← ih fun d hd => hall d (List.mem_cons_of_mem _ hd), List.singleton_append]
    · obtain ⟨c, hc, rfl⟩ := List.mem_map.mp hpart
      exact ⟨by simp, rmatch_oneOf.mpr ⟨c, hall c hc, rfl⟩⟩

theorem rmatch_oneOrMore_oneOf :
    (oneOrMore (oneOf chars)).rmatch text = true ↔ text ≠ [] ∧ ∀ c ∈ text, c ∈ chars := by
  rw [oneOrMore, mul_rmatch_iff]
  constructor
  · rintro ⟨first, rest, rfl, hfirst, hrest⟩
    obtain ⟨c, hc, rfl⟩ := rmatch_oneOf.mp hfirst
    refine ⟨by simp, fun d hd => ?_⟩
    rcases List.mem_cons.mp hd with rfl | hd
    · exact hc
    · exact rmatch_star_oneOf.mp hrest d hd
  · rintro ⟨hne, hall⟩
    cases text with
    | nil => exact absurd rfl hne
    | cons c rest =>
        exact ⟨[c], rest, rfl, rmatch_oneOf.mpr ⟨c, hall c (List.mem_cons_self ..), rfl⟩,
          rmatch_star_oneOf.mpr fun d hd => hall d (List.mem_cons_of_mem _ hd)⟩

theorem rmatch_replicate_optional (n : ℕ) :
    (List.replicate n (optional (oneOf chars))).prod.rmatch text = true ↔
      text.length ≤ n ∧ ∀ c ∈ text, c ∈ chars := by
  induction n generalizing text with
  | zero => simp +contextual
  | succ n ih =>
      rw [List.replicate_succ, List.prod_cons, mul_rmatch_iff]
      constructor
      · rintro ⟨first, rest, rfl, hfirst, hrest⟩
        obtain ⟨hlength, hall⟩ := ih.mp hrest
        rcases rmatch_optional.mp hfirst with rfl | hfirst
        · exact ⟨by simpa using Nat.le_succ_of_le hlength, by simpa using hall⟩
        · obtain ⟨c, hc, rfl⟩ := rmatch_oneOf.mp hfirst
          exact ⟨by simpa using hlength, by simpa using ⟨hc, hall⟩⟩
      · rintro ⟨hlength, hall⟩
        cases text with
        | nil => exact ⟨[], [], rfl, rmatch_optional.mpr (Or.inl rfl), ih.mpr (by simp)⟩
        | cons c rest =>
            obtain ⟨hc, hrest⟩ := List.forall_mem_cons.mp hall
            exact ⟨[c], rest, rfl, rmatch_optional.mpr (Or.inr (rmatch_oneOf.mpr ⟨c, hc, rfl⟩)),
              ih.mpr ⟨by simpa using hlength, hrest⟩⟩

theorem rmatch_between_oneOf {least most : ℕ} (hle : least ≤ most) :
    (between least most (oneOf chars)).rmatch text = true ↔
      least ≤ text.length ∧ text.length ≤ most ∧ ∀ c ∈ text, c ∈ chars := by
  unfold between
  induction least generalizing most text with
  | zero =>
      rw [List.replicate_zero, List.nil_append, Nat.sub_zero, rmatch_replicate_optional]
      simp
  | succ least ih =>
      obtain ⟨most, rfl⟩ : ∃ fewer, most = fewer + 1 := ⟨most - 1, by omega⟩
      rw [List.replicate_succ, List.cons_append, List.prod_cons, mul_rmatch_iff,
        Nat.add_sub_add_right]
      constructor
      · rintro ⟨first, rest, rfl, hfirst, hrest⟩
        obtain ⟨c, hc, rfl⟩ := rmatch_oneOf.mp hfirst
        obtain ⟨hleast, hmost, hall⟩ := (ih (by omega)).mp hrest
        exact ⟨by simpa using hleast, by simpa using hmost, by simpa using ⟨hc, hall⟩⟩
      · rintro ⟨hleast, hmost, hall⟩
        cases text with
        | nil => simp at hleast
        | cons c rest =>
            obtain ⟨hc, hrest⟩ := List.forall_mem_cons.mp hall
            exact ⟨[c], rest, rfl, rmatch_oneOf.mpr ⟨c, hc, rfl⟩, (ih (by omega)).mpr
              ⟨by simpa using hleast, by simpa using hmost, hrest⟩⟩

end Library
end MediaPlayer
