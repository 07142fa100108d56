import MediaPlayer.Library.Lines

/-!
# Keys in a text

A value is read after its key, so it matters where in a text the key stands.

* `Skips.append`, `Skips.not_contains` — a text that no match begins in.
* `searchNumber_append`, `searchNumber_hit` — the number after a key.
* `occurrences` — how often a key stands in a text.
-/

namespace MediaPlayer
namespace Library

/-- How often a text begins anew with this key. -/
def countStarts (key text : List Char) : ℕ := text.tails.countP fun rest => key.isPrefixOf rest

/-- How often a key stands in a text. -/
def occurrences (key text : String) : ℕ := countStarts key.toList text.toList

/-! ## Texts without the key -/

section

variable {key left right rest : List Char}

theorem Skips.tail {c : Char} {text : List Char} (hskips : Skips key (c :: text)) :
    Skips key text := fun tail htail =>
  hskips tail ((List.mem_tails _ _).mpr
    (((List.mem_tails _ _).mp htail).trans (List.suffix_cons ..)))

theorem Skips.append (hleft : Skips key left) (hright : Skips key right) :
    Skips key (left ++ right) := by
  induction left with
  | nil => exact hright
  | cons c left ih =>
      intro rest hrest hne hstarts
      rw [List.cons_append, List.tails_cons] at hrest
      rcases List.mem_cons.mp hrest with rfl | hrest
      · refine hleft (c :: left) ((List.mem_tails _ _).mpr List.suffix_rfl) (by simp) ?_
        have htake : (c :: left).take key.length <+: (c :: (left ++ right)).take key.length := by
          rw [← List.cons_append, List.take_append]
          exact List.prefix_append ..
        exact htake.trans hstarts
      · exact ih hleft.tail rest hrest hne hstarts

/-- What follows such a text does not make the key begin in it. -/
theorem Skips.miss {c : Char} {text : List Char} (hskips : Skips key (c :: text))
    (rest : List Char) : key.isPrefixOf (c :: (text ++ rest)) = false := by
  refine (Bool.not_eq_true _).mp fun hhit => ?_
  have hstarts : key <+: (c :: text) ++ rest := List.isPrefixOf_iff_prefix.mp hhit
  refine hskips (c :: text) ((List.mem_tails _ _).mpr List.suffix_rfl) (by simp) ?_
  refine List.prefix_of_prefix_length_le ?_ hstarts (List.length_take_le ..)
  exact (List.take_prefix ..).trans (List.prefix_append ..)

theorem Skips.not_infix (hskips : Skips key left) (hkey : key ≠ []) : ¬key <:+: left := by
  rintro ⟨before, after, rfl⟩
  refine hskips (key ++ after) ((List.mem_tails _ _).mpr ?_) (by simp [hkey]) ?_
  · exact ⟨before, (List.append_assoc ..).symm⟩
  · rw [List.take_left]

theorem Skips.not_contains {key text : String} (hskips : Skips key.toList text.toList)
    (hkey : key.toList ≠ []) : contains text key = false :=
  decide_eq_false (hskips.not_infix hkey)

/-! ## The number after a key -/

theorem searchNumber_append (hskips : Skips key left) (rest : List Char) :
    searchNumber key (left ++ rest) = searchNumber key rest := by
  induction left with
  | nil => rfl
  | cons c left ih =>
      rw [List.cons_append, searchNumber, hskips.miss rest]
      simpa using ih hskips.tail

/-- At the end of a text all that follows the key is its number. -/
theorem searchNumber_hit {number : List Char} (hkey : key ≠ []) (hnumber : number ≠ [])
    (hdigits : ∀ c ∈ number, (c.isDigit || c == '.') = true) :
    searchNumber key (key ++ number) = some number := by
  cases key with
  | nil => exact absurd rfl hkey
  | cons c key =>
      have hdrop : ((c :: key) ++ number).drop (c :: key).length = number := List.drop_left ..
      have hstarts : (c :: key).isPrefixOf ((c :: key) ++ number) = true :=
        List.isPrefixOf_iff_prefix.mpr (List.prefix_append ..)
      rw [List.cons_append] at hdrop hstarts ⊢
      rw [searchNumber]
      simp only [hdrop, hstarts, List.takeWhile_eq_self_iff.mpr hdigits]
      simp [hnumber]

/-! ## How often a key occurs -/

theorem countStarts_append (hskips : Skips key left) (rest : List Char) :
    countStarts key (left ++ rest) = countStarts key rest := by
  induction left with
  | nil => rfl
  | cons c left ih =>
      have hmiss := hskips.miss rest
      rw [← ih hskips.tail]
      simp [countStarts, hmiss]

theorem countStarts_of_skips (hskips : Skips key left) (hkey : key ≠ []) :
    countStarts key left = 0 := by
  have hend : countStarts key [] = 0 := by
    cases key with
    | nil => exact absurd rfl hkey
    | cons c key => rfl
  rw [← List.append_nil left, countStarts_append hskips, hend]

/-- A key that begins with a character of its own occurs once where it is followed by none. -/
theorem countStarts_key {first : Char} (hfirst : first ∉ key) (hrest : first ∉ rest) :
    countStarts (first :: key) ((first :: key) ++ rest) = 1 := by
  have hafter : countStarts (first :: key) (key ++ rest) = 0 := by
    rw [countStarts_append (Skips.of_head hfirst)]
    exact countStarts_of_skips (Skips.of_head hrest) (by simp)
  have hstarts : (first :: key).isPrefixOf (first :: (key ++ rest)) = true :=
    List.isPrefixOf_iff_prefix.mpr (List.prefix_append (first :: key) rest)
  unfold countStarts at hafter ⊢
  rw [List.cons_append, List.tails_cons, List.countP_cons_of_pos hstarts, hafter]

end

end Library
end MediaPlayer
