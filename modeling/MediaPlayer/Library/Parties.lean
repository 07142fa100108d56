import Mathlib.Data.List.AList
import Mathlib.Logic.Function.Basic

/-!
# The parties of a system, by name

A system of many parties keeps them under names, as a partial function or, where all
of them have to be looked at, as a finite map.  After a step one party has moved, come
or gone; the lemmas here split a statement about every party accordingly.
-/

namespace MediaPlayer
namespace Library

variable {ι β : Type*} [DecidableEq ι]

/-- Parties as a partial function: what holds of the others as before and of the one
that has changed holds of all. -/
theorem forall_update_some {f : ι → Option β} {i : ι} {v : Option β} {p : ι → β → Prop}
    (hold : ∀ j b, j ≠ i → f j = some b → p j b) (hnew : ∀ b, v = some b → p i b) (j : ι)
    (b : β) (hsome : Function.update f i v j = some b) : p j b := by
  by_cases hj : j = i
  · subst hj
    rw [Function.update_self] at hsome
    exact hnew b hsome
  · rw [Function.update_of_ne hj] at hsome
    exact hold j b hj hsome

/-- A finite map of parties. -/
abbrev Parties (ι β : Type*) := AList fun _ : ι => β

namespace Parties

variable {parties : Parties ι β}

/-- What holds of the others as before and of the one that has moved holds of all. -/
theorem forall_insert {i : ι} {v : β} {p : ι → β → Prop}
    (hold : ∀ j b, j ≠ i → parties.lookup j = some b → p j b) (hnew : p i v) (j : ι) (b : β)
    (hsome : (parties.insert i v).lookup j = some b) : p j b := by
  by_cases hj : j = i
  · subst hj
    rw [AList.lookup_insert] at hsome
    obtain rfl := Option.some.inj hsome
    exact hnew
  · rw [AList.lookup_insert_ne hj] at hsome
    exact hold j b hj hsome

/-- The parties that are left when one goes. -/
theorem lookup_erase_eq_some {i j : ι} {b : β} :
    (parties.erase i).lookup j = some b ↔ j ≠ i ∧ parties.lookup j = some b := by
  by_cases hj : j = i
  · subst hj
    simp [AList.lookup_erase]
  · rw [AList.lookup_erase_ne hj]
    exact (and_iff_right hj).symm

/-- The parties that meet a condition. -/
def filter (parties : Parties ι β) (p : ι → β → Bool) : Parties ι β where
  entries := parties.entries.filter fun party => p party.1 party.2
  nodupKeys := List.NodupKeys.sublist List.filter_sublist parties.nodupKeys

theorem lookup_filter (p : ι → β → Bool) (i : ι) :
    (parties.filter p).lookup i = (parties.lookup i).filter (p i) := by
  ext b
  rw [Option.filter_eq_some_iff]
  have hfiltered : (parties.filter p).lookup i = some b ↔
      ⟨i, b⟩ ∈ (parties.filter p).entries := AList.mem_lookup_iff
  have hentry : parties.lookup i = some b ↔ ⟨i, b⟩ ∈ parties.entries := AList.mem_lookup_iff
  rw [hfiltered, hentry]
  exact List.mem_filter

/-- Whether every party meets a condition. -/
def all (parties : Parties ι β) (p : ι → β → Bool) : Bool :=
  parties.entries.all fun party => p party.1 party.2

theorem all_iff {p : ι → β → Bool} :
    parties.all p = true ↔ ∀ i b, parties.lookup i = some b → p i b = true := by
  unfold all
  rw [List.all_eq_true]
  constructor
  · intro hall i b hsome
    exact hall ⟨i, b⟩ (AList.mem_lookup_iff.mp hsome)
  · intro hall party hparty
    exact hall party.1 party.2 (AList.mem_lookup_iff.mpr hparty)

/-- How many parties meet a condition. -/
def count (parties : Parties ι β) (p : ι → β → Bool) : ℕ :=
  parties.entries.countP fun party => p party.1 party.2

section Count

variable {p : ι → β → Bool} {i : ι} {b v : β}

theorem count_insert : Parties.count (parties.insert i v) p =
    Parties.count (parties.erase i) p + if p i v = true then 1 else 0 := by
  unfold count
  rw [AList.entries_insert, List.countP_cons]
  rfl

theorem count_of_lookup (hsome : parties.lookup i = some b) :
    Parties.count parties p =
      Parties.count (parties.erase i) p + if p i b = true then 1 else 0 := by
  have hmem : i ∈ parties.entries.keys := AList.lookup_isSome.mp (by rw [hsome]; rfl)
  obtain ⟨other, before, after, -, hentries, herased⟩ := List.exists_of_kerase hmem
  have hother : parties.lookup i = some other := by
    refine AList.mem_lookup_iff.mpr ?_
    rw [hentries]
    exact List.mem_append_right _ List.mem_cons_self
  obtain rfl := Option.some.inj (hsome.symm.trans hother)
  have herase : (parties.erase i).entries = before ++ after := herased
  unfold count
  rw [herase, hentries, List.countP_append, List.countP_append, List.countP_cons]
  exact (Nat.add_assoc _ _ _).symm

theorem erase_count_of_none (hnone : parties.lookup i = none) :
    Parties.count (parties.erase i) p = Parties.count parties p := by
  unfold count
  rw [show (parties.erase i).entries = parties.entries from
    List.kerase_of_notMem_keys (AList.lookup_eq_none.mp hnone)]

/-- A party that comes adds one at most. -/
theorem count_insert_le (hnone : parties.lookup i = none) :
    Parties.count (parties.insert i v) p ≤ Parties.count parties p + 1 := by
  rw [count_insert, erase_count_of_none hnone]
  split <;> omega

/-- A party that moves does not add to the count if it met the condition before. -/
theorem count_insert_le_of_lookup (hsome : parties.lookup i = some b)
    (hp : p i v = true → p i b = true) :
    Parties.count (parties.insert i v) p ≤ Parties.count parties p := by
  rw [count_insert, count_of_lookup hsome]
  split
  · rename_i hv
    rw [if_pos (hp hv)]
  · exact Nat.add_le_add_left (Nat.zero_le _) _

theorem count_insert_eq_of_lookup (hsome : parties.lookup i = some b) (hp : p i v = p i b) :
    Parties.count (parties.insert i v) p = Parties.count parties p := by
  rw [count_insert, count_of_lookup hsome, hp]

theorem count_insert_eq_of_none (hnone : parties.lookup i = none) (hp : p i v = false) :
    Parties.count (parties.insert i v) p = Parties.count parties p := by
  rw [count_insert, erase_count_of_none hnone, hp]
  rfl

end Count

end Parties

end Library
end MediaPlayer
