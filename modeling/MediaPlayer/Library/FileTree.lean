import Mathlib.Data.List.Nodup
import Mathlib.Logic.Function.Basic

/-!
# Trees of files

The files below a directory, each under its path, and what a program does with them.
Directories are not kept: one that holds no file leaves no trace.

* `moveAll_eq` — files moved one after the other, from places that differ to places that
  differ, all arrive; no other file is touched.
-/

namespace MediaPlayer
namespace Library

/-- A file for each path, a path being the names on the way to it. -/
abbrev FileTree (α : Type*) := List String → Option α

namespace FileTree

variable {α : Type*}

/-- No file. -/
def empty : FileTree α := fun _ => none

/-- Write a file, over the old one if there is one. -/
def write (tree : FileTree α) (path : List String) (file : α) : FileTree α :=
  Function.update tree path (some file)

/-- Remove a file. -/
def unlink (tree : FileTree α) (path : List String) : FileTree α := Function.update tree path none

/-- Rename a file, over the one at its destination; an error without one. -/
def move (tree : FileTree α) (source destination : List String) : Option (FileTree α) :=
  (tree source).map fun file => (tree.unlink source).write destination file

/-- Remove a directory with all that is in it. -/
def removeTree (tree : FileTree α) (directory : List String) : FileTree α :=
  fun path => if directory <+: path then none else tree path

/-- Lay other files out below a directory. -/
def extract (tree : FileTree α) (directory : List String) (files : FileTree α) : FileTree α :=
  fun path =>
    if directory <+: path then (files (path.drop directory.length)).or (tree path) else tree path

variable {tree : FileTree α} {path other : List String}

@[simp] theorem write_self (file : α) : tree.write path file path = some file :=
  Function.update_self ..

theorem write_of_ne (hne : other ≠ path) (file : α) : tree.write path file other = tree other :=
  Function.update_of_ne hne ..

@[simp] theorem unlink_self : tree.unlink path path = none := Function.update_self ..

theorem unlink_of_ne (hne : other ≠ path) : tree.unlink path other = tree other :=
  Function.update_of_ne hne ..

theorem removeTree_below {directory : List String} (hbelow : directory <+: path) :
    tree.removeTree directory path = none := if_pos hbelow

theorem removeTree_of_not_below {directory : List String} (hbelow : ¬directory <+: path) :
    tree.removeTree directory path = tree path := if_neg hbelow

@[simp] theorem extract_append (directory rest : List String) (files : FileTree α) :
    tree.extract directory files (directory ++ rest) =
      (files rest).or (tree (directory ++ rest)) := by
  unfold extract
  rw [if_pos (List.prefix_append ..), List.drop_left]

theorem extract_of_not_below {directory : List String} (hbelow : ¬directory <+: path)
    (files : FileTree α) : tree.extract directory files path = tree path := if_neg hbelow

/-! ## Many moves -/

/-- Move files one after the other. -/
def moveAll (tree : FileTree α) : List (List String × List String) → Option (FileTree α)
  | [] => some tree
  | (source, destination) :: moves =>
      (tree.move source destination).bind fun next => next.moveAll moves

theorem moveAll_append (tree : FileTree α) (moves more : List (List String × List String)) :
    tree.moveAll (moves ++ more) = (tree.moveAll moves).bind fun next => next.moveAll more := by
  induction moves generalizing tree with
  | nil => rfl
  | cons first moves ih =>
      simp only [List.cons_append, moveAll]
      cases tree.move first.1 first.2 with
      | none => rfl
      | some next => exact ih next

/-- Moves that do not get in each other's way: no two take the same file or make the same one,
and none makes a file that another takes. -/
structure Apart (moves : List (List String × List String)) : Prop where
  sources : (moves.map Prod.fst).Nodup
  destinations : (moves.map Prod.snd).Nodup
  disjoint : ∀ source ∈ moves.map Prod.fst, source ∉ moves.map Prod.snd

theorem Apart.tail {first : List String × List String} {moves : List (List String × List String)}
    (hapart : Apart (first :: moves)) : Apart moves where
  sources := (List.nodup_cons.mp hapart.sources).2
  destinations := (List.nodup_cons.mp hapart.destinations).2
  disjoint := fun source hsource hdestination =>
    hapart.disjoint source (List.mem_cons_of_mem _ hsource)
      (List.mem_cons_of_mem _ hdestination)

/-- Files that are all there, moved by moves that are apart, all arrive. -/
theorem moveAll_eq {moves : List (List String × List String)} (hapart : Apart moves)
    (hthere : ∀ source ∈ moves.map Prod.fst, tree source ≠ none) :
    ∃ next, tree.moveAll moves = some next ∧
      (∀ move ∈ moves, next move.2 = tree move.1) ∧
      ∀ path, path ∉ moves.map Prod.fst → path ∉ moves.map Prod.snd → next path = tree path := by
  induction moves generalizing tree with
  | nil => exact ⟨tree, rfl, by simp, fun _ _ _ => rfl⟩
  | cons first moves ih =>
      obtain ⟨source, destination⟩ := first
      obtain ⟨file, hfile⟩ := Option.ne_none_iff_exists'.mp (hthere source (by simp))
      have hnewSource : source ∉ moves.map Prod.fst := (List.nodup_cons.mp hapart.sources).1
      have hnewDestination : destination ∉ moves.map Prod.snd :=
        (List.nodup_cons.mp hapart.destinations).1
      -- The first move touches only what it takes and what it makes.
      let after := (tree.unlink source).write destination file
      have hafter : ∀ path, path ≠ source → path ≠ destination → after path = tree path :=
        fun path hsource hdestination =>
          (write_of_ne hdestination file).trans (unlink_of_ne hsource)
      have hlaterSource : ∀ path ∈ moves.map Prod.fst, after path = tree path := by
        intro path hpath
        refine hafter path (fun heq => hnewSource (heq ▸ hpath)) fun heq => ?_
        exact hapart.disjoint path (List.mem_cons_of_mem _ hpath) (by simp [heq])
      obtain ⟨next, hnext, harrived, hkept⟩ := @ih after hapart.tail fun path hpath => by
        rw [hlaterSource path hpath]
        exact hthere path (List.mem_cons_of_mem _ hpath)
      refine ⟨next, ?_, fun move hmove => ?_, fun path hsource hdestination => ?_⟩
      · simp only [moveAll, move, hfile, Option.map_some, Option.bind_some]
        exact hnext
      · rcases List.mem_cons.mp hmove with rfl | hlater
        · have hstays : destination ∉ moves.map Prod.fst := fun hmem =>
            hapart.disjoint destination (List.mem_cons_of_mem _ hmem) (by simp)
          rw [hkept destination hstays hnewDestination, hfile]
          exact write_self file
        · rw [harrived move hlater,
            hlaterSource move.1 (List.mem_map.mpr ⟨move, hlater, rfl⟩)]
      · rw [List.map_cons, List.mem_cons, not_or] at hsource hdestination
        rw [hkept path hsource.2 hdestination.2, hafter path hsource.1 hdestination.1]

end FileTree

end Library
end MediaPlayer
