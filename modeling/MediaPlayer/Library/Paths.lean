import Mathlib.Data.List.Infix
import Mathlib.Data.String.Basic
import MediaPlayer.Library.Text

/-!
# Paths

A path is a text with slashes in it, and its components are what stands between them.

* `components_append`, `components_intercalate` — components and texts.
* `prefix_of_startsWith` — a path in a folder has the folder's components before its own.
* `pathParts`, `pathParent` — what `PurePosixPath` makes of a path: it drops empty components
  and dots.
* `eq_of_filtered_front` — a list, and what a filter leaves of it, name the same element after
  themselves.
-/

namespace MediaPlayer
namespace Library

/-! ## Components -/

/-- `path.split("/")`. -/
def components (path : String) : List String := (path.toList.splitOn '/').map String.ofList

/-- With one character as the separator both loops stop at the same places. -/
theorem splitOnAux_slash (path : String) (start position : String.Pos.Raw)
    (parts : List String) :
    String.splitOnAux path "/" start position 0 parts =
      String.splitAux path (· == '/') start position parts := by
  have hget : String.Pos.Raw.get "/" 0 = '/' := rfl
  fun_induction String.splitAux path (· == '/') start position parts with
  | case1 start position parts hend parts' =>
      rw [String.splitOnAux]
      simp [hend, parts']
  | case2 start position parts hend hlt hslash next ih =>
      have hnext : String.Pos.Raw.next "/" 0 = ⟨1⟩ := rfl
      have hover : String.Pos.Raw.atEnd "/" ⟨1⟩ = true := rfl
      have hback : (position.next path).unoffsetBy ⟨1⟩ = position := by
        have hchar : position.get path = '/' := by simpa using hslash
        apply String.Pos.Raw.ext
        simp only [String.Pos.Raw.next, hchar, String.Pos.Raw.unoffsetBy]
        rfl
      rw [String.splitOnAux, if_neg hend]
      simp only [hget, hslash, if_true, hnext, hover, hback]
      exact ih
  | case3 start position parts hend hlt hslash ih =>
      have hback : position.unoffsetBy 0 = position := rfl
      rw [String.splitOnAux, if_neg hend, hget, if_neg hslash, hback]
      exact ih

theorem splitOn_slash (path : String) : path.splitOn "/" = components path := by
  have hne : ("/" == "") = false := by decide
  have hsplit := String.splitToList_of_valid path (· == '/')
  unfold String.splitOn
  rw [hne, if_neg Bool.false_ne_true, splitOnAux_slash]
  exact hsplit

theorem components_append (folder name : String) :
    components (folder ++ "/" ++ name) = components folder ++ components name := by
  have hsep : ("/" : String).toList = ['/'] := rfl
  unfold components
  rw [String.toList_append, String.toList_append, hsep, List.append_assoc, List.singleton_append,
    List.splitOn_eq_splitOnP, List.splitOnP_append_cons _ _ (by decide), List.map_append]
  rfl

/-- A text without a slash is one component. -/
theorem components_of_not_mem {name : String} (hname : '/' ∉ name.toList) :
    components name = [name] := by
  unfold components
  rw [List.splitOn_eq_splitOnP, List.splitOnP_eq_singleton, List.map_singleton,
    String.ofList_toList]
  intro c hc
  simpa using fun heq : c = '/' => hname (heq ▸ hc)

theorem components_name {folder name : String} (hname : '/' ∉ name.toList) :
    components (folder ++ "/" ++ name) = components folder ++ [name] := by
  rw [components_append, components_of_not_mem hname]

theorem components_ne_nil (path : String) : components path ≠ [] := by
  simp [components]

theorem components_intercalate {parts : List String} (hne : parts ≠ [])
    (hparts : ∀ part ∈ parts, '/' ∉ part.toList) :
    components ("/".intercalate parts) = parts := by
  have hsplit : (['/'].intercalate (parts.map String.toList)).splitOn '/' =
      parts.map String.toList := by
    refine List.splitOn_intercalate '/' ?_ (by simpa using hne)
    simpa using hparts
  have hsep : ("/" : String).toList = ['/'] := rfl
  unfold components
  rw [String.toList_intercalate, hsep, hsplit, List.map_map]
  simp [Function.comp_def]

theorem not_mem_of_mem_splitOn {α : Type*} [DecidableEq α] {separator : α} {xs part : List α}
    (hpart : part ∈ xs.splitOn separator) : separator ∉ part := by
  induction xs generalizing part with
  | nil =>
      obtain rfl := List.mem_singleton.mp hpart
      exact List.not_mem_nil
  | cons x xs ih =>
      rw [List.splitOn_cons_eq_if_modifyHead] at hpart
      split at hpart
      · rcases List.mem_cons.mp hpart with rfl | hrest
        · exact List.not_mem_nil
        · exact ih hrest
      · rename_i hx
        have hne : separator ≠ x := fun heq => hx (by simp [heq])
        cases hsplit : xs.splitOn separator with
        | nil => exact absurd hsplit (List.splitOn_ne_nil separator xs)
        | cons first others =>
            rw [hsplit, List.modifyHead_cons] at hpart
            rcases List.mem_cons.mp hpart with rfl | hrest
            · have hfirst : separator ∉ first := ih (hsplit ▸ List.mem_cons_self)
              exact fun hmem => (List.mem_cons.mp hmem).elim hne hfirst
            · exact ih (hsplit ▸ List.mem_cons_of_mem _ hrest)

theorem slash_not_mem_component {path part : String} (hpart : part ∈ components path) :
    '/' ∉ part.toList := by
  obtain ⟨chars, hchars, rfl⟩ := List.mem_map.mp hpart
  rw [String.toList_ofList]
  exact not_mem_of_mem_splitOn hchars

/-- A path that starts with a folder. -/
theorem exists_of_startsWith {path folder : String} (hstarts : startsWith path folder = true) :
    ∃ name, path = folder ++ name := by
  obtain ⟨rest, hrest⟩ := List.isPrefixOf_iff_prefix.mp hstarts
  refine ⟨String.ofList rest, String.toList_inj.mp ?_⟩
  rw [String.toList_append, String.toList_ofList, hrest]

theorem components_startsWith {path folder : String}
    (hstarts : startsWith path (folder ++ "/") = true) :
    ∃ rest, rest ≠ [] ∧ components path = components folder ++ rest := by
  obtain ⟨name, rfl⟩ := exists_of_startsWith hstarts
  exact ⟨components name, components_ne_nil name, components_append folder name⟩

/-! ## `PurePosixPath` -/

/-- What is no part of a path: nothing between two slashes, and a dot. -/
def isPart (component : String) : Bool := component ≠ "" ∧ component ≠ "."

/-- The parts of a path, without its root. -/
def pathParts (path : String) : List String := (path.splitOn "/").filter isPart

/-- Two slashes at the beginning stay two, any other number is one. -/
def pathRoot (path : String) : String :=
  if startsWith path "//" ∧ ¬startsWith path "///" then "//"
  else if startsWith path "/" then "/" else ""

/-- `str(PurePosixPath(path).parent)`. -/
def pathParent (path : String) : String :=
  let parent := pathRoot path ++ "/".intercalate (pathParts path).dropLast
  if parent = "" then "." else parent

/-! ## Prefixes -/

/-- Take what a filter leaves of a list, and then an element it would leave: where that begins
what the list continues with, nothing was filtered out and the element comes next. -/
theorem eq_of_filtered_front {α : Type*} {keep : α → Bool} {front : List α} {a b : α}
    {rest : List α} (ha : keep a = true)
    (hbegins : front.filter keep ++ [a] <+: front ++ b :: rest) :
    front.filter keep = front ∧ a = b := by
  induction front with
  | nil =>
      obtain ⟨hab, -⟩ := List.cons_prefix_cons.mp hbegins
      exact ⟨rfl, hab⟩
  | cons c front ih =>
      by_cases hc : keep c = true
      · rw [List.filter_cons_of_pos hc, List.cons_append, List.cons_append,
          List.cons_prefix_cons] at hbegins
        obtain ⟨hfront, hab⟩ := ih hbegins.2
        exact ⟨by rw [List.filter_cons_of_pos hc, hfront], hab⟩
      · -- What comes first on the left is kept, and `c` is not.
        rw [List.filter_cons_of_neg hc] at hbegins
        exfalso
        cases hfilter : front.filter keep with
        | nil =>
            rw [hfilter] at hbegins
            obtain ⟨hac, -⟩ := List.cons_prefix_cons.mp hbegins
            exact hc (hac ▸ ha)
        | cons first others =>
            have hfirst : first ∈ front.filter keep := hfilter ▸ List.mem_cons_self
            rw [hfilter] at hbegins
            obtain ⟨hsame, -⟩ := List.cons_prefix_cons.mp hbegins
            exact hc (hsame ▸ (List.mem_filter.mp hfirst).2)

end Library
end MediaPlayer
