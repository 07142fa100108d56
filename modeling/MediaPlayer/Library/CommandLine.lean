import MediaPlayer.Library.Text

/-!
# Command lines

The words of a command: the program, options that take the word after them, flags that take
none, and at the end the file that is written.

* `commandOptions`, `valuesOf` — the options with their values, and the values of one option.
* `splitText_intercalate` — a value that was joined at a separator is split back there.
-/

namespace MediaPlayer
namespace Library

/-! ## Options -/

/-- The options of a command with their values, in order. -/
def readOptions (flags : List String) : List String → List (String × String)
  | [] => []
  | [_] => []
  | word :: value :: rest =>
      if word ∈ flags then readOptions flags (value :: rest)
      else (word, value) :: readOptions flags rest

/-- The values of one option. -/
def valuesOf (option : String) (options : List (String × String)) : List String :=
  options.filterMap fun given => if given.1 = option then some given.2 else none

/-- The options of a command; its first word is the program. -/
def commandOptions (flags command : List String) : List (String × String) :=
  readOptions flags command.tail

theorem valuesOf_append (option : String) (first second : List (String × String)) :
    valuesOf option (first ++ second) = valuesOf option first ++ valuesOf option second :=
  List.filterMap_append

theorem valuesOf_eq_nil {option : String} {options : List (String × String)}
    (hoption : option ∉ options.map Prod.fst) : valuesOf option options = [] := by
  refine List.filterMap_eq_nil_iff.mpr fun given hgiven => if_neg ?_
  rintro rfl
  exact hoption (List.mem_map_of_mem hgiven)

section

variable {flags : List String}

theorem readOptions_flag {word : String} (hword : word ∈ flags) (rest : List String) :
    readOptions flags (word :: rest) = readOptions flags rest := by
  cases rest with
  | nil => rfl
  | cons value rest => exact if_pos hword

theorem readOptions_option {word : String} (hword : word ∉ flags) (value : String)
    (rest : List String) :
    readOptions flags (word :: value :: rest) = (word, value) :: readOptions flags rest :=
  if_neg hword

end

/-! ## Values that are lists -/

/-- The parts of a text between separators. -/
def splitText (separator : Char) (text : String) : List String :=
  (text.toList.splitOn separator).map String.ofList

theorem splitText_append {separator : Char} (first second : String) :
    splitText separator (first ++ String.singleton separator ++ second) =
      splitText separator first ++ splitText separator second := by
  unfold splitText
  rw [String.toList_append, String.toList_append, String.toList_singleton, List.append_assoc,
    List.singleton_append, List.splitOn_eq_splitOnP, List.splitOnP_append_cons _ _ (by simp),
    List.map_append]
  rfl

theorem splitText_of_not_mem {separator : Char} {text : String}
    (htext : separator ∉ text.toList) : splitText separator text = [text] := by
  unfold splitText
  rw [List.splitOn_eq_splitOnP, List.splitOnP_eq_singleton, List.map_singleton,
    String.ofList_toList]
  intro c hc
  simpa using fun heq : c = separator => htext (heq ▸ hc)

/-- Pieces that each end with the separator. -/
theorem splitOn_terminated {α : Type*} [DecidableEq α] {separator : α} {pieces : List (List α)}
    (hpieces : ∀ piece ∈ pieces, separator ∉ piece) :
    (pieces.flatMap (· ++ [separator])).splitOn separator = pieces ++ [[]] := by
  induction pieces with
  | nil => rfl
  | cons piece pieces ih =>
      have hpiece : piece.splitOnP (· == separator) = [piece] :=
        List.splitOnP_eq_singleton fun c hc => by
          simpa using fun heq : c = separator =>
            hpieces piece List.mem_cons_self (heq ▸ hc)
      have hrest := ih fun other hother => hpieces other (List.mem_cons_of_mem _ hother)
      rw [List.splitOn_eq_splitOnP] at hrest ⊢
      rw [List.flatMap_cons, List.append_assoc, List.singleton_append,
        List.splitOnP_append_cons _ _ (by simp), hpiece, hrest, List.singleton_append,
        List.cons_append]

/-- Parts without a separator are split back. -/
theorem splitText_intercalate {separator : Char} {parts : List String} (hne : parts ≠ [])
    (hparts : ∀ part ∈ parts, separator ∉ part.toList) :
    splitText separator ((String.singleton separator).intercalate parts) = parts := by
  have hsplit : ([separator].intercalate (parts.map String.toList)).splitOn separator =
      parts.map String.toList := by
    refine List.splitOn_intercalate separator ?_ (by simpa using hne)
    simpa using hparts
  unfold splitText
  rw [String.toList_intercalate, String.toList_singleton, hsplit, List.map_map]
  simp [Function.comp_def]

/-- The arguments of a filter in a chain of filters, `name=first:second`. -/
def filterArguments (name : String) (separator : Char) (filters : List String) :
    Option (List String) :=
  (filters.find? (startsWith · (name ++ "="))).map fun filter =>
    splitText separator (String.ofList (filter.toList.drop (name.length + 1)))

end Library
end MediaPlayer
