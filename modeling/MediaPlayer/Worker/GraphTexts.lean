import MediaPlayer.Library.CommandLine
import MediaPlayer.Worker.VideoFilters

/-!
# The text of a graph

What FFmpeg reads of the text that `_ladder_filter` of `app/worker/hls.py` joins.

* `readGraph` — the parts of a graph with the links they take and make.
* `GraphLabel.text_injective` — different links have different texts.
* `readGraph_text` — a graph whose filters hold no bracket and no semicolon is read part by part.
-/

namespace MediaPlayer
namespace Worker

open Library

/-! ## What is read -/

/-- One part of a graph: the links it takes, the filters between commas, the links it makes. -/
structure ReadPart where
  inputs : List String
  filters : List String
  outputs : List String
  deriving DecidableEq

/-- `[in]filter,filter[out][out]`; every link ends with a bracket. -/
def readPart (text : String) : ReadPart :=
  let pieces := (text.toList.splitOn ']').dropLast
  let links := pieces.dropWhile (·.head? = some '[')
  { inputs := (pieces.takeWhile (·.head? = some '[')).map fun piece =>
      String.ofList (piece ++ [']'])
    -- A comma parts here even where it is escaped, as in the rate cap.
    filters := splitText ',' (String.ofList ((links.head?.getD []).takeWhile (· ≠ '[')))
    outputs := links.map fun piece => String.ofList (piece.dropWhile (· ≠ '[') ++ [']']) }

/-- The parts of a graph, as FFmpeg reads them. -/
def readGraph (text : String) : List ReadPart := (splitText ';' text).map readPart

/-! ## What is written -/

/-- Characters that stand in a filter, not between the parts of a graph. -/
def Unlinked (text : List Char) : Prop := ∀ c ∈ text, c ≠ '[' ∧ c ≠ ']' ∧ c ≠ ';'

instance (text : List Char) : Decidable (Unlinked text) := List.decidableBAll _ text

@[simp] theorem unlinked_append {first second : List Char} :
    Unlinked (first ++ second) ↔ Unlinked first ∧ Unlinked second :=
  List.forall_mem_append

theorem unlinked_int (n : ℤ) : Unlinked (toString n).toList := by
  refine fun c hc => ⟨?_, ?_, ?_⟩ <;> rintro rfl <;>
    exact not_mem_toString_int (by decide) (by decide) n hc

theorem unlinked_nat (n : ℕ) : Unlinked (toString n).toList := unlinked_int n

theorem unlinked_intercalate {texts : List String} (htexts : ∀ text ∈ texts, Unlinked text.toList) :
    Unlinked (",".intercalate texts).toList := by
  induction texts with
  | nil => exact fun c hc => by simp at hc
  | cons text texts ih =>
      have htext := htexts text List.mem_cons_self
      have hrest := ih fun other hother => htexts other (List.mem_cons_of_mem _ hother)
      cases texts with
      | nil => rwa [String.intercalate_singleton]
      | cons next texts =>
          rw [String.intercalate_cons_cons, String.toList_append, String.toList_append,
            unlinked_append, unlinked_append]
          exact ⟨⟨htext, by decide⟩, hrest⟩

/-- What stands between the brackets of a label. -/
def GraphLabel.name : GraphLabel → List Char
  | video => ['0', ':', 'v']
  | source height => 's' :: (toString height).toList
  | anchor height => 'a' :: (toString height).toList
  | out index => 'v' :: ((toString index).toList ++ ['o', 'u', 't'])

theorem toList_text (label : GraphLabel) : label.text.toList = '[' :: (label.name ++ [']']) := by
  cases label with
  | video => rfl
  | source height =>
      show ("[s" ++ toString height ++ "]").toList = _
      simp [GraphLabel.name]
  | anchor height =>
      show ("[a" ++ toString height ++ "]").toList = _
      simp [GraphLabel.name]
  | out index =>
      show ("[v" ++ toString index ++ "out]").toList = _
      simp [GraphLabel.name]

theorem unlinked_name (label : GraphLabel) : Unlinked label.name := by
  cases label with
  | video => decide
  | source height => exact List.forall_mem_cons.mpr ⟨by decide, unlinked_nat height⟩
  | anchor height => exact List.forall_mem_cons.mpr ⟨by decide, unlinked_nat height⟩
  | out index =>
      exact List.forall_mem_cons.mpr
        ⟨by decide, unlinked_append.mpr ⟨unlinked_nat index, by decide⟩⟩

/-- Different labels have different texts: the letter tells the kind, the rest the number. -/
theorem text_injective : Function.Injective GraphLabel.text := by
  intro first second hsame
  have hlists := congrArg String.toList hsame
  rw [toList_text, toList_text, List.cons.injEq, List.append_cancel_right_eq] at hlists
  have hnames := hlists.2
  cases first <;> cases second <;> simp_all [GraphLabel.name]
  -- Two of one kind are left, whose numbers read the same.
  all_goals exact eq_of_repr (by rwa [Nat.toList_repr, Nat.toList_repr])

section

variable {numbers : NumberTexts}

/-- The filters of a part, as they stand in its text. -/
def GraphPart.chain (numbers : NumberTexts) (part : GraphPart) : String :=
  ",".intercalate (part.filters.map (·.text numbers) ++
    if part.split then [s!"split={part.outputs.length}"] else [])

/-- What is read of a part. -/
def GraphPart.read (numbers : NumberTexts) (part : GraphPart) : ReadPart where
  inputs := [part.input.text]
  filters := splitText ',' (part.chain numbers)
  outputs := part.outputs.map GraphLabel.text

/-- The chain of a part says something, and none of it is read as a link. -/
structure GraphPart.Plain (numbers : NumberTexts) (part : GraphPart) : Prop where
  chain : Unlinked (part.chain numbers).toList
  nonempty : part.chain numbers ≠ ""
  outputs : part.outputs ≠ []

/-- The pieces of a part, each up to the bracket that ends it. -/
theorem toList_part (part : GraphPart) {first : GraphLabel} {others : List GraphLabel}
    (houtputs : part.outputs = first :: others) :
    (part.text numbers).toList = (('[' :: part.input.name) ::
      ((part.chain numbers).toList ++ '[' :: first.name) ::
        others.map fun label => '[' :: label.name).flatMap (· ++ [']']) := by
  have htext : part.text numbers =
      part.input.text ++ part.chain numbers ++ String.join (part.outputs.map GraphLabel.text) := rfl
  rw [htext, houtputs, String.toList_append, String.toList_append, String.toList_join,
    List.flatMap_map, List.flatMap_cons, List.flatMap_cons, List.flatMap_cons, List.flatMap_map,
    toList_text, toList_text]
  have hothers : (others.flatMap fun label => label.text.toList) =
      others.flatMap fun label => '[' :: label.name ++ [']'] :=
    List.flatMap_congr fun label _ => toList_text label
  rw [hothers]
  simp [List.append_assoc]

theorem dropWhile_of_unlinked {text : List Char} (htext : Unlinked text) (rest : List Char) :
    (text ++ '[' :: rest).dropWhile (· ≠ '[') = '[' :: rest ∧
      (text ++ '[' :: rest).takeWhile (· ≠ '[') = text := by
  have hbefore : ∀ c ∈ text, decide (c ≠ '[') = true := fun c hc =>
    decide_eq_true (htext c hc).1
  constructor
  · rw [List.dropWhile_append_of_pos hbefore, List.dropWhile_cons_of_neg (by simp)]
  · rw [List.takeWhile_append_of_pos hbefore, List.takeWhile_cons_of_neg (by simp),
      List.append_nil]

/-- A plain part is read as it was put together. -/
theorem readPart_text {part : GraphPart} (hplain : part.Plain numbers) :
    readPart (part.text numbers) = part.read numbers := by
  obtain ⟨first, others, houtputs⟩ := List.exists_cons_of_ne_nil hplain.outputs
  have hbracket : ∀ label : GraphLabel, ']' ∉ '[' :: label.name := fun label hmem =>
    (unlinked_name label ']' ((List.mem_cons.mp hmem).resolve_left (by decide))).2.1 rfl
  have hpieces : (part.text numbers).toList.splitOn ']' = (('[' :: part.input.name) ::
      ((part.chain numbers).toList ++ '[' :: first.name) ::
        others.map fun label => '[' :: label.name) ++ [[]] := by
    rw [toList_part part houtputs]
    refine splitOn_terminated fun piece hpiece => ?_
    rcases List.mem_cons.mp hpiece with rfl | hpiece
    · exact hbracket part.input
    · rcases List.mem_cons.mp hpiece with rfl | hpiece
      · rw [List.mem_append, not_or]
        exact ⟨fun hmem => (hplain.chain ']' hmem).2.1 rfl, hbracket first⟩
      · obtain ⟨label, -, rfl⟩ := List.mem_map.mp hpiece
        exact hbracket label
  -- The chain tells the links it takes from those it makes.
  have hhead : ((part.chain numbers).toList ++ '[' :: first.name).head? ≠ some '[' := by
    obtain ⟨c, rest, hchain⟩ := List.exists_cons_of_ne_nil
      (fun hnil => hplain.nonempty (String.toList_eq_nil_iff.mp hnil))
    have hc := (hplain.chain c (by simp [hchain])).1
    simpa [hchain] using hc
  have hlabel : ∀ label : GraphLabel,
      String.ofList ('[' :: label.name ++ [']']) = label.text := fun label => by
    rw [← String.toList_inj, String.toList_ofList, toList_text]
    rfl
  obtain ⟨hdrop, htake⟩ := dropWhile_of_unlinked hplain.chain first.name
  unfold readPart
  rw [hpieces, List.dropLast_concat]
  dsimp only
  rw [List.takeWhile_cons_of_pos (by simp), List.takeWhile_cons_of_neg (by simpa using hhead),
    List.dropWhile_cons_of_pos (by simp), List.dropWhile_cons_of_neg (by simpa using hhead)]
  simp only [List.map_cons, List.map_nil, List.head?_cons, Option.getD_some, List.map_map]
  rw [hdrop, htake, String.ofList_toList, hlabel, hlabel]
  unfold GraphPart.read
  rw [houtputs, List.map_cons]
  congr 2
  refine List.map_congr_left fun label _ => ?_
  rw [Function.comp_apply, List.dropWhile_cons_of_neg (by simp), hlabel]

example : readPart "[s1080]scale=-2:1080,split=2[v2out][a360]" =
    ⟨["[s1080]"], ["scale=-2:1080", "split=2"], ["[v2out]", "[a360]"]⟩ := by decide

/-- A graph of plain parts is read part by part. -/
theorem readGraph_text {graph : List GraphPart} (hne : graph ≠ [])
    (hplain : ∀ part ∈ graph, part.Plain numbers) :
    readGraph (";".intercalate (graph.map (·.text numbers))) = graph.map (·.read numbers) := by
  have hsplit : splitText ';' (";".intercalate (graph.map (·.text numbers))) =
      graph.map (·.text numbers) := by
    refine splitText_intercalate (by simpa using hne) fun text htext => ?_
    obtain ⟨part, hpart, rfl⟩ := List.mem_map.mp htext
    obtain ⟨first, others, houtputs⟩ := List.exists_cons_of_ne_nil (hplain part hpart).outputs
    have hname : ∀ label : GraphLabel, ';' ∉ '[' :: label.name := fun label hmem =>
      (unlinked_name label ';' ((List.mem_cons.mp hmem).resolve_left (by decide))).2.2 rfl
    rw [toList_part part houtputs]
    intro hmem
    obtain ⟨piece, hpiece, hmem⟩ := List.mem_flatMap.mp hmem
    replace hmem := (List.mem_append.mp hmem).resolve_right (by decide)
    rcases List.mem_cons.mp hpiece with rfl | hpiece
    · exact hname part.input hmem
    · rcases List.mem_cons.mp hpiece with rfl | hpiece
      · rcases List.mem_append.mp hmem with hmem | hmem
        · exact ((hplain part hpart).chain ';' hmem).2.2 rfl
        · exact hname first hmem
      · obtain ⟨label, -, rfl⟩ := List.mem_map.mp hpiece
        exact hname label hmem
  rw [readGraph, hsplit, List.map_map]
  exact List.map_congr_left fun part hpart => readPart_text (hplain part hpart)

end

end Worker
end MediaPlayer
