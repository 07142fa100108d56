import MediaPlayer.Library.Text

/-!
# Texts made of lines

Python's `str.splitlines`, `"\n".join(lines) + "\n"` and `pattern in text`.

* `splitLines_joinLines` — lines that are joined are split back.
* `contains_joinLines` — a pattern without a line break occurs in a text if it occurs in a
  line.
-/

namespace MediaPlayer
namespace Library

/-- The characters `str.splitlines` breaks a text at. -/
def isLineBreak (c : Char) : Bool :=
  let n := c.toNat
  (10 ≤ n && n ≤ 13) || (28 ≤ n && n ≤ 30) || n == 0x85 || n == 0x2028 || n == 0x2029

/-- `splitlines` with the line so far, in reverse. -/
def splitLinesFrom (current : List Char) : List Char → List (List Char)
  | [] => if current = [] then [] else [current.reverse]
  | '\r' :: '\n' :: rest => current.reverse :: splitLinesFrom [] rest
  | c :: rest =>
      if isLineBreak c then current.reverse :: splitLinesFrom [] rest
      else splitLinesFrom (c :: current) rest

/-- `text.splitlines()`. -/
def splitLines (text : String) : List String :=
  (splitLinesFrom [] text.toList).map String.ofList

/-- `"\n".join(lines) + "\n"`. -/
def joinLines (lines : List String) : String := "\n".intercalate lines ++ "\n"

/-- `pattern in text`. -/
def contains (text pattern : String) : Bool := decide (pattern.toList <:+: text.toList)

/-- A line `splitlines` does not break. -/
def BreakFree (line : String) : Prop := ∀ c ∈ line.toList, isLineBreak c = false

instance (line : String) : Decidable (BreakFree line) :=
  List.decidableBAll _ line.toList

@[simp] theorem breakFree_append {left right : String} :
    BreakFree (left ++ right) ↔ BreakFree left ∧ BreakFree right := by
  simp [BreakFree, or_imp, forall_and]

theorem toList_joinLines {lines : List String} (hne : lines ≠ []) :
    (joinLines lines).toList = lines.flatMap fun line => line.toList ++ ['\n'] := by
  unfold joinLines
  induction lines with
  | nil => exact absurd rfl hne
  | cons line lines ih =>
      cases lines with
      | nil => simp [String.intercalate_singleton]
      | cons next lines =>
          rw [String.intercalate_cons_cons, String.append_assoc, String.append_assoc,
            String.toList_append, String.toList_append, ih (by simp)]
          simp

theorem splitLinesFrom_append {line : List Char} (hfree : ∀ c ∈ line, isLineBreak c = false)
    (current rest : List Char) :
    splitLinesFrom current (line ++ '\n' :: rest) =
      (current.reverse ++ line) :: splitLinesFrom [] rest := by
  induction line generalizing current with
  | nil => simp [splitLinesFrom, show isLineBreak '\n' = true from rfl]
  | cons c line ih =>
      have hc : isLineBreak c = false := hfree c (List.mem_cons_self ..)
      have hcr : c ≠ '\r' := by
        rintro rfl
        exact absurd hc (by decide)
      have hstep : splitLinesFrom current (c :: (line ++ '\n' :: rest)) =
          splitLinesFrom (c :: current) (line ++ '\n' :: rest) := by
        rw [splitLinesFrom.eq_3]
        · simp [hc]
        · rintro _ h -
          exact hcr h
      rw [List.cons_append, hstep, ih fun d hd => hfree d (List.mem_cons_of_mem _ hd)]
      simp

/-- Lines that are joined are split back. -/
theorem splitLines_joinLines {lines : List String} (hne : lines ≠ [])
    (hfree : ∀ line ∈ lines, BreakFree line) : splitLines (joinLines lines) = lines := by
  unfold splitLines
  rw [toList_joinLines hne]
  clear hne
  induction lines with
  | nil => rfl
  | cons line lines ih =>
      have hline : BreakFree line := hfree line (List.mem_cons_self ..)
      rw [List.flatMap_cons, List.append_assoc, List.singleton_append,
        splitLinesFrom_append hline, List.map_cons,
        ih fun other hother => hfree other (List.mem_cons_of_mem _ hother)]
      simp

/-- The lines of a text, with the part before it that is kept in `current`, are pieces of
it without a line break. -/
theorem mem_splitLinesFrom {current text line : List Char}
    (hcurrent : ∀ c ∈ current, isLineBreak c = false) (hline : line ∈ splitLinesFrom current text) :
    (∀ c ∈ line, isLineBreak c = false) ∧ line <:+: current.reverse ++ text := by
  induction current, text using splitLinesFrom.induct with
  | case1 => simp [splitLinesFrom] at hline
  | case2 current hne =>
      rw [splitLinesFrom, if_neg hne] at hline
      obtain rfl := List.mem_singleton.mp hline
      exact ⟨by simpa using hcurrent, by simp⟩
  | case3 current rest ih =>
      rw [splitLinesFrom] at hline
      rcases List.mem_cons.mp hline with rfl | hline
      · exact ⟨by simpa using hcurrent, List.infix_append_left⟩
      · obtain ⟨hfree, hwithin⟩ := ih (by simp) hline
        refine ⟨hfree, hwithin.trans ⟨current.reverse ++ ['\r', '\n'], [], by simp⟩⟩
  | case4 current c rest hcr hbreak ih =>
      rw [splitLinesFrom.eq_3 _ _ _ hcr, if_pos hbreak] at hline
      rcases List.mem_cons.mp hline with rfl | hline
      · exact ⟨by simpa using hcurrent, List.infix_append_left⟩
      · obtain ⟨hfree, hwithin⟩ := ih (by simp) hline
        exact ⟨hfree, hwithin.trans ⟨current.reverse ++ [c], [], by simp⟩⟩
  | case5 current c rest hcr hbreak ih =>
      rw [splitLinesFrom.eq_3 _ _ _ hcr, if_neg hbreak] at hline
      obtain ⟨hfree, hwithin⟩ :=
        ih (List.forall_mem_cons.mpr ⟨(Bool.not_eq_true _).mp hbreak, hcurrent⟩) hline
      exact ⟨hfree, by simpa using hwithin⟩

theorem breakFree_of_mem_splitLines {text line : String} (hline : line ∈ splitLines text) :
    BreakFree line := by
  obtain ⟨chars, hchars, rfl⟩ := List.mem_map.mp hline
  intro c hc
  exact (mem_splitLinesFrom (by simp) hchars).1 c (by simpa using hc)

/-- What a line contains its text contains. -/
theorem contains_of_mem_splitLines {text line pattern : String} (hline : line ∈ splitLines text)
    (hpattern : contains line pattern = true) : contains text pattern = true := by
  obtain ⟨chars, hchars, rfl⟩ := List.mem_map.mp hline
  simp only [contains, decide_eq_true_eq, String.toList_ofList] at hpattern ⊢
  simpa using hpattern.trans (mem_splitLinesFrom (by simp) hchars).2

/-- A pattern without the separator lies on one side of it. -/
theorem infix_append_cons_iff {α : Type*} {pattern left right : List α} {separator : α}
    (hpattern : separator ∉ pattern) :
    pattern <:+: left ++ separator :: right ↔ pattern <:+: left ∨ pattern <:+: right := by
  rw [List.infix_append_iff_ne_nil, List.infix_cons_iff]
  constructor
  · rintro (hleft | (hstart | hright) | ⟨first, second, -, hsecond, rfl, -, hstarts⟩)
    · exact Or.inl hleft
    · cases pattern with
      | nil => exact Or.inl (List.nil_infix ..)
      | cons c pattern =>
          obtain ⟨rfl, -⟩ := List.cons_prefix_cons.mp hstart
          exact absurd (List.mem_cons_self ..) hpattern
    · exact Or.inr hright
    · cases second with
      | nil => exact absurd rfl hsecond
      | cons c second =>
          obtain ⟨rfl, -⟩ := List.cons_prefix_cons.mp hstarts
          exact absurd (by simp) hpattern
  · exact fun h => h.imp_right fun hright => Or.inl (Or.inr hright)

/-- A list is cut in one way at the first separator. -/
theorem append_cons_inj {α : Type*} {left left' right right' : List α} {separator : α}
    (hleft : separator ∉ left) (hleft' : separator ∉ left')
    (heq : left ++ separator :: right = left' ++ separator :: right') :
    left = left' ∧ right = right' := by
  induction left generalizing left' with
  | nil =>
      cases left' with
      | nil => exact ⟨rfl, (List.cons.inj heq).2⟩
      | cons c left' => exact absurd ((List.cons.inj heq).1 ▸ List.mem_cons_self ..) hleft'
  | cons c left ih =>
      cases left' with
      | nil => exact absurd ((List.cons.inj heq).1 ▸ List.mem_cons_self ..) hleft
      | cons d left' =>
          obtain ⟨rfl, hrest⟩ := List.cons.inj heq
          obtain ⟨rfl, hright⟩ := ih (List.not_mem_of_not_mem_cons hleft)
            (List.not_mem_of_not_mem_cons hleft') hrest
          exact ⟨rfl, hright⟩

/-- A pattern without a line break occurs in a text if it occurs in a line. -/
theorem contains_joinLines {lines : List String} {pattern : String} (hne : lines ≠ [])
    (hpattern : pattern ≠ "") (hbreak : '\n' ∉ pattern.toList) :
    contains (joinLines lines) pattern = true ↔ ∃ line ∈ lines, contains line pattern = true := by
  simp only [contains, decide_eq_true_eq]
  rw [toList_joinLines hne]
  clear hne
  induction lines with
  | nil =>
      have hchars : pattern.toList ≠ [] := fun h => hpattern (by simpa using h)
      simp [hchars]
  | cons line lines ih =>
      rw [List.flatMap_cons, List.append_assoc, List.singleton_append,
        infix_append_cons_iff hbreak, ih]
      simp

end Library
end MediaPlayer
