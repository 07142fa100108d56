import MediaPlayer.Worker.Hls
import MediaPlayer.Worker.MasterText

/-!
# What a playlist names

The URIs a player follows from the text of a playlist, and where they lead.

* `namedUris_addToMaster` — an entry that is added makes a master name its URI, and nothing
  else.
* `namedUris_labelledMaster` — labelling a master makes it name nothing new.
-/

namespace MediaPlayer
namespace Worker

open Library

/-- What one line names: a file, or the URI of a tag that has one. -/
def lineUris (line : String) : List String :=
  if startsWith line "#EXT-X-MEDIA:" || startsWith line "#EXT-X-MAP:" then
    ((searchQuoted "URI=\"".toList line.toList).map String.ofList).toList
  else if startsWith line "#" || strip line == "" then []
  else [line]

def namedUris (text : String) : List String := (splitLines text).flatMap lineUris

/-- Where a URI of a playlist leads. -/
def resolveUri (playlist uri : String) : String :=
  if '/' ∈ playlist.toList then beforeLast '/' playlist ++ "/" ++ uri else uri

theorem namedUris_joinLines {lines : List String} (hfree : ∀ line ∈ lines, BreakFree line) :
    namedUris (joinLines lines) = lines.flatMap lineUris := by
  unfold namedUris
  by_cases hne : lines = []
  · subst hne
    decide
  · rw [splitLines_joinLines hne hfree]

/-- What every line of a text names, the text names. -/
theorem forall_namedUris {lines : List String} {p : String → Prop}
    (hlines : ∀ line ∈ lines, BreakFree line ∧ ∀ uri ∈ lineUris line, p uri) :
    ∀ uri ∈ namedUris (joinLines lines), p uri := by
  intro uri huri
  rw [namedUris_joinLines fun line hline => (hlines line hline).1] at huri
  obtain ⟨line, hline, huri⟩ := List.mem_flatMap.mp huri
  exact (hlines line hline).2 uri huri

theorem namedUris_of_mem_lines {text line uri : String} (hline : line ∈ splitLines text)
    (huri : uri ∈ lineUris line) : uri ∈ namedUris text :=
  List.mem_flatMap.mpr ⟨line, hline, huri⟩

/-- What a line names is a part of it. -/
theorem contains_of_mem_lineUris {line uri : String} (huri : uri ∈ lineUris line) :
    contains line uri = true := by
  unfold lineUris at huri
  simp only [contains, decide_eq_true_eq]
  split_ifs at huri
  · obtain ⟨chars, hchars, rfl⟩ := Option.map_eq_some_iff.mp (Option.mem_toList.mp huri)
    simpa using searchQuoted_infix hchars
  · simp at huri
  · rw [List.mem_singleton.mp huri]

theorem contains_of_mem_namedUris {text uri pattern : String} (huri : uri ∈ namedUris text)
    (hpattern : contains uri pattern = true) : contains text pattern = true := by
  obtain ⟨line, hline, huri⟩ := List.mem_flatMap.mp huri
  refine contains_of_mem_splitLines hline ?_
  have hwithin : uri.toList <:+: line.toList := of_decide_eq_true (contains_of_mem_lineUris huri)
  exact decide_eq_true ((of_decide_eq_true hpattern : pattern.toList <:+: _).trans hwithin)

/-- A tag that is neither of the two names nothing. -/
theorem lineUris_tag {tag line : String} (hline : startsWith line tag = true)
    (hhash : startsWith tag "#" = true)
    (hother : ∀ other ∈ ["#EXT-X-MEDIA:", "#EXT-X-MAP:"], startsWith tag other = false ∧
      startsWith other tag = false) : lineUris line = [] := by
  have htag : tag.toList <+: line.toList := List.isPrefixOf_iff_prefix.mp hline
  have hdiffers : ∀ other ∈ ["#EXT-X-MEDIA:", "#EXT-X-MAP:"], startsWith line other = false := by
    intro other hmem
    refine (Bool.not_eq_true _).mp fun hstart => ?_
    rcases List.prefix_or_prefix_of_prefix (List.isPrefixOf_iff_prefix.mp hstart) htag with
      hstarts | hstarts
    · exact absurd (List.isPrefixOf_iff_prefix.mpr hstarts)
        ((Bool.not_eq_true _).mpr (hother other hmem).1)
    · exact absurd (List.isPrefixOf_iff_prefix.mpr hstarts)
        ((Bool.not_eq_true _).mpr (hother other hmem).2)
  have hstart : startsWith line "#" = true :=
    List.isPrefixOf_iff_prefix.mpr ((List.isPrefixOf_iff_prefix.mp hhash).trans htag)
  simp [lineUris, hdiffers "#EXT-X-MEDIA:" (by simp), hdiffers "#EXT-X-MAP:" (by simp), hstart]

/-- A STREAM-INF line names nothing itself. -/
theorem lineUris_streamInf {line : String} (hline : startsWith line streamInf = true) :
    lineUris line = [] :=
  lineUris_tag hline (by decide) (by decide)

/-- A line that is no tag names at most itself. -/
theorem eq_of_mem_lineUris {line uri : String} (hfirst : line.toList.head? ≠ some '#')
    (huri : uri ∈ lineUris line) : uri = line := by
  have htag : ∀ tag : String, tag.toList.head? = some '#' → startsWith line tag = false := by
    intro tag htag
    refine (Bool.not_eq_true _).mp fun hstart => hfirst ?_
    obtain ⟨rest, hrest⟩ := List.isPrefixOf_iff_prefix.mp hstart
    cases hchars : tag.toList with
    | nil => simp [hchars] at htag
    | cons c chars =>
        rw [hchars] at htag hrest
        rw [← hrest]
        exact htag
  unfold lineUris at huri
  rw [htag "#EXT-X-MEDIA:" rfl, htag "#EXT-X-MAP:" rfl] at huri
  simp only [Bool.or_self, Bool.false_eq_true, if_false] at huri
  split_ifs at huri
  · simp at huri
  · exact List.mem_singleton.mp huri

theorem head?_uri (listed : Listed) : listed.uri.toList.head? ≠ some '#' := by
  rw [Listed.uri, toList_renditionUri]
  cases listed.plan.kind <;> simp [RenditionKind.name]

/-- An entry that is added makes a master name its URI, and nothing else. -/
theorem namedUris_addToMaster {master uri : String} {listed : Listed} (hplain : listed.Plain)
    (huri : uri ∈ namedUris (addToMaster master listed)) :
    uri ∈ namedUris master ∨ uri = listed.uri := by
  cases hnew : contains master listed.uri with
  | true =>
      rw [addToMaster, if_pos hnew] at huri
      exact Or.inl huri
  | false =>
      rw [addToMaster_of_not_contains hnew, namedUris_joinLines fun line hline =>
        (breakFree_newLines hplain hline)] at huri
      obtain ⟨line, hline, huri⟩ := List.mem_flatMap.mp huri
      rcases mem_newLines hline with hold | rfl | rfl
      · exact Or.inl (namedUris_of_mem_lines (mem_playlistLines hold).1 huri)
      · rw [lineUris_streamInf (startsWith_info _ _)] at huri
        exact absurd huri (List.not_mem_nil)
      · exact Or.inr (eq_of_mem_lineUris (head?_uri _) huri)

theorem namedUris_foldl {listed : List Listed} (hplain : ∀ entry ∈ listed, entry.Plain)
    {master uri : String} (huri : uri ∈ namedUris (listed.foldl addToMaster master)) :
    uri ∈ namedUris master ∨ ∃ entry ∈ listed, uri = entry.uri := by
  induction listed generalizing master with
  | nil => exact Or.inl huri
  | cons first listed ih =>
      rcases ih (fun entry hentry => hplain entry (List.mem_cons_of_mem _ hentry)) huri with
        hold | ⟨entry, hentry, huri⟩
      · rcases namedUris_addToMaster (hplain first (List.mem_cons_self ..)) hold with hold | huri
        · exact Or.inl hold
        · exact Or.inr ⟨first, List.mem_cons_self .., huri⟩
      · exact Or.inr ⟨entry, List.mem_cons_of_mem _ hentry, huri⟩

theorem plainText_zeroPad (width n : ℕ) : PlainText (zeroPad width n) := by
  intro c hc
  simp only [zeroPad, String.toList_ofList, List.leftpad, List.mem_append] at hc
  rcases hc with hzero | hdigit
  · rw [List.eq_of_mem_replicate hzero]
    decide
  · exact plain_of_isDigit (Nat.isDigit_of_mem_toDigits (b := 10) (by decide) (by decide) hdigit)

theorem plainText_fixedPoint (digits : ℕ) (x : ℚ) : PlainText (fixedPoint digits x) := by
  have hdot : PlainText "." := by decide
  simp [fixedPoint, toString, plainText_zeroPad, hdot]

/-- A labelled line breaks and names no more than it did. -/
theorem labelFrameRate_cases {frameRate : ℚ} {line : String} (hfree : BreakFree line) :
    BreakFree (labelFrameRate frameRate line) ∧
      lineUris (labelFrameRate frameRate line) = lineUris line := by
  unfold labelFrameRate
  split_ifs with hvideo
  · simp only [Bool.and_eq_true] at hvideo
    obtain ⟨⟨hstart, -⟩, -⟩ := hvideo
    have hlabelled :
        startsWith (line ++ ",FRAME-RATE=" ++ fixedPoint 3 frameRate) streamInf = true := by
      refine List.isPrefixOf_iff_prefix.mpr ?_
      refine (List.isPrefixOf_iff_prefix.mp hstart : streamInf.toList <+: line.toList).trans ?_
      simp [List.append_assoc]
    refine ⟨?_, by rw [lineUris_streamInf hlabelled, lineUris_streamInf hstart]⟩
    have hkey : BreakFree ",FRAME-RATE=" := by decide
    exact breakFree_append.mpr
      ⟨breakFree_append.mpr ⟨hfree, hkey⟩, (plainText_fixedPoint 3 frameRate).breakFree⟩
  · exact ⟨hfree, rfl⟩

theorem namedUris_labelFrameRates (master : String) (frameRate : ℚ) :
    namedUris (labelFrameRates master frameRate) = namedUris master := by
  have hlines : ∀ line ∈ splitLines master, BreakFree line := fun _ => breakFree_of_mem_splitLines
  rw [labelFrameRates, namedUris_joinLines, namedUris, List.flatMap_map]
  · exact List.flatMap_congr fun line hline => (labelFrameRate_cases (hlines line hline)).2
  · intro line hline
    obtain ⟨old, hold, rfl⟩ := List.mem_map.mp hline
    exact (labelFrameRate_cases (hlines old hold)).1

/-- Labelling a master makes it name nothing new. -/
theorem namedUris_labelledMaster (probe : SourceProbe) (maxFps : ℕ) (master : String) :
    namedUris (labelledMaster probe maxFps master) = namedUris master := by
  unfold labelledMaster
  split
  · rfl
  · split_ifs
    · rfl
    · exact namedUris_labelFrameRates ..

end Worker
end MediaPlayer
