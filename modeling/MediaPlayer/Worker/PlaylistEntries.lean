import Mathlib.Data.Nat.Digits.Defs
import Mathlib.Data.Rat.Floor
import MediaPlayer.Library.Decimals
import MediaPlayer.Worker.LadderJoin

/-!
# The entries of a media playlist

`_segments` of `app/worker/ladder_pieces.py`, which reads the segments of a playlist with their
durations, against `_write_playlist` and FFmpeg's own playlists.

* `segments_of_listing` — a playlist that lists segments, each duration in whole microseconds, is
  read as these segments, whatever other tags it has.
* `segments_writePlaylist` — what is written is read back.
* `le_targetDuration` — no segment is longer than the playlist says.
-/

namespace MediaPlayer
namespace Worker

open Library

def extInf : String := "#EXTINF:"

/-- `line.split(":", 1)[1].rstrip(",")`, of a line with a colon. -/
def durationText (line : String) : String :=
  String.ofList (((line.toList.dropWhile (· != ':')).drop 1).rdropWhile (· == ','))

/-- The loop of `_segments` over each line and the next. -/
def segmentsFrom : List String → Option (List (ℚ × String))
  | [] => some []
  | [_] => some []
  | line :: name :: rest =>
      if startsWith line extInf then
        (floatOf (durationText line)).bind fun duration =>
          (segmentsFrom (name :: rest)).map fun entries => (duration, name) :: entries
      else segmentsFrom (name :: rest)

/-- `_segments`; `none` where a duration is no number. -/
def segments (playlist : String) : Option (List (ℚ × String)) := segmentsFrom (splitLines playlist)

/-- The line before a segment's name. -/
def extInfLine (duration : ℚ) : String := s!"#EXTINF:{fixedPoint 6 duration},"

/-- The lines of some segments. -/
def entryLines (entries : List (ℚ × String)) : List String :=
  entries.flatMap fun entry => [extInfLine entry.1, entry.2]

/-! ## A printed duration -/

theorem roundHalfEven_natCast (n : ℕ) : roundHalfEven (n : ℚ) = n := by
  have hfloor : ⌊(n : ℚ)⌋ = (n : ℤ) := Int.floor_natCast n
  unfold roundHalfEven
  simp [hfloor]

/-- A whole number of units is printed as it is. -/
theorem toList_fixedPoint {digits : ℕ} (n : ℕ) :
    (fixedPoint digits (n / 10 ^ digits)).toList =
      (n / 10 ^ digits).repr.toList ++
        '.' :: (Nat.toDigits 10 (n % 10 ^ digits)).leftpad digits '0' := by
  have hunits : (n / 10 ^ digits : ℚ) * 10 ^ digits = n :=
    div_mul_cancel₀ _ (by positivity)
  unfold fixedPoint
  rw [hunits, roundHalfEven_natCast]
  simp [zeroPad, toString]

theorem isDigit_of_mem_repr {c : Char} {n : ℕ} (hc : c ∈ n.repr.toList) : c.isDigit = true :=
  Nat.isDigit_of_mem_toDigits (b := 10) (by decide) (by decide) (Nat.toList_repr ▸ hc)

theorem isDigit_of_mem_leftpad {c : Char} {digits n : ℕ}
    (hc : c ∈ (Nat.toDigits 10 n).leftpad digits '0') : c.isDigit = true := by
  rcases List.mem_append.mp hc with hzero | hdigit
  · rw [List.eq_of_mem_replicate hzero]
    decide
  · exact Nat.isDigit_of_mem_toDigits (b := 10) (by decide) (by decide) hdigit

/-- A whole number of units that is printed is read back. -/
theorem floatOf_fixedPoint {digits : ℕ} (hdigits : 0 < digits) (n : ℕ) :
    floatOf (fixedPoint digits (n / 10 ^ digits)) = some (n / 10 ^ digits : ℚ) := by
  have hlength : ((Nat.toDigits 10 (n % 10 ^ digits)).leftpad digits '0').length = digits := by
    rw [List.length_leftpad]
    exact max_eq_left (Nat.toDigits_length 10 _ _ hdigits (Nat.mod_lt _ (by positivity)))
  have hvalue : Nat.ofDigitChars 10 ((n / 10 ^ digits).repr.toList ++
      (Nat.toDigits 10 (n % 10 ^ digits)).leftpad digits '0') 0 = n := by
    rw [Nat.ofDigitChars_append, Nat.ofDigitChars_eq_ofDigitChars_zero, hlength, Nat.toList_repr,
      Nat.ofDigitChars_ten_toDigits, List.leftpad, Nat.ofDigitChars_append,
      Nat.ofDigitChars_replicate_zero, Nat.mul_zero, Nat.ofDigitChars_ten_toDigits]
    exact Nat.div_add_mod n (10 ^ digits)
  have hne : (n / 10 ^ digits).repr.toList ≠ [] := by
    rw [Nat.toList_repr]
    exact List.ne_nil_of_length_pos Nat.length_toDigits_pos
  have hwhole : ∀ c ∈ (n / 10 ^ digits).repr.toList, c.isDigit = true := fun _ =>
    isDigit_of_mem_repr
  have hfraction : ∀ c ∈ (Nat.toDigits 10 (n % 10 ^ digits)).leftpad digits '0',
      c.isDigit = true := fun _ => isDigit_of_mem_leftpad
  have htext := floatOf_decimal hne hwhole hfraction
  rw [← toList_fixedPoint, String.ofList_toList, hvalue, hlength] at htext
  exact htext

/-- The duration is what stands between the tag and the comma. -/
theorem durationText_extInfLine (n : ℕ) :
    durationText (extInfLine (n / 10 ^ 6)) = fixedPoint 6 (n / 10 ^ 6) := by
  have hchars : (extInfLine (n / 10 ^ 6)).toList =
      "#EXTINF".toList ++ ':' :: ((fixedPoint 6 (n / 10 ^ 6)).toList ++ [',']) := by
    simp [extInfLine, toString]
  have htag : ∀ c ∈ "#EXTINF".toList, (c != ':') = true :=
    List.all_eq_true.mp (by decide)
  have hlast : ∀ c ∈ (fixedPoint 6 (n / 10 ^ 6)).toList.reverse.head?, c ≠ ',' := by
    intro c hc
    have hmem : c ∈ (fixedPoint 6 (n / 10 ^ 6)).toList :=
      List.mem_reverse.mp (List.mem_of_mem_head? hc)
    rw [toList_fixedPoint] at hmem
    rcases List.mem_append.mp hmem with hc | hc
    · rintro rfl
      exact absurd (isDigit_of_mem_repr hc) (by decide)
    · rcases List.mem_cons.mp hc with rfl | hc
      · decide
      · rintro rfl
        exact absurd (isDigit_of_mem_leftpad hc) (by decide)
  have hstrip : ((fixedPoint 6 (n / 10 ^ 6)).toList ++ [',']).rdropWhile (· == ',') =
      (fixedPoint 6 (n / 10 ^ 6)).toList := by
    rw [List.rdropWhile_concat_pos _ _ _ (by decide)]
    refine List.rdropWhile_eq_self_iff.mpr fun hne => ?_
    have hhead : (fixedPoint 6 (n / 10 ^ 6)).toList.getLast hne ∈
        (fixedPoint 6 (n / 10 ^ 6)).toList.reverse.head? := by
      rw [List.head?_reverse, List.getLast?_eq_getLast_of_ne_nil hne]
      rfl
    simpa using hlast _ hhead
  unfold durationText
  rw [hchars, List.dropWhile_append_of_pos htag, List.dropWhile_cons_of_neg (by decide),
    List.drop_one, List.tail_cons, hstrip, String.ofList_toList]

/-! ## What is listed is read -/

/-- A duration in whole microseconds. -/
def WholeMicroseconds (duration : ℚ) : Prop := ∃ n : ℕ, duration = n / 10 ^ 6

theorem segmentsFrom_skip {line : String} (hline : startsWith line extInf = false)
    (rest : List String) : segmentsFrom (line :: rest) = segmentsFrom rest := by
  cases rest with
  | nil => rfl
  | cons name rest => rw [segmentsFrom, if_neg (by simp [hline])]

theorem segmentsFrom_entry {duration : ℚ} (hduration : WholeMicroseconds duration) {name : String}
    (hname : startsWith name extInf = false) (rest : List String) :
    segmentsFrom (extInfLine duration :: name :: rest) =
      (segmentsFrom rest).map fun entries => (duration, name) :: entries := by
  obtain ⟨n, rfl⟩ := hduration
  have hstart : startsWith (extInfLine (n / 10 ^ 6)) extInf = true := by
    rw [show extInfLine (n / 10 ^ 6) = extInf ++ (fixedPoint 6 (n / 10 ^ 6) ++ ",") from
      String.append_assoc ..]
    exact startsWith_append ..
  rw [segmentsFrom, if_pos hstart, durationText_extInfLine, floatOf_fixedPoint (by decide),
    Option.bind_some, segmentsFrom_skip hname]

/-- Tags before and after the segments are passed over. -/
theorem segmentsFrom_listing {head tail : List String} {entries : List (ℚ × String)}
    (hhead : ∀ line ∈ head, startsWith line extInf = false)
    (htail : ∀ line ∈ tail, startsWith line extInf = false)
    (hentries : ∀ entry ∈ entries, WholeMicroseconds entry.1 ∧ startsWith entry.2 extInf = false) :
    segmentsFrom (head ++ entryLines entries ++ tail) = some entries := by
  have hskip : ∀ {lines rest : List String}, (∀ line ∈ lines, startsWith line extInf = false) →
      segmentsFrom (lines ++ rest) = segmentsFrom rest := by
    intro lines rest hlines
    induction lines with
    | nil => rfl
    | cons line lines ih =>
        rw [List.cons_append, segmentsFrom_skip (hlines line (List.mem_cons_self ..))]
        exact ih fun other hother => hlines other (List.mem_cons_of_mem _ hother)
  rw [List.append_assoc, hskip hhead]
  clear hhead
  induction entries with
  | nil =>
      have hnone := @hskip _ [] htail
      rw [List.append_nil] at hnone
      exact hnone
  | cons entry entries ih =>
      obtain ⟨hduration, hname⟩ := hentries entry (List.mem_cons_self ..)
      have hlines : entryLines (entry :: entries) ++ tail =
          extInfLine entry.1 :: entry.2 :: (entryLines entries ++ tail) := rfl
      rw [hlines, segmentsFrom_entry hduration hname,
        ih fun other hother => hentries other (List.mem_cons_of_mem _ hother)]
      rfl

theorem breakFree_extInfLine (duration : ℚ) : BreakFree (extInfLine duration) := by
  have htag : BreakFree "#EXTINF:" := by decide
  have hcomma : BreakFree "," := by decide
  have hduration := (plainText_fixedPoint 6 duration).breakFree
  simp [extInfLine, toString, htag, hcomma, hduration]

theorem breakFree_entryLines {entries : List (ℚ × String)}
    (hentries : ∀ entry ∈ entries, BreakFree entry.2) :
    ∀ line ∈ entryLines entries, BreakFree line := by
  intro line hline
  obtain ⟨entry, hentry, hline⟩ := List.mem_flatMap.mp hline
  rcases List.mem_pair.mp hline with rfl | rfl
  · exact breakFree_extInfLine _
  · exact hentries entry hentry

/-- A playlist that lists segments, among other tags. -/
structure Listing (playlist : String) (entries : List (ℚ × String)) : Prop where
  lines : ∃ head tail : List String,
    (∀ line ∈ head ++ tail, BreakFree line ∧ startsWith line extInf = false) ∧
    playlist = joinLines ("#EXTM3U" :: head ++ entryLines entries ++ tail)
  entries : ∀ entry ∈ entries, WholeMicroseconds entry.1 ∧ BreakFree entry.2 ∧
    startsWith entry.2 extInf = false

/-- Its lines are those it is made of. -/
theorem splitLines_listing {head tail : List String} {entries : List (ℚ × String)}
    (hlines : ∀ line ∈ head ++ tail, BreakFree line)
    (hentries : ∀ entry ∈ entries, BreakFree entry.2) :
    splitLines (joinLines ("#EXTM3U" :: head ++ entryLines entries ++ tail)) =
      "#EXTM3U" :: head ++ entryLines entries ++ tail := by
  refine splitLines_joinLines (by simp) fun line hline => ?_
  rcases List.mem_append.mp hline with hline | hline
  · rcases List.mem_append.mp hline with hline | hline
    · rcases List.mem_cons.mp hline with rfl | hline
      · decide
      · exact hlines line (List.mem_append_left _ hline)
    · exact breakFree_entryLines hentries line hline
  · exact hlines line (List.mem_append_right _ hline)

/-- It is read as the segments it lists. -/
theorem segments_of_listing {playlist : String} {entries : List (ℚ × String)}
    (hlisting : Listing playlist entries) : segments playlist = some entries := by
  obtain ⟨head, tail, hlines, rfl⟩ := hlisting.lines
  unfold segments
  rw [splitLines_listing (fun line hline => (hlines line hline).1)
    fun entry hentry => (hlisting.entries entry hentry).2.1]
  refine segmentsFrom_listing (fun line hline => ?_)
    (fun line hline => (hlines line (List.mem_append_right _ hline)).2)
    fun entry hentry => ⟨(hlisting.entries entry hentry).1, (hlisting.entries entry hentry).2.2⟩
  rcases List.mem_cons.mp hline with rfl | hline
  · decide
  · exact (hlines line (List.mem_append_left _ hline)).2

/-! ## What is written -/

/-- The target duration a playlist is written with. -/
def targetDuration (entries : List (ℚ × String)) : ℤ :=
  (entries.map fun entry => ⌈entry.1⌉).max?.getD 1

def targetLine (entries : List (ℚ × String)) : String :=
  s!"#EXT-X-TARGETDURATION:{targetDuration entries}"

/-- The tags of a written playlist before its entries. -/
def playlistHead (entries : List (ℚ × String)) : List String :=
  ["#EXT-X-VERSION:3", targetLine entries, "#EXT-X-MEDIA-SEQUENCE:0", "#EXT-X-PLAYLIST-TYPE:VOD"]

theorem writePlaylist_eq (entries : List (ℚ × String)) : writePlaylist entries =
    joinLines ("#EXTM3U" :: playlistHead entries ++ entryLines entries ++ ["#EXT-X-ENDLIST"]) := by
  have htext : playlistText entries =
      "#EXTM3U" :: playlistHead entries ++ entryLines entries ++ ["#EXT-X-ENDLIST"] := rfl
  rw [writePlaylist, htext]

/-- None of its tags is taken for a segment's. -/
theorem playlistTags (entries : List (ℚ × String)) :
    ∀ line ∈ playlistHead entries ++ ["#EXT-X-ENDLIST"],
      BreakFree line ∧ startsWith line extInf = false := by
  have hfixed : ∀ line ∈ ["#EXT-X-VERSION:3", "#EXT-X-MEDIA-SEQUENCE:0", "#EXT-X-PLAYLIST-TYPE:VOD",
      "#EXT-X-ENDLIST"], BreakFree line ∧ startsWith line extInf = false := by decide
  have hsplit : targetLine entries =
      "#EXT-X-TARGETDURATION:" ++ toString (targetDuration entries) := rfl
  have htarget : BreakFree (targetLine entries) := by
    have htag : BreakFree "#EXT-X-TARGETDURATION:" := by decide
    rw [hsplit]
    exact breakFree_append.mpr ⟨htag, (plainText_int _).breakFree⟩
  have hother : startsWith (targetLine entries) extInf = false := by
    rw [hsplit, startsWith, String.toList_append]
    rfl
  intro line hline
  simp only [playlistHead, List.mem_append, List.mem_cons, List.not_mem_nil, or_false] at hline
  rcases hline with (rfl | rfl | rfl | rfl) | rfl
  · exact hfixed _ (by simp)
  · exact ⟨htarget, hother⟩
  · exact hfixed _ (by simp)
  · exact hfixed _ (by simp)
  · exact hfixed _ (by simp)

/-- A written playlist lists its entries. -/
theorem listing_writePlaylist {entries : List (ℚ × String)}
    (hentries : ∀ entry ∈ entries, WholeMicroseconds entry.1 ∧ BreakFree entry.2 ∧
      startsWith entry.2 extInf = false) : Listing (writePlaylist entries) entries :=
  ⟨⟨playlistHead entries, ["#EXT-X-ENDLIST"], playlistTags entries, writePlaylist_eq entries⟩,
    hentries⟩

theorem targetLine_mem {entries : List (ℚ × String)}
    (hentries : ∀ entry ∈ entries, BreakFree entry.2) :
    targetLine entries ∈ splitLines (writePlaylist entries) := by
  rw [writePlaylist_eq, splitLines_listing (fun line hline => (playlistTags entries line hline).1)
    hentries]
  simp [playlistHead]

theorem segments_writePlaylist {entries : List (ℚ × String)}
    (hentries : ∀ entry ∈ entries, WholeMicroseconds entry.1 ∧ BreakFree entry.2 ∧
      startsWith entry.2 extInf = false) : segments (writePlaylist entries) = some entries :=
  segments_of_listing (listing_writePlaylist hentries)

/-- The playlist says how long its longest segment is, rounded up. -/
theorem le_targetDuration {entries : List (ℚ × String)} {entry : ℚ × String}
    (hentry : entry ∈ entries) : entry.1 ≤ targetDuration entries := by
  have hmem : ⌈entry.1⌉ ∈ entries.map fun entry => ⌈entry.1⌉ :=
    List.mem_map.mpr ⟨entry, hentry, rfl⟩
  have hle : ⌈entry.1⌉ ≤ targetDuration entries := by
    unfold targetDuration
    cases hmax : (entries.map fun entry => ⌈entry.1⌉).max? with
    | none =>
        rw [List.max?_eq_none_iff.mp hmax] at hmem
        exact absurd hmem (List.not_mem_nil)
    | some longest => exact (List.max?_le_iff hmax).mp le_rfl _ hmem
  exact (Int.le_ceil _).trans (by exact_mod_cast hle)

end Worker
end MediaPlayer
