import MediaPlayer.Library.KeyedText
import MediaPlayer.Worker.Hls
import MediaPlayer.Worker.LadderJoin

/-!
# The STREAM-INF lines of pictures

`add_to_master` reads the audio group and the frame rate of the ladder from the line of its
first picture, and `label_frame_rates` looks for the same two keys.

* `VideoLine` — what both read from the line of a picture.
* `videoLine_rungLine`, `Listed.Planned.videoLine` — the lines of the rungs, once they are
  labelled, and those of the renditions are such lines.
-/

namespace MediaPlayer
namespace Worker

open Library

/-- A STREAM-INF line of a picture, in the ladder's audio group and with its rate. -/
structure VideoLine (rate : ℚ) (line : String) : Prop where
  tag : startsWith line streamInf = true
  resolution : contains line "RESOLUTION=" = true
  audio : searchQuoted "AUDIO=\"".toList line.toList = some "group_audio".toList
  number : searchNumber "FRAME-RATE=".toList line.toList = some (fixedPoint 3 rate).toList
  labelled : contains line "FRAME-RATE=" = true
  once : occurrences "FRAME-RATE=" line = 1
  plain : PlainText line

/-! ## Texts without a key -/

/-- A text in which neither key begins. -/
def KeyFree (text : String) : Prop :=
  Skips "AUDIO=\"".toList text.toList ∧ Skips "FRAME-RATE=".toList text.toList

instance (text : String) : Decidable (KeyFree text) :=
  inferInstanceAs (Decidable (_ ∧ _))

theorem KeyFree.append {left right : String} (hleft : KeyFree left) (hright : KeyFree right) :
    KeyFree (left ++ right) := by
  unfold KeyFree
  rw [String.toList_append]
  exact ⟨hleft.1.append hright.1, hleft.2.append hright.2⟩

theorem keyFree_of_chars {text : String} (htext : ∀ c ∈ text.toList, c ≠ 'A' ∧ c ≠ 'F') :
    KeyFree text :=
  ⟨Skips.of_head fun hmem => (htext _ hmem).1 rfl, Skips.of_head fun hmem => (htext _ hmem).2 rfl⟩

theorem keyFree_repr (n : ℕ) : KeyFree n.repr := by
  refine keyFree_of_chars fun c hc => ⟨?_, ?_⟩
  · rintro rfl
    exact not_mem_repr (by decide) n hc
  · rintro rfl
    exact not_mem_repr (by decide) n hc

theorem keyFree_hex2 (n : ℤ) : KeyFree (hex2 n) := by
  have hdigits := forall_mem_hexDigits (p := fun c => c ≠ 'A' ∧ c ≠ 'F') (by decide) n.natAbs
  refine keyFree_of_chars fun c hc => ?_
  unfold hex2 at hc
  split_ifs at hc
  · rw [String.toList_append, String.toList_ofList] at hc
    rcases List.mem_append.mp hc with hminus | hdigit
    · obtain rfl : c = '-' := by simpa using hminus
      decide
    · exact hdigits c (by simpa using hdigit)
  · rw [String.toList_ofList, List.leftpad] at hc
    rcases List.mem_append.mp hc with hzero | hdigit
    · rw [List.eq_of_mem_replicate hzero]
      decide
    · exact hdigits c hdigit

theorem keyFree_codec (facts : VideoFacts) : KeyFree facts.codec := by
  have havc : KeyFree "avc1." := by decide
  unfold VideoFacts.codec
  simp only [toString]
  exact ((havc.append (keyFree_hex2 _)).append (keyFree_hex2 _)).append (keyFree_hex2 _)

theorem keyFree_size (width height : ℕ) : KeyFree s!"{width}x{height}" := by
  have hx : KeyFree "x" := by decide
  simp only [toString]
  exact ((keyFree_repr width).append hx).append (keyFree_repr height)

/-! ## The line of a picture -/

/-- The line of a picture up to its audio group. -/
def videoStart (peak average : ℕ) (resolution codec range : String) : String :=
  streamInf ++ "BANDWIDTH=" ++ peak.repr ++ ",AVERAGE-BANDWIDTH=" ++ average.repr ++ "," ++
    "RESOLUTION=" ++ resolution ++ ",CODECS=\"" ++ codec ++ ",mp4a.40.2\"" ++ range ++ ","

/-- The line of a picture, with what a rendition adds to it in `range`. -/
def videoText (peak average : ℕ) (resolution codec range : String) (rate : ℚ) : String :=
  videoStart peak average resolution codec range ++
    ("AUDIO=\"group_audio\"," ++ ("FRAME-RATE=" ++ fixedPoint 3 rate))

section

variable {resolution codec range : String} (peak average : ℕ) (rate : ℚ)

theorem keyFree_videoStart (hresolution : KeyFree resolution) (hcodec : KeyFree codec)
    (hrange : KeyFree range) : KeyFree (videoStart peak average resolution codec range) := by
  have htexts : KeyFree streamInf ∧ KeyFree "BANDWIDTH=" ∧ KeyFree ",AVERAGE-BANDWIDTH=" ∧
      KeyFree "," ∧ KeyFree "RESOLUTION=" ∧ KeyFree ",CODECS=\"" ∧
      KeyFree ",mp4a.40.2\"" := by decide
  obtain ⟨htag, hband, haverage, hcomma, hsize, hcodecs, haac⟩ := htexts
  have hrates := (((htag.append hband).append (keyFree_repr peak)).append haverage).append
    (keyFree_repr average)
  have hpicture := ((hrates.append hcomma).append hsize).append hresolution
  exact ((((hpicture.append hcodecs).append hcodec).append haac).append hrange).append hcomma

theorem plainText_videoStart (hresolution : PlainText resolution) (hcodec : PlainText codec)
    (hrange : PlainText range) : PlainText (videoStart peak average resolution codec range) := by
  have htexts : PlainText streamInf ∧ PlainText "BANDWIDTH=" ∧
      PlainText ",AVERAGE-BANDWIDTH=" ∧ PlainText "," ∧ PlainText "RESOLUTION=" ∧
      PlainText ",CODECS=\"" ∧ PlainText ",mp4a.40.2\"" := by decide
  simp [videoStart, htexts, hresolution, hcodec, hrange]

/-- The line with its commas apart, as `join` puts them. -/
theorem videoStart_eq : videoStart peak average resolution codec range = streamInf ++
    ("BANDWIDTH=" ++ (peak.repr ++ ("," ++ ("AVERAGE-BANDWIDTH=" ++ (average.repr ++ ("," ++
      ("RESOLUTION=" ++ (resolution ++ ("," ++ ("CODECS=\"" ++ (codec ++ (",mp4a.40.2" ++
        ("\"" ++ (range ++ ","))))))))))))))  := by
  have haverage : ",AVERAGE-BANDWIDTH=" = "," ++ "AVERAGE-BANDWIDTH=" := rfl
  have hcodecs : ",CODECS=\"" = "," ++ "CODECS=\"" := rfl
  have haac : ",mp4a.40.2\"" = ",mp4a.40.2" ++ "\"" := rfl
  simp only [videoStart, haverage, hcodecs, haac, String.append_assoc]

theorem isDigit_or_dot_fixedPoint (digits : ℕ) (x : ℚ) :
    ∀ c ∈ (fixedPoint digits x).toList, (c.isDigit || c == '.') = true := by
  intro c hc
  have hdigit : ∀ n, ∀ c ∈ Nat.toDigits 10 n, c.isDigit = true := fun n c hc =>
    Nat.isDigit_of_mem_toDigits (b := 10) (by decide) (by decide) hc
  simp only [fixedPoint, toString, String.toList_append, List.mem_append, Nat.toList_repr,
    zeroPad, String.toList_ofList, List.leftpad, List.mem_replicate] at hc
  rcases hc with (hwhole | hdot) | ⟨-, rfl⟩ | hrest
  · simp [hdigit _ c hwhole]
  · obtain rfl : c = '.' := by simpa using hdot
    decide
  · decide
  · simp [hdigit _ c hrest]

/-- It is read as the line of a picture, whatever its numbers and names are. -/
theorem videoLine_videoText (hkeys : KeyFree resolution ∧ KeyFree codec ∧ KeyFree range)
    (hplain : PlainText resolution ∧ PlainText codec ∧ PlainText range) :
    VideoLine rate (videoText peak average resolution codec range rate) := by
  have hstart := keyFree_videoStart peak average hkeys.1 hkeys.2.1 hkeys.2.2
  -- The audio group is read up to its quote, the rate up to the end of the line.
  have haudio : (videoText peak average resolution codec range rate).toList =
      (videoStart peak average resolution codec range).toList ++ ("AUDIO=\"".toList ++
        ("group_audio".toList ++ '"' :: (',' :: ("FRAME-RATE=".toList ++
          (fixedPoint 3 rate).toList)))) := by
    simp only [videoText, String.toList_append]
    rfl
  have hgroup : Skips "FRAME-RATE=".toList "AUDIO=\"group_audio\",".toList := by decide
  have hrate : (videoText peak average resolution codec range rate).toList =
      ((videoStart peak average resolution codec range).toList ++
        "AUDIO=\"group_audio\",".toList) ++ ("FRAME-RATE=".toList ++
          (fixedPoint 3 rate).toList) := by
    simp only [videoText, String.toList_append, List.append_assoc]
  have hdigits := isDigit_or_dot_fixedPoint 3 rate
  have hnumber : (fixedPoint 3 rate).toList ≠ [] := by simp [fixedPoint, toString]
  -- No second key begins in the number.
  have hletter : 'F' ∉ (fixedPoint 3 rate).toList := fun hmem =>
    absurd (hdigits 'F' hmem) (by decide)
  constructor
  · rw [startsWith, List.isPrefixOf_iff_prefix]
    simp only [videoText, videoStart, String.append_assoc, String.toList_append]
    exact List.prefix_append ..
  · rw [contains, decide_eq_true_eq]
    simp only [videoText, videoStart, String.toList_append, List.append_assoc]
    -- Six parts stand before the key.
    iterate 6 refine List.infix_append_of_infix_right ?_
    exact List.infix_append_left
  · rw [haudio, searchQuoted_append hstart.1]
    exact searchQuoted_hit (by decide) (by decide) (by decide)
  · rw [hrate, searchNumber_append (hstart.2.append hgroup)]
    exact searchNumber_hit (by decide) hnumber hdigits
  · rw [contains, decide_eq_true_eq, hrate]
    exact List.infix_append' ..
  · rw [occurrences, hrate, countStarts_append (hstart.2.append hgroup)]
    exact countStarts_key (by decide) hletter
  · have hkeyTexts : PlainText "AUDIO=\"group_audio\"," ∧ PlainText "FRAME-RATE=" := by decide
    simp only [videoText, plainText_append]
    exact ⟨plainText_videoStart peak average hplain.1 hplain.2.1 hplain.2.2, hkeyTexts.1,
      hkeyTexts.2, plainText_fixedPoint 3 rate⟩

end

/-! ## The lines of the rungs and of the renditions -/

theorem rungLine_eq (rung : PieceRung) (audio : ℕ × ℕ) : rungLine rung audio =
    videoStart (rung.peak + audio.1) (rung.average + audio.2) rung.facts.resolution
      rung.facts.codec "" ++ "AUDIO=\"group_audio\"" := by
  have hsize : ",RESOLUTION=" = "," ++ "RESOLUTION=" := rfl
  have haac : ",mp4a.40.2\",AUDIO=\"group_audio\"" =
      ",mp4a.40.2" ++ "\"" ++ "," ++ "AUDIO=\"group_audio\"" := rfl
  rw [videoStart_eq]
  simp only [rungLine, toString, hsize, haac, String.append_assoc, String.empty_append]

/-- The line of a rung is labelled: it has a picture, and no rate yet. -/
theorem labelFrameRate_rungLine (rung : PieceRung) (audio : ℕ × ℕ) (rate : ℚ) :
    labelFrameRate rate (rungLine rung audio) = videoText (rung.peak + audio.1)
      (rung.average + audio.2) rung.facts.resolution rung.facts.codec "" rate := by
  have hstart := keyFree_videoStart (rung.peak + audio.1) (rung.average + audio.2)
    (keyFree_size rung.facts.width rung.facts.height) (keyFree_codec rung.facts)
    (by decide : KeyFree "")
  have hgroup : Skips "FRAME-RATE=".toList "AUDIO=\"group_audio\"".toList := by decide
  have hpicture : contains (rungLine rung audio) "RESOLUTION=" = true := by
    rw [contains, decide_eq_true_eq, rungLine_eq, videoStart_eq]
    simp only [String.toList_append, List.append_assoc]
    iterate 7 refine List.infix_append_of_infix_right ?_
    exact List.infix_append_left
  have hnew : contains (rungLine rung audio) "FRAME-RATE=" = false := by
    rw [rungLine_eq]
    refine Skips.not_contains ?_ (by decide)
    rw [String.toList_append]
    exact hstart.2.append hgroup
  have htag : startsWith (rungLine rung audio) streamInf = true := startsWith_append _ _
  -- It has a picture and no rate yet, so that the rate is put behind it.
  unfold labelFrameRate
  rw [htag, hpicture, hnew]
  simp only [Bool.and_true, Bool.not_false, if_pos]
  have hrate : "AUDIO=\"group_audio\"," = "AUDIO=\"group_audio\"" ++ "," := rfl
  have hcomma : ",FRAME-RATE=" = "," ++ "FRAME-RATE=" := rfl
  rw [rungLine_eq, videoText, hrate, hcomma]
  simp only [String.append_assoc]

theorem videoLine_rungLine (rung : PieceRung) (audio : ℕ × ℕ) (rate : ℚ) :
    VideoLine rate (labelFrameRate rate (rungLine rung audio)) := by
  have hempty : KeyFree "" ∧ PlainText "" := by decide
  rw [labelFrameRate_rungLine]
  exact videoLine_videoText _ _ rate
    ⟨keyFree_size _ _, keyFree_codec rung.facts, hempty.1⟩
    ⟨plainText_resolution rung.facts, plainText_codec rung.facts, hempty.2⟩

/-- A rung of a source, as a plan lists it. -/
structure Listed.Planned (kind : RenditionKind) (listed : Listed) : Prop where
  plan : ∃ probe height, planRendition kind probe height = some listed.plan
  resolution : ∃ width height : ℕ, listed.resolution = s!"{width}x{height}"

theorem Listed.Planned.of_listedRung {kind : RenditionKind} {probe : SourceProbe} {rung : ℕ}
    {bandwidth : ℕ × ℕ} {listed : Listed}
    (hlisted : listedRung kind probe rung bandwidth = some listed) : listed.Planned kind := by
  obtain ⟨plan, hplan, rfl⟩ := Option.map_eq_some_iff.mp hlisted
  exact ⟨⟨probe, rung, hplan⟩, ⟨_, _, rfl⟩⟩

theorem keyFree_planRendition {kind : RenditionKind} {probe : SourceProbe} {height : ℕ}
    {plan : RenditionPlan} (hplan : planRendition kind probe height = some plan) :
    KeyFree plan.codecs ∧ KeyFree plan.videoRange := by
  have hlevel : KeyFree (av1Level height) := by
    unfold av1Level
    split_ifs <;> decide
  have htexts : KeyFree "av01.0." ∧ KeyFree "M.10.0.110.09." ∧ KeyFree ".09.0" ∧
      KeyFree "M.08" ∧ KeyFree "SDR" ∧ KeyFree "PQ" ∧ KeyFree "HLG" := by decide
  obtain ⟨hav1, hten, hend, height8, hsdr, hpq, hhlg⟩ := htexts
  cases kind with
  -- The code of the transfer is one of two numbers.
  | hdr =>
      simp only [planRendition] at hplan
      split at hplan
      · obtain ⟨transfer, -, hsome⟩ := Option.bind_eq_some_iff.mp hplan
        obtain ⟨code, hcode, rfl⟩ := Option.map_eq_some_iff.mp hsome
        have hfree : KeyFree code := by
          unfold transferCode at hcode
          split_ifs at hcode <;> obtain rfl := Option.some.inj hcode <;> decide
        refine ⟨?_, ?_⟩
        · simp only [toString]
          exact (((hav1.append hlevel).append hten).append hfree).append hend
        · show KeyFree (videoRange transfer)
          unfold videoRange
          split_ifs
          · exact hpq
          · exact hhlg
      · simp at hplan
  | av1 =>
      simp only [planRendition] at hplan
      split at hplan
      · simp at hplan
      · obtain rfl := Option.some.inj hplan
        refine ⟨?_, hsdr⟩
        simp only [toString]
        exact (hav1.append hlevel).append height8

theorem Listed.Planned.kind_eq {kind : RenditionKind} {listed : Listed}
    (hlisted : listed.Planned kind) : listed.plan.kind = kind := by
  obtain ⟨probe, height, hplan⟩ := hlisted.plan
  exact (planRendition_plain hplan).1

/-- A rendition takes the audio group and the rate of the first picture. -/
theorem Listed.info_eq (listed : Listed) {first : String} {rate : ℚ}
    (hfirst : VideoLine rate first) : listed.info first = videoText (listed.peak + 128000)
      (listed.average + 128000) listed.resolution listed.plan.codecs
      (",VIDEO-RANGE=" ++ listed.plan.videoRange) rate := by
  unfold Listed.info
  rw [hfirst.audio, hfirst.number]
  simp only [Listed.attributes, Option.map_some, Option.toList_some, Option.isSome_some, if_pos,
    toString, List.cons_append, List.nil_append, String.intercalate_cons_cons,
    String.intercalate_singleton, String.ofList_toList]
  have hrange : ",VIDEO-RANGE=" = "," ++ "VIDEO-RANGE=" := rfl
  have hgroup : "AUDIO=\"group_audio\"," = "AUDIO=\"" ++ "group_audio" ++ "\"" ++ "," := rfl
  rw [videoText, videoStart_eq, hrange, hgroup]
  simp only [String.append_assoc]

theorem Listed.Planned.videoLine {kind : RenditionKind} {listed : Listed}
    (hlisted : listed.Planned kind) {first : String} {rate : ℚ} (hfirst : VideoLine rate first) :
    VideoLine rate (listed.info first) := by
  obtain ⟨probe, height, hplan⟩ := hlisted.plan
  obtain ⟨width, rung, hsize⟩ := hlisted.resolution
  obtain ⟨hcodecs, hrange⟩ := keyFree_planRendition hplan
  obtain ⟨-, hplainCodecs, hplainRange⟩ := planRendition_plain hplan
  have hkey : KeyFree ",VIDEO-RANGE=" ∧ PlainText ",VIDEO-RANGE=" := by decide
  have hplainSize : PlainText s!"{width}x{rung}" := by
    have hx : PlainText "x" := by decide
    simp [toString, hx]
  rw [listed.info_eq hfirst, hsize]
  exact videoLine_videoText _ _ rate
    ⟨keyFree_size width rung, hcodecs, hkey.1.append hrange⟩
    ⟨hplainSize, hplainCodecs, plainText_append.mpr ⟨hkey.2, hplainRange⟩⟩

end Worker
end MediaPlayer
