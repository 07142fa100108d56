import MediaPlayer.Worker.Playlists

/-!
# A ladder joined from pieces

`_join`, `_write_playlist` and `write_master` of `app/worker/ladder_pieces.py`: the segments of
every piece under one numbering, a playlist for each rung, and the master.  The sizes,
durations and rates are what FFmpeg and ffprobe report.

* `LadderShape` — FFmpeg's own layout of a ladder.
* `ladderShape_joinedFiles` — the join writes in that layout.
-/

namespace MediaPlayer
namespace Worker

open Library

/-- The name of a segment, as FFmpeg and the join number them. -/
def segmentName (ending : String) (n : ℕ) : String := s!"seg{zeroPad 5 n}{ending}"

def indexName : String := "index.m3u8"

/-- A file of the rung or the audio with this index. -/
def variantFile (k : ℕ) (name : String) : String := s!"v{k}/{name}"

/-! ## What the join writes -/

/-- `_PROFILE_IDC`. -/
inductive AvcProfile
  | baseline
  | constrainedBaseline
  | main
  | high

def AvcProfile.idc : AvcProfile → ℕ
  | .baseline | .constrainedBaseline => 66
  | .main => 77
  | .high => 100

/-- `f"{n:02x}"`. -/
def hex2 (n : ℤ) : String :=
  if n < 0 then "-" ++ String.ofList (Nat.toDigits 16 n.natAbs)
  else String.ofList ((Nat.toDigits 16 n.natAbs).leftpad 2 '0')

/-- What `_video_facts` reads of a rung. -/
structure VideoFacts where
  width : ℕ
  height : ℕ
  profile : AvcProfile
  level : ℤ

def VideoFacts.resolution (facts : VideoFacts) : String := s!"{facts.width}x{facts.height}"

def VideoFacts.codec (facts : VideoFacts) : String :=
  let flags := match facts.profile with
    | .constrainedBaseline => 64
    | _ => 0
  s!"avc1.{hex2 facts.profile.idc}{hex2 flags}{hex2 facts.level}"

/-- A rung as the pieces left it: for each piece its segments, with their durations; and what
is measured of it. -/
structure PieceRung where
  pieces : List (List (ℚ × String))
  facts : VideoFacts
  peak : ℕ
  average : ℕ

/-- The segments of all pieces, in order, with the names they are joined under. -/
def PieceRung.joined (rung : PieceRung) : List ((ℚ × String) × String) :=
  rung.pieces.flatten.zipIdx.map fun segment => (segment.1, segmentName ".ts" segment.2)

/-- The lines of `_write_playlist`. -/
def playlistText (entries : List (ℚ × String)) : List String :=
  let target := (entries.map fun entry => ⌈entry.1⌉).max?.getD 1
  ["#EXTM3U", "#EXT-X-VERSION:3", s!"#EXT-X-TARGETDURATION:{target}",
    "#EXT-X-MEDIA-SEQUENCE:0", "#EXT-X-PLAYLIST-TYPE:VOD"] ++
  (entries.flatMap fun entry => [s!"#EXTINF:{fixedPoint 6 entry.1},", entry.2]) ++
  ["#EXT-X-ENDLIST"]

/-- `_write_playlist`. -/
def writePlaylist (entries : List (ℚ × String)) : String := joinLines (playlistText entries)

/-- The line of the audio's playlist. -/
def audioLine (count : ℕ) (uri : String) : String :=
  "#EXT-X-MEDIA:TYPE=AUDIO,GROUP-ID=\"group_audio\",NAME=\"audio_" ++ count.repr ++
    "\",DEFAULT=YES,CHANNELS=\"2\",URI=\"" ++ uri ++ "\""

/-- The STREAM-INF line of a rung. -/
def rungLine (rung : PieceRung) (audio : ℕ × ℕ) : String :=
  streamInf ++ (s!"BANDWIDTH={rung.peak + audio.1}," ++
    s!"AVERAGE-BANDWIDTH={rung.average + audio.2},RESOLUTION={rung.facts.resolution}," ++
    "CODECS=\"" ++ rung.facts.codec ++ ",mp4a.40.2\",AUDIO=\"group_audio\"")

/-- The STREAM-INF line of the audio alone. -/
def soundLine (audio : ℕ × ℕ) : String :=
  streamInf ++ (s!"BANDWIDTH={audio.1},AVERAGE-BANDWIDTH={audio.2}," ++
    "CODECS=\"mp4a.40.2\",AUDIO=\"group_audio\"")

/-- The lines of `write_master`. -/
def masterText (rungs : List PieceRung) (audio : ℕ × ℕ) (audioUri : String) : List String :=
  ["#EXTM3U", "#EXT-X-VERSION:3", audioLine rungs.length audioUri] ++
  (rungs.zipIdx.flatMap fun rung =>
    [rungLine rung.1 audio, variantFile rung.2 indexName, ""]) ++
  [soundLine audio, audioUri]

/-- `write_master`. -/
def writeMaster (rungs : List PieceRung) (audio : ℕ × ℕ) (audioUri : String) : String :=
  joinLines (masterText rungs audio audioUri)

/-- The files of one joined rung. -/
def joinedRung (k : ℕ) (rung : PieceRung) : List (String × String) :=
  (rung.joined.map fun segment => (variantFile k segment.2, segment.1.2)) ++
    [(variantFile k indexName,
      writePlaylist (rung.joined.map fun segment => (segment.1.1, segment.2)))]

/-- What `_join` leaves, with the audio FFmpeg has encoded on its own. -/
def joinedFiles (rungs : List PieceRung) (audio : List (String × String)) (rates : ℕ × ℕ) :
    List (String × String) :=
  (rungs.zipIdx.flatMap fun rung => joinedRung rung.2 rung.1) ++
    (audio.map fun file => (variantFile rungs.length file.1, file.2)) ++
    [(masterPlaylistName, writeMaster rungs rates (variantFile rungs.length indexName))]

/-! ## FFmpeg's layout -/

/-- A rung's files: its playlist and its segments, and the playlist names segments. -/
structure VariantShape (ending : String) (files : List (String × String)) : Prop where
  names : ∀ file ∈ files, file.1 = indexName ∨ ∃ n, file.1 = segmentName ending n
  playlist : ∀ file ∈ files, file.1 = indexName → ∀ uri ∈ namedUris file.2,
    ∃ n, uri = segmentName ending n

/-- A ladder's files: the master, which names the playlists of its variants, and the files
of these. -/
structure LadderShape (count : ℕ) (files : List (String × String)) : Prop where
  names : ∀ file ∈ files, file.1 = masterPlaylistName ∨ ∃ k ≤ count,
    file.1 = variantFile k indexName ∨ ∃ n, file.1 = variantFile k (segmentName ".ts" n)
  master : ∀ file ∈ files, file.1 = masterPlaylistName → ∀ uri ∈ namedUris file.2,
    ∃ k ≤ count, uri = variantFile k indexName
  playlists : ∀ file ∈ files, ∀ k, file.1 = variantFile k indexName →
    ∀ uri ∈ namedUris file.2, ∃ n, uri = segmentName ".ts" n

/-! ## The join writes in this layout -/

theorem toList_variantFile (k : ℕ) (name : String) :
    (variantFile k name).toList = 'v' :: (k.repr.toList ++ '/' :: name.toList) := by
  simp [variantFile, toString]

theorem toList_segmentName (ending : String) (n : ℕ) :
    (segmentName ending n).toList =
      's' :: 'e' :: 'g' :: ((zeroPad 5 n).toList ++ ending.toList) := by
  simp [segmentName, toString]

theorem plainText_segmentName {ending : String} (hending : PlainText ending) (n : ℕ) :
    PlainText (segmentName ending n) := by
  have hseg : PlainText "seg" := by decide
  simp [segmentName, toString, plainText_zeroPad, hending, hseg]

theorem breakFree_variantFile (k : ℕ) {name : String} (hname : BreakFree name) :
    BreakFree (variantFile k name) := by
  have hv : BreakFree "v" := by decide
  have hslash : BreakFree "/" := by decide
  simp [variantFile, toString, hname, hv, hslash, (plainText_repr k).breakFree]

/-- What holds of all hexadecimal digits holds of a number written with them. -/
theorem forall_mem_hexDigits {p : Char → Prop} (hdigit : ∀ d < 16, p (Nat.digitChar d)) (n : ℕ) :
    ∀ c ∈ Nat.toDigits 16 n, p c := by
  induction n using Nat.strongRecOn with
  | ind n ih =>
      rw [Nat.toDigits_eq_if (by decide)]
      split_ifs with hsmall
      · simpa using hdigit n hsmall
      · intro c hc
        rcases List.mem_append.mp hc with hc | hc
        · exact ih (n / 16) (by omega) c hc
        · obtain rfl := List.mem_singleton.mp hc
          exact hdigit (n % 16) (by omega)

theorem plainText_hexDigits (n : ℕ) : PlainText (String.ofList (Nat.toDigits 16 n)) := by
  intro c hc
  rw [String.toList_ofList] at hc
  exact forall_mem_hexDigits (p := fun c => isLineBreak c = false ∧ c ≠ '/') (by decide) n c hc

theorem plainText_hex2 (n : ℤ) : PlainText (hex2 n) := by
  unfold hex2
  split_ifs
  · have hminus : PlainText "-" := by decide
    exact plainText_append.mpr ⟨hminus, plainText_hexDigits _⟩
  · intro c hc
    simp only [String.toList_ofList, List.leftpad, List.mem_append] at hc
    rcases hc with hzero | hdigit
    · rw [List.eq_of_mem_replicate hzero]
      decide
    · exact plainText_hexDigits n.natAbs c (by simpa using hdigit)

theorem plainText_codec (facts : VideoFacts) : PlainText facts.codec := by
  have havc : PlainText "avc1." := by decide
  simp [VideoFacts.codec, toString, havc, plainText_hex2]

theorem plainText_resolution (facts : VideoFacts) : PlainText facts.resolution := by
  have hx : PlainText "x" := by decide
  simp [VideoFacts.resolution, toString, hx]

theorem head?_segmentName (ending : String) (n : ℕ) :
    (segmentName ending n).toList.head? ≠ some '#' := by
  rw [toList_segmentName]
  simp

theorem head?_variantFile (k : ℕ) (name : String) :
    (variantFile k name).toList.head? ≠ some '#' := by
  rw [toList_variantFile]
  simp

theorem plainText_int (n : ℤ) : PlainText (toString n) := by
  have hminus : PlainText "-" := by decide
  cases n with
  | ofNat n => exact plainText_repr n
  | negSucc n => exact plainText_append.mpr ⟨hminus, plainText_repr _⟩

/-- A line that begins with this tag names nothing. -/
theorem names_tag (tag : String) {rest : String} (htag : BreakFree tag) (hrest : BreakFree rest)
    (hhash : startsWith tag "#" = true)
    (hother : ∀ other ∈ ["#EXT-X-MEDIA:", "#EXT-X-MAP:"], startsWith tag other = false ∧
      startsWith other tag = false) (p : String → Prop) :
    BreakFree (tag ++ rest) ∧ ∀ uri ∈ lineUris (tag ++ rest), p uri := by
  refine ⟨breakFree_append.mpr ⟨htag, hrest⟩, fun uri huri => ?_⟩
  rw [lineUris_tag (startsWith_append tag rest) hhash hother] at huri
  exact absurd huri (List.not_mem_nil)

/-- The playlist of a joined rung names its segments. -/
theorem namedUris_writePlaylist {entries : List (ℚ × String)}
    (hentries : ∀ entry ∈ entries, PlainText entry.2 ∧ entry.2.toList.head? ≠ some '#') :
    ∀ uri ∈ namedUris (writePlaylist entries), ∃ entry ∈ entries, uri = entry.2 := by
  refine forall_namedUris fun line hline => ?_
  have hfixed : ∀ line ∈ ["#EXTM3U", "#EXT-X-VERSION:3", "#EXT-X-MEDIA-SEQUENCE:0",
      "#EXT-X-PLAYLIST-TYPE:VOD", "#EXT-X-ENDLIST"], BreakFree line ∧ lineUris line = [] := by
    decide
  have hconst : ∀ line ∈ ["#EXTM3U", "#EXT-X-VERSION:3", "#EXT-X-MEDIA-SEQUENCE:0",
      "#EXT-X-PLAYLIST-TYPE:VOD", "#EXT-X-ENDLIST"], BreakFree line ∧
      ∀ uri ∈ lineUris line, ∃ entry ∈ entries, uri = entry.2 := by
    intro line hline
    obtain ⟨hfree, hnone⟩ := hfixed line hline
    exact ⟨hfree, by simp [hnone]⟩
  simp only [playlistText, List.mem_append, List.mem_flatMap, List.mem_cons, List.not_mem_nil,
    or_false] at hline
  rcases hline with ((rfl | rfl | rfl | rfl | rfl) | ⟨entry, hentry, rfl | rfl⟩) | rfl
  · exact hconst _ (by simp)
  · exact hconst _ (by simp)
  · exact names_tag "#EXT-X-TARGETDURATION:" (by decide) (plainText_int _).breakFree
      (by decide) (by decide) _
  · exact hconst _ (by simp)
  · exact hconst _ (by simp)
  · have hcomma : BreakFree "," := by decide
    have hduration := (plainText_fixedPoint 6 entry.1).breakFree
    rw [show s!"#EXTINF:{fixedPoint 6 entry.1}," = "#EXTINF:" ++ (fixedPoint 6 entry.1 ++ ",") from
      String.append_assoc ..]
    exact names_tag "#EXTINF:" (by decide) (breakFree_append.mpr ⟨hduration, hcomma⟩) (by decide)
      (by decide) _
  · exact ⟨(hentries entry hentry).1.breakFree, fun uri huri =>
      ⟨entry, hentry, eq_of_mem_lineUris (hentries entry hentry).2 huri⟩⟩
  · exact hconst _ (by simp)

/-- The audio line names the audio's playlist. -/
theorem lineUris_audioLine (count : ℕ) {uri : String} (hne : uri ≠ "")
    (hquote : '"' ∉ uri.toList) : lineUris (audioLine count uri) = [uri] := by
  have hchars : (audioLine count uri).toList =
      "#EXT-X-MEDIA:TYPE=AUDIO,GROUP-ID=\"group_audio\",NAME=\"audio_".toList ++
        (count.repr.toList ++ ("\",DEFAULT=YES,CHANNELS=\"2\",".toList ++
          ("URI=\"".toList ++ (uri.toList ++ ['"'])))) := by
    unfold audioLine
    simp
  have hstart : startsWith (audioLine count uri) "#EXT-X-MEDIA:" = true := by
    rw [startsWith, hchars]
    rfl
  have hnumber : Skips "URI=\"".toList count.repr.toList :=
    Skips.of_head (not_mem_repr (by decide) count)
  have hgroup : uri.toList ≠ [] := fun hnil => hne (by simpa using hnil)
  rw [lineUris, hstart, Bool.true_or, if_pos rfl, hchars,
    searchQuoted_append (by decide), searchQuoted_append hnumber,
    searchQuoted_append (by decide), searchQuoted_hit (by decide) hgroup hquote]
  simp

theorem breakFree_audioLine (count : ℕ) {uri : String} (huri : BreakFree uri) :
    BreakFree (audioLine count uri) := by
  unfold audioLine
  simp only [breakFree_append]
  refine ⟨⟨⟨⟨?_, (plainText_repr count).breakFree⟩, ?_⟩, huri⟩, ?_⟩ <;> decide

theorem breakFree_rungLine (rung : PieceRung) (audio : ℕ × ℕ) :
    BreakFree (rungLine rung audio) := by
  have hcodec := (plainText_codec rung.facts).breakFree
  have hresolution := (plainText_resolution rung.facts).breakFree
  have hnumber := fun n => (plainText_repr n).breakFree
  simp only [rungLine, breakFree_append, toString, hcodec, hresolution, hnumber, and_true]
  decide

theorem breakFree_soundLine (audio : ℕ × ℕ) : BreakFree (soundLine audio) := by
  have hnumber := fun n => (plainText_repr n).breakFree
  simp only [soundLine, breakFree_append, toString, hnumber, and_true]
  decide

/-- The master of a joined ladder names the playlists of its rungs and of its audio. -/
theorem namedUris_writeMaster (rungs : List PieceRung) (audio : ℕ × ℕ) :
    ∀ uri ∈ namedUris (writeMaster rungs audio (variantFile rungs.length indexName)),
      ∃ k ≤ rungs.length, uri = variantFile k indexName := by
  have hvariant : ∀ k, BreakFree (variantFile k indexName) := fun k =>
    breakFree_variantFile k (by decide)
  have hnames : ∀ k ≤ rungs.length, ∀ uri ∈ lineUris (variantFile k indexName),
      ∃ k ≤ rungs.length, uri = variantFile k indexName := fun k hk uri huri =>
    ⟨k, hk, eq_of_mem_lineUris (head?_variantFile k indexName) huri⟩
  have hmedia : lineUris (audioLine rungs.length (variantFile rungs.length indexName)) =
      [variantFile rungs.length indexName] := by
    have hquote : '"' ∉ indexName.toList := by decide
    refine lineUris_audioLine rungs.length (fun hempty => ?_) ?_
    · have hchars := congrArg String.toList hempty
      rw [toList_variantFile] at hchars
      exact absurd hchars (by simp)
    · have hnumber : '"' ∉ rungs.length.repr.toList := not_mem_repr (by decide) _
      rw [toList_variantFile]
      simpa [hquote] using hnumber
  have hconst : ∀ line ∈ ["#EXTM3U", "#EXT-X-VERSION:3", ""],
      BreakFree line ∧ lineUris line = [] := by decide
  refine forall_namedUris fun line hline => ?_
  simp only [masterText, List.mem_append, List.mem_flatMap, List.mem_cons, List.not_mem_nil,
    or_false] at hline
  rcases hline with ((rfl | rfl | rfl) | ⟨rung, hrung, rfl | rfl | rfl⟩) | rfl | rfl
  · obtain ⟨hfree, hnone⟩ := hconst "#EXTM3U" (by simp)
    exact ⟨hfree, by simp [hnone]⟩
  · obtain ⟨hfree, hnone⟩ := hconst "#EXT-X-VERSION:3" (by simp)
    exact ⟨hfree, by simp [hnone]⟩
  · refine ⟨breakFree_audioLine _ (hvariant _), fun uri huri => ⟨rungs.length, le_rfl, ?_⟩⟩
    rw [hmedia] at huri
    exact List.mem_singleton.mp huri
  · have hstart : startsWith (rungLine rung.1 audio) streamInf = true := startsWith_append _ _
    exact ⟨breakFree_rungLine rung.1 audio, by simp [lineUris_streamInf hstart]⟩
  · have hlt : rung.2 < rungs.length := by simpa using List.snd_lt_of_mem_zipIdx hrung
    exact ⟨hvariant _, hnames rung.2 (le_of_lt hlt)⟩
  · obtain ⟨hfree, hnone⟩ := hconst "" (by simp)
    exact ⟨hfree, by simp [hnone]⟩
  · have hstart : startsWith (soundLine audio) streamInf = true := startsWith_append _ _
    exact ⟨breakFree_soundLine audio, by simp [lineUris_streamInf hstart]⟩
  · exact ⟨hvariant _, hnames rungs.length le_rfl⟩

theorem variantFile_inj {k l : ℕ} {name file : String}
    (heq : variantFile k name = variantFile l file) : k = l ∧ name = file := by
  have hchars := congrArg String.toList heq
  rw [toList_variantFile, toList_variantFile] at hchars
  have hrung : ∀ n : ℕ, '/' ∉ n.repr.toList := not_mem_repr (by decide)
  obtain ⟨hindex, hnames⟩ := append_cons_inj (hrung k) (hrung l) (List.cons.inj hchars).2
  exact ⟨eq_of_repr hindex, String.toList_inj.mp hnames⟩

theorem variantFile_ne_master (k : ℕ) (name : String) :
    variantFile k name ≠ masterPlaylistName := by
  intro heq
  have hfirst := congrArg (fun path : String => path.toList.head?) heq
  simp [toList_variantFile, masterPlaylistName] at hfirst

theorem segmentName_ne_index (ending : String) (n : ℕ) : segmentName ending n ≠ indexName := by
  intro heq
  have hfirst := congrArg (fun path : String => path.toList.head?) heq
  simp [toList_segmentName, indexName] at hfirst

/-- A joined ladder is laid out as FFmpeg's own, if its audio is. -/
theorem ladderShape_joinedFiles {rungs : List PieceRung} {audio : List (String × String)}
    (haudio : VariantShape ".ts" audio) (rates : ℕ × ℕ) :
    LadderShape rungs.length (joinedFiles rungs audio rates) := by
  have hmem : ∀ file ∈ joinedFiles rungs audio rates,
      (∃ rung ∈ rungs.zipIdx, file ∈ joinedRung rung.2 rung.1) ∨
      (∃ sound ∈ audio, file = (variantFile rungs.length sound.1, sound.2)) ∨
      file = (masterPlaylistName,
        writeMaster rungs rates (variantFile rungs.length indexName)) := by
    intro file hfile
    simp only [joinedFiles, List.mem_append, List.mem_flatMap, List.mem_map,
      List.mem_singleton] at hfile
    rcases hfile with (hrung | ⟨sound, hsound, rfl⟩) | rfl
    · exact Or.inl hrung
    · exact Or.inr (Or.inl ⟨sound, hsound, rfl⟩)
    · exact Or.inr (Or.inr rfl)
  have hrungFile : ∀ k rung, ∀ file ∈ joinedRung k rung,
      (∃ n, file.1 = variantFile k (segmentName ".ts" n)) ∨ file = (variantFile k indexName,
        writePlaylist (rung.joined.map fun segment => (segment.1.1, segment.2))) := by
    intro k rung file hfile
    simp only [joinedRung, PieceRung.joined, List.mem_append, List.mem_map,
      List.mem_singleton] at hfile
    rcases hfile with ⟨segment, ⟨numbered, -, rfl⟩, rfl⟩ | rfl
    · exact Or.inl ⟨numbered.2, rfl⟩
    · exact Or.inr rfl
  refine ⟨fun file hfile => ?_, fun file hfile hname => ?_, fun file hfile k hname => ?_⟩
  · rcases hmem file hfile with ⟨rung, hrung, hfile⟩ | ⟨sound, hsound, rfl⟩ | rfl
    · have hlt : rung.2 < rungs.length := by simpa using List.snd_lt_of_mem_zipIdx hrung
      refine Or.inr ⟨rung.2, le_of_lt hlt, ?_⟩
      rcases hrungFile _ _ file hfile with ⟨n, hname⟩ | rfl
      · exact Or.inr ⟨n, hname⟩
      · exact Or.inl rfl
    · refine Or.inr ⟨rungs.length, le_rfl, ?_⟩
      rcases haudio.names sound hsound with hname | ⟨n, hname⟩
      · exact Or.inl (congrArg (variantFile _) hname)
      · exact Or.inr ⟨n, congrArg (variantFile _) hname⟩
    · exact Or.inl rfl
  · rcases hmem file hfile with ⟨rung, hrung, hfile⟩ | ⟨sound, hsound, rfl⟩ | rfl
    · rcases hrungFile _ _ file hfile with ⟨n, hother⟩ | rfl
      · exact absurd (hother.symm.trans hname) (variantFile_ne_master _ _)
      · exact absurd hname (variantFile_ne_master _ _)
    · exact absurd hname (variantFile_ne_master _ _)
    · exact namedUris_writeMaster rungs rates
  · rcases hmem file hfile with ⟨rung, hrung, hfile⟩ | ⟨sound, hsound, rfl⟩ | rfl
    · rcases hrungFile _ _ file hfile with ⟨n, hother⟩ | rfl
      · exact absurd (variantFile_inj (hother.symm.trans hname)).2 (segmentName_ne_index _ _)
      · intro uri huri
        have hplain : PlainText ".ts" := by decide
        obtain ⟨entry, hentry, rfl⟩ := namedUris_writePlaylist (fun entry hentry => by
          simp only [PieceRung.joined, List.mem_map] at hentry
          obtain ⟨_, ⟨numbered, -, rfl⟩, rfl⟩ := hentry
          exact ⟨plainText_segmentName hplain _, head?_segmentName _ _⟩) uri huri
        simp only [PieceRung.joined, List.mem_map] at hentry
        obtain ⟨_, ⟨numbered, -, rfl⟩, rfl⟩ := hentry
        exact ⟨numbered.2, rfl⟩
    · obtain ⟨-, hindex⟩ := variantFile_inj hname
      exact haudio.playlist sound hsound hindex
    · exact absurd hname.symm (variantFile_ne_master _ _)

end Worker
end MediaPlayer
