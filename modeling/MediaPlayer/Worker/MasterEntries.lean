import MediaPlayer.Worker.MasterLines

/-!
# The entries of a master, as the passes over it leave them

* `read_pipelineFile`, `contains_pipelineFile` — the file is read as its head and its entries,
  and names the renditions it lists and no others.
* `addToMaster_pipelineFile`, `addToMaster_listed` — one more entry goes behind those of its
  kind, and one that is listed changes nothing.
* `labelFrameRates_writeMaster`, `labelFrameRates_pipelineFile` — labelling makes the file
  without renditions, and changes it no more.
-/

namespace MediaPlayer
namespace Worker

open Library

/-! ## URIs -/

theorem count_uri (kind : RenditionKind) (rung : ℕ) :
    (renditionUri kind rung).toList.count '/' = 2 := by
  have hname : '/' ∉ kind.name.toList := by cases kind <;> decide
  have hrung : '/' ∉ rung.repr.toList := not_mem_repr (by decide) rung
  have hindex : '/' ∉ "index.m3u8".toList := by decide
  rw [toList_renditionUri]
  simp only [List.count_append, List.count_cons_self, List.count_eq_zero.mpr hname,
    List.count_eq_zero.mpr hrung, List.count_eq_zero.mpr hindex]

/-- A line with one slash at most names no rendition. -/
theorem not_contains_uri {line : String} (hline : line.toList.count '/' ≤ 1)
    (kind : RenditionKind) (rung : ℕ) : contains line (renditionUri kind rung) = false := by
  refine decide_eq_false fun hwithin => ?_
  have hcount := hwithin.sublist.count_le '/'
  rw [count_uri] at hcount
  omega

theorem PlainText.count_slash {text : String} (htext : PlainText text) :
    text.toList.count '/' = 0 :=
  List.count_eq_zero.mpr fun hmem => (htext '/' hmem).2 rfl

theorem count_variantFile (k : ℕ) : (variantFile k indexName).toList.count '/' = 1 := by
  have hrung : '/' ∉ k.repr.toList := not_mem_repr (by decide) k
  have hindex : '/' ∉ indexName.toList := by decide
  rw [toList_variantFile, List.count_cons_of_ne (by decide)]
  simp only [List.count_append, List.count_cons_self, List.count_eq_zero.mpr hrung,
    List.count_eq_zero.mpr hindex]

theorem count_audioLine (count k : ℕ) :
    (audioLine count (variantFile k indexName)).toList.count '/' = 1 := by
  have hname : PlainText "#EXT-X-MEDIA:TYPE=AUDIO,GROUP-ID=\"group_audio\",NAME=\"audio_" := by
    decide
  have hchannels : PlainText "\",DEFAULT=YES,CHANNELS=\"2\",URI=\"" := by decide
  have hquote : PlainText "\"" := by decide
  unfold audioLine
  rw [String.toList_append, String.toList_append, String.toList_append, String.toList_append,
    List.count_append, List.count_append, List.count_append, List.count_append,
    hname.count_slash, (plainText_repr count).count_slash, hchannels.count_slash,
    count_variantFile, hquote.count_slash]

/-- The kind and the height tell the URI of a rendition. -/
theorem renditionUri_inj {kind other : RenditionKind} {rung height : ℕ}
    (heq : renditionUri kind rung = renditionUri other height) : kind = other ∧ rung = height := by
  have hname : ∀ kind : RenditionKind, '/' ∉ kind.name.toList := by
    intro kind
    cases kind <;> decide
  have hnumber : ∀ n : ℕ, '/' ∉ n.repr.toList := not_mem_repr (by decide)
  have hchars := congrArg String.toList heq
  rw [toList_renditionUri, toList_renditionUri] at hchars
  obtain ⟨hkind, hrest⟩ := append_cons_inj (hname kind) (hname other) hchars
  obtain ⟨hrung, -⟩ := append_cons_inj (hnumber rung) (hnumber height) hrest
  refine ⟨?_, eq_of_repr hrung⟩
  cases kind <;> cases other <;> first | rfl | exact absurd hkind (by decide)

theorem renditionUri_ne_variantFile (kind : RenditionKind) (rung k : ℕ) :
    renditionUri kind rung ≠ variantFile k indexName := by
  intro heq
  have hcount := congrArg (fun uri : String => uri.toList.count '/') heq
  simp only [count_uri, count_variantFile] at hcount
  omega

/-- HDR stands before AV1, and AV1 before the ladder. -/
theorem rank_renditionUri (kind : RenditionKind) (rung : ℕ) :
    rank (renditionUri kind rung) = if kind = .hdr then 0 else 1 := by
  have hfirst : beforeFirst '/' (renditionUri kind rung) = kind.name := by
    have hname : ∀ c ∈ kind.name.toList, (c != '/') = true :=
      List.all_eq_true.mp (by cases kind <;> decide)
    rw [beforeFirst, toList_renditionUri, List.takeWhile_append_of_pos hname]
    simp
  unfold rank
  rw [hfirst]
  cases kind <;> rfl

theorem rank_variantFile (k : ℕ) : rank (variantFile k indexName) = 2 := by
  have hfirst : (beforeFirst '/' (variantFile k indexName)).toList.head? = some 'v' := by
    simp [beforeFirst, toList_variantFile]
  unfold rank
  rw [if_neg, if_neg]
  · intro heq
    rw [heq] at hfirst
    exact absurd hfirst (by decide)
  · intro heq
    rw [heq] at hfirst
    exact absurd hfirst (by decide)

/-! ## The entries of the file -/

section

variable {rungs : List PieceRung} {audio : ℕ × ℕ} {rate : ℚ}
  {batch : RenditionKind → List Listed}

/-- The entries of pictures: all but the audio alone. -/
def videoEntries (rungs : List PieceRung) (audio : ℕ × ℕ) (rate : ℚ)
    (batch : RenditionKind → List Listed) : List (String × String) :=
  batchEntries (firstVideo (ladderEntries rungs audio rate)) (batch .hdr) ++
    (batchEntries (firstVideo (ladderEntries rungs audio rate)) (batch .av1) ++
      rungEntries rungs audio rate)

theorem pipelineEntries_eq : pipelineEntries rungs audio rate batch =
    videoEntries rungs audio rate batch ++ [soundEntry rungs.length audio] := by
  simp [pipelineEntries, videoEntries, ladderEntries]

theorem mem_rungEntries {entry : String × String} (hentry : entry ∈ rungEntries rungs audio rate) :
    VideoLine rate entry.1 ∧ ∃ k < rungs.length, entry.2 = variantFile k indexName := by
  obtain ⟨rung, hrung, rfl⟩ := List.mem_map.mp hentry
  have hlt : rung.2 < rungs.length := by simpa using List.snd_lt_of_mem_zipIdx hrung
  -- The pair is taken apart first: the unifier would compute the line.
  dsimp only
  exact ⟨videoLine_rungLine rung.1 audio rate, rung.2, hlt, rfl⟩

/-- The first picture of a list that begins with pictures is one of them. -/
theorem videoLine_firstVideo {video others : List (String × String)} (hne : video ≠ [])
    (hvideo : ∀ entry ∈ video, VideoLine rate entry.1) :
    VideoLine rate (firstVideo (video ++ others)) := by
  cases video with
  | nil => exact absurd rfl hne
  | cons entry video =>
      have hfirst := hvideo entry (List.mem_cons_self ..)
      have hfound : ((entry :: video) ++ others).find?
          (fun entry => contains entry.1 "RESOLUTION=") = some entry :=
        List.find?_cons_of_pos hfirst.resolution
      rw [firstVideo, hfound]
      exact hfirst

theorem videoLine_ladder (hrungs : rungs ≠ []) (audio : ℕ × ℕ) (rate : ℚ) :
    VideoLine rate (firstVideo (ladderEntries rungs audio rate)) := by
  refine videoLine_firstVideo ?_ fun entry hentry => (mem_rungEntries hentry).1
  simpa [rungEntries] using hrungs

theorem mem_batchEntries {first : String} {kind : RenditionKind} {listed : List Listed}
    (hfirst : VideoLine rate first) (hplanned : ∀ entry ∈ listed, entry.Planned kind)
    {entry : String × String} (hentry : entry ∈ batchEntries first listed) :
    VideoLine rate entry.1 ∧ ∃ rung ∈ listed.map (·.rung), entry.2 = renditionUri kind rung := by
  obtain ⟨member, hmember, rfl⟩ := List.mem_map.mp hentry
  have hplan := hplanned member hmember
  refine ⟨hplan.videoLine hfirst, member.rung, List.mem_map_of_mem hmember, ?_⟩
  rw [Listed.uri, hplan.kind_eq]

/-- The entries of pictures, and what they are listed under. -/
theorem mem_videoEntries (hrungs : rungs ≠ [])
    (hplanned : ∀ kind, ∀ entry ∈ batch kind, entry.Planned kind) {entry : String × String}
    (hentry : entry ∈ videoEntries rungs audio rate batch) : VideoLine rate entry.1 ∧
      ((∃ k < rungs.length, entry.2 = variantFile k indexName) ∨
        ∃ kind, ∃ rung ∈ (batch kind).map (·.rung), entry.2 = renditionUri kind rung) := by
  have hfirst := videoLine_ladder hrungs audio rate
  rcases List.mem_append.mp hentry with hhdr | hentry
  · obtain ⟨hvideo, huri⟩ := mem_batchEntries hfirst (hplanned .hdr) hhdr
    exact ⟨hvideo, .inr ⟨.hdr, huri⟩⟩
  · rcases List.mem_append.mp hentry with hav1 | hrung
    · obtain ⟨hvideo, huri⟩ := mem_batchEntries hfirst (hplanned .av1) hav1
      exact ⟨hvideo, .inr ⟨.av1, huri⟩⟩
    · obtain ⟨hvideo, huri⟩ := mem_rungEntries hrung
      exact ⟨hvideo, .inl huri⟩

theorem plainText_soundLine (audio : ℕ × ℕ) : PlainText (soundLine audio) := by
  have htexts : PlainText streamInf ∧ PlainText "BANDWIDTH=" ∧
      PlainText ",AVERAGE-BANDWIDTH=" ∧ PlainText "," ∧
      PlainText "CODECS=\"mp4a.40.2\",AUDIO=\"group_audio\"" := by decide
  simp [soundLine, toString, htexts]

/-- The audio alone has no picture. -/
theorem soundLine_no_picture (audio : ℕ × ℕ) :
    contains (soundLine audio) "RESOLUTION=" = false := by
  have hnumber : ∀ n : ℕ, Skips "RESOLUTION=".toList n.repr.toList := fun n =>
    Skips.of_head (not_mem_repr (by decide) n)
  have htag : Skips "RESOLUTION=".toList streamInf.toList := by decide
  have hband : Skips "RESOLUTION=".toList "BANDWIDTH=".toList := by decide
  have haverage : Skips "RESOLUTION=".toList ",AVERAGE-BANDWIDTH=".toList := by decide
  have hcomma : Skips "RESOLUTION=".toList ",".toList := by decide
  have hcodecs : Skips "RESOLUTION=".toList
      "CODECS=\"mp4a.40.2\",AUDIO=\"group_audio\"".toList := by decide
  refine Skips.not_contains ?_ (by decide)
  unfold soundLine
  simp only [toString, String.toList_append]
  have hrates := ((hband.append (hnumber audio.1)).append haverage).append (hnumber audio.2)
  exact htag.append ((hrates.append hcomma).append hcodecs)

/-! ## Reading the file -/

theorem readable_of_plainText {line : String} (hplain : PlainText line)
    (htag : startsWith line streamInf = true) : Readable line := by
  have hprefix : streamInf.toList <+: line.toList := List.isPrefixOf_iff_prefix.mp htag
  have hhash : '#' ∈ line.toList := hprefix.subset (by decide)
  exact ⟨strip_ne_of_mem hhash (by decide), hplain.breakFree⟩

theorem VideoLine.readable {line : String} (hline : VideoLine rate line) : Readable line :=
  readable_of_plainText hline.plain hline.tag

/-- A URI begins with a letter and keeps to its line. -/
theorem plain_uri {uri : String} (hhead : uri.toList.head? ≠ some '#') (hslash : '/' ∈ uri.toList)
    (hfree : BreakFree uri) : startsWith uri streamInf = false ∧ Readable uri := by
  refine ⟨(Bool.not_eq_true _).mp fun htag => hhead ?_, strip_ne_of_mem hslash (by decide), hfree⟩
  have hprefix : streamInf.toList <+: uri.toList := List.isPrefixOf_iff_prefix.mp htag
  obtain ⟨rest, hrest⟩ := hprefix
  rw [← hrest]
  rfl

theorem plain_variantFile (k : ℕ) : startsWith (variantFile k indexName) streamInf = false ∧
    Readable (variantFile k indexName) :=
  plain_uri (head?_variantFile k indexName) (by simp [toList_variantFile])
    (breakFree_variantFile k (by decide))

theorem plain_renditionUri (kind : RenditionKind) (rung : ℕ) :
    startsWith (renditionUri kind rung) streamInf = false ∧ Readable (renditionUri kind rung) := by
  refine plain_uri ?_ (by simp [toList_renditionUri]) fun c hc => (renditionUri_chars kind rung hc).1
  rw [toList_renditionUri]
  cases kind <;> exact fun heq => absurd (Option.some.inj heq) (by decide)

/-- Every entry is read as it is written. -/
theorem plainEntry_pipelineEntries (hrungs : rungs ≠ [])
    (hplanned : ∀ kind, ∀ entry ∈ batch kind, entry.Planned kind) :
    ∀ entry ∈ pipelineEntries rungs audio rate batch, PlainEntry entry := by
  intro entry hentry
  rw [pipelineEntries_eq] at hentry
  rcases List.mem_append.mp hentry with hvideo | hsound
  · obtain ⟨hline, huri⟩ := mem_videoEntries hrungs hplanned hvideo
    have hplain : startsWith entry.2 streamInf = false ∧ Readable entry.2 := by
      rcases huri with ⟨k, -, huri⟩ | ⟨kind, rung, -, huri⟩
      · exact huri ▸ plain_variantFile k
      · exact huri ▸ plain_renditionUri kind rung
    exact ⟨hline.tag, hplain.1, hline.readable, hplain.2⟩
  · obtain rfl := List.mem_singleton.mp hsound
    have htag : startsWith (soundLine audio) streamInf = true := startsWith_append _ _
    exact ⟨htag, (plain_variantFile _).1, readable_of_plainText (plainText_soundLine audio) htag,
      (plain_variantFile _).2⟩

theorem mem_masterHead {count : ℕ} {line : String} (hline : line ∈ masterHead count) :
    startsWith line streamInf = false ∧ Readable line ∧ line.toList.count '/' ≤ 1 := by
  have hfixed : ∀ line ∈ ["#EXTM3U", "#EXT-X-VERSION:3"], startsWith line streamInf = false ∧
      (strip line ≠ "" ∧ BreakFree line) ∧ line.toList.count '/' ≤ 1 := by decide
  simp only [masterHead, List.mem_cons, List.not_mem_nil, or_false] at hline
  rcases hline with rfl | rfl | rfl
  · exact hfixed _ (by simp)
  · exact hfixed _ (by simp)
  · have hchars : (audioLine count (variantFile count indexName)).toList =
        "#EXT-X-MEDIA:TYPE=AUDIO,GROUP-ID=\"group_audio\",NAME=\"audio_".toList ++
          (count.repr.toList ++ ("\",DEFAULT=YES,CHANNELS=\"2\",URI=\"".toList ++
            ((variantFile count indexName).toList ++ "\"".toList))) := by
      unfold audioLine
      rw [String.toList_append, String.toList_append, String.toList_append, String.toList_append,
        List.append_assoc, List.append_assoc, List.append_assoc]
    -- A line with a mark in it is not blank.
    have hhash : '#' ∈ (audioLine count (variantFile count indexName)).toList := by
      rw [hchars]
      exact List.mem_append_left _ (by decide)
    refine ⟨?_, ⟨strip_ne_of_mem hhash (by decide), breakFree_audioLine count
      (breakFree_variantFile count (by decide))⟩, (count_audioLine count count).le⟩
    rw [startsWith, hchars]
    rfl

/-- The file is read as its head and its entries. -/
theorem read_pipelineFile (hrungs : rungs ≠ [])
    (hplanned : ∀ kind, ∀ entry ∈ batch kind, entry.Planned kind) :
    splitLines (pipelineFile rungs audio rate batch) =
        masterHead rungs.length ++ pipelineLines rungs audio rate batch ∧
      entriesOf (pipelineFile rungs audio rate batch) =
        (masterHead rungs.length, pipelineEntries rungs audio rate batch) :=
  entriesOf_laidOut (laidOut_pipelineLines rungs audio rate batch)
    (plainEntry_pipelineEntries hrungs hplanned)
    (fun _ hline => ⟨(mem_masterHead hline).1, (mem_masterHead hline).2.1⟩) (by simp [masterHead])

/-- A rendition is named in the file exactly if it is listed. -/
theorem contains_pipelineFile (hrungs : rungs ≠ [])
    (hplanned : ∀ kind, ∀ entry ∈ batch kind, entry.Planned kind) (kind : RenditionKind)
    (rung : ℕ) : contains (pipelineFile rungs audio rate batch) (renditionUri kind rung) = true ↔
      rung ∈ (batch kind).map (·.rung) := by
  have hlaid := laidOut_pipelineLines rungs audio rate batch
  have hslash : '/' ∈ (renditionUri kind rung).toList := by simp [toList_renditionUri]
  have hne : renditionUri kind rung ≠ "" := by
    intro hempty
    simp [hempty] at hslash
  have hbreak : '\n' ∉ (renditionUri kind rung).toList := fun hc =>
    absurd (renditionUri_chars kind rung hc).1 (by decide)
  rw [pipelineFile, contains_joinLines (by simp [masterHead]) hne hbreak]
  constructor
  · rintro ⟨line, hline, huri⟩
    -- Every line but the URIs of the renditions has one slash at most.
    have hfew : ¬line.toList.count '/' ≤ 1 := fun hcount => by
      rw [not_contains_uri hcount] at huri
      exact absurd huri (by decide)
    rcases List.mem_append.mp hline with hhead | hline
    · exact absurd (mem_masterHead hhead).2.2 hfew
    · rcases hlaid.mem_lines hline with rfl | ⟨entry, hentry, hpart⟩
      · exact absurd (by decide) hfew
      · rw [pipelineEntries_eq] at hentry
        rcases List.mem_append.mp hentry with hvideo | hsound
        · obtain ⟨hvideoLine, hname⟩ := mem_videoEntries hrungs hplanned hvideo
          rcases hpart with rfl | rfl
          · exact absurd (by simp [hvideoLine.plain.count_slash]) hfew
          · rcases hname with ⟨k, -, hname⟩ | ⟨other, height, hheight, hname⟩
            · exact absurd (by simp [hname, count_variantFile]) hfew
            · rw [hname] at huri
              obtain ⟨rfl, rfl⟩ := renditionUri_inj (renditionUri_eq_of_contains huri)
              exact hheight
        · obtain rfl := List.mem_singleton.mp hsound
          rcases hpart with rfl | rfl
          · exact absurd (by simp [soundEntry, (plainText_soundLine audio).count_slash]) hfew
          · exact absurd (by simp [soundEntry, count_variantFile]) hfew
  · intro hrung
    obtain ⟨listed, hlisted, rfl⟩ := List.mem_map.mp hrung
    have hentry : (listed.info (firstVideo (ladderEntries rungs audio rate)), listed.uri) ∈
        pipelineEntries rungs audio rate batch := by
      have hmem := List.mem_map_of_mem (f := fun listed : Listed =>
        (listed.info (firstVideo (ladderEntries rungs audio rate)), listed.uri)) hlisted
      cases kind with
      | hdr => exact List.mem_append_left _ hmem
      | av1 => exact List.mem_append_right _ (List.mem_append_left _ hmem)
    refine ⟨listed.uri, List.mem_append_right _ (hlaid.mem_uri hentry), ?_⟩
    rw [Listed.uri, (hplanned kind listed hlisted).kind_eq]
    exact decide_eq_true List.infix_rfl

/-! ## One more entry -/

/-- The rank of an entry of one kind. -/
theorem rank_batchEntries {first : String} {kind : RenditionKind} {listed : List Listed}
    (hplanned : ∀ entry ∈ listed, entry.Planned kind) {entry : String × String}
    (hentry : entry ∈ batchEntries first listed) : rank entry.2 = if kind = .hdr then 0 else 1 := by
  obtain ⟨member, hmember, rfl⟩ := List.mem_map.mp hentry
  rw [Listed.uri, (hplanned member hmember).kind_eq, rank_renditionUri]

theorem rank_ladderEntries {entry : String × String}
    (hentry : entry ∈ ladderEntries rungs audio rate) : rank entry.2 = 2 := by
  rcases List.mem_append.mp hentry with hrung | hsound
  · obtain ⟨-, k, -, huri⟩ := mem_rungEntries hrung
    rw [huri, rank_variantFile]
  · obtain rfl := List.mem_singleton.mp hsound
    exact rank_variantFile _

/-- The batches with one more entry of this kind. -/
def withEntry (batch : RenditionKind → List Listed) (kind : RenditionKind) (listed : Listed) :
    RenditionKind → List Listed :=
  Function.update batch kind (batch kind ++ [listed])

theorem withEntry_planned (hplanned : ∀ kind, ∀ entry ∈ batch kind, entry.Planned kind)
    {kind : RenditionKind} {listed : Listed} (hlisted : listed.Planned kind) :
    ∀ other, ∀ entry ∈ withEntry batch kind listed other, entry.Planned other := by
  intro other entry hentry
  unfold withEntry at hentry
  by_cases hother : other = kind
  · subst hother
    rw [Function.update_self] at hentry
    rcases List.mem_append.mp hentry with hold | hnew
    · exact hplanned other entry hold
    · obtain rfl := List.mem_singleton.mp hnew
      exact hlisted
  · rw [Function.update_of_ne hother] at hentry
    exact hplanned other entry hentry

theorem pairwise_of_rank {entries : List (String × String)} {n : ℕ}
    (hrank : ∀ entry ∈ entries, rank entry.2 = n) :
    entries.Pairwise fun a b => rank a.2 ≤ rank b.2 := by
  refine List.pairwise_of_forall_mem_list fun a ha b hb => ?_
  rw [hrank a ha, hrank b hb]

/-- The entries are in the order of their ranks. -/
theorem pipelineEntries_sorted (hplanned : ∀ kind, ∀ entry ∈ batch kind, entry.Planned kind) :
    (pipelineEntries rungs audio rate batch).Pairwise fun a b => rank a.2 ≤ rank b.2 := by
  have hhdr : ∀ entry ∈ batchEntries (firstVideo (ladderEntries rungs audio rate)) (batch .hdr),
      rank entry.2 = 0 := fun entry hentry => rank_batchEntries (hplanned .hdr) hentry
  have hav1 : ∀ entry ∈ batchEntries (firstVideo (ladderEntries rungs audio rate)) (batch .av1),
      rank entry.2 = 1 := fun entry hentry => rank_batchEntries (hplanned .av1) hentry
  have hladder : ∀ entry ∈ ladderEntries rungs audio rate, rank entry.2 = 2 := fun entry hentry =>
    rank_ladderEntries hentry
  refine List.pairwise_append.mpr ⟨pairwise_of_rank hhdr, List.pairwise_append.mpr
    ⟨pairwise_of_rank hav1, pairwise_of_rank hladder, fun a ha b hb => ?_⟩, fun a ha b hb => ?_⟩
  · rw [hav1 a ha, hladder b hb]
    omega
  · rw [hhdr a ha]
    omega

/-- One more entry stands behind those of its kind. -/
theorem addEntry_pipelineEntries (hrungs : rungs ≠ [])
    (hplanned : ∀ kind, ∀ entry ∈ batch kind, entry.Planned kind) {kind : RenditionKind}
    {listed : Listed} (hlisted : listed.Planned kind) :
    addEntry (pipelineEntries rungs audio rate batch) listed =
      pipelineEntries rungs audio rate (withEntry batch kind listed) := by
  have hfirst := videoLine_ladder hrungs audio rate
  have hvideo : VideoLine rate (firstVideo (pipelineEntries rungs audio rate batch)) := by
    rw [pipelineEntries_eq]
    refine videoLine_firstVideo ?_ fun entry hentry => (mem_videoEntries hrungs hplanned hentry).1
    simp [videoEntries, rungEntries, hrungs]
  -- It reads the same of the file's first picture as of the ladder's.
  have hinfo : listed.info (firstVideo (pipelineEntries rungs audio rate batch)) =
      listed.info (firstVideo (ladderEntries rungs audio rate)) := by
    rw [listed.info_eq hvideo, listed.info_eq hfirst]
  have huri : rank listed.uri = if kind = .hdr then 0 else 1 := by
    rw [Listed.uri, hlisted.kind_eq, rank_renditionUri]
  have hsorted : (pipelineEntries rungs audio rate batch).Pairwise
      fun a b => rank a.2 ≤ rank b.2 := pipelineEntries_sorted hplanned
  unfold addEntry
  rw [hinfo]
  unfold pipelineEntries at hsorted ⊢
  cases kind with
  -- Behind the entries of its own rank, before those of AV1 and the ladder.
  | hdr =>
      rw [insertionSort_insert hsorted]
      · simp [withEntry, batchEntries]
      · intro entry hentry
        rw [rank_batchEntries (hplanned .hdr) hentry, huri]
      · intro entry hentry
        have habove : 0 < rank entry.2 := by
          rcases List.mem_append.mp hentry with hav1 | hladder
          · rw [rank_batchEntries (hplanned .av1) hav1]
            decide
          · rw [rank_ladderEntries hladder]
            decide
        rw [huri]
        simp only [if_pos]
        omega
  -- Behind those of HDR too, which rank below it.
  | av1 =>
      rw [← List.append_assoc] at hsorted ⊢
      rw [insertionSort_insert hsorted]
      · simp [withEntry, batchEntries]
      · intro entry hentry
        rw [huri]
        rcases List.mem_append.mp hentry with hhdr | hav1
        · rw [rank_batchEntries (hplanned .hdr) hhdr]
          decide
        · rw [rank_batchEntries (hplanned .av1) hav1]
      · intro entry hentry
        rw [rank_ladderEntries hentry, huri]
        decide

theorem masterLines_eq (head : List String) (entries : List (String × String)) :
    masterLines head entries = head ++ masterLines [] entries := rfl

/-- One more entry of a height that is not listed. -/
theorem addToMaster_pipelineFile (hrungs : rungs ≠ [])
    (hplanned : ∀ kind, ∀ entry ∈ batch kind, entry.Planned kind) {kind : RenditionKind}
    {listed : Listed} (hlisted : listed.Planned kind)
    (hnew : listed.rung ∉ (batch kind).map (·.rung)) :
    addToMaster (pipelineFile rungs audio rate batch) listed =
      pipelineFile rungs audio rate (withEntry batch kind listed) := by
  have hmiss : contains (pipelineFile rungs audio rate batch) listed.uri = false := by
    rw [← Bool.not_eq_true, Listed.uri, hlisted.kind_eq,
      contains_pipelineFile hrungs hplanned]
    exact hnew
  have hsome : ¬(withEntry batch kind listed .hdr = [] ∧ withEntry batch kind listed .av1 = []) := by
    cases kind <;> simp [withEntry]
  rw [addToMaster_of_not_contains hmiss, (read_pipelineFile hrungs hplanned).2,
    addEntry_pipelineEntries hrungs hplanned hlisted, masterLines_eq, pipelineFile, pipelineLines,
    if_neg hsome]

/-- A height that is listed is not listed again. -/
theorem addToMaster_listed (hrungs : rungs ≠ [])
    (hplanned : ∀ kind, ∀ entry ∈ batch kind, entry.Planned kind) {kind : RenditionKind}
    {listed : Listed} (hlisted : listed.Planned kind)
    (hold : listed.rung ∈ (batch kind).map (·.rung)) :
    addToMaster (pipelineFile rungs audio rate batch) listed =
      pipelineFile rungs audio rate batch := by
  have hhit : contains (pipelineFile rungs audio rate batch) listed.uri = true := by
    rw [Listed.uri, hlisted.kind_eq, contains_pipelineFile hrungs hplanned]
    exact hold
  rw [addToMaster, if_pos hhit]

/-! ## Whole batches -/

theorem foldl_listed (hrungs : rungs ≠ [])
    (hplanned : ∀ kind, ∀ entry ∈ batch kind, entry.Planned kind) {kind : RenditionKind}
    {listed : List Listed} (hlisted : ∀ entry ∈ listed, entry.Planned kind)
    (hold : ∀ entry ∈ listed, entry.rung ∈ (batch kind).map (·.rung)) :
    listed.foldl addToMaster (pipelineFile rungs audio rate batch) =
      pipelineFile rungs audio rate batch := by
  induction listed with
  | nil => rfl
  | cons entry listed ih =>
      rw [List.foldl_cons, addToMaster_listed hrungs hplanned
        (hlisted entry (List.mem_cons_self ..)) (hold entry (List.mem_cons_self ..))]
      exact ih (fun other hother => hlisted other (List.mem_cons_of_mem _ hother))
        fun other hother => hold other (List.mem_cons_of_mem _ hother)

theorem foldl_new (hrungs : rungs ≠ [])
    (hplanned : ∀ kind, ∀ entry ∈ batch kind, entry.Planned kind) {kind : RenditionKind}
    {listed : List Listed} (hlisted : ∀ entry ∈ listed, entry.Planned kind)
    (hheights : ((batch kind ++ listed).map (·.rung)).Nodup) :
    listed.foldl addToMaster (pipelineFile rungs audio rate batch) =
      pipelineFile rungs audio rate (Function.update batch kind (batch kind ++ listed)) := by
  induction listed generalizing batch with
  | nil => rw [List.append_nil, Function.update_eq_self, List.foldl_nil]
  | cons entry listed ih =>
      have hentry := hlisted entry (List.mem_cons_self ..)
      have hnew : entry.rung ∉ (batch kind).map (·.rung) := by
        rw [List.map_append, List.map_cons] at hheights
        intro hold
        exact (List.nodup_append.mp hheights).2.2 _ hold _ (List.mem_cons_self ..) rfl
      -- The entry joins its batch, and the rest is added to that one.
      have hkind : withEntry batch kind entry kind = batch kind ++ [entry] :=
        Function.update_self ..
      rw [List.foldl_cons, addToMaster_pipelineFile hrungs hplanned hentry hnew,
        ih (withEntry_planned hplanned hentry)
          (fun other hother => hlisted other (List.mem_cons_of_mem _ hother))
          (by rwa [hkind, List.append_assoc, List.singleton_append]),
        hkind, withEntry, Function.update_idem, List.append_assoc, List.singleton_append]

/-! ## Labelling -/

/-- A line that is labelled, or has no picture, is kept. -/
theorem labelFrameRate_of_kept {line : String} (other : ℚ)
    (hkept : startsWith line streamInf = false ∨ contains line "RESOLUTION=" = false ∨
      contains line "FRAME-RATE=" = true) : labelFrameRate other line = line := by
  unfold labelFrameRate
  rcases hkept with hkept | hkept | hkept <;> simp [hkept]

theorem map_label_of_kept {lines : List String} (other : ℚ)
    (hkept : ∀ line ∈ lines, startsWith line streamInf = false ∨
      contains line "RESOLUTION=" = false ∨ contains line "FRAME-RATE=" = true) :
    lines.map (labelFrameRate other) = lines :=
  (List.map_congr_left fun line hline => labelFrameRate_of_kept other (hkept line hline)).trans
    (List.map_id' lines)

theorem labelFrameRate_soundLine (other : ℚ) (audio : ℕ × ℕ) :
    labelFrameRate other (soundLine audio) = soundLine audio :=
  labelFrameRate_of_kept other (.inr (.inl (soundLine_no_picture audio)))

theorem labelFrameRate_blank (other : ℚ) : labelFrameRate other "" = "" :=
  labelFrameRate_of_kept other (.inl (by decide))

theorem labelFrameRate_variantFile (other : ℚ) (k : ℕ) :
    labelFrameRate other (variantFile k indexName) = variantFile k indexName :=
  labelFrameRate_of_kept other (.inl (plain_variantFile k).1)

theorem map_label_masterHead (other : ℚ) (count : ℕ) :
    (masterHead count).map (labelFrameRate other) = masterHead count :=
  map_label_of_kept other fun _ hline => .inl (mem_masterHead hline).1

/-- The file is labelled already. -/
theorem labelFrameRates_pipelineFile (hrungs : rungs ≠ [])
    (hplanned : ∀ kind, ∀ entry ∈ batch kind, entry.Planned kind) (other : ℚ) :
    labelFrameRates (pipelineFile rungs audio rate batch) other =
      pipelineFile rungs audio rate batch := by
  have hlaid := laidOut_pipelineLines rungs audio rate batch
  have hkept : (pipelineLines rungs audio rate batch).map (labelFrameRate other) =
      pipelineLines rungs audio rate batch := by
    refine map_label_of_kept other fun line hline => ?_
    rcases hlaid.mem_lines hline with rfl | ⟨entry, hentry, hpart⟩
    · exact .inl (by decide)
    · have hplain := plainEntry_pipelineEntries hrungs hplanned entry hentry
      rcases hpart with rfl | rfl
      · rw [pipelineEntries_eq] at hentry
        rcases List.mem_append.mp hentry with hvideo | hsound
        · exact .inr (.inr (mem_videoEntries hrungs hplanned hvideo).1.labelled)
        · obtain rfl := List.mem_singleton.mp hsound
          exact .inr (.inl (soundLine_no_picture audio))
      · exact .inl hplain.uri
  rw [labelFrameRates, (read_pipelineFile hrungs hplanned).1, List.map_append,
    map_label_masterHead, hkept, pipelineFile]

/-- No line of a ladder's master breaks. -/
theorem breakFree_masterText (rungs : List PieceRung) (audio : ℕ × ℕ) :
    ∀ line ∈ masterText rungs audio (variantFile rungs.length indexName), BreakFree line := by
  have hindex : BreakFree indexName := by decide
  have hblank : BreakFree "" := by decide
  intro line hline
  rw [masterText, List.append_assoc] at hline
  rcases List.mem_append.mp hline with hhead | hline
  · exact (mem_masterHead hhead).2.1.2
  · simp only [List.mem_append, List.mem_flatMap, List.mem_cons, List.not_mem_nil,
      or_false] at hline
    rcases hline with ⟨rung, -, rfl | rfl | rfl⟩ | rfl | rfl
    · exact breakFree_rungLine rung.1 audio
    · exact breakFree_variantFile _ hindex
    · exact hblank
    · exact breakFree_soundLine audio
    · exact breakFree_variantFile _ hindex

theorem splitLines_writeMaster (rungs : List PieceRung) (audio : ℕ × ℕ) :
    splitLines (writeMaster rungs audio (variantFile rungs.length indexName)) =
      masterText rungs audio (variantFile rungs.length indexName) :=
  splitLines_joinLines (by simp [masterText]) (breakFree_masterText rungs audio)

/-- The master of a ladder, labelled, is the file without renditions. -/
theorem labelFrameRates_writeMaster (rungs : List PieceRung) (audio : ℕ × ℕ) (rate : ℚ) :
    labelFrameRates (writeMaster rungs audio (variantFile rungs.length indexName)) rate =
      pipelineFile rungs audio rate fun _ => [] := by
  have hlines : (masterText rungs audio (variantFile rungs.length indexName)).map
      (labelFrameRate rate) = masterHead rungs.length ++ ladderLines rungs audio rate := by
    rw [masterText, List.append_assoc, List.map_append]
    refine congrArg₂ _ (map_label_masterHead rate rungs.length) ?_
    rw [List.map_append, List.map_flatMap]
    simp only [List.map_cons, List.map_nil, labelFrameRate_blank, labelFrameRate_variantFile,
      labelFrameRate_soundLine, ladderLines]
  have hnone : pipelineLines rungs audio rate (fun _ => []) = ladderLines rungs audio rate :=
    if_pos ⟨rfl, rfl⟩
  rw [labelFrameRates, splitLines_writeMaster, hlines, pipelineFile, hnone]

end

end Worker
end MediaPlayer
