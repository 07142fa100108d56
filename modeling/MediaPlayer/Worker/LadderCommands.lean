import MediaPlayer.Worker.EditFilters
import MediaPlayer.Worker.LadderGraphs
import MediaPlayer.Worker.LadderStarts

/-!
# The commands of a ladder

`build_ladder_command` of `app/worker/hls.py` and `piece_command` of
`app/worker/ladder_pieces.py`: the graph, the maps, the options of the streams and the variants,
each of which is put together by a loop of its own over the heights.

* `linksOf`, `streamOptions` — the links the maps take, and the options of one video stream.
* `LadderAgrees` — graph, maps, options and variants of what is read of a command are in step.
* `ladder_commands_agree` — both commands are so, for every list of distinct heights.
-/

namespace MediaPlayer
namespace Worker

open Library

/-! ## The ceilings -/

/-- `BITRATES`. -/
def bitrates : List (ℕ × String) :=
  [(360, "800k"), (480, "1400k"), (720, "2800k"), (1080, "5000k"), (1440, "8000k"),
    (2160, "14000k")]

/-- `FALLBACK_BITRATE`. -/
def fallbackBitrate : String := "800k"

/-- `LADDER_CRF`. -/
def ladderCrf : ℕ := 23

/-- `BITRATES.get(height, FALLBACK_BITRATE)`. -/
def ceilingFor (height : ℕ) : String := (bitrates.lookup height).getD fallbackBitrate

/-- `_double`. -/
def double (rate : String) : String :=
  let number := if rate.toList.getLast? = some 'k' then rate.toList.dropLast else rate.toList
  let kilobits := (String.ofList number).toNat?.getD 0
  s!"{2 * kilobits}k"

/-! ## The commands -/

/-- One round of the loop over the heights. -/
def rungWords (preset : String) (height index : ℕ) : List String :=
  ["-map", s!"[v{index}out]", s!"-c:v:{index}", "libx264", "-preset", preset,
    s!"-crf:v:{index}", s!"{ladderCrf}", s!"-maxrate:v:{index}", ceilingFor height,
    s!"-bufsize:v:{index}", double (ceilingFor height)]

/-- The loop over the heights, the same in both commands. -/
def rungsWords (preset : String) (heights : List ℕ) : List String :=
  heights.zipIdx.flatMap fun rung => rungWords preset rung.1 rung.2

/-- What `build_ladder_command` is called with. -/
structure LadderCommandSettings where
  sourcePath : String
  outputDir : String
  heights : List ℕ
  ffmpegBinary : String := "ffmpeg"
  preset : String := "veryfast"
  maxFps : ℕ := 30
  hdr : Bool := false

/-- `AUDIO_GROUP`. -/
def audioGroup : String := "audio"

/-- `-var_stream_map` of the one run. -/
def ladderVariants (count : ℕ) : String :=
  let video := " ".intercalate
    ((List.range count).map fun index => s!"v:{index},agroup:{audioGroup}")
  s!"{video} a:0,agroup:{audioGroup}"

/-- `build_ladder_command`. -/
def buildLadderCommand (numbers : NumberTexts) (settings : LadderCommandSettings) : List String :=
  [settings.ffmpegBinary, "-hide_banner", "-loglevel", "error", "-i", settings.sourcePath,
    "-filter_complex", ladderFilter numbers settings.heights settings.maxFps settings.hdr none] ++
  rungsWords settings.preset settings.heights ++
  (if settings.hdr then bt709Tags else []) ++
  ["-map", "a:0?", "-c:a", "aac", "-b:a", "128k", "-f", "hls", "-hls_time", s!"{segmentSeconds}",
    "-hls_playlist_type", "vod", "-hls_segment_filename",
    s!"{settings.outputDir}/v%v/seg%05d.ts", "-master_pl_name", "master.m3u8", "-var_stream_map",
    ladderVariants settings.heights.length, "-y", s!"{settings.outputDir}/v%v/index.m3u8"]

/-- `TIMELINE_START`. -/
def timelineStart : ℕ := 10

/-- `piece_command`. -/
def ladderPieceCommand (numbers : NumberTexts) (plan : LadderPlan) (index : ℕ)
    (sourcePath outDir ffmpegBinary : String) : List String :=
  let rate := plan.outputRate
  let first := plan.firstFrames.getD index 0 / rate
  [ffmpegBinary, "-hide_banner", "-loglevel", "error", "-ss",
    fixedPoint 6 (max 0 (plan.starts.getD index 0 - 1 / 1000)), "-i", sourcePath,
    "-filter_complex", ladderFilter numbers plan.heights plan.maxFps plan.hdr
      (some (ladderPieceHead plan index))] ++
  rungsWords plan.preset plan.heights ++
  (if plan.frames.getD index 0 ≠ 0 then ["-frames:v", s!"{plan.frames.getD index 0}"] else []) ++
  (if plan.hdr then bt709Tags else []) ++
  ["-r", s!"{rate.num}/{rate.den}", "-force_key_frames",
    s!"expr:gte(t,n_forced*{segmentSeconds})", "-output_ts_offset",
    fixedPoint 6 (first + timelineStart), "-f", "hls", "-hls_time", s!"{segmentSeconds}",
    "-hls_playlist_type", "vod", "-hls_segment_filename", s!"{outDir}/v%v/seg%05d.ts",
    "-var_stream_map", " ".intercalate ((List.range plan.heights.length).map fun k => s!"v:{k}"),
    "-y", s!"{outDir}/v%v/index.m3u8"]

/-! ## What FFmpeg reads of a command -/

/-- The words of both commands that take no value. -/
def ladderFlags : List String := ["-hide_banner", "-y"]

/-- The links that the maps take: video stream `k` of the output comes from the `k`-th. -/
def linksOf (options : List (String × String)) : List String :=
  (valuesOf "-map" options).filter (startsWith · "[")

/-- An option of one video stream, `-name:v:index`. -/
def streamOption? (option : String) : Option (String × String) :=
  match splitText ':' option with
  | [name, kind, index] => if kind = "v" then some (name, index) else none
  | _ => none

/-- The options of video stream `k`. -/
def streamOptions (k : ℕ) (options : List (String × String)) : List (String × String) :=
  options.filterMap fun given => (streamOption? given.1).bind fun option =>
    if option.2 = k.repr then some (option.1, given.2) else none

/-- The options of one rung's stream. -/
def rungOptions (height : ℕ) : List (String × String) :=
  [("-c", "libx264"), ("-crf", s!"{ladderCrf}"), ("-maxrate", ceilingFor height),
    ("-bufsize", double (ceilingFor height))]

/-- Variant `k` of a value takes the `k`-th video stream, and those behind them the audio. -/
def VariantsOf (heights : List ℕ) (text : String) : Prop :=
  ((splitText ' ' text).map fun variant => (splitText ',' variant).head?).take heights.length =
      (List.range heights.length).map (fun k => some s!"v:{k}") ∧
    ∀ variant ∈ (splitText ' ' text).drop heights.length,
      (splitText ',' variant).head? = some "a:0"

/-- The graph of a command is linked by its maps, and map, stream options and variant `k` are
those of the `k`-th height. -/
structure LadderAgrees (heights : List ℕ) (options : List (String × String)) : Prop where
  graph : ∃ text, valuesOf "-filter_complex" options = [text] ∧
    GraphLinked (readGraph text) (linksOf options) ∧ RungsScaled heights (readGraph text)
  maps : linksOf options = (List.range heights.length).map fun k => s!"[v{k}out]"
  streams : ∀ k, streamOptions k options = ((heights[k]?).map rungOptions).getD []
  variants : ∃ text, valuesOf "-var_stream_map" options = [text] ∧ VariantsOf heights text

/-! ## The options of the rungs -/

theorem linksOf_append (first second : List (String × String)) :
    linksOf (first ++ second) = linksOf first ++ linksOf second := by
  rw [linksOf, valuesOf_append, List.filter_append]
  rfl

theorem streamOptions_append (k : ℕ) (first second : List (String × String)) :
    streamOptions k (first ++ second) = streamOptions k first ++ streamOptions k second :=
  List.filterMap_append

/-- Words that begin like no flag. -/
theorem append_not_mem_flags {start : String}
    (hstart : ∀ flag ∈ ladderFlags, startsWith flag start = false) (rest : String) :
    start ++ rest ∉ ladderFlags := fun hmem =>
  absurd (startsWith_append start rest) (by simp [hstart _ hmem])

/-- An option of a stream is told by its name and its index. -/
theorem streamOption?_stream {name : String} (hname : ':' ∉ name.toList) (index : ℕ) :
    streamOption? (name ++ ":v:" ++ toString index) = some (name, toString index) := by
  have hindex : ':' ∉ (toString index).toList := not_mem_repr (by decide) index
  have hsplit : splitText ':' (name ++ ":v:" ++ toString index) =
      [name, "v", toString index] := by
    have htext : name ++ ":v:" ++ toString index =
        name ++ String.singleton ':' ++ ("v" ++ String.singleton ':' ++ toString index) := by
      have hkind : ":v:" = String.singleton ':' ++ ("v" ++ String.singleton ':') := rfl
      simp only [hkind, String.append_assoc]
    rw [htext, splitText_append, splitText_append, splitText_of_not_mem hname,
      splitText_of_not_mem hindex, splitText_of_not_mem (by decide)]
    rfl
  rw [streamOption?, hsplit]
  rfl

/-- What is read of one round of the loop. -/
def rungReads (preset : String) (height index : ℕ) : List (String × String) :=
  [("-map", s!"[v{index}out]"), ("-c" ++ ":v:" ++ toString index, "libx264"),
    ("-preset", preset), ("-crf" ++ ":v:" ++ toString index, s!"{ladderCrf}"),
    ("-maxrate" ++ ":v:" ++ toString index, ceilingFor height),
    ("-bufsize" ++ ":v:" ++ toString index, double (ceilingFor height))]

theorem readOptions_rungWords (preset : String) (height index : ℕ) (rest : List String) :
    readOptions ladderFlags (rungWords preset height index ++ rest) =
      rungReads preset height index ++ readOptions ladderFlags rest := by
  have hstream {start : String} (hstart : ∀ flag ∈ ladderFlags, startsWith flag start = false) :
      start ++ toString index ∉ ladderFlags := append_not_mem_flags hstart _
  -- The options with an index are told from the flags by their beginning, whatever the index.
  show readOptions ladderFlags ("-map" :: _ :: ("-c:v:" ++ toString index) :: _ :: "-preset" ::
    preset :: ("-crf:v:" ++ toString index) :: _ :: ("-maxrate:v:" ++ toString index) :: _ ::
    ("-bufsize:v:" ++ toString index) :: _ :: rest) = _
  rw [readOptions_option (by decide), readOptions_option (hstream (by decide)),
    readOptions_option (by decide), readOptions_option (hstream (by decide)),
    readOptions_option (hstream (by decide)), readOptions_option (hstream (by decide))]
  rfl

theorem readOptions_rungsWords (preset : String) (heights : List ℕ) (rest : List String) :
    readOptions ladderFlags (rungsWords preset heights ++ rest) =
      (heights.zipIdx.flatMap fun rung => rungReads preset rung.1 rung.2) ++
        readOptions ladderFlags rest := by
  unfold rungsWords
  induction heights.zipIdx with
  | nil => rfl
  | cons rung rungs ih =>
      rw [List.flatMap_cons, List.flatMap_cons, List.append_assoc, List.append_assoc,
        readOptions_rungWords, ih]

section

variable (preset : String) (heights : List ℕ)

/-- In a list with its indices one index meets one entry. -/
theorem flatMap_zipIdx {α β : Type*} (xs : List α) (f : α → List β) :
    ∀ start k, ((xs.zipIdx start).flatMap fun x => if x.2 = start + k then f x.1 else []) =
      ((xs[k]?).map f).getD [] := by
  induction xs with
  | nil => exact fun _ _ => rfl
  | cons x xs ih =>
      intro start k
      rw [List.zipIdx_cons, List.flatMap_cons]
      cases k with
      | zero =>
          have hrest : ((xs.zipIdx (start + 1)).flatMap fun x =>
              if x.2 = start + 0 then f x.1 else []) = [] := by
            refine List.flatMap_eq_nil_iff.mpr fun entry hentry => if_neg ?_
            have hle := (List.mem_zipIdx hentry).1
            omega
          rw [hrest, if_pos (Nat.add_zero _).symm, List.append_nil]
          rfl
      | succ k =>
          have hhead : ¬start = start + (k + 1) := by omega
          have hshift : start + (k + 1) = start + 1 + k := by omega
          rw [if_neg hhead, List.nil_append, hshift, ih (start + 1) k]
          rfl

/-- An option of a stream is none of those without an index. -/
theorem stream_ne {name option : String} (hname : ':' ∉ name.toList)
    (hoption : streamOption? option = none) (index : ℕ) :
    name ++ ":v:" ++ toString index ≠ option := by
  rintro rfl
  rw [streamOption?_stream hname] at hoption
  cases hoption

/-- An option without an index that no rung is given. -/
theorem valuesOf_rungs {option : String} (hoption : streamOption? option = none)
    (hmap : "-map" ≠ option) (hpreset : "-preset" ≠ option) :
    valuesOf option (heights.zipIdx.flatMap fun rung => rungReads preset rung.1 rung.2) = [] := by
  unfold valuesOf
  rw [List.filterMap_flatMap]
  refine List.flatMap_eq_nil_iff.mpr fun rung _ => ?_
  have hcodec : "-c" ++ ":v:" ++ toString rung.2 ≠ option := stream_ne (by decide) hoption _
  have hcrf : "-crf" ++ ":v:" ++ toString rung.2 ≠ option := stream_ne (by decide) hoption _
  have hmaxrate : "-maxrate" ++ ":v:" ++ toString rung.2 ≠ option :=
    stream_ne (by decide) hoption _
  have hbufsize : "-bufsize" ++ ":v:" ++ toString rung.2 ≠ option :=
    stream_ne (by decide) hoption _
  simp only [rungReads, List.filterMap_cons, List.filterMap_nil, if_neg hmap, if_neg hpreset,
    if_neg hcodec, if_neg hcrf, if_neg hmaxrate, if_neg hbufsize]

theorem linksOf_rungReads (height index : ℕ) :
    linksOf (rungReads preset height index) = [s!"[v{index}out]"] := by
  have hlink : startsWith s!"[v{index}out]" "[" = true := by
    have hopen : "[v" = "[" ++ "v" := rfl
    show startsWith ("[v" ++ toString index ++ "out]") "[" = true
    rw [hopen, String.append_assoc, String.append_assoc]
    exact startsWith_append _ _
  have hnone : streamOption? "-map" = none := by decide
  have hcodec : "-c" ++ ":v:" ++ toString index ≠ "-map" := stream_ne (by decide) hnone _
  have hcrf : "-crf" ++ ":v:" ++ toString index ≠ "-map" := stream_ne (by decide) hnone _
  have hmaxrate : "-maxrate" ++ ":v:" ++ toString index ≠ "-map" :=
    stream_ne (by decide) hnone _
  have hbufsize : "-bufsize" ++ ":v:" ++ toString index ≠ "-map" :=
    stream_ne (by decide) hnone _
  have hpreset : "-preset" ≠ "-map" := by decide
  have hvalues : valuesOf "-map" (rungReads preset height index) = [s!"[v{index}out]"] := by
    simp only [valuesOf, rungReads, List.filterMap_cons, List.filterMap_nil, if_neg hpreset,
      if_neg hcodec, if_neg hcrf, if_neg hmaxrate, if_neg hbufsize, if_pos]
  rw [linksOf, hvalues, List.filter_singleton, hlink]
  rfl

theorem linksOf_rungs :
    linksOf (heights.zipIdx.flatMap fun rung => rungReads preset rung.1 rung.2) =
      (List.range heights.length).map fun k => s!"[v{k}out]" := by
  rw [List.range_eq_range', ← List.zipIdx_map_snd 0 heights, List.map_map]
  induction heights.zipIdx with
  | nil => rfl
  | cons rung rungs ih =>
      rw [List.flatMap_cons, linksOf_append, linksOf_rungReads, ih]
      rfl

theorem streamOptions_rungReads (k height index : ℕ) :
    streamOptions k (rungReads preset height index) =
      if index = 0 + k then rungOptions height else [] := by
  have hmap : streamOption? "-map" = none := by decide
  have hpreset : streamOption? "-preset" = none := by decide
  have hcodec := streamOption?_stream (by decide : ':' ∉ "-c".toList) index
  have hcrf := streamOption?_stream (by decide : ':' ∉ "-crf".toList) index
  have hmaxrate := streamOption?_stream (by decide : ':' ∉ "-maxrate".toList) index
  have hbufsize := streamOption?_stream (by decide : ':' ∉ "-bufsize".toList) index
  have hindex : toString index = k.repr ↔ index = 0 + k := by
    rw [Nat.zero_add]
    exact ⟨fun heq => eq_of_repr (congrArg String.toList heq), fun heq => heq ▸ rfl⟩
  unfold streamOptions rungReads
  simp only [List.filterMap_cons, List.filterMap_nil, hmap, hpreset, hcodec, hcrf, hmaxrate,
    hbufsize, Option.bind_none, Option.bind_some, hindex]
  by_cases hsame : index = 0 + k
  · simp only [if_pos hsame]
    rfl
  · simp only [if_neg hsame]

theorem streamOptions_rungs (k : ℕ) :
    streamOptions k (heights.zipIdx.flatMap fun rung => rungReads preset rung.1 rung.2) =
      ((heights[k]?).map rungOptions).getD [] := by
  rw [← flatMap_zipIdx heights rungOptions 0 k]
  induction heights.zipIdx with
  | nil => rfl
  | cons rung rungs ih =>
      rw [List.flatMap_cons, List.flatMap_cons, streamOptions_append, streamOptions_rungReads, ih]

end

/-! ## Both commands -/

/-- An option that gives no graph and no variants and is about no stream. -/
def Quiet (option : String) : Prop :=
  option ≠ "-filter_complex" ∧ option ≠ "-var_stream_map" ∧ streamOption? option = none

instance (option : String) : Decidable (Quiet option) := inferInstanceAs (Decidable (_ ∧ _ ∧ _))

section

variable {options : List (String × String)}

theorem valuesOf_quiet (hquiet : ∀ option ∈ options.map Prod.fst, Quiet option) :
    valuesOf "-filter_complex" options = [] ∧ valuesOf "-var_stream_map" options = [] :=
  ⟨valuesOf_eq_nil fun hmem => (hquiet _ hmem).1 rfl,
    valuesOf_eq_nil fun hmem => (hquiet _ hmem).2.1 rfl⟩

theorem streamOptions_quiet (hquiet : ∀ option ∈ options.map Prod.fst, Quiet option) (k : ℕ) :
    streamOptions k options = [] := by
  refine List.filterMap_eq_nil_iff.mpr fun given hgiven => ?_
  rw [(hquiet given.1 (List.mem_map_of_mem hgiven)).2.2]
  rfl

end

section

variable {numbers : NumberTexts} {heights : List ℕ}

/-- A command that gives the rungs their options, the graph before them, the variants behind
them, and nothing else that is about a video stream. -/
theorem agrees_of_reads {maxFps : ℕ} {hdr : Bool} {rateFilters : Option (List VideoFilter)}
    {preset text : String} {before after options : List (String × String)}
    (hnodup : heights.Nodup) (hne : heights ≠ []) (hrates : RatesPlain numbers rateFilters)
    (hoptions : options = before ++
      [("-filter_complex", ladderFilter numbers heights maxFps hdr rateFilters)] ++
      (heights.zipIdx.flatMap fun rung => rungReads preset rung.1 rung.2) ++
      after ++ [("-var_stream_map", text)])
    (hbefore : ∀ option ∈ before.map Prod.fst, Quiet option)
    (hafter : ∀ option ∈ after.map Prod.fst, Quiet option)
    (hlinks : linksOf before = [] ∧ linksOf after = [])
    (hvariants : VariantsOf heights text) : LadderAgrees heights options := by
  have hmaps : linksOf options = (List.range heights.length).map fun k => s!"[v{k}out]" := by
    rw [hoptions]
    simp only [linksOf_append, hlinks, linksOf_rungs]
    rw [List.append_nil]
    exact List.append_nil _
  obtain ⟨hlinked, hscaled⟩ := graphLinked_ladderFilter maxFps hdr hnodup hne hrates
  -- What is asked for stands in one stretch of the options; the others say nothing about it.
  refine ⟨⟨_, ?_, hmaps ▸ hlinked, hscaled⟩, hmaps, fun k => ?_, text, ?_, hvariants⟩
  · rw [hoptions]
    simp only [valuesOf_append, (valuesOf_quiet hbefore).1, (valuesOf_quiet hafter).1,
      valuesOf_rungs preset heights (by decide : streamOption? "-filter_complex" = none)
        (by decide) (by decide)]
    rfl
  · rw [hoptions]
    have hgraph : streamOption? "-filter_complex" = none := by decide
    have hvariant : streamOption? "-var_stream_map" = none := by decide
    have hone {option value : String} (hoption : streamOption? option = none) :
        streamOptions k [(option, value)] = [] :=
      List.filterMap_eq_nil_iff.mpr (List.forall_mem_singleton.mpr (by rw [hoption]; rfl))
    simp only [streamOptions_append, streamOptions_quiet hbefore, streamOptions_quiet hafter,
      streamOptions_rungs, hone hgraph, hone hvariant, List.append_nil, List.nil_append]
  · rw [hoptions]
    simp only [valuesOf_append, (valuesOf_quiet hbefore).2, (valuesOf_quiet hafter).2,
      valuesOf_rungs preset heights (by decide : streamOption? "-var_stream_map" = none)
        (by decide) (by decide)]
    rfl

theorem video_mem_plain {c : Char} (hc : c = ' ' ∨ c = ',') (k : ℕ) :
    c ∉ s!"v:{k}".toList := by
  show c ∉ ("v:" ++ toString k).toList
  rw [String.toList_append, List.mem_append, not_or]
  rcases hc with rfl | rfl <;> exact ⟨by decide, not_mem_repr (by decide) k⟩

/-- The variants of a piece: the videos alone. -/
theorem variants_piece (hne : heights ≠ []) :
    VariantsOf heights (" ".intercalate ((List.range heights.length).map fun k => s!"v:{k}")) := by
  have hsplit : splitText ' ' (" ".intercalate ((List.range heights.length).map
      fun k => s!"v:{k}")) = (List.range heights.length).map fun k => s!"v:{k}" := by
    refine splitText_intercalate (by simpa using hne) fun text htext => ?_
    obtain ⟨k, -, rfl⟩ := List.mem_map.mp htext
    exact video_mem_plain (Or.inl rfl) k
  have hvideo (k : ℕ) : (splitText ',' s!"v:{k}").head? = some s!"v:{k}" := by
    rw [splitText_of_not_mem (video_mem_plain (Or.inr rfl) k)]
    rfl
  refine ⟨?_, ?_⟩
  · rw [hsplit, List.map_map, List.take_of_length_le (by simp)]
    exact List.map_congr_left fun k _ => hvideo k
  · rw [hsplit, List.drop_of_length_le (by simp)]
    simp

/-- The variants of the one run: every video with the audio's group, and the audio. -/
theorem variants_ladder (hne : heights ≠ []) :
    VariantsOf heights (ladderVariants heights.length) := by
  have htext (k : ℕ) : s!"v:{k},agroup:{audioGroup}" =
      s!"v:{k}" ++ String.singleton ',' ++ "agroup:audio" := by
    show "v:" ++ toString k ++ ",agroup:" ++ "audio" = _
    have hgroup : ",agroup:" = String.singleton ',' ++ "agroup:" := rfl
    rw [hgroup]
    simp only [String.append_assoc]
    rfl
  have hsplit : splitText ' ' (ladderVariants heights.length) =
      ((List.range heights.length).map fun k => s!"v:{k},agroup:{audioGroup}") ++
        ["a:0,agroup:audio"] := by
    have hall : ladderVariants heights.length = " ".intercalate
        ((List.range heights.length).map fun k => s!"v:{k},agroup:{audioGroup}") ++
        String.singleton ' ' ++ "a:0,agroup:audio" := by
      show " ".intercalate _ ++ " a:0,agroup:" ++ "audio" = _
      rw [String.append_assoc, String.append_assoc]
      rfl
    have hlast : splitText ' ' "a:0,agroup:audio" = ["a:0,agroup:audio"] :=
      splitText_of_not_mem (by decide)
    rw [hall, splitText_append, hlast]
    refine congrArg (· ++ _) (splitText_intercalate (by simpa using hne) fun text hmem => ?_)
    obtain ⟨k, -, rfl⟩ := List.mem_map.mp hmem
    rw [htext, String.toList_append, String.toList_append, List.mem_append, List.mem_append,
      not_or, not_or]
    exact ⟨⟨video_mem_plain (Or.inl rfl) k, by decide⟩, by decide⟩
  have hvideo (k : ℕ) :
      (splitText ',' s!"v:{k},agroup:{audioGroup}").head? = some s!"v:{k}" := by
    rw [htext, splitText_append, splitText_of_not_mem (video_mem_plain (Or.inr rfl) k)]
    rfl
  refine ⟨?_, fun variant hvariant => ?_⟩
  · rw [hsplit, List.map_append, List.take_append_of_le_length (by simp),
      List.take_of_length_le (by simp), List.map_map]
    exact List.map_congr_left fun k _ => hvideo k
  · rw [hsplit, List.drop_append_of_le_length (by simp), List.drop_of_length_le (by simp)]
      at hvariant
    obtain rfl := List.mem_singleton.mp hvariant
    decide

/-- The tags of the colours, as they are read. -/
def tagReads (hdr : Bool) : List (String × String) :=
  if hdr then [("-colorspace", "bt709"), ("-color_primaries", "bt709"), ("-color_trc", "bt709")]
  else []

theorem readOptions_tags (hdr : Bool) (rest : List String) :
    readOptions ladderFlags ((if hdr then bt709Tags else []) ++ rest) =
      tagReads hdr ++ readOptions ladderFlags rest := by
  cases hdr with
  | false => rfl
  | true =>
      show readOptions ladderFlags ("-colorspace" :: _ :: "-color_primaries" :: _ ::
        "-color_trc" :: _ :: rest) = _
      rw [readOptions_option (by decide), readOptions_option (by decide),
        readOptions_option (by decide)]
      rfl

theorem quiet_tags (hdr : Bool) : ∀ option ∈ (tagReads hdr).map Prod.fst, Quiet option := by
  cases hdr with
  | false => exact nofun
  | true =>
      exact (by decide :
        ∀ option ∈ ["-colorspace", "-color_primaries", "-color_trc"], Quiet option)

/-- Every word of the one run's command is read. -/
theorem readOptions_buildLadderCommand (settings : LadderCommandSettings) :
    commandOptions ladderFlags (buildLadderCommand numbers settings) =
      [("-loglevel", "error"), ("-i", settings.sourcePath)] ++
      [("-filter_complex",
        ladderFilter numbers settings.heights settings.maxFps settings.hdr none)] ++
      (settings.heights.zipIdx.flatMap fun rung => rungReads settings.preset rung.1 rung.2) ++
      (tagReads settings.hdr ++ [("-map", "a:0?"), ("-c:a", "aac"), ("-b:a", "128k"),
        ("-f", "hls"), ("-hls_time", s!"{segmentSeconds}"), ("-hls_playlist_type", "vod"),
        ("-hls_segment_filename", s!"{settings.outputDir}/v%v/seg%05d.ts"),
        ("-master_pl_name", "master.m3u8")]) ++
      [("-var_stream_map", ladderVariants settings.heights.length)] := by
  unfold buildLadderCommand
  rw [List.append_assoc, List.append_assoc]
  -- Word by word: the program is dropped, a flag stands alone, an option takes the next word.
  show readOptions ladderFlags ("-hide_banner" :: "-loglevel" :: _ :: "-i" :: _ ::
    "-filter_complex" :: _ :: (rungsWords _ _ ++ ((if settings.hdr then bt709Tags else []) ++
    "-map" :: _ :: "-c:a" :: _ :: "-b:a" :: _ :: "-f" :: _ :: "-hls_time" :: _ ::
    "-hls_playlist_type" :: _ :: "-hls_segment_filename" :: _ :: "-master_pl_name" :: _ ::
    "-var_stream_map" :: _ :: "-y" :: [_]))) = _
  rw [readOptions_flag (by decide), readOptions_option (by decide), readOptions_option (by decide),
    readOptions_option (by decide), readOptions_rungsWords, readOptions_tags,
    readOptions_option (by decide), readOptions_option (by decide), readOptions_option (by decide),
    readOptions_option (by decide), readOptions_option (by decide), readOptions_option (by decide),
    readOptions_option (by decide), readOptions_option (by decide), readOptions_option (by decide),
    readOptions_flag (by decide)]
  simp only [List.append_assoc, List.cons_append, List.nil_append]
  rfl

/-- Every word of a piece's command is read. -/
theorem readOptions_ladderPieceCommand (plan : LadderPlan) (index : ℕ)
    (sourcePath outDir ffmpegBinary : String) :
    commandOptions ladderFlags
        (ladderPieceCommand numbers plan index sourcePath outDir ffmpegBinary) =
      [("-loglevel", "error"),
        ("-ss", fixedPoint 6 (max 0 (plan.starts.getD index 0 - 1 / 1000))),
        ("-i", sourcePath)] ++
      [("-filter_complex", ladderFilter numbers plan.heights plan.maxFps plan.hdr
        (some (ladderPieceHead plan index)))] ++
      (plan.heights.zipIdx.flatMap fun rung => rungReads plan.preset rung.1 rung.2) ++
      ((if plan.frames.getD index 0 ≠ 0 then
          [("-frames:v", s!"{plan.frames.getD index 0}")] else []) ++ (tagReads plan.hdr ++
        [("-r", s!"{plan.outputRate.num}/{plan.outputRate.den}"),
        ("-force_key_frames", s!"expr:gte(t,n_forced*{segmentSeconds})"),
        ("-output_ts_offset",
          fixedPoint 6 (plan.firstFrames.getD index 0 / plan.outputRate + timelineStart)),
        ("-f", "hls"), ("-hls_time", s!"{segmentSeconds}"), ("-hls_playlist_type", "vod"),
        ("-hls_segment_filename", s!"{outDir}/v%v/seg%05d.ts")])) ++
      [("-var_stream_map",
        " ".intercalate ((List.range plan.heights.length).map fun k => s!"v:{k}"))] := by
  have hframes (rest : List String) : readOptions ladderFlags
      ((if plan.frames.getD index 0 ≠ 0 then ["-frames:v", s!"{plan.frames.getD index 0}"]
        else []) ++ rest) =
      (if plan.frames.getD index 0 ≠ 0 then [("-frames:v", s!"{plan.frames.getD index 0}")]
        else []) ++ readOptions ladderFlags rest := by
    split
    · exact readOptions_option (by decide) _ rest
    · rfl
  unfold ladderPieceCommand
  rw [List.append_assoc, List.append_assoc, List.append_assoc]
  show readOptions ladderFlags ("-hide_banner" :: "-loglevel" :: _ :: "-ss" :: _ :: "-i" :: _ ::
    "-filter_complex" :: _ :: (rungsWords _ _ ++ ((if plan.frames.getD index 0 ≠ 0 then
      ["-frames:v", s!"{plan.frames.getD index 0}"] else []) ++
    ((if plan.hdr then bt709Tags else []) ++
    "-r" :: _ :: "-force_key_frames" :: _ :: "-output_ts_offset" :: _ :: "-f" :: _ ::
    "-hls_time" :: _ :: "-hls_playlist_type" :: _ :: "-hls_segment_filename" :: _ ::
    "-var_stream_map" :: _ :: "-y" :: [_])))) = _
  rw [readOptions_flag (by decide), readOptions_option (by decide), readOptions_option (by decide),
    readOptions_option (by decide), readOptions_option (by decide), readOptions_rungsWords,
    hframes, readOptions_tags,
    readOptions_option (by decide), readOptions_option (by decide), readOptions_option (by decide),
    readOptions_option (by decide), readOptions_option (by decide), readOptions_option (by decide),
    readOptions_option (by decide), readOptions_option (by decide), readOptions_flag (by decide)]
  simp only [List.append_assoc, List.cons_append, List.nil_append]
  rfl

theorem quiet_append {first second : List (String × String)}
    (hfirst : ∀ option ∈ first.map Prod.fst, Quiet option)
    (hsecond : ∀ option ∈ second.map Prod.fst, Quiet option) :
    ∀ option ∈ (first ++ second).map Prod.fst, Quiet option := by
  rw [List.map_append]
  exact List.forall_mem_append.mpr ⟨hfirst, hsecond⟩

theorem linksOf_tags (hdr : Bool) : linksOf (tagReads hdr) = [] := by
  cases hdr <;> decide

theorem ratesPlain_none : RatesPlain numbers none := nofun

theorem buildLadderCommand_agrees (settings : LadderCommandSettings) (hne : settings.heights ≠ [])
    (hnodup : settings.heights.Nodup) :
    LadderAgrees settings.heights
      (commandOptions ladderFlags (buildLadderCommand numbers settings)) := by
  have hbefore : ∀ option ∈ ["-loglevel", "-i"], Quiet option := by decide
  have hafter : ∀ option ∈ ["-map", "-c:a", "-b:a", "-f", "-hls_time", "-hls_playlist_type",
      "-hls_segment_filename", "-master_pl_name"], Quiet option := by decide
  refine agrees_of_reads hnodup hne ratesPlain_none (readOptions_buildLadderCommand settings)
    hbefore (quiet_append (quiet_tags settings.hdr) hafter) ⟨?_, ?_⟩ (variants_ladder hne)
  · simp [linksOf, valuesOf]
  · -- The map of the audio takes a stream of the source, not a link of the graph.
    have haudio : startsWith "a:0?" "[" = false := by decide
    rw [linksOf_append, linksOf_tags]
    simp [linksOf, valuesOf, haudio]

/-- The head of a piece's graph names no link. -/
theorem ratesPlain_ladderPieceHead (plan : LadderPlan) (index : ℕ) :
    RatesPlain numbers (some (ladderPieceHead plan index)) := by
  rintro _ ⟨⟩ filter hfilter
  rcases List.mem_cons.mp hfilter with rfl | hfilter
  · show Unlinked ("setpts=PTS-STARTPTS+" ++ toString (plan.startTicks.getD index 0)).toList
    rw [String.toList_append, unlinked_append]
    exact ⟨by decide, unlinked_int _⟩
  rcases List.mem_cons.mp hfilter with rfl | hfilter
  · show Unlinked ("fps=fps=" ++ toString plan.outputRate.num ++ "/" ++
      toString plan.outputRate.den).toList
    rw [String.toList_append, String.toList_append, String.toList_append, unlinked_append,
      unlinked_append, unlinked_append]
    exact ⟨⟨⟨by decide, unlinked_int _⟩, by decide⟩, unlinked_nat _⟩
  · obtain rfl := List.mem_singleton.mp hfilter
    exact (by decide : Unlinked "setpts=PTS-STARTPTS".toList)

theorem ladderPieceCommand_agrees (plan : LadderPlan) (index : ℕ)
    (sourcePath outDir ffmpegBinary : String) (hne : plan.heights ≠ [])
    (hnodup : plan.heights.Nodup) :
    LadderAgrees plan.heights (commandOptions ladderFlags
      (ladderPieceCommand numbers plan index sourcePath outDir ffmpegBinary)) := by
  have hbefore : ∀ option ∈ ["-loglevel", "-ss", "-i"], Quiet option := by decide
  have hafter : ∀ option ∈ ["-r", "-force_key_frames", "-output_ts_offset", "-f", "-hls_time",
      "-hls_playlist_type", "-hls_segment_filename"], Quiet option := by decide
  refine agrees_of_reads hnodup hne (ratesPlain_ladderPieceHead plan index)
    (readOptions_ladderPieceCommand plan index sourcePath outDir ffmpegBinary) hbefore
    (quiet_append ?_ (quiet_append (quiet_tags plan.hdr) hafter)) ⟨?_, ?_⟩ (variants_piece hne)
  · split
    · exact (by decide : ∀ option ∈ ["-frames:v"], Quiet option)
    · exact nofun
  · simp [linksOf, valuesOf]
  · have hframes : linksOf (if plan.frames.getD index 0 ≠ 0 then
        [("-frames:v", s!"{plan.frames.getD index 0}")] else []) = [] := by
      split
      · simp [linksOf, valuesOf]
      · rfl
    rw [linksOf_append, linksOf_append, linksOf_tags, hframes]
    simp [linksOf, valuesOf]

/-- For every list of distinct heights the text of a ladder's graph is linked, whatever replaces
its rate cap, and in each of the two commands map, options and variant `k` are those of the `k`-th
height. -/
theorem ladder_commands_agree (numbers : NumberTexts) {heights : List ℕ} (hne : heights ≠ [])
    (hnodup : heights.Nodup) :
    (∀ maxFps hdr rateFilters, RatesPlain numbers rateFilters →
      GraphLinked (readGraph (ladderFilter numbers heights maxFps hdr rateFilters))
        ((List.range heights.length).map fun k => s!"[v{k}out]") ∧
      RungsScaled heights (readGraph (ladderFilter numbers heights maxFps hdr rateFilters))) ∧
    (∀ settings : LadderCommandSettings, settings.heights = heights →
      LadderAgrees heights (commandOptions ladderFlags (buildLadderCommand numbers settings))) ∧
    (∀ (plan : LadderPlan) (index : ℕ) (sourcePath outDir ffmpegBinary : String),
      plan.heights = heights →
      LadderAgrees heights (commandOptions ladderFlags
        (ladderPieceCommand numbers plan index sourcePath outDir ffmpegBinary))) := by
  refine ⟨fun maxFps hdr rateFilters hrates =>
    graphLinked_ladderFilter maxFps hdr hnodup hne hrates, ?_, ?_⟩
  · rintro settings rfl
    exact buildLadderCommand_agrees settings hne hnodup
  · rintro plan index sourcePath outDir ffmpegBinary rfl
    exact ladderPieceCommand_agrees plan index sourcePath outDir ffmpegBinary hne hnodup

/-- Three rungs, out of order, the lowest scaled from the anchor. -/
def threeRungs : LadderCommandSettings where
  sourcePath := "source"
  outputDir := "out"
  heights := [2160, 360, 1080]
  maxFps := 60
  hdr := true

/-- The same rungs in pieces of a minute. -/
def threeRungsPlan : LadderPlan where
  jobId := 7
  sourceKey := "uploads/7/clip.mp4"
  heights := [2160, 360, 1080]
  hdr := true
  maxFps := 60
  preset := "veryfast"
  outputRate := 30
  starts := [0, 60]
  startTicks := [0, 1800]
  firstFrames := [0, 1800]
  frames := [1800, 0]

theorem ladder_commands_agree_three :
    (GraphLinked (readGraph (ladderFilter ⟨fun _ => "", fun _ => ""⟩ [2160, 360, 1080] 60 true
        none)) ((List.range 3).map fun k => s!"[v{k}out]") ∧
      RungsScaled [2160, 360, 1080] (readGraph (ladderFilter ⟨fun _ => "", fun _ => ""⟩
        [2160, 360, 1080] 60 true none))) ∧
    LadderAgrees [2160, 360, 1080]
      (commandOptions ladderFlags (buildLadderCommand ⟨fun _ => "", fun _ => ""⟩ threeRungs)) ∧
    LadderAgrees [2160, 360, 1080] (commandOptions ladderFlags
      (ladderPieceCommand ⟨fun _ => "", fun _ => ""⟩ threeRungsPlan 0 "source" "out"
        "ffmpeg")) := by
  have hagree := ladder_commands_agree ⟨fun _ => "", fun _ => ""⟩
    (by decide : [2160, 360, 1080] ≠ []) (by decide)
  exact ⟨hagree.1 60 true none nofun, hagree.2.1 threeRungs rfl,
    hagree.2.2 threeRungsPlan 0 "source" "out" "ffmpeg" rfl⟩

end

end Worker
end MediaPlayer
