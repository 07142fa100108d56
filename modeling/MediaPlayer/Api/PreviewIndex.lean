import MediaPlayer.Api.Jobs
import MediaPlayer.Worker.ClientNames
import MediaPlayer.Worker.PreviewSheet
import MediaPlayer.Worker.StorageFrames

/-!
# The preview index as it is served

`get_preview_index` of `app/api/preview.py` reads the index `build_vtt` of `app/worker/preview.py`
has written, and puts the signed URL of the sheet into every cue.

* `signCues_lines` — the lines of an index are signed one by one.
* `vttLines_signed` — signing the lines of an index leaves everything but the name of the sheet.
* `preview_index_served` — what is served is the index of the same cues, on the signed sheet.
* `SheetName.inFolder` — a key that is signed is in the folder of the preview.
* `preview_signs_bare_names` — whatever stands in the file, only bare names of sheets in its
  folder are signed.
-/

namespace MediaPlayer
namespace Api

open Library Models Repositories Worker

/-- What `_SHEET_CUE` takes for the name of a sheet. -/
def SheetName (name : String) : Prop :=
  ∃ stem : List Char, name.toList = stem ++ ".jpg".toList ∧ 1 ≤ stem.length ∧ stem.length ≤ 64 ∧
    ∀ c ∈ stem, c ∈ nameChars

/-- The lines of one cue, with the empty line after it. -/
def cueLines (spriteName : String) (cue : SpriteCue) : List String :=
  [s!"{timestamp cue.start} --> {timestamp cue.finish}",
    s!"{spriteName}#xywh={cue.tile.x},{cue.tile.y},{cue.tile.w},{cue.tile.h}", ""]

/-- The lines `build_vtt` joins. -/
def vttLines (layout : SpriteLayout) (durationSeconds : ℚ) (spriteName : String) : List String :=
  ["WEBVTT", ""] ++ (spriteCues layout durationSeconds).flatMap (cueLines spriteName)

theorem buildVtt_eq (layout : SpriteLayout) (durationSeconds : ℚ) (spriteName : String) :
    buildVtt layout durationSeconds spriteName =
      "\n".intercalate (vttLines layout durationSeconds spriteName) := rfl

/-! ## Texts without a line break -/

theorem isLineBreak_of_mem {chars : List Char} (hall : chars.all (!isLineBreak ·) = true) {c : Char}
    (hc : c ∈ chars) : isLineBreak c = false := by
  simpa using List.all_eq_true.mp hall c hc

theorem breakFree_of_digits {text : String} (hdigits : ∀ c ∈ text.toList, c ∈ digitChars) :
    BreakFree text := fun c hc => isLineBreak_of_mem (by decide) (hdigits c hc)

theorem breakFree_zeroPad (width n : ℕ) : BreakFree (zeroPad width n) :=
  breakFree_of_digits (zeroPad_mem_digitChars width n)

theorem breakFree_nat (n : ℕ) : BreakFree (toString n) :=
  breakFree_of_digits fun c hc =>
    toDigits_mem_digitChars n c (Nat.toList_repr (n := n) ▸ hc)

theorem breakFree_int (n : ℤ) : BreakFree (toString n) := by
  cases n with
  | ofNat n => exact breakFree_nat n
  | negSucc n =>
      have htext : toString (Int.negSucc n) = "-" ++ toString (n + 1) := rfl
      rw [htext, breakFree_append]
      exact ⟨by decide, breakFree_nat _⟩

theorem breakFree_timestamp (seconds : ℚ) : BreakFree (timestamp seconds) := by
  unfold timestamp
  simp only [toString, breakFree_append, breakFree_zeroPad, true_and, and_true]
  decide

theorem SheetName.breakFree {name : String} (hname : SheetName name) : BreakFree name := by
  obtain ⟨stem, hstem, -, -, hchars⟩ := hname
  intro c hc
  rw [hstem, List.mem_append] at hc
  rcases hc with hc | hc
  · exact isLineBreak_of_mem (by decide) (hchars c hc)
  · exact isLineBreak_of_mem (by decide) hc

/-- No line of an index breaks. -/
theorem breakFree_cueLines {spriteName : String} (hname : BreakFree spriteName) (cue : SpriteCue) :
    ∀ line ∈ cueLines spriteName cue, BreakFree line := by
  intro line hline
  simp only [cueLines, List.mem_cons, List.not_mem_nil, or_false] at hline
  rcases hline with rfl | rfl | rfl
  · simp only [breakFree_append]
    exact ⟨⟨breakFree_timestamp _, by decide⟩, breakFree_timestamp _⟩
  · simp only [breakFree_append, breakFree_int, and_true]
    exact ⟨⟨⟨⟨hname, by decide⟩, by decide⟩, by decide⟩, by decide⟩
  · decide

theorem breakFree_vttLines {spriteName : String} (hname : BreakFree spriteName)
    (layout : SpriteLayout) (durationSeconds : ℚ) :
    ∀ line ∈ vttLines layout durationSeconds spriteName, BreakFree line := by
  intro line hline
  rcases List.mem_append.mp hline with hhead | hcue
  · exact (by decide : ∀ line ∈ ["WEBVTT", ""], BreakFree line) line hhead
  · obtain ⟨cue, -, hcue⟩ := List.mem_flatMap.mp hcue
    exact breakFree_cueLines hname cue line hcue

/-! ## A line -/

variable {sign : String → String}

theorem takeWhile_nameChars {name rest : List Char} {c : Char}
    (hname : ∀ d ∈ name, d ∈ nameChars) (hc : c ∉ nameChars) :
    (name ++ c :: rest).takeWhile (· ∈ nameChars) = name := by
  have hall : ∀ d ∈ name, decide (d ∈ nameChars) = true :=
    fun d hd => decide_eq_true (hname d hd)
  rw [List.takeWhile_append_of_pos hall, List.takeWhile_cons_of_neg (by simpa using hc),
    List.append_nil]

/-- A cue names its sheet before the rectangle. -/
theorem signCue_cue {name : String} (hname : SheetName name) (rectangle : String) :
    signCue sign (name ++ "#xywh=" ++ rectangle) = sign name ++ "#xywh=" ++ rectangle := by
  obtain ⟨stem, hstem, hlong, hshort, hchars⟩ := hname
  have hline : (name ++ "#xywh=" ++ rectangle).toList =
      stem ++ '.' :: ("jpg#xywh=".toList ++ rectangle.toList) := by
    simp only [String.toList_append, hstem]
    rw [List.append_assoc, List.append_assoc]
    rfl
  have htake : (name ++ "#xywh=" ++ rectangle).toList.takeWhile (· ∈ nameChars) = stem := by
    rw [hline]
    exact takeWhile_nameChars hchars (by decide)
  have hrest : (name ++ "#xywh=" ++ rectangle).toList.drop stem.length =
      ".jpg#xywh=".toList ++ rectangle.toList := by
    rw [hline, List.drop_left]
    rfl
  unfold signCue
  dsimp only
  rw [htake, hrest, if_pos ⟨hlong, hshort, by simp⟩, ← hstem, String.ofList_toList,
    String.append_assoc]
  congr 1
  rw [← String.toList_inj, String.toList_ofList, String.toList_append]
  rfl

/-- A line that begins with a time is no cue. -/
theorem signCue_time {before : String} (hbefore : ∀ c ∈ before.toList, c ∈ nameChars)
    (after : String) : signCue sign (before ++ ":" ++ after) = before ++ ":" ++ after := by
  have hline : (before ++ ":" ++ after).toList = before.toList ++ ':' :: after.toList := by
    simp only [String.toList_append, List.append_assoc]
    rfl
  unfold signCue
  dsimp only
  rw [hline, takeWhile_nameChars hbefore (by decide), List.drop_left, if_neg]
  rintro ⟨-, -, hprefix⟩
  exact absurd hprefix (by simp)

/-- Nor is a line of letters alone. -/
theorem signCue_word {line : String} (hline : line.toList ⊆ nameChars) :
    signCue sign line = line := by
  have htake : line.toList.takeWhile (· ∈ nameChars) = line.toList :=
    List.takeWhile_eq_self_iff.mpr fun c hc => decide_eq_true (hline hc)
  unfold signCue
  dsimp only
  rw [htake, List.drop_length, if_neg]
  rintro ⟨-, -, hprefix⟩
  exact absurd hprefix (by simp)

/-- Nothing but the name of a sheet is signed. -/
theorem signCue_congr {sign' : String → String}
    (hsame : ∀ name, SheetName name → sign name = sign' name) (line : String) :
    signCue sign line = signCue sign' line := by
  unfold signCue
  dsimp only
  split_ifs with hcue
  · have hname : SheetName (String.ofList (line.toList.takeWhile (· ∈ nameChars) ++
        ".jpg".toList)) :=
      ⟨_, String.toList_ofList, hcue.1, hcue.2.1, fun c hc => by
        simpa using List.mem_takeWhile_imp hc⟩
    rw [hsame _ hname]
  · rfl

/-- A time begins with its hours. -/
theorem timestamp_hours (seconds : ℚ) :
    ∃ hours after, timestamp seconds = zeroPad 2 hours ++ ":" ++ after := by
  refine ⟨?hours, ?after, ?_⟩
  rotate_left 2
  unfold timestamp
  simp only [toString, String.append_assoc]
  rfl

/-- Of the lines of a cue, the one that names the sheet is signed. -/
theorem cueLines_signed {name : String} (hname : SheetName name) (cue : SpriteCue) :
    (cueLines name cue).map (signCue sign) = cueLines (sign name) cue := by
  obtain ⟨hours, after, htime⟩ := timestamp_hours cue.start
  have hdigits : ∀ c ∈ (zeroPad 2 hours).toList, c ∈ nameChars := fun c hc =>
    (by decide : digitChars ⊆ nameChars) (zeroPad_mem_digitChars 2 hours c hc)
  have htimes : s!"{timestamp cue.start} --> {timestamp cue.finish}" =
      zeroPad 2 hours ++ ":" ++ (after ++ " --> " ++ timestamp cue.finish) := by
    rw [htime]
    simp only [toString, String.append_assoc]
  have hrectangle (first : String) :
      s!"{first}#xywh={cue.tile.x},{cue.tile.y},{cue.tile.w},{cue.tile.h}" =
        first ++ "#xywh=" ++ s!"{cue.tile.x},{cue.tile.y},{cue.tile.w},{cue.tile.h}" := by
    simp only [toString, String.append_assoc]
  have hempty : signCue sign "" = "" := signCue_word (by decide)
  simp only [cueLines, List.map_cons, List.map_nil]
  rw [htimes, hrectangle, hrectangle, signCue_time hdigits, signCue_cue hname, hempty]

/-! ## The index -/

/-- The lines of an index are signed one by one. -/
theorem signCues_lines {lines : List String} (hne : lines ≠ [])
    (hfree : ∀ line ∈ lines, BreakFree line) :
    signCues sign ("\n".intercalate lines) = "\n".intercalate (lines.map (signCue sign)) := by
  have hsplit : ("\n".intercalate lines).toList.splitOn '\n' = lines.map String.toList := by
    rw [String.toList_intercalate]
    refine List.splitOn_intercalate '\n' (fun line hline hbreak => ?_) (by simpa using hne)
    obtain ⟨text, htext, rfl⟩ := List.mem_map.mp hline
    exact absurd (hfree text htext _ hbreak) (by decide)
  unfold signCues
  rw [hsplit, List.map_map]
  refine congrArg _ (List.map_congr_left fun line _ => ?_)
  rw [Function.comp_apply, String.ofList_toList]

/-- Everything but the name of the sheet is left. -/
theorem vttLines_signed {name : String} (hname : SheetName name) (layout : SpriteLayout)
    (durationSeconds : ℚ) :
    (vttLines layout durationSeconds name).map (signCue sign) =
      vttLines layout durationSeconds (sign name) := by
  have hhead : ["WEBVTT", ""].map (signCue sign) = ["WEBVTT", ""] := by
    rw [List.map_cons, List.map_cons, List.map_nil, signCue_word (by decide),
      signCue_word (by decide)]
  have hcues : (fun cue => (cueLines name cue).map (signCue sign)) = cueLines (sign name) :=
    funext fun cue => cueLines_signed hname cue
  unfold vttLines
  rw [List.map_append, List.map_flatMap, hhead, hcues]

theorem signCues_buildVtt {name : String} (hname : SheetName name) (layout : SpriteLayout)
    (durationSeconds : ℚ) :
    signCues sign (buildVtt layout durationSeconds name) =
      buildVtt layout durationSeconds (sign name) := by
  have hne : vttLines layout durationSeconds name ≠ [] := by simp [vttLines]
  rw [buildVtt_eq, signCues_lines hne (breakFree_vttLines hname.breakFree layout durationSeconds),
    vttLines_signed hname, ← buildVtt_eq]

/-- What the owner of a finished job is served of its preview is the index the worker wrote: the
same times, the same rectangles, and the URL of the sheet beside the index where its name stood. -/
theorem preview_index_served (settings : JobsSettings) (user : UUID) (world : World)
    (table : JobTable) {jobId : UUID} {job : Job} {previewKey spriteName : String}
    {layout : SpriteLayout} {durationSeconds : ℚ}
    (hjob : table.getJob jobId (some user) false = some job) (hdone : job.status = .done)
    (hkey : job.previewKey = some previewKey) (hgiven : previewKey ≠ "")
    (hwritten : world.readObject previewKey = some (buildVtt layout durationSeconds spriteName))
    (hname : SheetName spriteName) :
    handle settings user world table (.getPreviewIndex jobId) =
      { answer := .previewIndex (buildVtt layout durationSeconds
          (world.createInlineUrl (beforeLast '/' previewKey ++ "/" ++ spriteName))) } := by
  have hpreview : given job.previewKey = some previewKey := by simp [given, hkey, hgiven]
  simp only [handle, getPreviewIndex, hjob, Option.filter_some, hdone, decide_true, if_true,
    Option.bind_some, hpreview, hwritten]
  rw [signCues_buildVtt hname]

/-- A finished video whose preview is built. -/
def previewedVideo : Job where
  ownerId := 7
  filename := "clip.mp4"
  status := .done
  sourceKey := "uploads/1/clip.mp4"
  outputKey := some "outputs/1/clip.mp4"
  hlsKey := some "outputs/1/hls/master.m3u8"
  hlsStatus := .ready
  previewKey := some "outputs/1/preview/sprite.vtt"
  createdAt := 0
  updatedAt := 1
  checks := by decide

theorem getJob_previewedVideo :
    JobTable.getJob ((∅ : JobTable).insert 1 previewedVideo) 1 (some 7) false =
      some previewedVideo := by
  unfold JobTable.getJob
  rw [AList.lookup_insert]
  rfl

/-- A film of twelve seconds, in three frames. -/
def twelveSeconds : SpriteLayout where
  intervalSeconds := 5
  frames := 3
  columns := 2
  rows := 2
  tileWidth := 160
  tileHeight := 90

theorem sheetName_sprite : SheetName "sprite.jpg" := by
  have hchars : "sprite".toList ⊆ nameChars := by decide
  exact ⟨"sprite".toList, rfl, by decide, by decide, fun c hc => hchars hc⟩

/-- What the worker uploads is what the owner gets. -/
theorem preview_index_served_sprite :
    let world : World := { readObject := fun _ => some (buildVtt twelveSeconds 12 "sprite.jpg") }
    handle {} 7 world ((∅ : JobTable).insert 1 previewedVideo) (.getPreviewIndex 1) =
      { answer := .previewIndex (buildVtt twelveSeconds 12
          (world.createInlineUrl
            (beforeLast '/' "outputs/1/preview/sprite.vtt" ++ "/" ++ "sprite.jpg"))) } := by
  intro world
  have hread : world.readObject "outputs/1/preview/sprite.vtt" =
      some (buildVtt twelveSeconds 12 "sprite.jpg") := rfl
  exact preview_index_served {} 7 world _ getJob_previewedVideo rfl rfl (by decide) hread
    sheetName_sprite

/-! ## What is signed -/

theorem SheetName.slash {name : String} (hname : SheetName name) : '/' ∉ name.toList := by
  obtain ⟨stem, hstem, -, -, hchars⟩ := hname
  rw [hstem, List.mem_append]
  rintro (hslash | hslash)
  · exact absurd (hchars '/' hslash) (by decide)
  · exact absurd hslash (by decide)

theorem SheetName.safePart {name : String} (hname : SheetName name) : SafePart name := by
  obtain ⟨stem, hstem, -⟩ := hname
  refine safePart_of_mem (c := 'j') ?_ (by decide)
  rw [hstem]
  exact List.mem_append_right _ (by decide)

/-- A bare name leads nowhere but into the folder. -/
theorem SheetName.inFolder {name : String} (hname : SheetName name) (folder : String) :
    InFolder folder (folder ++ "/" ++ name) :=
  ⟨[name], by simp, components_name hname.slash,
    fun _ hpart => List.mem_singleton.mp hpart ▸ hname.safePart⟩

/-- The folder the preview of an output is in. -/
theorem safeKey_previewFolder {outputPrefix : String} (hroot : '/' ∉ outputPrefix.toList)
    (hsafe : SafePart outputPrefix) (jobId : UUID) (sourceKey : String) {extension : String}
    (hextension : extension ∈ outputExtensions) :
    SafeKey (beforeLast '/'
      (previewKeyFor (outputKeyAs outputPrefix jobId sourceKey extension))) := by
  obtain ⟨name, hslash, hletter, hkey⟩ := outputKeyAs_named outputPrefix jobId sourceKey hextension
  have hname : SafePart name := safePart_of_mem hletter (by decide)
  -- Without a slash in it the output prefix is one component, which the path keeps.
  have hhead : outputPrefix.toList.head? ≠ some '/' :=
    fun hhead => hroot (List.mem_of_head? hhead)
  have hpreview : '/' ∉ ("preview").toList := by decide
  rw [beforeLast_previewKeyFor, hkey]
  intro part hpart
  rw [components_name hpreview, components_pathParent hhead hslash
    (decide_eq_true ⟨hname.1, hname.2.1⟩), previewRoot, if_neg hsafe.1,
    components_of_not_mem hroot] at hpart
  simp only [List.mem_append, List.mem_singleton] at hpart
  rcases hpart with (hpart | rfl) | rfl
  · exact List.mem_singleton.mp (List.mem_of_mem_filter hpart) ▸ hsafe
  · exact safePart_toString jobId
  · exact safePart_of_mem (c := 'p') (by decide) (by decide)

/-- Of two signers that agree on the bare names of sheets in the folder of the preview, the
answer is the same: no other key is signed, whatever text was stored as the index.  Such a key is
in that folder, and in the folder the worker names it leads nowhere else. -/
theorem preview_signs_bare_names (settings : JobsSettings) (user : UUID) {world other : World}
    (table : JobTable) (jobId : UUID) (hread : world.readObject = other.readObject)
    (hsame : ∀ job previewKey name, table.getJob jobId (some user) false = some job →
      job.previewKey = some previewKey → SheetName name →
      world.createInlineUrl (beforeLast '/' previewKey ++ "/" ++ name) =
        other.createInlineUrl (beforeLast '/' previewKey ++ "/" ++ name)) :
    handle settings user world table (.getPreviewIndex jobId) =
      handle settings user other table (.getPreviewIndex jobId) ∧
    (∀ previewKey name, SheetName name →
      InFolder (beforeLast '/' previewKey) (beforeLast '/' previewKey ++ "/" ++ name)) ∧
    ∀ outputPrefix, '/' ∉ outputPrefix.toList → SafePart outputPrefix →
      ∀ sourceKey, ∀ extension ∈ outputExtensions, ∀ name, SheetName name →
        SafeKey (beforeLast '/' (previewKeyFor
          (outputKeyAs outputPrefix jobId sourceKey extension)) ++ "/" ++ name) := by
  refine ⟨?_, fun previewKey name hname => hname.inFolder _,
    fun outputPrefix hroot hsafe sourceKey extension hextension name hname =>
      (hname.inFolder _).safeKey
        (safeKey_previewFolder hroot hsafe jobId sourceKey hextension)⟩
  simp only [handle, getPreviewIndex, hread]
  cases hfound : ((table.getJob jobId (some user) false).filter (·.status = .done)).bind
      fun job => given job.previewKey with
  | none => rfl
  | some previewKey =>
      obtain ⟨job, hdone, hgiven⟩ := Option.bind_eq_some_iff.mp hfound
      have hjob := (Option.filter_eq_some_iff.mp hdone).1
      have hkey := (Option.filter_eq_some_iff.mp hgiven).1
      have hlines := signCue_congr fun name => hsame job previewKey name hjob hkey
      dsimp only
      cases other.readObject previewKey with
      | none => rfl
      | some body => simp only [signCues, hlines]

/-- A line that climbs out of the folder gets no URL. -/
theorem preview_signs_bare_names_climbing :
    let body := "../../2/clip.jpg#xywh=0,0,160,90"
    let world : World := { readObject := fun _ => some body }
    let other : World :=
      { readObject := fun _ => some body
        createInlineUrl := fun key =>
          if "outputs/1/preview/".toList.isPrefixOf key.toList then key else "" }
    handle {} 7 world ((∅ : JobTable).insert 1 previewedVideo) (.getPreviewIndex 1) =
        handle {} 7 other ((∅ : JobTable).insert 1 previewedVideo) (.getPreviewIndex 1) ∧
      InFolder "outputs/1/preview" ("outputs/1/preview" ++ "/" ++ "sprite.jpg") ∧
      SafeKey (beforeLast '/'
        (previewKeyFor (outputKeyAs "outputs" 1 "uploads/1/clip.mp4" "mp4")) ++ "/" ++
          "sprite.jpg") := by
  intro body world other
  have hparent : beforeLast '/' "outputs/1/preview/sprite.vtt" = "outputs/1/preview" := by decide
  obtain ⟨hsame, hfolder, hsafe⟩ := @preview_signs_bare_names {} 7 world other
    ((∅ : JobTable).insert 1 previewedVideo) 1 rfl fun job previewKey name hjob hkey _ => by
      rw [getJob_previewedVideo] at hjob
      obtain rfl := Option.some.inj hjob
      obtain rfl := Option.some.inj hkey
      rw [hparent]
      exact (if_pos (by simp)).symm
  have hinside := hfolder "outputs/1/preview/sprite.vtt" _ sheetName_sprite
  rw [hparent] at hinside
  exact ⟨hsame, hinside, hsafe "outputs" (by decide)
    (safePart_of_mem (c := 'o') (by decide) (by decide)) "uploads/1/clip.mp4" "mp4"
    List.mem_cons_self _ sheetName_sprite⟩

end Api
end MediaPlayer
