import Mathlib.Data.NNRat.Defs
import MediaPlayer.Worker.MasterEntries

/-!
# The passes over a master

`write_master` writes the master of a ladder, `label_frame_rates` labels it, and each batch of
renditions is added to it, one entry after another.

* `runPasses_pipelineFile` — a run of passes lists the batches that are among them.
* `master_pipeline` — so every order of the passes, and every repetition, gives one file.
-/

namespace MediaPlayer
namespace Worker

open Library

/-- A pass over a labelled master. -/
inductive MasterPass
  | label (rate : ℚ≥0)
  | add (kind : RenditionKind)
  deriving DecidableEq

/-- One pass; `batch` holds the entries of each kind. -/
def runPass (batch : RenditionKind → List Listed) (master : String) : MasterPass → String
  | .label rate => labelFrameRates master rate
  | .add kind => (batch kind).foldl addToMaster master

/-- The passes one after another. -/
def runPasses (batch : RenditionKind → List Listed) (passes : List MasterPass) (master : String) :
    String :=
  passes.foldl (runPass batch) master

/-- Entries of one kind with distinct heights. -/
structure Batch (kind : RenditionKind) (listed : List Listed) : Prop where
  planned : ∀ entry ∈ listed, entry.Planned kind
  heights : (listed.map (·.rung)).Nodup

/-- What the passes are to leave: the file's head, its entries, and what each of them has. -/
structure PipelineMaster (rungs : List PieceRung) (audio : ℕ × ℕ) (rate : ℚ)
    (batch : RenditionKind → List Listed) (master : String) : Prop where
  head : masterHead rungs.length <+: splitLines master
  entries : entriesOf master =
    (masterHead rungs.length, pipelineEntries rungs audio rate batch)
  followed : ∀ before line after, splitLines master = before ++ line :: after →
    startsWith line streamInf = true →
      ∃ uri rest, after = uri :: rest ∧ (entriesOf master).2[countTags before]? = some (line, uri)
  pictures : ∀ entry ∈ (entriesOf master).2, contains entry.1 "RESOLUTION=" = true ↔
    entry.2 ≠ variantFile rungs.length indexName
  attributes : ∀ entry ∈ (entriesOf master).2, contains entry.1 "RESOLUTION=" = true →
    searchQuoted "AUDIO=\"".toList entry.1.toList = some "group_audio".toList ∧
      occurrences "FRAME-RATE=" entry.1 = 1
  uris : ((entriesOf master).2.map (·.2)).Nodup

section

variable {rungs : List PieceRung} {audio : ℕ × ℕ} {rate : ℚ}
  {batch : RenditionKind → List Listed}

/-- The batches that are among these passes. -/
def addedBy (batch : RenditionKind → List Listed) (passes : List MasterPass) :
    RenditionKind → List Listed :=
  fun kind => if .add kind ∈ passes then batch kind else []

theorem addedBy_planned (hbatch : ∀ kind, Batch kind (batch kind)) (passes : List MasterPass) :
    ∀ kind, ∀ entry ∈ addedBy batch passes kind, entry.Planned kind := by
  intro kind entry hentry
  unfold addedBy at hentry
  split_ifs at hentry
  · exact (hbatch kind).planned entry hentry
  · exact absurd hentry List.not_mem_nil

/-- One more pass lists its batch, if it is not listed yet. -/
theorem runPass_pipelineFile (hrungs : rungs ≠ []) (hbatch : ∀ kind, Batch kind (batch kind))
    (passes : List MasterPass) (pass : MasterPass) :
    runPass batch (pipelineFile rungs audio rate (addedBy batch passes)) pass =
      pipelineFile rungs audio rate (addedBy batch (passes ++ [pass])) := by
  have hplanned := addedBy_planned hbatch passes
  cases pass with
  | label other =>
      have hsame : addedBy batch (passes ++ [.label other]) = addedBy batch passes := by
        funext kind
        simp [addedBy]
      rw [hsame]
      exact labelFrameRates_pipelineFile hrungs hplanned other
  | add kind =>
      show (batch kind).foldl addToMaster _ = _
      by_cases hmem : .add kind ∈ passes
      -- Its entries are listed already, and a listed entry is left alone.
      · have hsame : addedBy batch (passes ++ [.add kind]) = addedBy batch passes := by
          funext other
          unfold addedBy
          congr 1
          simp only [List.mem_append, List.mem_singleton, MasterPass.add.injEq, eq_iff_iff]
          exact or_iff_left_of_imp fun heq => heq ▸ hmem
        rw [hsame]
        refine foldl_listed hrungs hplanned (hbatch kind).planned fun entry hentry => ?_
        rw [addedBy, if_pos hmem]
        exact List.mem_map_of_mem hentry
      -- The first pass of its kind: nothing of the kind is listed yet.
      · have hnone : addedBy batch passes kind = [] := if_neg hmem
        have hadded : addedBy batch (passes ++ [.add kind]) =
            Function.update (addedBy batch passes) kind (batch kind) := by
          funext other
          by_cases hother : other = kind
          · subst hother
            simp [addedBy]
          · simp [addedBy, hother]
        rw [hadded, foldl_new hrungs hplanned (hbatch kind).planned, hnone, List.nil_append]
        rw [hnone, List.nil_append]
        exact (hbatch kind).heights

/-- A run of passes lists the batches that are among them. -/
theorem runPasses_pipelineFile (hrungs : rungs ≠ []) (hbatch : ∀ kind, Batch kind (batch kind))
    (passes : List MasterPass) :
    runPasses batch passes (pipelineFile rungs audio rate fun _ => []) =
      pipelineFile rungs audio rate (addedBy batch passes) := by
  -- From the last pass on, since a pass sees what all before it have left.
  induction passes using List.reverseRecOn with
  | nil =>
      have hnone : addedBy batch [] = fun _ => [] := by
        funext kind
        simp [addedBy]
      rw [hnone]
      rfl
  | append_singleton passes pass ih =>
      rw [runPasses, List.foldl_append]
      show runPass batch (runPasses batch passes _) pass = _
      rw [ih, runPass_pipelineFile hrungs hbatch]

/-! ## What the file has -/

/-- Behind the head too a STREAM-INF line stands before its own URI. -/
theorem followed_pipelineFile (hrungs : rungs ≠ [])
    (hplanned : ∀ kind, ∀ entry ∈ batch kind, entry.Planned kind) {before after : List String}
    {line : String} (hsplit : masterHead rungs.length ++ pipelineLines rungs audio rate batch =
      before ++ line :: after) (htag : startsWith line streamInf = true) :
    ∃ uri rest, after = uri :: rest ∧
      (pipelineEntries rungs audio rate batch)[countTags before]? = some (line, uri) := by
  have hlaid := laidOut_pipelineLines rungs audio rate batch
  have hentries : ∀ entry ∈ pipelineEntries rungs audio rate batch, PlainEntry entry :=
    plainEntry_pipelineEntries hrungs hplanned
  have hnone : countTags (masterHead rungs.length) = 0 :=
    List.countP_eq_zero.mpr fun line hline => by simp [(mem_masterHead hline).1]
  rcases List.append_eq_append_iff.mp hsplit with ⟨behind, rfl, hlines⟩ | ⟨rest, hhead, hlines⟩
  · rw [countTags, List.countP_append, show List.countP _ (masterHead rungs.length) = 0 from hnone,
      Nat.zero_add]
    exact hlaid.followed hentries hlines htag
  · cases rest with
    | nil =>
        rw [List.append_nil] at hhead
        rw [← hhead, hnone]
        have hlaidOut := hlines.symm.trans (List.nil_append (line :: after)).symm
        exact hlaid.followed hentries hlaidOut htag
    -- A line of the head is no STREAM-INF line.
    | cons other rest =>
        obtain ⟨rfl, -⟩ := List.cons.inj hlines
        have hline : line ∈ masterHead rungs.length := hhead ▸ by simp
        rw [(mem_masterHead hline).1] at htag
        exact absurd htag (by decide)

theorem uris_batchEntries {first : String} {kind : RenditionKind} {listed : List Listed}
    (hplanned : ∀ entry ∈ listed, entry.Planned kind) :
    (batchEntries first listed).map (·.2) = (listed.map (·.rung)).map (renditionUri kind) := by
  unfold batchEntries
  rw [List.map_map, List.map_map]
  refine List.map_congr_left fun entry hentry => ?_
  show entry.uri = renditionUri kind entry.rung
  rw [Listed.uri, (hplanned entry hentry).kind_eq]

theorem uris_ladderEntries (rungs : List PieceRung) (audio : ℕ × ℕ) (rate : ℚ) :
    (ladderEntries rungs audio rate).map (·.2) =
      (List.range (rungs.length + 1)).map fun k => variantFile k indexName := by
  have hindexes : rungs.zipIdx.map Prod.snd = List.range rungs.length := by
    rw [List.zipIdx_map_snd, List.range_eq_range']
  rw [List.range_succ, List.map_append, ladderEntries, List.map_append, rungEntries,
    List.map_map, ← hindexes, List.map_map]
  rfl

/-- No URI is listed twice. -/
theorem nodup_uris (hbatch : ∀ kind, Batch kind (batch kind)) :
    ((pipelineEntries rungs audio rate batch).map (·.2)).Nodup := by
  -- Within a kind the heights differ; the kinds and the ladder have names of their own.
  have hkind : ∀ kind, (((batch kind).map (·.rung)).map (renditionUri kind)).Nodup := fun kind =>
    (hbatch kind).heights.map fun _ _ heq => (renditionUri_inj heq).2
  have hladder : ((List.range (rungs.length + 1)).map fun k => variantFile k indexName).Nodup :=
    List.nodup_range.map fun _ _ heq => (variantFile_inj heq).1
  unfold pipelineEntries
  rw [List.map_append, List.map_append, uris_batchEntries (hbatch .hdr).planned,
    uris_batchEntries (hbatch .av1).planned, uris_ladderEntries]
  refine List.nodup_append.mpr ⟨hkind .hdr, List.nodup_append.mpr
    ⟨hkind .av1, hladder, ?_⟩, ?_⟩
  · intro uri huri other hother heq
    obtain ⟨rung, -, rfl⟩ := List.mem_map.mp huri
    obtain ⟨k, -, rfl⟩ := List.mem_map.mp hother
    exact renditionUri_ne_variantFile .av1 rung k heq
  · intro uri huri other hother heq
    obtain ⟨rung, -, rfl⟩ := List.mem_map.mp huri
    rcases List.mem_append.mp hother with hother | hother
    · obtain ⟨height, -, rfl⟩ := List.mem_map.mp hother
      exact absurd (renditionUri_inj heq).1 (by decide)
    · obtain ⟨k, -, rfl⟩ := List.mem_map.mp hother
      exact renditionUri_ne_variantFile .hdr rung k heq

theorem uri_ne_of_mem_videoEntries (hrungs : rungs ≠ [])
    (hplanned : ∀ kind, ∀ entry ∈ batch kind, entry.Planned kind) {entry : String × String}
    (hentry : entry ∈ videoEntries rungs audio rate batch) :
    entry.2 ≠ variantFile rungs.length indexName := by
  intro heq
  rcases (mem_videoEntries hrungs hplanned hentry).2 with ⟨k, hk, huri⟩ | ⟨kind, rung, -, huri⟩
  · have hindex := (variantFile_inj (huri.symm.trans heq)).1
    omega
  · exact renditionUri_ne_variantFile kind rung _ (huri.symm.trans heq)

end

/-- Every order of the passes over a master, and every repetition, gives one file. -/
theorem master_pipeline {rungs : List PieceRung} (hrungs : rungs ≠ []) (audio : ℕ × ℕ) (rate : ℚ≥0)
    {batch : RenditionKind → List Listed} (hbatch : ∀ kind, Batch kind (batch kind)) :
    ∃ master : String,
      (∀ passes : List MasterPass, (∀ kind, .add kind ∈ passes) →
        runPasses batch (.label rate :: passes)
          (writeMaster rungs audio (variantFile rungs.length indexName)) = master) ∧
      PipelineMaster rungs audio rate batch master := by
  have hplanned : ∀ kind, ∀ entry ∈ batch kind, entry.Planned kind := fun kind =>
    (hbatch kind).planned
  -- The file gets a name, so that nothing computes its text.
  obtain ⟨master, hmaster⟩ : ∃ master, master = pipelineFile rungs audio rate batch := ⟨_, rfl⟩
  have hlines : splitLines master =
      masterHead rungs.length ++ pipelineLines rungs audio rate batch :=
    hmaster ▸ (read_pipelineFile hrungs hplanned).1
  have hread : entriesOf master =
      (masterHead rungs.length, pipelineEntries rungs audio rate batch) :=
    hmaster ▸ (read_pipelineFile hrungs hplanned).2
  refine ⟨master, fun passes hpasses => ?_, ?_⟩
  · have hall : addedBy batch passes = batch := funext fun kind => if_pos (hpasses kind)
    rw [runPasses, List.foldl_cons, runPass, labelFrameRates_writeMaster, hmaster]
    exact (runPasses_pipelineFile hrungs hbatch passes).trans (by rw [hall])
  · refine ⟨hlines ▸ List.prefix_append _ _, hread, ?_, ?_, ?_, ?_⟩
    · intro before line after hsplit htag
      rw [hread]
      exact followed_pipelineFile hrungs hplanned (hlines.symm.trans hsplit) htag
    · intro entry hentry
      rw [hread, pipelineEntries_eq] at hentry
      rcases List.mem_append.mp hentry with hvideo | hsound
      · have hpicture := (mem_videoEntries hrungs hplanned hvideo).1.resolution
        exact iff_of_true hpicture (uri_ne_of_mem_videoEntries hrungs hplanned hvideo)
      · obtain rfl := List.mem_singleton.mp hsound
        have hnone := soundLine_no_picture audio
        exact iff_of_false (by simp [soundEntry, hnone]) fun hne => hne rfl
    · intro entry hentry hpicture
      rw [hread, pipelineEntries_eq] at hentry
      rcases List.mem_append.mp hentry with hvideo | hsound
      · have hline := (mem_videoEntries hrungs hplanned hvideo).1
        exact ⟨hline.audio, hline.once⟩
      · obtain rfl := List.mem_singleton.mp hsound
        exact absurd ((soundLine_no_picture audio).symm.trans hpicture) (by decide)
    · rw [hread]
      exact nodup_uris hbatch

/-- A film in HDR, whose sizes are listed as `run` lists them. -/
def hdrFilm : SourceProbe where
  width := 1920
  height := 1080
  width_pos := by decide
  height_pos := by decide
  hdr := true
  colorTransfer := some "smpte2084"

def hdrFilmBatch (kind : RenditionKind) : List Listed :=
  [1080, 360].filterMap fun rung => listedRung kind hdrFilm rung (3000000, 2000000)

def hdrFilmRung : PieceRung := ⟨[], ⟨640, 360, .main, 30⟩, 800000, 600000⟩

theorem hdrFilmBatch_batch (kind : RenditionKind) : Batch kind (hdrFilmBatch kind) := by
  have hheights : (hdrFilmBatch kind).map (·.rung) = [1080, 360] := by cases kind <;> rfl
  refine ⟨fun entry hentry => ?_, hheights ▸ by decide⟩
  obtain ⟨rung, -, hlisted⟩ := List.mem_filterMap.mp hentry
  exact .of_listedRung hlisted

/-- HDR added first or AV1 first, and all of it again: one file. -/
theorem master_pipeline_hdrFilm : ∃ master : String,
    runPasses hdrFilmBatch [.label 30, .add .hdr, .add .av1]
        (writeMaster [hdrFilmRung] (128000, 96000) (variantFile 1 indexName)) = master ∧
      runPasses hdrFilmBatch [.label 30, .add .av1, .add .hdr, .add .av1, .label 24]
        (writeMaster [hdrFilmRung] (128000, 96000) (variantFile 1 indexName)) = master ∧
      (entriesOf master).2.map (·.2) = ["hdr/1080/index.m3u8", "hdr/360/index.m3u8",
        "av1/1080/index.m3u8", "av1/360/index.m3u8", "v0/index.m3u8", "v1/index.m3u8"] := by
  obtain ⟨master, hsame, hmaster⟩ :=
    master_pipeline (List.cons_ne_nil hdrFilmRung []) (128000, 96000) 30 hdrFilmBatch_batch
  have hboth : ∀ kind, kind = RenditionKind.hdr ∨ kind = .av1 := fun kind => by cases kind <;> simp
  refine ⟨master, hsame _ fun kind => ?_, hsame _ fun kind => ?_, ?_⟩
  · rcases hboth kind with rfl | rfl <;> simp
  · rcases hboth kind with rfl | rfl <;> simp
  · rw [hmaster.entries]
    rfl

end Worker
end MediaPlayer
