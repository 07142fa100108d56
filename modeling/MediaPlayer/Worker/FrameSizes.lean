import MediaPlayer.Worker.VideoFilters

/-!
# The sizes of the frames that are encoded

FFmpeg's `scale=-2:H` gives a picture of height `H`, and a width of its own that is even;
`scaledWidth` is that width.  The encoder takes a 4:2:0 picture with even sides only.

* `graphSizes_ladderGraph` — rung `k` of a ladder has the `k`-th height, from whatever
  rendition it is scaled.
* `variantsFor_even_iff` — the heights of a ladder.
* `even_frames_iff` — when every encode of a source gets even frames.
-/

namespace MediaPlayer
namespace Worker

open Library

/-- The size of a picture. -/
structure FrameSize where
  width : ℕ
  height : ℕ
  deriving DecidableEq

/-- What libx264 takes in yuv420p. -/
def FrameSize.IsEven (size : FrameSize) : Prop := Even size.width ∧ Even size.height

instance (size : FrameSize) : Decidable size.IsEven := inferInstanceAs (Decidable (_ ∧ _))

section

variable (scaledWidth : FrameSize → ℕ → ℕ)

/-- A picture after one filter. -/
def VideoFilter.size (size : FrameSize) : VideoFilter → FrameSize
  | scaleCapped maxHeight =>
      ⟨scaledWidth size (min maxHeight size.height), min maxHeight size.height⟩
  | scaleTo height | scaleUp height => ⟨scaledWidth size height, height⟩
  | crop _ _ w h => ⟨w, h⟩
  | transpose _ => ⟨size.height, size.width⟩
  | _ => size

/-- A picture after a chain of filters. -/
def chainSize (filters : List VideoFilter) (size : FrameSize) : FrameSize :=
  filters.foldl (VideoFilter.size scaledWidth) size

/-- One part of a graph gives all its outputs the picture its chain makes of its input. -/
def partSizes (sizes : GraphLabel → Option FrameSize) (part : GraphPart) :
    GraphLabel → Option FrameSize :=
  fun label => if label ∈ part.outputs then (sizes part.input).map (chainSize scaledWidth part.filters)
    else sizes label

/-- The pictures on the links of a graph, from the source's. -/
def graphSizes (parts : List GraphPart) (size : FrameSize) : GraphLabel → Option FrameSize :=
  parts.foldl (partSizes scaledWidth) fun label => if label = .video then some size else none

/-- The settings and the plans the encodes of one source take their filters from. -/
structure EncodeFilters where
  maxFps : ℕ
  maxHeight : ℕ
  hdr : Bool
  ladderMaxHeight : ℕ

/-- Every picture that an encode of this source hands to libx264: the MP4's, in one run or as
any piece of a plan with its limit, and that of every rung of its ladder, in one run or as any
piece. -/
structure EvenFrames (settings : EncodeFilters) (source : FrameSize) : Prop where
  mp4 : (chainSize scaledWidth
    (mp4VideoFilters settings.maxFps settings.maxHeight settings.hdr) source).IsEven
  piece : ∀ (plan : PiecePlan) (index : ℕ), plan.maxHeight = settings.maxHeight →
    (chainSize scaledWidth (pieceFilters plan index) source).IsEven
  rung : ∀ k < (variantsFor source.height settings.ladderMaxHeight).length, ∃ size,
    graphSizes scaledWidth (ladderGraph (variantsFor source.height settings.ladderMaxHeight)
      settings.maxFps settings.hdr none) source (.out k) = some size ∧ size.IsEven
  rungPiece : ∀ (plan : LadderPlan) (index k : ℕ),
    plan.heights = variantsFor source.height settings.ladderMaxHeight → k < plan.heights.length →
    ∃ size, graphSizes scaledWidth (ladderPieceGraph plan index) source (.out k) = some size ∧
      size.IsEven

/-! ## Chains -/

variable {scaledWidth} {size : FrameSize}

theorem chainSize_append (first second : List VideoFilter) (size : FrameSize) :
    chainSize scaledWidth (first ++ second) size =
      chainSize scaledWidth second (chainSize scaledWidth first size) :=
  List.foldl_append

theorem chainSize_sdrFilters (hdr : Bool) (size : FrameSize) :
    chainSize scaledWidth (sdrFilters hdr) size = size := by
  cases hdr <;> rfl

/-- An MP4 is as high as its source, up to the limit. -/
theorem chainSize_mp4VideoFilters (maxFps maxHeight : ℕ) (hdr : Bool) (size : FrameSize) :
    chainSize scaledWidth (mp4VideoFilters maxFps maxHeight hdr) size =
      ⟨scaledWidth size (min maxHeight size.height), min maxHeight size.height⟩ := by
  rw [mp4VideoFilters, chainSize_append, chainSize_sdrFilters]
  rfl

/-- A piece of an MP4 has the size of the whole. -/
theorem chainSize_pieceFilters (plan : PiecePlan) (index : ℕ) (size : FrameSize) :
    chainSize scaledWidth (pieceFilters plan index) size =
      ⟨scaledWidth size (min plan.maxHeight size.height), min plan.maxHeight size.height⟩ := by
  have hmp4 : chainSize scaledWidth (mp4VideoFilters plan.maxFps plan.maxHeight plan.hdr) size =
      ⟨scaledWidth size (min plan.maxHeight size.height), min plan.maxHeight size.height⟩ :=
    chainSize_mp4VideoFilters ..
  unfold pieceFilters
  rw [chainSize_append]
  split
  · rw [chainSize_append]
    exact hmp4
  · exact hmp4

/-! ## The graph of a ladder -/

variable {sizes : GraphLabel → Option FrameSize} {heights : List ℕ}

/-- What is in a link stays in it, and every part fills its own. -/
theorem isSome_foldl {parts : List GraphPart}
    (hinputs : ∀ part ∈ parts, (sizes part.input).isSome ∧
      ∀ other ∈ parts, part.input ∉ other.outputs) {label : GraphLabel}
    (hlabel : (sizes label).isSome ∨ ∃ part ∈ parts, label ∈ part.outputs) :
    (parts.foldl (partSizes scaledWidth) sizes label).isSome := by
  induction parts generalizing sizes with
  | nil => exact hlabel.resolve_right (by simp)
  | cons part parts ih =>
      have hinput := (hinputs part (List.mem_cons_self ..)).1
      refine ih (fun other hother => ⟨?_, fun third hthird => ?_⟩) ?_
      · obtain ⟨hsome, hfree⟩ := hinputs other (List.mem_cons_of_mem _ hother)
        rw [partSizes, if_neg (hfree part (List.mem_cons_self ..))]
        exact hsome
      · exact (hinputs other (List.mem_cons_of_mem _ hother)).2 third
          (List.mem_cons_of_mem _ hthird)
      -- The part has filled its links; no later part takes anything out of one.
      · by_cases hout : label ∈ part.outputs
        · left
          rw [partSizes, if_pos hout, Option.isSome_map]
          exact hinput
        · rcases hlabel with hsome | ⟨other, hother, hmem⟩
          · left
            rw [partSizes, if_neg hout]
            exact hsome
          · rcases List.mem_cons.mp hother with rfl | hother
            · exact absurd hmem hout
            · exact .inr ⟨other, hother, hmem⟩

/-- The rungs that are made so far have their heights, and even widths. -/
def RungsSized (heights : List ℕ) (sizes : GraphLabel → Option FrameSize) : Prop :=
  ∀ k size, sizes (.out k) = some size → heights[k]? = some size.height ∧ Even size.width

/-- A part that scales to the height of the rungs it makes. -/
def MakesRung (heights : List ℕ) (part : GraphPart) : Prop :=
  ∃ height, part.filters = [.scaleTo height] ∧
    ∀ k, .out k ∈ part.outputs → heights[k]? = some height

theorem RungsSized.foldl (hwidth : ∀ size height, Even (scaledWidth size height))
    (hsized : RungsSized heights sizes) {parts : List GraphPart}
    (hparts : ∀ part ∈ parts, MakesRung heights part) :
    RungsSized heights (parts.foldl (partSizes scaledWidth) sizes) := by
  induction parts generalizing sizes with
  | nil => exact hsized
  | cons part parts ih =>
      refine ih (fun k size hsize => ?_) fun other hother =>
        hparts other (List.mem_cons_of_mem _ hother)
      obtain ⟨height, hfilters, hout⟩ := hparts part (List.mem_cons_self ..)
      unfold partSizes at hsize
      split at hsize
      · next hmem =>
          obtain ⟨input, -, rfl⟩ := Option.map_eq_some_iff.mp hsize
          rw [hfilters]
          exact ⟨hout k hmem, hwidth input height⟩
      · exact hsized k size hsize

theorem getElem?_idxOf {height : ℕ} (hheight : height ∈ heights) :
    heights[heights.idxOf height]? = some height := by
  rw [List.getElem?_eq_getElem (List.idxOf_lt_length_iff.mpr hheight), List.getElem_idxOf]

theorem mem_of_mem_fromSource {height : ℕ} (hheight : height ∈ fromSource heights) :
    height ∈ heights := by
  unfold fromSource at hheight
  split_ifs at hheight
  · exact List.mem_of_mem_filter hheight
  · exact hheight

theorem mem_of_mem_fromAnchor {height : ℕ} (hheight : height ∈ fromAnchor heights) :
    cascadeFrom ∈ heights ∧ height ∈ heights := by
  unfold fromAnchor at hheight
  split_ifs at hheight with hanchor
  · exact ⟨hanchor, List.mem_of_mem_filter hheight⟩
  · exact absurd hheight List.not_mem_nil

/-- Every rung is scaled from the source or from the anchor. -/
theorem fromSource_or_fromAnchor {height : ℕ} (hheight : height ∈ heights) :
    height ∈ fromSource heights ∨ height ∈ fromAnchor heights := by
  unfold fromSource fromAnchor
  split_ifs with hanchor
  · rcases Nat.lt_or_ge height cascadeFrom with hbelow | habove
    · exact .inr (List.mem_filter.mpr ⟨hheight, by simpa using hbelow⟩)
    · exact .inl (List.mem_filter.mpr ⟨hheight, by simpa using habove⟩)
  · exact .inl hheight

theorem makesRung_sourcePart {height : ℕ} (hheight : height ∈ fromSource heights) :
    MakesRung heights (sourcePart heights height) := by
  have hindex := getElem?_idxOf (mem_of_mem_fromSource hheight)
  unfold sourcePart
  split
  · refine ⟨height, rfl, fun k hk => ?_⟩
    rcases List.mem_cons.mp hk with heq | hk
    · rw [GraphLabel.out.inj heq, hindex]
    · obtain ⟨other, -, heq⟩ := List.mem_map.mp hk
      exact absurd heq nofun
  · refine ⟨height, rfl, fun k hk => ?_⟩
    rw [GraphLabel.out.inj (List.mem_singleton.mp hk), hindex]

theorem input_sourcePart (heights : List ℕ) (height : ℕ) :
    (sourcePart heights height).input = .source height := by
  unfold sourcePart
  split <;> rfl

theorem out_mem_sourcePart (heights : List ℕ) (height : ℕ) :
    .out (heights.idxOf height) ∈ (sourcePart heights height).outputs := by
  unfold sourcePart
  split <;> simp

/-- No part that follows the split writes a link from the source. -/
theorem source_not_mem_sourcePart (heights : List ℕ) (height other : ℕ) :
    .source other ∉ (sourcePart heights height).outputs := by
  unfold sourcePart
  split <;> simp

/-- The anchor is split for the rungs below it. -/
theorem anchor_mem_sourcePart {height : ℕ} (hheight : height ∈ fromAnchor heights) :
    .anchor height ∈ (sourcePart heights cascadeFrom).outputs := by
  have hne : fromAnchor heights ≠ [] := List.ne_nil_of_mem hheight
  rw [sourcePart, if_pos ⟨rfl, hne⟩]
  exact List.mem_cons_of_mem _ (List.mem_map_of_mem hheight)

theorem cascadeFrom_mem_fromSource (hanchor : cascadeFrom ∈ heights) :
    cascadeFrom ∈ fromSource heights := by
  rw [fromSource, if_pos hanchor]
  exact List.mem_filter.mpr ⟨hanchor, by simp⟩

/-- The parts that make rungs from the anchor. -/
def anchorParts (heights : List ℕ) : List GraphPart :=
  (fromAnchor heights).map fun height =>
    ⟨.anchor height, [.scaleTo height], false, [.out (heights.idxOf height)]⟩

theorem makesRung_anchorParts : ∀ part ∈ anchorParts heights, MakesRung heights part := by
  intro part hpart
  obtain ⟨height, hheight, rfl⟩ := List.mem_map.mp hpart
  refine ⟨height, rfl, fun k hk => ?_⟩
  rw [GraphLabel.out.inj (List.mem_singleton.mp hk),
    getElem?_idxOf (mem_of_mem_fromAnchor hheight).2]

/-- Every link of the graph is filled. -/
theorem isSome_ladderGraph (start : GraphLabel → Option FrameSize)
    (hstart : ∀ height ∈ fromSource heights, (start (.source height)).isSome) {height : ℕ}
    (hheight : height ∈ heights) :
    ((anchorParts heights).foldl (partSizes scaledWidth)
      (((fromSource heights).map (sourcePart heights)).foldl (partSizes scaledWidth) start)
        (.out (heights.idxOf height))).isSome := by
  have hsources : ∀ part ∈ (fromSource heights).map (sourcePart heights),
      (start part.input).isSome ∧
        ∀ other ∈ (fromSource heights).map (sourcePart heights), part.input ∉ other.outputs := by
    intro part hpart
    obtain ⟨own, hown, rfl⟩ := List.mem_map.mp hpart
    rw [input_sourcePart]
    refine ⟨hstart own hown, fun other hother => ?_⟩
    obtain ⟨third, -, rfl⟩ := List.mem_map.mp hother
    exact source_not_mem_sourcePart heights third own
  -- The anchors are filled by the parts that scale from the source.
  have hanchors : ∀ part ∈ anchorParts heights,
      (((fromSource heights).map (sourcePart heights)).foldl (partSizes scaledWidth) start
        part.input).isSome ∧ ∀ other ∈ anchorParts heights, part.input ∉ other.outputs := by
    intro part hpart
    obtain ⟨own, hown, rfl⟩ := List.mem_map.mp hpart
    refine ⟨isSome_foldl hsources (.inr ⟨_, List.mem_map_of_mem
      (cascadeFrom_mem_fromSource (mem_of_mem_fromAnchor hown).1), anchor_mem_sourcePart hown⟩),
      fun other hother => ?_⟩
    obtain ⟨third, -, rfl⟩ := List.mem_map.mp hother
    simp
  refine isSome_foldl hanchors ?_
  rcases fromSource_or_fromAnchor hheight with hsource | hanchor
  · exact .inl (isSome_foldl hsources
      (.inr ⟨_, List.mem_map_of_mem hsource, out_mem_sourcePart heights height⟩))
  · exact .inr ⟨_, List.mem_map_of_mem hanchor, List.mem_singleton_self _⟩

/-- Rung `k` of a ladder has the `k`-th height and an even width. -/
theorem graphSizes_ladderGraph (hwidth : ∀ size height, Even (scaledWidth size height))
    (hnodup : heights.Nodup) (maxFps : ℕ) (hdr : Bool) (rateFilters : Option (List VideoFilter))
    (source : FrameSize) {k height : ℕ} (hheight : heights[k]? = some height) :
    ∃ size, graphSizes scaledWidth (ladderGraph heights maxFps hdr rateFilters) source (.out k) =
      some size ∧ size.height = height ∧ Even size.width := by
  -- The split comes first; what it leaves is kept opaque.
  obtain ⟨start, hstart⟩ : ∃ start, start = partSizes scaledWidth
      (fun label => if label = .video then some source else none)
      ⟨.video, rateFilters.getD [.capRate maxFps] ++ sdrFilters hdr, true,
        (fromSource heights).map .source⟩ := ⟨_, rfl⟩
  have hgraph : graphSizes scaledWidth (ladderGraph heights maxFps hdr rateFilters) source =
      (anchorParts heights).foldl (partSizes scaledWidth)
        (((fromSource heights).map (sourcePart heights)).foldl (partSizes scaledWidth) start) := by
    rw [graphSizes, ladderGraph, List.foldl_append, List.foldl_append, hstart]
    rfl
  have hsources : ∀ height ∈ fromSource heights, (start (.source height)).isSome := by
    intro height hheight
    rw [hstart, partSizes, if_pos (List.mem_map_of_mem hheight), if_pos rfl]
    rfl
  -- No rung is made yet.
  have hnone : RungsSized heights start := by
    intro k size hsize
    rw [hstart, partSizes, if_neg (by simp), if_neg nofun] at hsize
    exact absurd hsize nofun
  obtain ⟨hk, rfl⟩ := List.getElem?_eq_some_iff.mp hheight
  have hsome := @isSome_ladderGraph scaledWidth _ start hsources _ (List.getElem_mem hk)
  rw [hnodup.idxOf_getElem, ← hgraph] at hsome
  obtain ⟨size, hsize⟩ := Option.isSome_iff_exists.mp hsome
  have hparts : ∀ part ∈ (fromSource heights).map (sourcePart heights),
      MakesRung heights part := by
    intro part hpart
    obtain ⟨own, hown, rfl⟩ := List.mem_map.mp hpart
    exact makesRung_sourcePart hown
  have hsized := (hnone.foldl hwidth hparts).foldl hwidth makesRung_anchorParts
  rw [← hgraph] at hsized
  obtain ⟨hrung, heven⟩ := hsized k size hsize
  exact ⟨size, hsize, (Option.some.inj (hheight.symm.trans hrung)).symm, heven⟩

/-! ## The heights of a ladder -/

/-- A source has rungs of the ladder, or only its own height. -/
theorem variantsFor_cases (height maxHeight : ℕ) :
    ((∃ rung ∈ ladderHeights, rung ≤ min height maxHeight) ∧
        (variantsFor height maxHeight).Sublist ladderHeights) ∨
      (¬(∃ rung ∈ ladderHeights, rung ≤ min height maxHeight) ∧
        variantsFor height maxHeight = [height]) := by
  unfold variantsFor
  dsimp only
  cases hlast : (ladderHeights.filter (· ≤ min height maxHeight)).getLast? with
  | none =>
      refine .inr ⟨?_, rfl⟩
      rintro ⟨rung, hrung, hle⟩
      have hmem : rung ∈ ladderHeights.filter (· ≤ min height maxHeight) :=
        List.mem_filter.mpr ⟨hrung, decide_eq_true hle⟩
      rw [List.getLast?_eq_none_iff.mp hlast] at hmem
      exact absurd hmem List.not_mem_nil
  | some top =>
      obtain ⟨hmem, htop⟩ := List.mem_filter.mp (List.mem_of_getLast? hlast)
      exact .inl ⟨⟨top, hmem, of_decide_eq_true htop⟩,
        List.filter_sublist.trans List.filter_sublist⟩

theorem variantsFor_nodup (height maxHeight : ℕ) : (variantsFor height maxHeight).Nodup := by
  have hladder : ladderHeights.Nodup := by decide
  rcases variantsFor_cases height maxHeight with ⟨-, hsublist⟩ | ⟨-, hown⟩
  · exact hladder.sublist hsublist
  · rw [hown]
    exact List.nodup_singleton _

/-- The heights of a ladder are even, but for that of a source below the lowest rung. -/
theorem variantsFor_even_iff (height maxHeight : ℕ) :
    (∀ rung ∈ variantsFor height maxHeight, Even rung) ↔
      (∃ rung ∈ ladderHeights, rung ≤ min height maxHeight) ∨ Even height := by
  have hladder : ∀ rung ∈ ladderHeights, Even rung := by decide
  rcases variantsFor_cases height maxHeight with ⟨hsome, hsublist⟩ | ⟨hnone, hown⟩
  · exact iff_of_true (fun rung hrung => hladder rung (hsublist.subset hrung)) (.inl hsome)
  · rw [hown, List.forall_mem_singleton]
    exact (or_iff_right hnone).symm

/-! ## Even frames -/

/-- The encodes of a source get even frames exactly where the MP4's height is even, and so is
the source's own unless the ladder has a rung for it. -/
theorem even_frames_iff (hwidth : ∀ size height, Even (scaledWidth size height))
    (settings : EncodeFilters) (source : FrameSize) :
    EvenFrames scaledWidth settings source ↔
      Even (min settings.maxHeight source.height) ∧
        ((∃ rung ∈ ladderHeights, rung ≤ min source.height settings.ladderMaxHeight) ∨
          Even source.height) := by
  rw [← variantsFor_even_iff]
  have hrung : ∀ (maxFps : ℕ) (hdr : Bool) (rateFilters : Option (List VideoFilter)),
      (∀ rung ∈ variantsFor source.height settings.ladderMaxHeight, Even rung) ↔
        ∀ k < (variantsFor source.height settings.ladderMaxHeight).length, ∃ size,
          graphSizes scaledWidth (ladderGraph (variantsFor source.height settings.ladderMaxHeight)
            maxFps hdr rateFilters) source (.out k) = some size ∧ size.IsEven := by
    intro maxFps hdr rateFilters
    have hnodup := variantsFor_nodup source.height settings.ladderMaxHeight
    have hsize := fun {k height : ℕ} (hheight : (variantsFor source.height
        settings.ladderMaxHeight)[k]? = some height) =>
      graphSizes_ladderGraph hwidth hnodup maxFps hdr rateFilters source hheight
    constructor
    · intro heven k hk
      obtain ⟨size, hout, hheight, hsizeWidth⟩ := hsize (List.getElem?_eq_getElem hk)
      exact ⟨size, hout, hsizeWidth, hheight ▸ heven _ (List.getElem_mem hk)⟩
    · intro heven rung hmem
      obtain ⟨k, hk, rfl⟩ := List.getElem_of_mem hmem
      obtain ⟨size, hout, hheight, -⟩ := hsize (List.getElem?_eq_getElem hk)
      obtain ⟨other, hother, hevenOther⟩ := heven k hk
      obtain rfl := Option.some.inj (hout.symm.trans hother)
      exact hheight ▸ hevenOther.2
  constructor
  · intro hall
    have hmp4 := hall.mp4
    rw [chainSize_mp4VideoFilters] at hmp4
    exact ⟨hmp4.2, (hrung _ _ _).mpr hall.rung⟩
  · rintro ⟨hheight, hladder⟩
    refine ⟨?_, fun plan index hplan => ?_, (hrung _ _ _).mp hladder, fun plan index k hplan => ?_⟩
    · rw [chainSize_mp4VideoFilters]
      exact ⟨hwidth _ _, hheight⟩
    · rw [chainSize_pieceFilters, hplan]
      exact ⟨hwidth _ _, hheight⟩
    · rw [ladderPieceGraph, hplan]
      exact (hrung _ _ _).mp hladder k

end

/-- An even width, as FFmpeg finds it: that of the same shape, rounded. -/
def roundedWidth (size : FrameSize) (height : ℕ) : ℕ :=
  2 * ((size.width * height + size.height) / (2 * size.height))

/-- A film of 1080 lines has even frames, at 720 lines too. -/
theorem even_frames_iff_film :
    EvenFrames roundedWidth ⟨30, 1080, false, 1080⟩ ⟨1920, 1080⟩ ∧
      EvenFrames roundedWidth ⟨30, 1080, true, 2160⟩ ⟨1281, 720⟩ :=
  ⟨(even_frames_iff (fun _ _ => even_two_mul _) _ _).mpr (by decide),
    (even_frames_iff (fun _ _ => even_two_mul _) _ _).mpr (by decide)⟩

/-- A source of 359 lines keeps its odd height. -/
theorem odd_frames_encoded : ¬∀ (scaledWidth : FrameSize → ℕ → ℕ),
    (∀ size height, Even (scaledWidth size height)) →
      ∀ (settings : EncodeFilters) (source : FrameSize), 0 < source.width → 0 < source.height →
        EvenFrames scaledWidth settings source := by
  intro hall
  have heven := (hall roundedWidth (fun _ _ => even_two_mul _) ⟨30, 1080, false, 1080⟩ ⟨640, 359⟩
    (by decide) (by decide)).mp4
  exact absurd heven.2 (by decide)

end Worker
end MediaPlayer
