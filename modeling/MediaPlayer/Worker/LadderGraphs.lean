import Mathlib.Data.List.Nodup
import MediaPlayer.Worker.FrameSizes
import MediaPlayer.Worker.GraphTexts

/-!
# The links of a ladder's graph

`_ladder_filter` of `app/worker/hls.py`: what the parts of the graph make, and what they take.

* `ladderGraph_linked` — the parts and the maps take the source's picture and what the parts make.
* `ladderGraph_consumed` — none of it twice.
* `ladderGraph_scaled` — rung `k` is made by a part that scales to the `k`-th height.
* `GraphLinked`, `RungsScaled` — the same of what FFmpeg reads of the text.
* `graphLinked_ladderFilter` — the text of `_ladder_filter` is so, whatever replaces its rate cap.
-/

namespace MediaPlayer
namespace Worker

open Library

section

variable {heights : List ℕ} {maxFps : ℕ} {hdr : Bool} {rateFilters : Option (List VideoFilter)}

/-- The rungs, those from the source first. -/
theorem fromSource_append_fromAnchor_perm (heights : List ℕ) :
    (fromSource heights ++ fromAnchor heights).Perm heights := by
  unfold fromSource fromAnchor
  split
  · have hsplit := List.filter_append_perm (fun height => decide (cascadeFrom ≤ height)) heights
    simpa only [← decide_not, Nat.not_le] using hsplit
  · rw [List.append_nil]

/-- A list of single outputs, one of which has more with it. -/
theorem flatMap_singleton_or_perm {α β : Type*} [DecidableEq α] {xs : List α} {a : α}
    (f : α → β) (ys : List β) (hnodup : xs.Nodup) (ha : a ∈ xs) :
    (xs.flatMap fun x => if x = a then f x :: ys else [f x]).Perm (xs.map f ++ ys) := by
  induction xs with
  | nil => cases ha
  | cons x xs ih =>
      obtain ⟨hx, hxs⟩ := List.nodup_cons.mp hnodup
      rw [List.flatMap_cons, List.map_cons]
      by_cases hsame : x = a
      · subst hsame
        have hrest : (xs.flatMap fun y => if y = x then f y :: ys else [f y]) = xs.map f := by
          rw [List.map_eq_flatMap]
          refine List.flatMap_congr fun y hy => if_neg ?_
          rintro rfl
          exact hx hy
        rw [if_pos rfl, hrest, List.cons_append]
        exact List.Perm.cons _ List.perm_append_comm
      · rw [if_neg hsame, List.singleton_append]
        exact (ih hxs ((List.mem_cons.mp ha).resolve_left (Ne.symm hsame))).cons _

/-- The label of a rung. -/
def rungLabel (heights : List ℕ) (height : ℕ) : GraphLabel := .out (heights.idxOf height)

/-- In the order of the heights the labels of the rungs are counted up. -/
theorem map_rungLabel (hnodup : heights.Nodup) :
    heights.map (rungLabel heights) = (List.range heights.length).map .out := by
  refine List.ext_getElem (by simp) fun k hk _ => ?_
  rw [List.getElem_map, List.getElem_map, List.getElem_range, rungLabel, hnodup.idxOf_getElem]

theorem fromSource_nodup (hnodup : heights.Nodup) : (fromSource heights).Nodup := by
  unfold fromSource
  split
  · exact hnodup.filter _
  · exact hnodup

/-- The parts that scale from the source make their rungs, and what the lower ones start from. -/
theorem sourcePart_outputs_perm (hnodup : heights.Nodup) :
    ((fromSource heights).flatMap fun height => (sourcePart heights height).outputs).Perm
      ((fromSource heights).map (rungLabel heights) ++ (fromAnchor heights).map .anchor) := by
  by_cases hanchor : fromAnchor heights = []
  · have hsingle : ((fromSource heights).flatMap fun height =>
        (sourcePart heights height).outputs) = (fromSource heights).map (rungLabel heights) := by
      rw [List.map_eq_flatMap]
      refine List.flatMap_congr fun height _ => ?_
      rw [sourcePart, if_neg (fun h => h.2 hanchor)]
      rfl
    rw [hsingle, hanchor, List.map_nil, List.append_nil]
  · obtain ⟨height, hheight⟩ := List.exists_mem_of_ne_nil _ hanchor
    have hmem := cascadeFrom_mem_fromSource (mem_of_mem_fromAnchor hheight).1
    have hsplit := flatMap_singleton_or_perm (rungLabel heights)
      ((fromAnchor heights).map .anchor) (fromSource_nodup hnodup) hmem
    have houtputs : ∀ height ∈ fromSource heights, (sourcePart heights height).outputs =
        if height = cascadeFrom then rungLabel heights height :: (fromAnchor heights).map .anchor
        else [rungLabel heights height] := by
      intro height _
      unfold sourcePart
      by_cases hsame : height = cascadeFrom
      · rw [if_pos ⟨hsame, hanchor⟩, if_pos hsame]
        rfl
      · rw [if_neg (fun h => hsame h.1), if_neg hsame]
        rfl
    rwa [List.flatMap_congr houtputs]

theorem outputs_ladderGraph : (ladderGraph heights maxFps hdr rateFilters).flatMap (·.outputs) =
    (fromSource heights).map .source ++
      ((fromSource heights).flatMap fun height => (sourcePart heights height).outputs) ++
      (fromAnchor heights).map (rungLabel heights) := by
  unfold ladderGraph
  rw [List.flatMap_append, List.flatMap_append, List.flatMap_singleton, List.flatMap_map,
    List.flatMap_map, List.map_eq_flatMap (f := rungLabel heights)]
  rfl

theorem inputs_ladderGraph : (ladderGraph heights maxFps hdr rateFilters).map (·.input) =
    .video :: ((fromSource heights).map .source ++ (fromAnchor heights).map .anchor) := by
  unfold ladderGraph
  rw [List.map_append, List.map_append, List.map_map, List.map_map]
  have hinputs : ((fun part : GraphPart => part.input) ∘ sourcePart heights) = .source :=
    funext (input_sourcePart heights)
  rw [hinputs]
  rfl

/-- What the parts and the maps consume is the source and what the parts produce. -/
theorem ladderGraph_linked (maxFps : ℕ) (hdr : Bool) (rateFilters : Option (List VideoFilter))
    (hnodup : heights.Nodup) :
    ((ladderGraph heights maxFps hdr rateFilters).map GraphPart.input ++
      (List.range heights.length).map GraphLabel.out).Perm
    (GraphLabel.video ::
      (ladderGraph heights maxFps hdr rateFilters).flatMap GraphPart.outputs) := by
  rw [inputs_ladderGraph, outputs_ladderGraph, List.cons_append, ← map_rungLabel hnodup]
  refine List.Perm.cons _ ?_
  rw [List.append_assoc, List.append_assoc]
  refine List.Perm.append_left _ ?_
  have hrungs : (heights.map (rungLabel heights)).Perm
      ((fromSource heights).map (rungLabel heights) ++
        (fromAnchor heights).map (rungLabel heights)) := by
    rw [← List.map_append]
    exact ((fromSource_append_fromAnchor_perm heights).map _).symm
  have hsources : ((fromAnchor heights).map GraphLabel.anchor ++
        (fromSource heights).map (rungLabel heights)).Perm
      ((fromSource heights).flatMap fun height => (sourcePart heights height).outputs) :=
    List.perm_append_comm.trans (sourcePart_outputs_perm hnodup).symm
  refine (hrungs.append_left _).trans ?_
  rw [← List.append_assoc]
  exact hsources.append_right _

/-- No label is consumed twice. -/
theorem ladderGraph_consumed (maxFps : ℕ) (hdr : Bool) (rateFilters : Option (List VideoFilter))
    (hnodup : heights.Nodup) :
    ((ladderGraph heights maxFps hdr rateFilters).map (·.input) ++
      (List.range heights.length).map GraphLabel.out).Nodup := by
  have hanchors : (fromAnchor heights).Nodup := by
    unfold fromAnchor
    split
    · exact hnodup.filter _
    · exact List.nodup_nil
  rw [inputs_ladderGraph, List.cons_append, List.append_assoc]
  refine List.nodup_cons.mpr
    ⟨by simp, List.nodup_append.mpr ⟨?_, List.nodup_append.mpr ⟨?_, ?_, ?_⟩, ?_⟩⟩
  · exact (fromSource_nodup hnodup).map fun _ _ => GraphLabel.source.inj
  · exact hanchors.map fun _ _ => GraphLabel.anchor.inj
  · exact List.nodup_range.map fun _ _ => GraphLabel.out.inj
  · simp
  · rintro label hsource other hother rfl
    obtain ⟨height, -, rfl⟩ := List.mem_map.mp hsource
    simp at hother

/-- The parts of the graph. -/
theorem mem_ladderGraph {part : GraphPart}
    (hpart : part ∈ ladderGraph heights maxFps hdr rateFilters) :
    part = ⟨.video, rateFilters.getD [.capRate maxFps] ++ sdrFilters hdr, true,
        (fromSource heights).map .source⟩ ∨
      (∃ height ∈ fromSource heights, part = sourcePart heights height) ∨
      ∃ height ∈ fromAnchor heights,
        part = ⟨.anchor height, [.scaleTo height], false, [rungLabel heights height]⟩ := by
  unfold ladderGraph at hpart
  rw [List.mem_append, List.mem_append, List.mem_singleton, List.mem_map, List.mem_map] at hpart
  rcases hpart with (hhead | ⟨height, hheight, rfl⟩) | ⟨height, hheight, rfl⟩
  · exact Or.inl hhead
  · exact Or.inr (Or.inl ⟨height, hheight, rfl⟩)
  · exact Or.inr (Or.inr ⟨height, hheight, rfl⟩)

/-- Rung `k` is made by a part that only scales, to the `k`-th height. -/
theorem ladderGraph_scaled (hnodup : heights.Nodup) {k height : ℕ}
    (hheight : heights[k]? = some height) :
    ∃ part ∈ ladderGraph heights maxFps hdr rateFilters,
      .out k ∈ part.outputs ∧ part.filters = [.scaleTo height] := by
  obtain ⟨hk, rfl⟩ := List.getElem?_eq_some_iff.mp hheight
  have hindex : heights.idxOf heights[k] = k := hnodup.idxOf_getElem k hk
  rcases fromSource_or_fromAnchor (List.getElem_mem hk) with hsource | hanchor
  · refine ⟨sourcePart heights heights[k], ?_, ?_, ?_⟩
    · unfold ladderGraph
      exact List.mem_append_left _ (List.mem_append_right _ (List.mem_map_of_mem hsource))
    · have hout := out_mem_sourcePart heights heights[k]
      rwa [hindex] at hout
    · unfold sourcePart
      split <;> rfl
  · refine ⟨_, List.mem_append_right _ (List.mem_map_of_mem hanchor), ?_, rfl⟩
    rw [hindex]
    exact List.mem_singleton_self _

/-- There is a rung to scale from the source. -/
theorem fromSource_ne_nil (hne : heights ≠ []) : fromSource heights ≠ [] := by
  intro hnone
  have hperm := fromSource_append_fromAnchor_perm heights
  by_cases hanchor : fromAnchor heights = []
  · rw [hnone, hanchor] at hperm
    exact hne hperm.symm.eq_nil
  · obtain ⟨height, hheight⟩ := List.exists_mem_of_ne_nil _ hanchor
    have hmem := cascadeFrom_mem_fromSource (mem_of_mem_fromAnchor hheight).1
    rw [hnone] at hmem
    cases hmem

/-- The first part caps the rate and splits; every other one scales, and splits or makes one rung.
-/
theorem ladderGraph_cases (hne : heights ≠ []) {part : GraphPart}
    (hpart : part ∈ ladderGraph heights maxFps hdr rateFilters) :
    part.outputs ≠ [] ∧
      (part.split = true ∧ part.filters = rateFilters.getD [.capRate maxFps] ++ sdrFilters hdr ∨
        ∃ height, part.filters = [.scaleTo height] ∧
          (part.split = true ∨ part.split = false ∧ part.outputs.length = 1)) := by
  rcases mem_ladderGraph hpart with rfl | ⟨height, -, rfl⟩ | ⟨height, -, rfl⟩
  · exact ⟨by simpa using fromSource_ne_nil hne, Or.inl ⟨rfl, rfl⟩⟩
  · unfold sourcePart
    split
    · exact ⟨by simp, Or.inr ⟨height, rfl, Or.inl rfl⟩⟩
    · exact ⟨by simp, Or.inr ⟨height, rfl, Or.inr ⟨rfl, rfl⟩⟩⟩
  · exact ⟨by simp, Or.inr ⟨height, rfl, Or.inr ⟨rfl, rfl⟩⟩⟩

end

/-! ## The text of the graph -/

/-- Every link of a graph is produced once, and consumed once: the source by the first part, any
other one by a part or a map.  A part splits, last, into as many links as follow, or it scales
into one. -/
structure GraphLinked (graph : List ReadPart) (maps : List String) : Prop where
  produced : (graph.flatMap (·.outputs)).Nodup
  consumed : (graph.flatMap (·.inputs) ++ maps).Nodup
  linked : (graph.flatMap (·.inputs) ++ maps).Perm ("[0:v]" :: graph.flatMap (·.outputs))
  split : ∀ part ∈ graph, part.outputs ≠ [] ∧
    (part.filters.getLast? = some s!"split={part.outputs.length}" ∨
      part.outputs.length = 1 ∧ ∃ height : ℕ, part.filters = [s!"scale=-2:{height}"])

/-- Rung `k` comes out of a part that only scales, to the `k`-th height, and may split then. -/
def RungsScaled (heights : List ℕ) (graph : List ReadPart) : Prop :=
  ∀ k height : ℕ, heights[k]? = some height → ∃ part ∈ graph, s!"[v{k}out]" ∈ part.outputs ∧
    (part.filters = [s!"scale=-2:{height}"] ∨
      part.filters = [s!"scale=-2:{height}", s!"split={part.outputs.length}"])

section

variable {numbers : NumberTexts} {heights : List ℕ} {maxFps : ℕ} {hdr : Bool}
  {rateFilters : Option (List VideoFilter)}

/-- What replaces the rate cap names no link. -/
def RatesPlain (numbers : NumberTexts) (rateFilters : Option (List VideoFilter)) : Prop :=
  ∀ filters ∈ rateFilters, ∀ filter ∈ filters, Unlinked (filter.text numbers).toList

theorem unlinked_scaleTo (height : ℕ) :
    Unlinked ((VideoFilter.scaleTo height).text numbers).toList := by
  show Unlinked ("scale=-2:" ++ toString height).toList
  rw [String.toList_append, unlinked_append]
  exact ⟨by decide, unlinked_nat height⟩

theorem unlinked_head (hrates : RatesPlain numbers rateFilters) :
    ∀ filter ∈ rateFilters.getD [.capRate maxFps] ++ sdrFilters hdr,
      Unlinked (filter.text numbers).toList := by
  intro filter hfilter
  rcases List.mem_append.mp hfilter with hrate | hsdr
  · cases rateFilters with
    | none =>
        obtain rfl := List.mem_singleton.mp hrate
        show Unlinked ("fps=fps=min(" ++ toString maxFps ++ "\\,source_fps)").toList
        rw [String.toList_append, String.toList_append, unlinked_append, unlinked_append]
        exact ⟨⟨by decide, unlinked_nat maxFps⟩, by decide⟩
    | some filters => exact hrates filters rfl filter hrate
  · -- These texts have no number in them.
    have hfixed : ∀ filter ∈ [VideoFilter.toneMap, VideoFilter.pixels],
        Unlinked (filter.text numbers).toList := by
      refine List.forall_mem_cons.mpr ⟨?_, List.forall_mem_singleton.mpr ?_⟩
      · exact (by decide +kernel :
          Unlinked (VideoFilter.toneMap.text ⟨fun _ => "", fun _ => ""⟩).toList)
      · exact (by decide +kernel :
          Unlinked (VideoFilter.pixels.text ⟨fun _ => "", fun _ => ""⟩).toList)
    refine hfixed filter ?_
    cases hdr
    · exact List.mem_cons_of_mem _ hsdr
    · exact hsdr

theorem unlinked_split (count : ℕ) : Unlinked s!"split={count}".toList := by
  show Unlinked ("split=" ++ toString count).toList
  rw [String.toList_append, unlinked_append]
  exact ⟨by decide, unlinked_nat count⟩

/-- A part that splits does so after its filters. -/
theorem chain_of_split {part : GraphPart} (hsplit : part.split = true)
    (hfilters : part.filters ≠ []) : part.chain numbers =
      ",".intercalate (part.filters.map (·.text numbers)) ++ String.singleton ',' ++
        s!"split={part.outputs.length}" := by
  have hchain := String.intercalate_append_of_ne_nil (s := ",")
    (l := part.filters.map (·.text numbers)) (m := [s!"split={part.outputs.length}"])
    (by simpa using hfilters) (by simp)
  rw [GraphPart.chain, if_pos hsplit, hchain, String.intercalate_singleton]
  rfl

theorem chain_of_scale {part : GraphPart} {height : ℕ} (hsplit : part.split = false)
    (hfilters : part.filters = [.scaleTo height]) :
    part.chain numbers = s!"scale=-2:{height}" := by
  rw [GraphPart.chain, hsplit, hfilters]
  exact String.intercalate_singleton

theorem filters_ne_nil {part : GraphPart} (hne : heights ≠ [])
    (hpart : part ∈ ladderGraph heights maxFps hdr rateFilters) : part.filters ≠ [] := by
  rcases (ladderGraph_cases hne hpart).2 with ⟨-, hfilters⟩ | ⟨height, hfilters, -⟩
  · rw [hfilters]
    cases hdr <;> simp [sdrFilters]
  · simp [hfilters]

/-- The parts of a ladder's graph are read as they are. -/
theorem ladderGraph_plain (hne : heights ≠ []) (hrates : RatesPlain numbers rateFilters) :
    ∀ part ∈ ladderGraph heights maxFps hdr rateFilters, part.Plain numbers := by
  intro part hpart
  obtain ⟨houtputs, hcases⟩ := ladderGraph_cases hne hpart
  have hfilters : ∀ filter ∈ part.filters, Unlinked (filter.text numbers).toList := by
    rcases hcases with ⟨-, hfilters⟩ | ⟨height, hfilters, -⟩
    · rw [hfilters]
      exact unlinked_head hrates
    · rw [hfilters]
      exact List.forall_mem_singleton.mpr (unlinked_scaleTo height)
  refine ⟨unlinked_intercalate fun text htext => ?_, fun hempty => ?_, houtputs⟩
  · rcases List.mem_append.mp htext with hfilter | hsplit
    · obtain ⟨filter, hmem, rfl⟩ := List.mem_map.mp hfilter
      exact hfilters filter hmem
    · split at hsplit
      · exact List.mem_singleton.mp hsplit ▸ unlinked_split _
      · cases hsplit
  · have hsome : part.chain numbers ≠ "" := by
      cases hsplit : part.split with
      | true =>
          rw [chain_of_split hsplit (filters_ne_nil hne hpart)]
          intro heq
          have hlist := congrArg String.toList heq
          simp at hlist
      | false =>
          rcases hcases with ⟨htrue, -⟩ | ⟨height, hscale, -⟩
          · rw [htrue] at hsplit
            cases hsplit
          · rw [chain_of_scale hsplit hscale]
            intro heq
            have hlist := congrArg String.toList heq
            simp at hlist
    exact hsome hempty

theorem comma_not_mem_scale (height : ℕ) : ',' ∉ s!"scale=-2:{height}".toList := by
  show ',' ∉ ("scale=-2:" ++ toString height).toList
  rw [String.toList_append, List.mem_append, not_or]
  exact ⟨by decide, not_mem_repr (by decide) _⟩

theorem comma_not_mem_split (count : ℕ) : ',' ∉ s!"split={count}".toList := by
  show ',' ∉ ("split=" ++ toString count).toList
  rw [String.toList_append, List.mem_append, not_or]
  exact ⟨by decide, not_mem_repr (by decide) _⟩

/-- The last filter of a part that splits. -/
theorem getLast?_filters {part : GraphPart} (hsplit : part.split = true)
    (hfilters : part.filters ≠ []) :
    (part.read numbers).filters.getLast? = some s!"split={part.outputs.length}" := by
  show (splitText ',' (part.chain numbers)).getLast? = _
  rw [chain_of_split hsplit hfilters, splitText_append,
    splitText_of_not_mem (comma_not_mem_split _), List.getLast?_concat]

/-- The filters of a part that scales. -/
theorem filters_of_scale {part : GraphPart} {height : ℕ}
    (hfilters : part.filters = [.scaleTo height]) :
    (part.read numbers).filters = [s!"scale=-2:{height}"] ∨
      (part.read numbers).filters =
        [s!"scale=-2:{height}", s!"split={part.outputs.length}"] := by
  have hscale : splitText ',' s!"scale=-2:{height}" = [s!"scale=-2:{height}"] :=
    splitText_of_not_mem (comma_not_mem_scale height)
  show splitText ',' (part.chain numbers) = _ ∨ splitText ',' (part.chain numbers) = _
  cases hsplit : part.split with
  | false => exact Or.inl (chain_of_scale hsplit hfilters ▸ hscale)
  | true =>
      right
      have hchain : ",".intercalate (part.filters.map (·.text numbers)) =
          s!"scale=-2:{height}" := by
        rw [hfilters]
        exact String.intercalate_singleton
      rw [chain_of_split hsplit (by simp [hfilters]), hchain, splitText_append, hscale,
        splitText_of_not_mem (comma_not_mem_split _)]
      rfl

/-- The graph of a ladder is linked, whatever replaces its rate cap. -/
theorem graphLinked_ladderFilter (maxFps : ℕ) (hdr : Bool) (hnodup : heights.Nodup)
    (hne : heights ≠ []) (hrates : RatesPlain numbers rateFilters) :
    GraphLinked (readGraph (ladderFilter numbers heights maxFps hdr rateFilters))
        ((List.range heights.length).map fun k => s!"[v{k}out]") ∧
      RungsScaled heights (readGraph (ladderFilter numbers heights maxFps hdr rateFilters)) := by
  have hread : readGraph (ladderFilter numbers heights maxFps hdr rateFilters) =
      (ladderGraph heights maxFps hdr rateFilters).map (·.read numbers) :=
    readGraph_text (by simp [ladderGraph]) (ladderGraph_plain hne hrates)
  have hlinked := ladderGraph_linked maxFps hdr rateFilters hnodup
  have hconsumed := ladderGraph_consumed maxFps hdr rateFilters hnodup
  have hmaps : ((List.range heights.length).map fun k => s!"[v{k}out]") =
      ((List.range heights.length).map GraphLabel.out).map GraphLabel.text := by
    rw [List.map_map]
    rfl
  have hinputs : ((ladderGraph heights maxFps hdr rateFilters).map (·.read numbers)).flatMap
      (·.inputs) = ((ladderGraph heights maxFps hdr rateFilters).map (·.input)).map
        GraphLabel.text := by
    rw [List.flatMap_map, List.map_map, List.map_eq_flatMap]
    rfl
  have houtputs : ((ladderGraph heights maxFps hdr rateFilters).map (·.read numbers)).flatMap
      (·.outputs) = ((ladderGraph heights maxFps hdr rateFilters).flatMap (·.outputs)).map
        GraphLabel.text := by
    rw [List.flatMap_map, List.map_flatMap]
    rfl
  rw [hread, hmaps]
  -- Links and texts correspond one to one, so that the counts are those of the graph itself.
  refine ⟨⟨?_, ?_, ?_, fun part hpart => ?_⟩, fun k height hheight => ?_⟩
  · rw [houtputs]
    exact (List.nodup_cons.mp (hlinked.nodup_iff.mp hconsumed)).2.map text_injective
  · rw [hinputs, ← List.map_append]
    exact hconsumed.map text_injective
  · rw [hinputs, houtputs, ← List.map_append]
    exact hlinked.map GraphLabel.text
  · obtain ⟨part, hmem, rfl⟩ := List.mem_map.mp hpart
    obtain ⟨hsome, hcases⟩ := ladderGraph_cases hne hmem
    have hlength : (part.read numbers).outputs.length = part.outputs.length :=
      List.length_map _
    refine ⟨by simpa [GraphPart.read] using hsome, ?_⟩
    rw [hlength]
    cases hsplit : part.split with
    | true => exact Or.inl (getLast?_filters hsplit (filters_ne_nil hne hmem))
    | false =>
        rcases hcases with ⟨htrue, -⟩ | ⟨height, hscale, htrue | ⟨-, hone⟩⟩
        · exact absurd (hsplit ▸ htrue) Bool.false_ne_true
        · exact absurd (hsplit ▸ htrue) Bool.false_ne_true
        · refine Or.inr ⟨hone, height, ?_⟩
          show splitText ',' (part.chain numbers) = _
          rw [chain_of_scale hsplit hscale, splitText_of_not_mem (comma_not_mem_scale height)]
  · obtain ⟨part, hpart, hout, hscale⟩ := ladderGraph_scaled hnodup hheight
    have hlength : (part.read numbers).outputs.length = part.outputs.length :=
      List.length_map _
    refine ⟨part.read numbers, List.mem_map_of_mem hpart, List.mem_map_of_mem hout, ?_⟩
    rw [hlength]
    exact filters_of_scale hscale

end

end Worker
end MediaPlayer
