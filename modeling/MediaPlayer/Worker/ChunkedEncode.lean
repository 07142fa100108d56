import MediaPlayer.Library.Resample
import MediaPlayer.Worker.ChunkedFrameStarts

/-!
# The pieced MP4 encode against the single encode

The plan `ChunkedMp4.encode` builds (`app/worker/chunked.py`) and what FFmpeg
makes of it.  A source is its video frames, in any order, each with a timestamp
in whole units of a time base.

FFmpeg is not in the repository.  Its rate filter is `fpsFilter`: on every output
tick from the first input frame's to the last's it emits the latest input frame
that rounds to that tick or before it.  A piece is fed the frames at or after its
start, puts each back on its own timestamp with
`setpts=PTS-STARTPTS+start_ticks[i]`, runs the filter, and stops after
`frames[i]` outputs, a count of zero meaning "to the end".

`pieced_encode_eq_single_encode` says that the pieces, joined in order, are the
frames the single encode of the whole source picks.
-/

namespace MediaPlayer
namespace Worker

open Library

/-- A video frame: its timestamp in time base units, and what it shows. -/
structure Frame (α : Type*) where
  tick : ℤ
  picture : α
  deriving DecidableEq

namespace Frame

variable {α : Type*}

/-- The frame's time in seconds. -/
def seconds (timeBase : ℚ) (f : Frame α) : ℚ := f.tick * timeBase

/-- The output frame the rate filter rounds the frame to. -/
def outputTick (timeBase rate : ℚ) (f : Frame α) : ℤ :=
  Worker.outputTick (f.seconds timeBase) rate

end Frame

/-- `PiecePlan`: everything a helper needs to encode a piece exactly as the
coordinator would.  The source keeps `starts` in seconds as floats and the rate
as the text "numerator/denominator"; both are exact here. -/
structure PiecePlan where
  jobId : ℕ
  sourceKey : String
  starts : List ℚ
  maxFps : ℕ
  hdr : Bool
  maxHeight : ℕ
  preset : String
  crf : ℕ
  outputRate : Option ℚ := none
  startTicks : List ℤ := []
  frames : List ℤ := []
  deriving DecidableEq

namespace PiecePlan

/-- Planned with exact timestamps: pieces round as one encode does. -/
def exact (plan : PiecePlan) : Bool :=
  plan.outputRate.isSome && !plan.startTicks.isEmpty && !plan.frames.isEmpty

def count (plan : PiecePlan) : ℕ := plan.starts.length

end PiecePlan

/-- What the coordinator puts into every plan beside the cuts: the job, its
source and the settings of the encode. -/
structure EncodeSettings where
  jobId : ℕ
  sourceKey : String
  maxFps : ℕ
  hdr : Bool
  maxHeight : ℕ
  preset : String
  crf : ℕ

/-- The rate the encode writes: the source's, or `max_fps` if lower. -/
def encodeRate (maxFps : ℕ) (sourceRate : ℚ) : ℚ := min (maxFps : ℚ) sourceRate

/-- How many output frames each piece writes; the last runs to the end (0). -/
def pieceFrames (starts : List ℚ) (rate : ℚ) : List ℤ :=
  (starts.zip starts.tail).map (fun (start, after) => outputTick after rate - outputTick start rate)
    ++ [0]

/-- `int(fraction)`: the whole part, toward zero. -/
def wholePart (q : ℚ) : ℤ := q.num.tdiv q.den

theorem wholePart_intCast (n : ℤ) : wholePart n = n := by
  simp [wholePart]

/-- The plan for the given starts. -/
def planOf (settings : EncodeSettings) (timeBase rate : ℚ) (starts : List ℚ) : PiecePlan where
  jobId := settings.jobId
  sourceKey := settings.sourceKey
  starts := starts
  maxFps := settings.maxFps
  hdr := settings.hdr
  maxHeight := settings.maxHeight
  preset := settings.preset
  crf := settings.crf
  outputRate := some rate
  startTicks := starts.map fun start => wholePart (start / timeBase)
  frames := pieceFrames starts rate

/-- The plan `ChunkedMp4.encode` opens its board with; `none` when it answers
False and the caller encodes the source in one run. -/
def encodePlan (settings : EncodeSettings) (ticks : List ℤ) (timeBase sourceRate : ℚ)
    (chunkSeconds : ℕ) : Option PiecePlan :=
  let times := ticks.map fun tick : ℤ => (tick : ℚ) * timeBase
  let rate := encodeRate settings.maxFps sourceRate
  (frameStarts times chunkSeconds (some rate)).bind fun starts =>
    if starts.length < 2 then none else some (planOf settings timeBase rate starts)

/-- Every plan a board is opened with is exact, so a piece never takes the branch of
`piece_command` that works in seconds. -/
theorem encodePlan_exact {settings : EncodeSettings} {ticks : List ℤ} {timeBase sourceRate : ℚ}
    {chunkSeconds : ℕ} {plan : PiecePlan}
    (hplan : encodePlan settings ticks timeBase sourceRate chunkSeconds = some plan) :
    plan.exact = true := by
  simp only [encodePlan, Option.bind_eq_some_iff] at hplan
  obtain ⟨starts, -, hplan⟩ := hplan
  by_cases hshort : starts.length < 2
  · simp [hshort] at hplan
  · rw [if_neg hshort] at hplan
    obtain rfl := Option.some.inj hplan
    have hne : starts ≠ [] := by
      rintro rfl
      simp at hshort
    simp [planOf, PiecePlan.exact, pieceFrames, hne]

/-! ## FFmpeg's side -/

section FFmpeg

variable {α : Type*}

/-- The frames in presentation order. -/
def presented (frames : List (Frame α)) : List (Frame α) :=
  frames.insertionSort fun a b => a.tick ≤ b.tick

/-- FFmpeg's rate filter: the frames it emits for the given input. -/
def fpsFilter (timeBase rate : ℚ) (input : List (Frame α)) : List (Frame α) :=
  resample (Frame.outputTick timeBase rate) input

/-- `setpts=PTS-STARTPTS+start_ticks[i]`: the clock restarts at the first frame
and is then moved on by a fixed number of time base units. -/
def setpts (startTick : ℤ) (input : List (Frame α)) : List (Frame α) :=
  match input.head? with
  | none => []
  | some first => input.map fun f => { f with tick := f.tick - first.tick + startTick }

/-- The frames FFmpeg reads for a piece: those at or after its start. -/
def fedFrom (timeBase start : ℚ) (frames : List (Frame α)) : List (Frame α) :=
  (presented frames).filter fun f => start ≤ f.seconds timeBase

/-- The source frames piece `index` of an exact plan picks: `piece_command`'s
filters, ended by `-frames:v` if the count is not zero. -/
def pieceEncode (plan : PiecePlan) (timeBase : ℚ) (frames : List (Frame α)) (index : ℕ) :
    List (Frame α) :=
  let picked := fpsFilter timeBase (plan.outputRate.getD 0)
    (setpts (plan.startTicks.getD index 0) (fedFrom timeBase (plan.starts.getD index 0) frames))
  if plan.frames.getD index 0 = 0 then picked
  else picked.take (plan.frames.getD index 0).toNat

/-- The pieces of a plan, joined in order. -/
def piecedEncode (plan : PiecePlan) (timeBase : ℚ) (frames : List (Frame α)) : List (Frame α) :=
  (List.range plan.count).flatMap (pieceEncode plan timeBase frames)

/-- The source frames one encode of the whole source picks. -/
def singleEncode (timeBase rate : ℚ) (frames : List (Frame α)) : List (Frame α) :=
  fpsFilter timeBase rate (presented frames)

end FFmpeg

/-! ## Joined pieces and the single encode -/

section Joined

variable {α : Type*} {timeBase rate : ℚ}

theorem presented_pairwise (frames : List (Frame α)) :
    (presented frames).Pairwise fun a b => a.tick ≤ b.tick :=
  List.pairwise_insertionSort (fun a b : Frame α => a.tick ≤ b.tick) frames

theorem mem_presented {frames : List (Frame α)} {f : Frame α} :
    f ∈ presented frames ↔ f ∈ frames :=
  (List.perm_insertionSort _ frames).mem_iff

theorem seconds_mono (htb : 0 ≤ timeBase) {f g : Frame α} (hfg : f.tick ≤ g.tick) :
    f.seconds timeBase ≤ g.seconds timeBase :=
  mul_le_mul_of_nonneg_right (by exact_mod_cast hfg) htb

theorem seconds_injective (htb : 0 < timeBase) {f g : Frame α}
    (hfg : f.seconds timeBase = g.seconds timeBase) : f.tick = g.tick := by
  have := mul_right_cancel₀ htb.ne' hfg
  exact_mod_cast this

/-- The frames of a source in the order of their times are in presentation order. -/
theorem sortedTimes_eq (htb : 0 < timeBase) (frames : List (Frame α)) :
    sortedTimes (frames.map (Frame.seconds timeBase)) =
      (presented frames).map (Frame.seconds timeBase) := by
  apply List.Perm.eq_of_pairwise' (r := (· ≤ ·)) (sortedTimes_pairwise _)
  · rw [List.pairwise_map]
    exact (presented_pairwise frames).imp fun hle => seconds_mono htb.le hle
  · exact (List.perm_insertionSort _ _).trans ((List.perm_insertionSort _ frames).symm.map _)

/-- A piece that starts on a frame of the source is fed that frame first. -/
theorem head?_fedFrom (htb : 0 < timeBase) {frames : List (Frame α)} {f : Frame α}
    (hf : f ∈ frames) :
    ∃ first rest, fedFrom timeBase (f.seconds timeBase) frames = first :: rest ∧
      first.tick = f.tick := by
  have hin : f ∈ fedFrom timeBase (f.seconds timeBase) frames := by
    simp [fedFrom, mem_presented, hf]
  obtain ⟨first, rest, hfed⟩ := List.exists_cons_of_ne_nil (List.ne_nil_of_mem hin)
  refine ⟨first, rest, hfed, ?_⟩
  have hsorted : (first :: rest).Pairwise fun a b => a.tick ≤ b.tick := by
    rw [← hfed]
    exact (presented_pairwise frames).filter _
  have hle : first.tick ≤ f.tick := by
    rw [hfed] at hin
    rcases List.mem_cons.mp hin with h | h
    · rw [h]
    · exact List.rel_of_pairwise_cons hsorted h
  have hge : f.seconds timeBase ≤ first.seconds timeBase := by
    have hmem : first ∈ fedFrom timeBase (f.seconds timeBase) frames := by simp [hfed]
    simpa using (List.mem_filter.mp hmem).2
  exact seconds_injective htb (le_antisymm (seconds_mono htb.le hle) hge)

/-- Put back on the first frame's own timestamp, every frame has its own. -/
theorem setpts_eq_self (first : Frame α) (rest : List (Frame α)) :
    setpts first.tick (first :: rest) = first :: rest := by
  simp [setpts]

/-- A start of the plan is the time of a frame, so its tick is exactly that frame's. -/
theorem wholePart_seconds_div (htb : 0 < timeBase) (f : Frame α) :
    wholePart (f.seconds timeBase / timeBase) = f.tick := by
  rw [Frame.seconds, mul_div_assoc, div_self htb.ne', mul_one, wholePart_intCast]

/-- The frames fed from a later start are the end of those fed from an earlier one. -/
theorem fedFrom_suffix (htb : 0 ≤ timeBase) (frames : List (Frame α)) {s t : ℚ} (hst : s ≤ t) :
    fedFrom timeBase t frames <:+ fedFrom timeBase s frames := by
  have hfilter : fedFrom timeBase t frames =
      (fedFrom timeBase s frames).filter fun f => t ≤ f.seconds timeBase := by
    unfold fedFrom
    rw [List.filter_filter]
    apply List.filter_congr
    intro f _
    by_cases ht : t ≤ f.seconds timeBase
    · simp [ht, le_trans hst ht]
    · simp [ht]
  rw [hfilter]
  apply filter_le_suffix
  exact ((presented_pairwise frames).filter _).imp fun hle => seconds_mono htb hle

/-- A frame of the source at the given time. -/
def IsFrameTime (timeBase : ℚ) (frames : List (Frame α)) (time : ℚ) : Prop :=
  ∃ f ∈ frames, f.seconds timeBase = time

theorem pieceFrames_cons_cons (a b : ℚ) (rest : List ℚ) :
    pieceFrames (a :: b :: rest) rate =
      (outputTick b rate - outputTick a rate) :: pieceFrames (b :: rest) rate := by
  simp [pieceFrames]

/-- Later pieces do not depend on the starts before their own. -/
theorem pieceEncode_succ (settings : EncodeSettings) (frames : List (Frame α)) (a b : ℚ)
    (rest : List ℚ) (i : ℕ) :
    pieceEncode (planOf settings timeBase rate (a :: b :: rest)) timeBase frames (i + 1) =
      pieceEncode (planOf settings timeBase rate (b :: rest)) timeBase frames i := by
  simp only [pieceEncode, planOf, pieceFrames_cons_cons, List.map_cons, List.getD_cons_succ]

/-- What the first piece's filter emits: the frames fed, on their own timestamps. -/
theorem fpsFilter_setpts (rate : ℚ) (htb : 0 < timeBase) {frames : List (Frame α)} {a : ℚ}
    (ha : IsFrameTime timeBase frames a) :
    fpsFilter timeBase rate (setpts (wholePart (a / timeBase)) (fedFrom timeBase a frames)) =
      resample (Frame.outputTick timeBase rate) (fedFrom timeBase a frames) := by
  obtain ⟨f, hf, rfl⟩ := ha
  obtain ⟨first, rest, hfed, htick⟩ := head?_fedFrom htb hf
  rw [wholePart_seconds_div htb, hfed, ← htick, setpts_eq_self]
  rfl

/-- The first tick of a piece is its start's. -/
theorem outputTick_head_fedFrom (rate : ℚ) (htb : 0 < timeBase) {frames : List (Frame α)} {a : ℚ}
    (ha : IsFrameTime timeBase frames a) :
    ∃ first rest, fedFrom timeBase a frames = first :: rest ∧
      first.outputTick timeBase rate = outputTick a rate := by
  obtain ⟨f, hf, rfl⟩ := ha
  obtain ⟨first, rest, hfed, htick⟩ := head?_fedFrom htb hf
  exact ⟨first, rest, hfed, by simp [Frame.outputTick, Frame.seconds, htick]⟩

theorem piecedEncode_cons_cons (settings : EncodeSettings) (frames : List (Frame α)) (a b : ℚ)
    (rest : List ℚ) :
    piecedEncode (planOf settings timeBase rate (a :: b :: rest)) timeBase frames =
      pieceEncode (planOf settings timeBase rate (a :: b :: rest)) timeBase frames 0 ++
        piecedEncode (planOf settings timeBase rate (b :: rest)) timeBase frames := by
  show (List.range (rest.length + 1 + 1)).flatMap _ = _
  rw [List.range_succ_eq_map, List.flatMap_cons, List.flatMap_map]
  exact congrArg _ (List.flatMap_congr fun i _ => pieceEncode_succ settings frames a b rest i)

/-- A piece with another after it is stopped where that one begins. -/
theorem pieceEncode_zero (htb : 0 < timeBase) (settings : EncodeSettings)
    {frames : List (Frame α)} {a b : ℚ} {rest : List ℚ} (ha : IsFrameTime timeBase frames a)
    (hlt : outputTick a rate < outputTick b rate) :
    pieceEncode (planOf settings timeBase rate (a :: b :: rest)) timeBase frames 0 =
      (resample (Frame.outputTick timeBase rate) (fedFrom timeBase a frames)).take
        (outputTick b rate - outputTick a rate).toNat := by
  have hcount : outputTick b rate - outputTick a rate ≠ 0 := by omega
  simp only [pieceEncode, planOf, pieceFrames_cons_cons, List.map_cons, List.getD_cons_zero,
    Option.getD_some, if_neg hcount, fpsFilter_setpts rate htb ha]

/-- The pieces of the plan are the resampled ends of the source, each stopped
where the next one begins. -/
theorem piecedEncode_eq_resamplePieces (htb : 0 < timeBase) (settings : EncodeSettings)
    (frames : List (Frame α)) (starts : List ℚ) (hne : starts ≠ [])
    (hframes : ∀ t ∈ starts, IsFrameTime timeBase frames t)
    (hticks : starts.Pairwise fun s t => outputTick s rate < outputTick t rate) :
    piecedEncode (planOf settings timeBase rate starts) timeBase frames =
      resamplePieces (Frame.outputTick timeBase rate)
        (starts.map fun start => fedFrom timeBase start frames) := by
  induction starts with
  | nil => exact absurd rfl hne
  | cons a rest ih =>
      have ha := hframes a (by simp)
      cases rest with
      | nil =>
          -- the last piece: its count is zero, so it is not stopped
          simpa [piecedEncode, pieceEncode, planOf, PiecePlan.count, pieceFrames, resamplePieces]
            using fpsFilter_setpts rate htb ha
      | cons b rest =>
          have hrest := ih (by simp) (fun t ht => hframes t (by simp [ht]))
            (List.pairwise_cons.mp hticks).2
          have hlt : outputTick a rate < outputTick b rate :=
            (List.pairwise_cons.mp hticks).1 b (by simp)
          obtain ⟨first, as, hfa, hta⟩ := outputTick_head_fedFrom rate htb ha
          obtain ⟨second, bs, hfb, htb'⟩ :=
            outputTick_head_fedFrom rate htb (hframes b (by simp))
          simp only [List.map_cons] at hrest ⊢
          rw [piecedEncode_cons_cons, pieceEncode_zero htb settings ha hlt, hrest, hfa, hfb,
            resamplePieces_cons_cons, hta, htb']

/-- The ends of the source the pieces are fed: each within the one before. -/
theorem isChain_fedFrom (htb : 0 < timeBase) (frames : List (Frame α)) {starts : List ℚ}
    (hframes : ∀ t ∈ starts, IsFrameTime timeBase frames t)
    (hordered : starts.Pairwise (· < ·)) :
    (starts.map fun start => fedFrom timeBase start frames).IsChain
      fun u v => v <:+ u ∧ v ≠ [] := by
  rw [List.isChain_map]
  refine List.Pairwise.isChain ?_
  refine List.Pairwise.imp_of_mem ?_ hordered
  intro s t _ ht hst
  obtain ⟨first, rest, hfed, -⟩ := outputTick_head_fedFrom 1 htb (hframes t ht)
  exact ⟨fedFrom_suffix htb.le frames hst.le, by simp [hfed]⟩

/-- The starts are frame times of the source, each beginning its output frame. -/
theorem StartsSpec.frameTimes (hrate : 0 ≤ rate) {frames : List (Frame α)}
    {starts : List ℚ}
    (hspec : StartsSpec (sortedTimes (frames.map (Frame.seconds timeBase))) (some rate) starts) :
    (∀ t ∈ starts, IsFrameTime timeBase frames t) ∧
      starts.Pairwise fun s t => outputTick s rate < outputTick t rate := by
  have hmem : ∀ t ∈ starts, t ∈ sortedTimes (frames.map (Frame.seconds timeBase)) := by
    intro t ht
    obtain ⟨i, hi, -⟩ := hspec.frames t ht
    exact List.mem_of_getElem? hi
  constructor
  · intro t ht
    simpa [IsFrameTime] using mem_sortedTimes.mp (hmem t ht)
  · refine List.Pairwise.imp_of_mem ?_ hspec.ordered
    intro s t hs ht hst
    obtain ⟨i, hi, hsuit⟩ := hspec.frames t ht
    exact outputTick_lt_of_suitable hrate (sortedTimes_pairwise _) hi hsuit (hmem s hs) hst

/-- The earliest frame is presented first. -/
theorem earliest_frame {frames : List (Frame α)} (hne : frames ≠ []) :
    ∃ f rest, presented frames = f :: rest ∧ f ∈ frames ∧ ∀ g ∈ frames, f.tick ≤ g.tick := by
  obtain ⟨f, rest, hpres⟩ : ∃ f rest, presented frames = f :: rest := by
    obtain ⟨g, hg⟩ := List.exists_mem_of_ne_nil _ hne
    exact List.exists_cons_of_ne_nil (List.ne_nil_of_mem (mem_presented.mpr hg))
  refine ⟨f, rest, hpres, mem_presented.mp (by simp [hpres]), fun g hg => ?_⟩
  have hsorted := presented_pairwise frames
  have hin := mem_presented.mpr hg
  rw [hpres] at hsorted hin
  rcases List.mem_cons.mp hin with rfl | h
  · exact le_rfl
  · exact List.rel_of_pairwise_cons hsorted h

/-- The pieces of a plan whose starts are sound, joined in order, are the frames that one
encode of the whole source picks. -/
theorem piecedEncode_of_spec (settings : EncodeSettings) {frames : List (Frame α)}
    (hne : frames ≠ []) (htb : 0 < timeBase) (hrate : 0 ≤ rate) {starts : List ℚ}
    (hspec : StartsSpec (sortedTimes (frames.map (Frame.seconds timeBase))) (some rate) starts) :
    (∃ f ∈ frames, starts.head? = some (f.seconds timeBase) ∧ ∀ g ∈ frames, f.tick ≤ g.tick) ∧
      piecedEncode (planOf settings timeBase rate starts) timeBase frames =
        singleEncode timeBase rate frames := by
  obtain ⟨hframes, hticks⟩ := StartsSpec.frameTimes hrate hspec
  obtain ⟨f, rest, hpres, hf, hearliest⟩ := earliest_frame hne
  have hhead : starts.head? = some (f.seconds timeBase) := by
    rw [hspec.first, sortedTimes_eq htb, hpres]
    rfl
  obtain ⟨more, hcons⟩ : ∃ more, starts = f.seconds timeBase :: more := by
    cases starts with
    | nil => simp at hhead
    | cons a more => exact ⟨more, by simpa using hhead⟩
  have hwhole : fedFrom timeBase (f.seconds timeBase) frames = presented frames := by
    apply List.filter_eq_self.mpr
    intro g hg
    exact decide_eq_true (seconds_mono htb.le (hearliest g (mem_presented.mp hg)))
  refine ⟨⟨f, hf, hhead, hearliest⟩, ?_⟩
  rw [piecedEncode_eq_resamplePieces htb settings frames starts (by simp [hcons]) hframes hticks]
  have hchain := isChain_fedFrom htb frames hframes hspec.ordered
  rw [hcons, List.map_cons] at hchain ⊢
  rw [resamplePieces_eq _ _ ?_ (by simp [hwhole, hpres]) hchain, hwhole]
  · rfl
  · rw [hwhole]
    refine (presented_pairwise frames).imp fun hle => ?_
    exact outputTick_mono hrate (seconds_mono htb.le hle)

/-- A piece with another after it writes as many frames as it is to. -/
theorem length_pieceEncode (htb : 0 < timeBase) (hrate : 0 ≤ rate) (settings : EncodeSettings)
    {frames : List (Frame α)} {starts : List ℚ}
    (hframes : ∀ t ∈ starts, IsFrameTime timeBase frames t)
    (hticks : starts.Pairwise fun s t => outputTick s rate < outputTick t rate) {i : ℕ} {a b : ℚ}
    (ha : starts[i]? = some a) (hb : starts[i + 1]? = some b) :
    ((pieceEncode (planOf settings timeBase rate starts) timeBase frames i).length : ℤ) =
      outputTick b rate - outputTick a rate := by
  induction i generalizing starts with
  | zero =>
      obtain ⟨rest, rfl⟩ : ∃ rest, starts = a :: b :: rest := by
        match starts, ha, hb with
        | _ :: _ :: rest, rfl, rfl => exact ⟨rest, rfl⟩
      have hlt : outputTick a rate < outputTick b rate :=
        (List.pairwise_cons.mp hticks).1 b (by simp)
      obtain ⟨first, rest, hfed, hfirst⟩ :=
        outputTick_head_fedFrom rate htb (hframes a (by simp))
      obtain ⟨g, hg, hgb⟩ := hframes b (by simp)
      have hsorted : (first :: rest).Pairwise fun x y =>
          x.outputTick timeBase rate ≤ y.outputTick timeBase rate := by
        rw [← hfed]
        exact ((presented_pairwise frames).filter _).imp fun hle =>
          outputTick_mono hrate (seconds_mono htb.le hle)
      have hin : g ∈ first :: rest := by
        have hab : a ≤ b := by
          by_contra hba
          exact absurd hlt (not_lt.mpr (outputTick_mono hrate (not_le.mp hba).le))
        rw [← hfed]
        refine List.mem_filter.mpr ⟨mem_presented.mpr hg, ?_⟩
        rw [hgb]
        exact decide_eq_true hab
      have hlast := tick_le_getLast hsorted hin
      have hgTick : g.outputTick timeBase rate = outputTick b rate := by
        rw [← hgb]
        rfl
      rw [pieceEncode_zero htb settings (hframes a (by simp)) hlt, hfed, List.length_take,
        length_resample]
      omega
  | succ i ih =>
      match starts, ha, hb with
      | _ :: c :: rest, ha, hb =>
          rw [pieceEncode_succ]
          exact ih (fun t ht => hframes t (List.mem_cons_of_mem _ ht))
            (List.pairwise_cons.mp hticks).2 ha hb

/-- The ticks of a source, as the coordinator reads them, in seconds. -/
theorem map_tick_seconds (frames : List (Frame α)) :
    (frames.map Frame.tick).map (fun tick : ℤ => (tick : ℚ) * timeBase) =
      frames.map (Frame.seconds timeBase) := by
  rw [List.map_map]
  rfl

/-- Every start is put back on the tick of its own frame. -/
theorem StartsSpec.startTick (htb : 0 < timeBase) (hrate : 0 ≤ rate) {frames : List (Frame α)}
    {starts : List ℚ}
    (hspec : StartsSpec (sortedTimes (frames.map (Frame.seconds timeBase))) (some rate) starts)
    {i : ℕ} {start : ℚ} (hi : starts[i]? = some start) :
    ∃ f ∈ frames, f.seconds timeBase = start ∧
      (starts.map fun start => wholePart (start / timeBase))[i]? = some f.tick := by
  obtain ⟨f, hf, rfl⟩ := (StartsSpec.frameTimes hrate hspec).1 start (List.mem_of_getElem? hi)
  exact ⟨f, hf, rfl, by simp [hi, wholePart_seconds_div htb]⟩

/-- **The pieced encode is the single encode.**  For every source, in whatever
order its frames are read, the starts exist, are strictly increasing and begin
with the earliest frame; `start_ticks` are exactly those frames' ticks; and the
pieces of the plan, joined in order, are the frames one encode of the whole
source picks.  The plan the board is opened with is this one, when there are two
starts or more. -/
theorem pieced_encode_eq_single_encode (settings : EncodeSettings) (frames : List (Frame α))
    (timeBase sourceRate : ℚ) (chunkSeconds : ℕ) (hne : frames ≠ [])
    (hnonneg : ∀ f ∈ frames, 0 ≤ f.tick) (htb : 0 < timeBase) (hsource : 0 < sourceRate)
    (hfps : 0 < settings.maxFps) (hchunk : 0 < chunkSeconds) :
    ∃ starts,
      frameStarts (frames.map (Frame.seconds timeBase)) chunkSeconds
          (some (encodeRate settings.maxFps sourceRate)) = some starts ∧
      encodePlan settings (frames.map Frame.tick) timeBase sourceRate chunkSeconds =
        (if starts.length < 2 then none
          else some (planOf settings timeBase (encodeRate settings.maxFps sourceRate) starts)) ∧
      starts.Pairwise (· < ·) ∧
      (∃ f ∈ frames, starts.head? = some (f.seconds timeBase) ∧ ∀ g ∈ frames, f.tick ≤ g.tick) ∧
      (∀ (i : ℕ) (start : ℚ), starts[i]? = some start → ∃ f ∈ frames, f.seconds timeBase = start ∧
        (planOf settings timeBase (encodeRate settings.maxFps sourceRate) starts).startTicks[i]? =
          some f.tick) ∧
      piecedEncode (planOf settings timeBase (encodeRate settings.maxFps sourceRate) starts)
          timeBase frames =
        singleEncode timeBase (encodeRate settings.maxFps sourceRate) frames := by
  set rate := encodeRate settings.maxFps sourceRate with hrate
  have hratepos : 0 < rate := lt_min (by exact_mod_cast hfps) hsource
  have htimes : frames.map (Frame.seconds timeBase) ≠ [] := by simpa using hne
  have htimes0 : ∀ t ∈ frames.map (Frame.seconds timeBase), 0 ≤ t := by
    intro t ht
    obtain ⟨f, hf, rfl⟩ := List.mem_map.mp ht
    exact mul_nonneg (by exact_mod_cast hnonneg f hf) htb.le
  obtain ⟨starts, hstarts, hspec⟩ := frameStarts_spec htimes htimes0 hchunk (some rate)
  obtain ⟨hhead, hjoined⟩ := piecedEncode_of_spec settings hne htb hratepos.le hspec
  refine ⟨starts, hstarts, ?_, hspec.ordered, hhead, ?_, hjoined⟩
  · simp only [encodePlan, map_tick_seconds, ← hrate, hstarts, Option.bind_some]
  · intro i start hi
    exact hspec.startTick htb hratepos.le hi

end Joined

/-- Five frames at 2 frames per second, read out of order. -/
def halfRateSource : List (Frame Char) := [⟨2, 'c'⟩, ⟨0, 'a'⟩, ⟨1, 'b'⟩, ⟨4, 'e'⟩, ⟨3, 'd'⟩]

def halfRateSettings : EncodeSettings where
  jobId := 1
  sourceKey := "uploads/1/clip.mov"
  maxFps := 1
  hdr := false
  maxHeight := 1080
  preset := "veryfast"
  crf := 23

/-- At one output frame a second the second piece starts on the frame at 1.5 s,
which begins output frame 2, and the two pieces join to the single encode. -/
theorem pieced_encode_halfRateSource :
    encodePlan halfRateSettings (halfRateSource.map Frame.tick) (1 / 2) 2 1 =
        some (planOf halfRateSettings (1 / 2) 1 [0, 3 / 2]) ∧
      piecedEncode (planOf halfRateSettings (1 / 2) 1 [0, 3 / 2]) (1 / 2) halfRateSource =
        [⟨0, 'a'⟩, ⟨2, 'c'⟩, ⟨4, 'e'⟩] := by
  obtain ⟨starts, hstarts, hplan, -, -, -, hjoin⟩ :=
    pieced_encode_eq_single_encode halfRateSettings halfRateSource (1 / 2) 2 1
      (by decide) (by decide) (by norm_num) (by norm_num) (by decide) (by decide)
  have hrate : encodeRate halfRateSettings.maxFps 2 = 1 := by decide +kernel
  have heval : frameStarts (halfRateSource.map (Frame.seconds (1 / 2))) 1 (some 1) =
      some [0, 3 / 2] := by decide +kernel
  rw [hrate, heval, Option.some.injEq] at hstarts
  subst hstarts
  rw [hrate] at hplan hjoin
  exact ⟨hplan, hjoin.trans (by decide +kernel)⟩

end Worker
end MediaPlayer
