import MediaPlayer.Worker.LadderStarts
import MediaPlayer.Worker.PieceAttempts

/-!
# The pieces of a ladder as segments

`LadderPieces.plan` of `app/worker/ladder_pieces.py`, and what FFmpeg makes of a piece of it:
`piece_command` feeds, retimes and stops a piece as the chunked MP4 does, and forces a keyframe
every `SEGMENT_SECONDS` of it.

* `forcedKeyframes` — `-force_key_frames expr:gte(t,n_forced*6)`, evaluated frame by frame.
* `wholeSegments_pieceLength` — as many frames as `segment_aligned_starts` plans end where the
  next keyframe would be forced, at any rate.
* `ladder_pieces_whole_segments` — the pieces joined are the single encode, and each is of
  whole segments.
-/

namespace MediaPlayer
namespace Worker

open Library

/-- What the coordinator puts into every plan beside the cuts. -/
structure LadderSettings where
  jobId : ℕ
  sourceKey : String
  heights : List ℕ
  hdr : Bool
  maxFps : ℕ
  preset : String

/-- The plan for the given starts. -/
def ladderPlanOf (settings : LadderSettings) (timeBase rate : ℚ) (starts : List ℚ) :
    LadderPlan :=
  let first := starts.map fun start => outputTick start rate
  { jobId := settings.jobId
    sourceKey := settings.sourceKey
    heights := settings.heights
    hdr := settings.hdr
    maxFps := settings.maxFps
    preset := settings.preset
    outputRate := rate
    starts := starts
    startTicks := starts.map fun start => wholePart (start / timeBase)
    firstFrames := first
    frames := (first.zip first.tail).map (fun (a, b) => b - a) ++ [0] }

/-- `LadderPieces.plan`: the pieces, or none if this source cannot be cut exactly. -/
def ladderPlan (settings : LadderSettings) (ticks : List ℤ) (timeBase : ℚ)
    (sourceRate : Option ℚ) (pieceSeconds : ℕ) : Option LadderPlan :=
  if ticks = [] then none
  else sourceRate.bind fun sourceRate =>
    let rate := encodeRate settings.maxFps sourceRate
    (segmentAlignedStarts (ticks.map fun tick : ℤ => (tick : ℚ) * timeBase) rate
      pieceSeconds).bind fun starts =>
        if starts.length < 2 then none else some (ladderPlanOf settings timeBase rate starts)

section FFmpeg

variable {α : Type*}

/-- The source frames piece `index` picks: the filters of `piece_command`, ended by `-frames:v`
if the count is not zero. -/
def ladderPieceEncode (plan : LadderPlan) (timeBase : ℚ) (frames : List (Frame α))
    (index : ℕ) : List (Frame α) :=
  let picked := fpsFilter timeBase plan.outputRate
    (setpts (plan.startTicks.getD index 0) (fedFrom timeBase (plan.starts.getD index 0) frames))
  if plan.frames.getD index 0 = 0 then picked
  else picked.take (plan.frames.getD index 0).toNat

/-- The pieces of a plan, joined in order. -/
def ladderPiecedEncode (plan : LadderPlan) (timeBase : ℚ) (frames : List (Frame α)) :
    List (Frame α) :=
  (List.range plan.count).flatMap (ladderPieceEncode plan timeBase frames)

/-- One frame of a piece, at `frame / rate` seconds of it: a keyframe is forced if that is as
many segments on as keyframes were forced before. -/
def forceKeyframe (rate : ℚ) (forced : List ℕ) (frame : ℕ) : List ℕ :=
  if (forced.length * segmentSeconds : ℚ) ≤ frame / rate then forced ++ [frame] else forced

/-- The frames of a piece of so many that start a segment. -/
def forcedKeyframes (rate : ℚ) (count : ℕ) : List ℕ :=
  (List.range count).foldl (forceKeyframe rate) []

end FFmpeg

/-! ## Whole segments -/

theorem forcedKeyframes_succ (rate : ℚ) (count : ℕ) :
    forcedKeyframes rate (count + 1) = forceKeyframe rate (forcedKeyframes rate count) count := by
  unfold forcedKeyframes
  rw [List.range_succ, List.foldl_append]
  rfl

/-- The output frame of a piece that segment `n` starts with. -/
def segmentFrame (rate : ℚ) (n : ℕ) : ℕ := ⌈(n * segmentSeconds : ℚ) * rate⌉₊

/-- A keyframe is due from its segment's first frame on. -/
theorem segmentFrame_le {rate : ℚ} (hrate : 0 < rate) {n frame : ℕ} :
    segmentFrame rate n ≤ frame ↔ (n * segmentSeconds : ℚ) ≤ frame / rate := by
  unfold segmentFrame
  rw [Nat.ceil_le, le_div_iff₀ hrate]

/-- Where a segment's time holds a frame, no two segments start on one. -/
theorem segmentFrame_strictMono {rate : ℚ} (hrate : 1 ≤ segmentSeconds * rate) :
    StrictMono (segmentFrame rate) := by
  refine strictMono_nat_of_lt_succ fun n => ?_
  have hpos : (0 : ℚ) ≤ (n * segmentSeconds : ℚ) * rate := by
    rw [mul_assoc]
    exact mul_nonneg n.cast_nonneg (le_trans zero_le_one hrate)
  have hceil : (segmentFrame rate n : ℚ) < (n * segmentSeconds : ℚ) * rate + 1 :=
    Nat.ceil_lt_add_one hpos
  refine Nat.lt_ceil.mpr (lt_of_lt_of_le hceil ?_)
  push_cast
  linarith

/-- Frame by frame the segments come one after the other, each on its first frame. -/
theorem forcedKeyframes_spec {rate : ℚ} (hpos : 0 < rate) (hrate : 1 ≤ segmentSeconds * rate)
    (count : ℕ) : ∃ n, forcedKeyframes rate count = (List.range n).map (segmentFrame rate) ∧
      (∀ k < n, segmentFrame rate k < count) ∧ count ≤ segmentFrame rate n := by
  induction count with
  | zero => exact ⟨0, rfl, nofun, Nat.zero_le _⟩
  | succ count ih =>
      obtain ⟨n, hforced, hbefore, hnext⟩ := ih
      rw [forcedKeyframes_succ, hforced, forceKeyframe, List.length_map, List.length_range]
      by_cases hdue : segmentFrame rate n ≤ count
      · have hhere : segmentFrame rate n = count := le_antisymm hdue hnext
        refine ⟨n + 1, ?_, fun k hk => ?_, ?_⟩
        · rw [if_pos ((segmentFrame_le hpos).mp hdue), List.range_succ, List.map_append, ← hhere]
          rfl
        · exact Nat.lt_succ_of_le
            (((segmentFrame_strictMono hrate).monotone (Nat.le_of_lt_succ hk)).trans hdue)
        · have hlt : segmentFrame rate n < segmentFrame rate (n + 1) :=
            segmentFrame_strictMono hrate (Nat.lt_succ_self n)
          omega
      · refine ⟨n, ?_, fun k hk => Nat.lt_succ_of_lt (hbefore k hk), ?_⟩
        · rw [if_neg fun hlate => hdue ((segmentFrame_le hpos).mpr hlate)]
        · omega

/-- Where a segment's time holds no more than one frame, every frame is a keyframe. -/
theorem forcedKeyframes_slow {rate : ℚ} (hpos : 0 < rate) (hrate : segmentSeconds * rate ≤ 1)
    (count : ℕ) : forcedKeyframes rate count = List.range count := by
  induction count with
  | zero => rfl
  | succ count ih =>
      have hdue : (count * segmentSeconds : ℚ) ≤ count / rate := by
        rw [le_div_iff₀ hpos, mul_assoc]
        exact mul_le_of_le_one_right count.cast_nonneg hrate
      rw [forcedKeyframes_succ, ih, forceKeyframe, List.length_range, if_pos hdue,
        List.range_succ]

/-- A piece of so many frames is whole segments: `N` of them where a segment's time holds a
frame, each frame one of its own where it does not. -/
structure WholeSegments (rate : ℚ) (pieceSeconds count : ℕ) : Prop where
  length : (count : ℤ) = pieceLength pieceSeconds rate
  keyframes : 1 ≤ segmentSeconds * rate → forcedKeyframes rate count =
    (List.range (pieceSegments pieceSeconds).toNat).map (segmentFrame rate)
  slow : segmentSeconds * rate ≤ 1 → forcedKeyframes rate count = List.range count
  /-- The frame after the piece would be the next keyframe. -/
  noSliver : forcedKeyframes rate (count + 1) = forcedKeyframes rate count ++ [count]

theorem pieceLength_toNat (pieceSeconds : ℕ) (rate : ℚ) : (pieceLength pieceSeconds rate).toNat =
    segmentFrame rate (pieceSegments pieceSeconds).toNat := by
  have hsegments : (((pieceSegments pieceSeconds).toNat : ℤ) : ℚ) =
      (pieceSegments pieceSeconds : ℚ) := by
    rw [Int.toNat_of_nonneg (zero_le_one.trans (pieceSegments_pos pieceSeconds))]
  unfold pieceLength segmentFrame
  rw [Int.ceil_toNat, ← hsegments, Int.cast_natCast]

theorem wholeSegments_pieceLength {rate : ℚ} (hpos : 0 < rate) (pieceSeconds : ℕ) :
    WholeSegments rate pieceSeconds (pieceLength pieceSeconds rate).toNat := by
  have hkeyframes : 1 ≤ segmentSeconds * rate →
      forcedKeyframes rate (pieceLength pieceSeconds rate).toNat =
        (List.range (pieceSegments pieceSeconds).toNat).map (segmentFrame rate) := by
    intro hrate
    rw [pieceLength_toNat]
    obtain ⟨n, hforced, hbefore, hnext⟩ :=
      forcedKeyframes_spec hpos hrate (segmentFrame rate (pieceSegments pieceSeconds).toNat)
    have hle := (segmentFrame_strictMono hrate).le_iff_le.mp hnext
    have hge : n ≤ (pieceSegments pieceSeconds).toNat := by
      by_contra hgt
      exact absurd (hbefore _ (not_le.mp hgt)) (lt_irrefl _)
    rw [hforced, le_antisymm hge hle]
  have hslow : segmentSeconds * rate ≤ 1 →
      forcedKeyframes rate (pieceLength pieceSeconds rate).toNat =
        List.range (pieceLength pieceSeconds rate).toNat := fun hrate =>
    forcedKeyframes_slow hpos hrate _
  refine ⟨Int.toNat_of_nonneg (pieceLength_pos pieceSeconds hpos).le, hkeyframes, hslow, ?_⟩
  rw [forcedKeyframes_succ, forceKeyframe]
  refine if_pos ?_
  rcases le_total 1 (segmentSeconds * rate) with hrate | hrate
  · rw [hkeyframes hrate, List.length_map, List.length_range, ← segmentFrame_le hpos,
      pieceLength_toNat]
  · rw [hslow hrate, List.length_range, le_div_iff₀ hpos, mul_assoc]
    exact mul_le_of_le_one_right (Nat.cast_nonneg _) hrate

/-! ## The ladder's plan and the MP4's -/

section Joined

variable {α : Type*} {timeBase rate : ℚ}

/-- The settings of a chunked MP4 with the same cuts. -/
def LadderSettings.toEncode (settings : LadderSettings) : EncodeSettings where
  jobId := settings.jobId
  sourceKey := settings.sourceKey
  maxFps := settings.maxFps
  hdr := settings.hdr
  maxHeight := 0
  preset := settings.preset
  crf := 0

theorem frames_ladderPlanOf (settings : LadderSettings) (starts : List ℚ) :
    (ladderPlanOf settings timeBase rate starts).frames = pieceFrames starts rate := by
  show ((starts.map fun start => outputTick start rate).zip
    (starts.map fun start => outputTick start rate).tail).map (fun (a, b) => b - a) ++ [0] = _
  unfold pieceFrames
  rw [← List.map_tail, List.zip_map, List.map_map]
  rfl

/-- A piece of the ladder picks what a piece of the chunked MP4 with the same cuts would. -/
theorem ladderPieceEncode_eq (settings : LadderSettings) (frames : List (Frame α))
    (starts : List ℚ) (index : ℕ) :
    ladderPieceEncode (ladderPlanOf settings timeBase rate starts) timeBase frames index =
      pieceEncode (planOf settings.toEncode timeBase rate starts) timeBase frames index := by
  unfold ladderPieceEncode pieceEncode
  rw [frames_ladderPlanOf]
  rfl

theorem ladderPiecedEncode_eq (settings : LadderSettings) (frames : List (Frame α))
    (starts : List ℚ) :
    ladderPiecedEncode (ladderPlanOf settings timeBase rate starts) timeBase frames =
      piecedEncode (planOf settings.toEncode timeBase rate starts) timeBase frames :=
  List.flatMap_congr fun index _ => ladderPieceEncode_eq settings frames starts index

/-- The plan's own count of a piece is the difference of the first frames around it. -/
theorem frames_getElem? (starts : List ℚ) {i : ℕ} {a b : ℚ} (ha : starts[i]? = some a)
    (hb : starts[i + 1]? = some b) :
    (pieceFrames starts rate)[i]? = some (outputTick b rate - outputTick a rate) := by
  induction i generalizing starts with
  | zero =>
      match starts, ha, hb with
      | _ :: _ :: rest, rfl, rfl => rw [pieceFrames_cons_cons, List.getElem?_cons_zero]
  | succ i ih =>
      match starts, ha, hb with
      | _ :: c :: rest, ha, hb =>
          rw [pieceFrames_cons_cons, List.getElem?_cons_succ]
          exact ih (c :: rest) ha hb

/-- What is said of a piece of the plan that has another after it. -/
structure PieceOfSegments (plan : LadderPlan) (timeBase : ℚ) (pieceSeconds : ℕ)
    (frames : List (Frame α)) (i : ℕ) (first after : ℤ) : Prop where
  counted : plan.frames[i]? = some (after - first)
  written : ((ladderPieceEncode plan timeBase frames i).length : ℤ) = after - first
  long : pieceLength pieceSeconds plan.outputRate ≤
    (ladderPieceEncode plan timeBase frames i).length
  whole : EveryTickBegun (frames.map (Frame.seconds timeBase)) plan.outputRate →
    WholeSegments plan.outputRate pieceSeconds (ladderPieceEncode plan timeBase frames i).length

/-- **Ladder pieces hold whole segments and the same frames.**  For every source the starts
exist, and the plan is made of them when there are two or more; the pieces joined are the
frames of the single encode; and every piece but the last writes the frames its neighbours'
first frames are apart, no fewer than the whole segments of a piece, and exactly these where
every output frame is begun by a source frame. -/
theorem ladder_pieces_whole_segments (settings : LadderSettings) (frames : List (Frame α))
    (timeBase sourceRate : ℚ) (pieceSeconds : ℕ) (hne : frames ≠ []) (htb : 0 < timeBase)
    (hsource : 0 < sourceRate) (hfps : 0 < settings.maxFps) :
    ∃ starts,
      segmentAlignedStarts (frames.map (Frame.seconds timeBase))
        (encodeRate settings.maxFps sourceRate) pieceSeconds = some starts ∧
      ladderPlan settings (frames.map Frame.tick) timeBase (some sourceRate) pieceSeconds =
        (if starts.length < 2 then none
          else some (ladderPlanOf settings timeBase (encodeRate settings.maxFps sourceRate)
            starts)) ∧
      ladderPiecedEncode (ladderPlanOf settings timeBase (encodeRate settings.maxFps sourceRate)
          starts) timeBase frames =
        singleEncode timeBase (encodeRate settings.maxFps sourceRate) frames ∧
      ∀ i first after,
        (ladderPlanOf settings timeBase (encodeRate settings.maxFps sourceRate)
          starts).firstFrames[i]? = some first →
        (ladderPlanOf settings timeBase (encodeRate settings.maxFps sourceRate)
          starts).firstFrames[i + 1]? = some after →
        PieceOfSegments (ladderPlanOf settings timeBase
          (encodeRate settings.maxFps sourceRate) starts) timeBase pieceSeconds frames i first
          after := by
  set rate := encodeRate settings.maxFps sourceRate with hrate
  have hpos : 0 < rate := lt_min (by exact_mod_cast hfps) hsource
  have htimes : frames.map (Frame.seconds timeBase) ≠ [] := by simpa using hne
  obtain ⟨starts, hstarts, haligned⟩ := segmentAlignedStarts_spec htimes hpos pieceSeconds
  obtain ⟨-, hjoined⟩ := piecedEncode_of_spec settings.toEncode hne htb hpos.le haligned.spec
  refine ⟨starts, hstarts, ?_, (ladderPiecedEncode_eq settings frames starts).trans hjoined, ?_⟩
  · have hticks : frames.map Frame.tick ≠ [] := by simpa using hne
    simp only [ladderPlan, if_neg hticks, map_tick_seconds, ← hrate, hstarts, Option.bind_some]
  · intro i first after hfirst hafter
    obtain ⟨a, ha, rfl⟩ : ∃ a, starts[i]? = some a ∧ outputTick a rate = first := by
      simpa [ladderPlanOf] using hfirst
    obtain ⟨b, hb, rfl⟩ : ∃ b, starts[i + 1]? = some b ∧ outputTick b rate = after := by
      simpa [ladderPlanOf] using hafter
    obtain ⟨hframes, hticks⟩ := StartsSpec.frameTimes hpos.le haligned.spec
    have hlength := length_pieceEncode htb hpos.le settings.toEncode hframes hticks ha hb
    rw [← ladderPieceEncode_eq settings frames starts i] at hlength
    obtain ⟨hi, rfl⟩ := List.getElem?_eq_some_iff.mp ha
    obtain ⟨hi', rfl⟩ := List.getElem?_eq_some_iff.mp hb
    refine ⟨?_, hlength, ?_, fun hfull => ?_⟩
    · rw [frames_ladderPlanOf]
      exact frames_getElem? starts ha hb
    · rw [hlength]
      have hapart := List.isChain_iff_getElem.mp haligned.apart i hi'
      show pieceLength pieceSeconds rate ≤ _
      omega
    · have hbegun : EveryTickBegun (sortedTimes (frames.map (Frame.seconds timeBase))) rate := by
        intro tick hbefore hlater
        simp only [mem_sortedTimes] at hbefore hlater ⊢
        exact hfull tick hbefore hlater
      have hexact := List.isChain_iff_getElem.mp (haligned.exact hbegun) i hi'
      have hcount : (ladderPieceEncode (ladderPlanOf settings timeBase rate starts) timeBase
          frames i).length = (pieceLength pieceSeconds rate).toNat := by omega
      rw [hcount]
      exact wholeSegments_pieceLength hpos pieceSeconds

end Joined

/-- A source of so many frames, one to a unit of its time base. -/
def steadySource (count : ℕ) : List (Frame ℕ) := (List.range count).map fun k : ℕ => ⟨k, k⟩

/-- At its own rate such a source begins every output frame. -/
theorem everyTickBegun_steadySource (count : ℕ) {timeBase rate : ℚ} (hrate : timeBase * rate = 1) :
    EveryTickBegun ((steadySource count).map (Frame.seconds timeBase)) rate := by
  have htick : ∀ k : ℕ, outputTick ((⟨k, k⟩ : Frame ℕ).seconds timeBase) rate = k := by
    intro k
    have hwhole : ((k : ℤ) : ℚ) * timeBase * rate + 1 / 2 = (k : ℤ) + 1 / 2 := by
      rw [mul_assoc, hrate, mul_one]
    show ⌊((k : ℤ) : ℚ) * timeBase * rate + 1 / 2⌋ = k
    rw [hwhole, Int.floor_intCast_add]
    norm_num
  have hmem : ∀ time, time ∈ (steadySource count).map (Frame.seconds timeBase) ↔
      ∃ k < count, (⟨k, k⟩ : Frame ℕ).seconds timeBase = time := by
    intro time
    simp only [steadySource, List.map_map, List.mem_map, List.mem_range, Function.comp_apply]
  rintro tick ⟨s, hs, hbefore⟩ ⟨t, ht, hlater⟩
  obtain ⟨k, -, rfl⟩ := (hmem s).mp hs
  obtain ⟨m, hm, rfl⟩ := (hmem t).mp ht
  rw [htick] at hbefore hlater
  refine ⟨_, (hmem _).mpr ⟨tick.toNat, by omega, rfl⟩, ?_⟩
  rw [htick]
  omega

def ladderSettings : LadderSettings where
  jobId := 1
  sourceKey := "uploads/1/clip.mov"
  heights := [360, 720]
  hdr := false
  maxFps := 30
  preset := "veryfast"

/-- At one frame a second the first of two pieces is one segment of six frames. -/
theorem ladder_pieces_steadySource :
    ladderPlan ladderSettings ((steadySource 14).map Frame.tick) 1 (some 1) 6 =
        some (ladderPlanOf ladderSettings 1 1 [0, 6]) ∧
      WholeSegments 1 6 (ladderPieceEncode (ladderPlanOf ladderSettings 1 1 [0, 6]) 1
        (steadySource 14) 0).length := by
  obtain ⟨starts, hstarts, hplan, -, hpieces⟩ :=
    ladder_pieces_whole_segments ladderSettings (steadySource 14) 1 1 6 (by decide)
      (by norm_num) (by norm_num) (by decide)
  have hrate : encodeRate ladderSettings.maxFps 1 = 1 := by decide +kernel
  have heval : segmentAlignedStarts ((steadySource 14).map (Frame.seconds 1)) 1 6 =
      some [0, 6] := by decide +kernel
  rw [hrate, heval, Option.some.injEq] at hstarts
  subst hstarts
  rw [hrate] at hplan hpieces
  have hfirst : (ladderPlanOf ladderSettings 1 1 [0, 6]).firstFrames = [0, 6] := by
    decide +kernel
  have hbegun : EveryTickBegun ((steadySource 14).map (Frame.seconds 1)) 1 :=
    everyTickBegun_steadySource 14 (by norm_num)
  exact ⟨hplan, (hpieces 0 0 6 (by rw [hfirst]; rfl) (by rw [hfirst]; rfl)).whole hbegun⟩

/-- A frame every ten seconds: thirty seconds are three frames, and no five segments. -/
theorem ladder_pieces_slow :
    ¬∀ (settings : LadderSettings) (frames : List (Frame ℕ)) (timeBase sourceRate : ℚ)
      (pieceSeconds : ℕ) (starts : List ℚ), frames ≠ [] → (∀ f ∈ frames, 0 ≤ f.tick) →
      0 < timeBase → 0 < sourceRate → 0 < settings.maxFps → 0 < pieceSeconds →
      segmentAlignedStarts (frames.map (Frame.seconds timeBase))
        (encodeRate settings.maxFps sourceRate) pieceSeconds = some starts →
      EveryTickBegun (frames.map (Frame.seconds timeBase))
        (encodeRate settings.maxFps sourceRate) →
      ∀ i, i + 1 < starts.length →
        (forcedKeyframes (encodeRate settings.maxFps sourceRate)
          (ladderPieceEncode (ladderPlanOf settings timeBase
            (encodeRate settings.maxFps sourceRate) starts) timeBase frames i).length).length =
        (pieceSegments pieceSeconds).toNat := by
  intro hall
  have hrate : encodeRate ladderSettings.maxFps (1 / 10) = 1 / 10 := by decide +kernel
  have heval : segmentAlignedStarts ((steadySource 12).map (Frame.seconds 10)) (1 / 10) 30 =
      some [0, 30, 60, 90] := by decide +kernel
  have hfive := hall ladderSettings (steadySource 12) 10 (1 / 10) 30 [0, 30, 60, 90] (by decide)
    (by decide) (by norm_num) (by norm_num) (by decide) (by decide) (by rw [hrate, heval])
    (by rw [hrate]; exact everyTickBegun_steadySource 12 (by norm_num)) 0 (by decide)
  rw [hrate] at hfive
  exact absurd hfive (by decide +kernel)

end Worker
end MediaPlayer
