import MediaPlayer.Worker.ChunkedEncode
import MediaPlayer.Worker.LadderStarts

/-!
# Where the pieces are sought

`PiecePlan.bounds` of `app/worker/chunked.py`, and the same seek in the ladder's
`piece_command`: a piece is read from a millisecond before its start on, so that no rounding
loses the frame it starts on.

* `seeks_land_iff` — the first frame read is the one the plan counted from exactly where no
  other frame lies in the millisecond before it.
* `soughtEncode_eq_singleEncode` — and then the pieces, read from where `bounds` says, join to
  the single encode.
-/

namespace MediaPlayer
namespace Worker

/-- `max(0.0, start - 0.001)`. -/
def seekPoint (start : ℚ) : ℚ := max 0 (start - 1 / 1000)

/-- `bounds`: where to seek and for how long; the last piece runs to the end. -/
def PiecePlan.bounds (plan : PiecePlan) (index : ℕ) : ℚ × Option ℚ :=
  let seek := seekPoint (plan.starts.getD index 0)
  if index = plan.count - 1 then (seek, none)
  else (seek, some (plan.starts.getD (index + 1) 0 - seek - 1 / 2000))

theorem PiecePlan.bounds_fst (plan : PiecePlan) (index : ℕ) :
    (plan.bounds index).1 = seekPoint (plan.starts.getD index 0) := by
  unfold PiecePlan.bounds
  split <;> rfl

/-- The earliest frame at or after a point, of frames in order. -/
def earliestFrom (times : List ℚ) (point : ℚ) : Option ℚ := times.find? fun time => point ≤ time

/-- Every piece's first frame is the one its start was planned for. -/
def SeeksLand (times starts : List ℚ) : Prop :=
  ∀ start ∈ starts, earliestFrom times (seekPoint start) = some start

/-- The frame just before a start lies more than a millisecond before it. -/
def ClearBefore (times starts : List ℚ) : Prop :=
  ∀ start ∈ starts, ∀ i before, times[i]? = some before → times[i + 1]? = some start →
    1 / 1000 < start - before

theorem seekPoint_le {start : ℚ} (hstart : 0 ≤ start) : seekPoint start ≤ start :=
  max_le hstart (by linarith)

theorem lt_seekPoint {before start : ℚ} (hbefore : 0 ≤ before) :
    before < seekPoint start ↔ 1 / 1000 < start - before := by
  unfold seekPoint
  rw [lt_max_iff]
  constructor
  · rintro (hneg | hlt)
    · exact absurd hbefore (not_le.mpr hneg)
    · linarith
  · intro hgap
    exact .inr (by linarith)

/-- One piece: the seek finds its start, or a frame of the millisecond before it. -/
theorem earliestFrom_iff {times : List ℚ} (hordered : times.Pairwise (· < ·))
    (hnonneg : ∀ time ∈ times, 0 ≤ time) {start : ℚ} (hstart : start ∈ times) :
    earliestFrom times (seekPoint start) = some start ↔
      ∀ i before, times[i]? = some before → times[i + 1]? = some start →
        1 / 1000 < start - before := by
  have hapart := List.pairwise_iff_getElem.mp hordered
  constructor
  · intro hland i before hbefore hnext
    obtain ⟨hi, rfl⟩ := List.getElem?_eq_some_iff.mp hbefore
    obtain ⟨hi', hsame⟩ := List.getElem?_eq_some_iff.mp hnext
    obtain ⟨-, k, hk, hkStart, hskipped⟩ := List.find?_eq_some_iff_getElem.mp hland
    -- the start is at one place only
    obtain rfl : k = i + 1 :=
      (List.Nodup.getElem_inj_iff (hordered.imp ne_of_lt)).mp (hkStart.trans hsame.symm)
    refine (lt_seekPoint (hnonneg _ (List.getElem_mem hi))).mp ?_
    simpa using hskipped i (Nat.lt_succ_self i)
  · intro hclear
    obtain ⟨k, hk, rfl⟩ := List.getElem_of_mem hstart
    refine List.find?_eq_some_iff_getElem.mpr ⟨?_, k, hk, rfl, fun j hj => ?_⟩
    · exact decide_eq_true (seekPoint_le (hnonneg _ (List.getElem_mem hk)))
    · obtain ⟨i, rfl⟩ : ∃ i, k = i + 1 := ⟨k - 1, by omega⟩
      have hi : i < times.length := by omega
      have hlt : times[i] < seekPoint times[i + 1] :=
        (lt_seekPoint (hnonneg _ (List.getElem_mem hi))).mpr
          (hclear i _ (List.getElem?_eq_getElem hi) (List.getElem?_eq_getElem hk))
      have hle : times[j] ≤ times[i] := by
        rcases Nat.lt_or_eq_of_le (Nat.le_of_lt_succ hj) with hlt | rfl
        · exact (hapart j i (by omega) hi hlt).le
        · exact le_rfl
      simpa using lt_of_le_of_lt hle hlt

/-- A start of a plan is the time of a frame. -/
theorem start_mem {times : List ℚ} (hnonneg : ∀ time ∈ times, 0 ≤ time) {rate : ℚ}
    (hrate : 0 < rate) {pieceSeconds : ℕ} (hpiece : 0 < pieceSeconds) {starts : List ℚ}
    (hplan : frameStarts times pieceSeconds (some rate) = some starts ∨
      segmentAlignedStarts times rate pieceSeconds = some starts) {start : ℚ}
    (hstart : start ∈ starts) : start ∈ times := by
  have hmem : StartsSpec (sortedTimes times) (some rate) starts → start ∈ times := by
    intro hspec
    obtain ⟨i, hi, -⟩ := hspec.frames start hstart
    exact mem_sortedTimes.mp (List.mem_of_getElem? hi)
  by_cases hne : times = []
  · subst hne
    rcases hplan with hplan | hplan
    · obtain rfl := Option.some.inj hplan
      exact absurd hstart nofun
    · obtain rfl := Option.some.inj hplan
      exact absurd hstart nofun
  · rcases hplan with hplan | hplan
    · obtain ⟨found, hfound, hspec⟩ := frameStarts_spec hne hnonneg hpiece (some rate)
      obtain rfl := Option.some.inj (hfound.symm.trans hplan)
      exact hmem hspec
    · obtain ⟨found, hfound, hspec⟩ := segmentAlignedStarts_spec hne hrate pieceSeconds
      obtain rfl := Option.some.inj (hfound.symm.trans hplan)
      exact hmem hspec.spec

/-- The seeks of a plan land on the frames it was counted from exactly where the frame before
each start is more than a millisecond away. -/
theorem seeks_land_iff {times : List ℚ} (hordered : times.Pairwise (· < ·))
    (hnonneg : ∀ time ∈ times, 0 ≤ time) {rate : ℚ} (hrate : 0 < rate) {pieceSeconds : ℕ}
    (hpiece : 0 < pieceSeconds) {starts : List ℚ}
    (hplan : frameStarts times pieceSeconds (some rate) = some starts ∨
      segmentAlignedStarts times rate pieceSeconds = some starts) :
    SeeksLand times starts ↔ ClearBefore times starts :=
  forall₂_congr fun _ hstart =>
    earliestFrom_iff hordered hnonneg (start_mem hnonneg hrate hpiece hplan hstart)

/-- Frames more than a millisecond apart, as those of a constant rate below a thousand are. -/
theorem clearBefore_of_apart {times : List ℚ}
    (hapart : times.IsChain fun before after => 1 / 1000 < after - before) (starts : List ℚ) :
    ClearBefore times starts := by
  intro start _ i before hbefore hstart
  obtain ⟨hi, rfl⟩ := List.getElem?_eq_some_iff.mp hbefore
  obtain ⟨hi', rfl⟩ := List.getElem?_eq_some_iff.mp hstart
  exact List.isChain_iff_getElem.mp hapart i hi'

/-- Four frames at two a second. -/
theorem seeks_land_iff_steady : SeeksLand [0, 1 / 2, 1, 3 / 2] [0, 1] :=
  (@seeks_land_iff [0, 1 / 2, 1, 3 / 2] (by decide +kernel) (by decide +kernel) 2 (by norm_num) 1
    (by decide) [0, 1] (.inl (by decide +kernel))).mpr
    (clearBefore_of_apart (by norm_num) _)

/-- Two frames half a millisecond apart round to different output frames: the piece that starts
on the later one is read from the earlier. -/
theorem seeks_miss : ¬∀ (times : List ℚ) (rate : ℚ) (pieceSeconds : ℕ) (starts : List ℚ),
    times.Pairwise (· < ·) → (∀ time ∈ times, 0 ≤ time) → 0 < rate → 0 < pieceSeconds →
    (frameStarts times pieceSeconds (some rate) = some starts ∨
      segmentAlignedStarts times rate pieceSeconds = some starts) → SeeksLand times starts := by
  intro hall
  have hland := hall [0, 3 / 5, 2999 / 2000, 3 / 2, 4] 1 1 [0, 3 / 2] (by decide +kernel)
    (by decide +kernel) (by norm_num) (by decide) (.inl (by decide +kernel)) (3 / 2) (by simp)
  exact absurd hland (by decide +kernel)

/-! ## The pieced encode from its seek points -/

section Sought

variable {α : Type*} {timeBase rate : ℚ}

/-- The source frames piece `index` of an exact plan picks, read from where `bounds` says. -/
def soughtPieceEncode (plan : PiecePlan) (timeBase : ℚ) (frames : List (Frame α))
    (index : ℕ) : List (Frame α) :=
  let picked := fpsFilter timeBase (plan.outputRate.getD 0)
    (setpts (plan.startTicks.getD index 0) (fedFrom timeBase (plan.bounds index).1 frames))
  if plan.frames.getD index 0 = 0 then picked
  else picked.take (plan.frames.getD index 0).toNat

/-- Between a seek point that lands and its start there is no frame. -/
theorem le_of_earliestFrom {times : List ℚ} (hordered : times.Pairwise (· < ·)) {point start : ℚ}
    (hland : earliestFrom times point = some start) {time : ℚ} (htime : time ∈ times)
    (hpoint : point ≤ time) : start ≤ time := by
  obtain ⟨-, k, hk, rfl, hskipped⟩ := List.find?_eq_some_iff_getElem.mp hland
  obtain ⟨j, hj, rfl⟩ := List.getElem_of_mem htime
  rcases Nat.lt_trichotomy j k with hlt | rfl | hgt
  · exact absurd hpoint (by simpa using hskipped j hlt)
  · exact le_rfl
  · exact (List.pairwise_iff_getElem.mp hordered k j hk hj hgt).le

/-- The frames read from the seek point on are those from the start on, where no other lies
between. -/
theorem fedFrom_seekPoint {frames : List (Frame α)} {start : ℚ} (hstart : 0 ≤ start)
    (hempty : ∀ f ∈ frames, seekPoint start ≤ f.seconds timeBase → start ≤ f.seconds timeBase) :
    fedFrom timeBase (seekPoint start) frames = fedFrom timeBase start frames := by
  refine List.filter_congr fun f hf => ?_
  have hiff : seekPoint start ≤ f.seconds timeBase ↔ start ≤ f.seconds timeBase :=
    ⟨hempty f (mem_presented.mp hf), (seekPoint_le hstart).trans⟩
  simp only [hiff]

/-- Where its seeks land, the pieced encode is the single encode with the seeks it makes. -/
theorem soughtEncode_eq_singleEncode (settings : EncodeSettings) {frames : List (Frame α)}
    (hne : frames ≠ []) (htb : 0 < timeBase) (hrate : 0 ≤ rate) {starts : List ℚ}
    (hordered : (sortedTimes (frames.map (Frame.seconds timeBase))).Pairwise (· < ·))
    (hnonneg : ∀ f ∈ frames, 0 ≤ f.tick)
    (hspec : StartsSpec (sortedTimes (frames.map (Frame.seconds timeBase))) (some rate) starts)
    (hclear : ClearBefore (sortedTimes (frames.map (Frame.seconds timeBase))) starts) :
    (List.range starts.length).flatMap
        (soughtPieceEncode (planOf settings timeBase rate starts) timeBase frames) =
      singleEncode timeBase rate frames := by
  have hmem : ∀ start ∈ starts, start ∈ sortedTimes (frames.map (Frame.seconds timeBase)) := by
    intro start hstart
    obtain ⟨i, hi, -⟩ := hspec.frames start hstart
    exact List.mem_of_getElem? hi
  have htimes : ∀ time ∈ sortedTimes (frames.map (Frame.seconds timeBase)), 0 ≤ time := by
    intro time htime
    obtain ⟨f, hf, rfl⟩ := List.mem_map.mp (mem_sortedTimes.mp htime)
    exact mul_nonneg (by exact_mod_cast hnonneg f hf) htb.le
  rw [← (piecedEncode_of_spec settings hne htb hrate hspec).2]
  refine List.flatMap_congr fun index hindex => ?_
  have hstart : starts.getD index 0 ∈ starts := by
    rw [List.getD_eq_getElem?_getD, List.getElem?_eq_getElem (List.mem_range.mp hindex)]
    exact List.getElem_mem _
  have hland := (earliestFrom_iff hordered htimes (hmem _ hstart)).mpr (hclear _ hstart)
  have hfed : fedFrom timeBase ((planOf settings timeBase rate starts).bounds index).1 frames =
      fedFrom timeBase (starts.getD index 0) frames := by
    rw [PiecePlan.bounds_fst]
    refine fedFrom_seekPoint (htimes _ (hmem _ hstart)) fun f hf hseek => ?_
    exact le_of_earliestFrom hordered hland
      (mem_sortedTimes.mpr (List.mem_map_of_mem hf)) hseek
  unfold soughtPieceEncode pieceEncode
  rw [hfed]
  rfl

end Sought

end Worker
end MediaPlayer
