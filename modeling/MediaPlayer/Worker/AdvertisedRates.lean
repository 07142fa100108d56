import Mathlib.Algebra.BigOperators.Ring.Finset
import Mathlib.Algebra.Order.BigOperators.Group.List
import MediaPlayer.Worker.JoinSteps
import MediaPlayer.Worker.MasterEntries

/-!
# The rates a master advertises

`_rates` of `app/worker/ladder_pieces.py` measures a rung, or the audio, by the sizes and the
durations of its segments, and `write_master` writes what it measured.

* `Consistent` — the average is no higher than the peak, and no segment but a final sliver is
  above it.
* `Matched` — what makes them so: the segments that the peak leaves out do not outrun those it
  takes, and neither do all of them together, but for what the sum and the quotients are rounded by.
* `advertised_rates_consistent_iff` — the rates, and the lines of the master, are consistent
  exactly then.
-/

namespace MediaPlayer
namespace Worker

open Library

namespace AdvertisedRates

/-! ## What is measured -/

/-- The bits per second of all segments together. -/
def meanRate (pairs : List (ℕ × ℚ)) : ℚ :=
  bitRate ((pairs.map (·.1)).sum, totalSeconds (pairs.map (·.2)))

/-- Segments in bits and seconds; there is one, all of them have some of both, and no rate is
infinite, which `int` would refuse. -/
structure Measured (pairs : List (ℕ × ℚ)) : Prop where
  nonempty : pairs ≠ []
  bits : ∀ pair ∈ pairs, 0 < pair.1
  seconds : ∀ pair ∈ pairs, 0 < pair.2
  finite : ∀ pair ∈ pairs, (pair.1 / pair.2 : ℚ) < 2 ^ 1023

/-- The peak and the average, in whole bits per second. -/
def ratesOf (pairs : List (ℕ × ℚ)) : ℕ × ℕ := (⌊peakRate pairs⌋₊, ⌊meanRate pairs⌋₊)

/-- The sizes and durations of segments, as `_rates` pairs them. -/
def measured (sizes : List ℕ) (entries : List (ℚ × String)) : List (ℕ × ℚ) :=
  sizes.zip (entries.map fun entry => binary64 entry.1)

section

variable {pairs : List (ℕ × ℚ)}

theorem length_segmentSizes {work : WorkTree} {directory : List String}
    {entries : List (ℚ × String)} {sizes : List ℕ}
    (hsizes : segmentSizes work directory entries = some sizes) :
    sizes.length = entries.length := by
  induction entries generalizing sizes with
  | nil => exact congrArg List.length (Option.some.inj hsizes).symm
  | cons entry entries ih =>
      obtain ⟨content, -, hrest⟩ := Option.bind_eq_some_iff.mp hsizes
      obtain ⟨others, hothers, rfl⟩ := Option.map_eq_some_iff.mp hrest
      rw [List.length_cons, List.length_cons, ih hothers]

/-- `_rates` of segments with these sizes. -/
theorem rates_eq_ratesOf {work : WorkTree} {directory : List String}
    {entries : List (ℚ × String)} {sizes : List ℕ}
    (hsizes : segmentSizes work directory entries = some sizes) :
    rates work directory entries = some (ratesOf (measured sizes entries)) := by
  have hlength := length_segmentSizes hsizes
  have hbits : (measured sizes entries).map (·.1) = sizes :=
    List.map_fst_zip (by rw [List.length_map, hlength])
  have hseconds : (measured sizes entries).map (·.2) =
      entries.map fun entry => binary64 entry.1 :=
    List.map_snd_zip (by rw [List.length_map, hlength])
  rw [rates, hsizes, Option.map_some, ratesOf, meanRate, hbits, hseconds]
  rfl

/-! ## The peak -/

/-- A segment counts for the peak: it lasts a second, or no segment does. -/
def Counts (pairs : List (ℕ × ℚ)) (pair : ℕ × ℚ) : Prop :=
  1 ≤ pair.2 ∨ ∀ other ∈ pairs, other.2 < 1

theorem le_max {x : ℚ} {xs : List ℚ} (hx : x ∈ xs) : x ≤ xs.max?.getD 0 := by
  cases hmax : xs.max? with
  | none => exact absurd (List.max?_eq_none_iff.mp hmax) (List.ne_nil_of_mem hx)
  | some top => exact (List.max?_le_iff hmax).mp le_rfl x hx

theorem max_mem {xs : List ℚ} (hne : xs ≠ []) : xs.max?.getD 0 ∈ xs := by
  cases hmax : xs.max? with
  | none => exact absurd (List.max?_eq_none_iff.mp hmax) hne
  | some top => exact List.max?_mem hmax

theorem mem_segmentRates {enough : ℚ → Bool} {rate : ℚ} :
    rate ∈ segmentRates enough pairs ↔
      ∃ pair ∈ pairs, enough pair.2 = true ∧ bitRate pair = rate := by
  unfold segmentRates
  simp only [List.mem_map, List.mem_filter, and_assoc]

/-- The peak is the highest rate of the segments that count for it. -/
theorem peakRate_spec (h : Measured pairs) :
    (∀ pair ∈ pairs, Counts pairs pair → bitRate pair ≤ peakRate pairs) ∧
      ∃ pair ∈ pairs, Counts pairs pair ∧ bitRate pair = peakRate pairs := by
  obtain ⟨whole, hwhole⟩ : ∃ whole, whole =
      segmentRates (fun seconds => decide (1 ≤ seconds)) pairs := ⟨_, rfl⟩
  by_cases hlong : ∃ pair ∈ pairs, 1 ≤ pair.2
  · have hcounts : ∀ pair, Counts pairs pair → 1 ≤ pair.2 := fun pair hpair =>
      hpair.resolve_right fun hshort => by
        obtain ⟨other, hother, hle⟩ := hlong
        exact absurd (hshort other hother) (not_lt.mpr hle)
    have hmem : ∀ pair ∈ pairs, 1 ≤ pair.2 → bitRate pair ∈ whole := fun pair hpair hle =>
      hwhole ▸ mem_segmentRates.mpr ⟨pair, hpair, decide_eq_true hle, rfl⟩
    have hne : whole ≠ [] := by
      obtain ⟨pair, hpair, hle⟩ := hlong
      exact List.ne_nil_of_mem (hmem pair hpair hle)
    have hpeak : peakRate pairs = whole.max?.getD 0 := by
      unfold peakRate
      dsimp only
      rw [← hwhole, if_pos hne]
    rw [hpeak]
    refine ⟨fun pair hpair hcount => le_max (hmem pair hpair (hcounts pair hcount)), ?_⟩
    obtain ⟨pair, hpair, hle, hrate⟩ := mem_segmentRates.mp (hwhole ▸ max_mem hne)
    exact ⟨pair, hpair, Or.inl (of_decide_eq_true hle), hwhole ▸ hrate⟩
  · -- Without a segment of a second all of them count.
    have hshort : ∀ other ∈ pairs, other.2 < 1 := fun other hother =>
      not_le.mp fun hle => hlong ⟨other, hother, hle⟩
    have hnone : whole = [] := by
      refine hwhole ▸ List.eq_nil_iff_forall_not_mem.mpr fun rate hrate => ?_
      obtain ⟨other, hother, hle, -⟩ := mem_segmentRates.mp hrate
      exact absurd (hshort other hother) (not_lt.mpr (of_decide_eq_true hle))
    have hmem : ∀ pair ∈ pairs,
        bitRate pair ∈ segmentRates (fun seconds => decide (0 < seconds)) pairs :=
      fun pair hpair =>
        mem_segmentRates.mpr ⟨pair, hpair, decide_eq_true (h.seconds pair hpair), rfl⟩
    have hne : segmentRates (fun seconds => decide (0 < seconds)) pairs ≠ [] := by
      obtain ⟨pair, hpair⟩ := List.exists_mem_of_ne_nil _ h.nonempty
      exact List.ne_nil_of_mem (hmem pair hpair)
    have hpeak : peakRate pairs =
        (segmentRates (fun seconds => decide (0 < seconds)) pairs).max?.getD 0 := by
      unfold peakRate
      dsimp only
      rw [← hwhole, if_neg (not_not.mpr hnone), if_pos hne]
    rw [hpeak]
    refine ⟨fun pair hpair _ => le_max (hmem pair hpair), ?_⟩
    obtain ⟨pair, hpair, -, hrate⟩ := mem_segmentRates.mp (max_mem hne)
    exact ⟨pair, hpair, Or.inr hshort, hrate⟩

/-! ## Consistent rates -/

/-- What a reader of the master relies on, of the rates that are written, in whole bits per
second. -/
structure Consistent (pairs : List (ℕ × ℚ)) (rate : ℕ × ℕ) : Prop where
  average_le : rate.2 ≤ rate.1
  before : ∀ pair ∈ pairs.dropLast, ⌊bitRate pair⌋₊ ≤ rate.1
  last : ∀ pair ∈ pairs.getLast?, 1 ≤ pair.2 → ⌊bitRate pair⌋₊ ≤ rate.1

/-- A segment that counts for the peak has this rate, or a higher one. -/
def Reached (pairs : List (ℕ × ℚ)) (rate : ℚ) : Prop :=
  ∃ pair ∈ pairs, Counts pairs pair ∧ ⌊rate⌋₊ ≤ ⌊bitRate pair⌋₊

/-- All bits in all seconds, in exact numbers, are rounded below the next whole bit per second of a
segment that counts for the peak. -/
def Carried (pairs : List (ℕ × ℚ)) : Prop :=
  ∃ pair ∈ pairs, Counts pairs pair ∧ RoundsBelow
    (binary64 ((pairs.map (·.1)).sum : ℕ) / totalSeconds (pairs.map (·.2)))
    (⌊bitRate pair⌋₊ + 1)

/-- The segments that count for the peak reach the rate of every shorter one but the last, and
carry the bits of all. -/
structure Matched (pairs : List (ℕ × ℚ)) : Prop where
  reached : ∀ pair ∈ pairs.dropLast, pair.2 < 1 → Reached pairs (bitRate pair)
  carried : Carried pairs

/-- Of rates that take fewer digits than a float: how far below the next whole bit. -/
theorem carried_iff_of_slow (hslow : ∀ pair ∈ pairs, ⌊bitRate pair⌋₊ + 1 ≤ 2 ^ 52) :
    Carried pairs ↔ ∃ pair ∈ pairs, Counts pairs pair ∧
      binary64 ((pairs.map (·.1)).sum : ℕ) / totalSeconds (pairs.map (·.2)) <
        (⌊bitRate pair⌋₊ + 1 : ℕ) - gapBelow (⌊bitRate pair⌋₊ + 1) / 2 :=
  exists_congr fun pair => and_congr_right fun hpair => and_congr_right fun _ =>
    roundsBelow_iff_of_le (hslow pair hpair)

theorem floor_le_iff_lt_succ {x : ℚ} {n : ℕ} : ⌊x⌋₊ ≤ n ↔ x < ((n + 1 : ℕ) : ℚ) := by
  rw [← Nat.lt_succ_iff, Nat.floor_lt' (Nat.succ_ne_zero n)]

theorem carried_iff : Carried pairs ↔ Reached pairs (meanRate pairs) := by
  refine exists_congr fun pair => and_congr_right fun _ => and_congr_right fun _ => ?_
  rw [← binary64_lt_natCast_iff (Nat.succ_pos _), floor_le_iff_lt_succ]
  rfl

/-- Reached by a segment that counts is reached by the peak. -/
theorem reached_iff (h : Measured pairs) {rate : ℚ} :
    Reached pairs rate ↔ ⌊rate⌋₊ ≤ (ratesOf pairs).1 := by
  obtain ⟨hle, pair, hpair, hcounts, hpeak⟩ := peakRate_spec h
  constructor
  · rintro ⟨other, hother, hcount, hreach⟩
    exact hreach.trans (Nat.floor_le_floor (hle other hother hcount))
  · exact fun hreach => ⟨pair, hpair, hcounts, hpeak ▸ hreach⟩

theorem consistent_iff (h : Measured pairs) :
    Consistent pairs (ratesOf pairs) ↔ Matched pairs := by
  have hlong : ∀ pair ∈ pairs, 1 ≤ pair.2 → ⌊bitRate pair⌋₊ ≤ (ratesOf pairs).1 :=
    fun pair hpair hle => (reached_iff h).mp ⟨pair, hpair, Or.inl hle, le_rfl⟩
  constructor
  · intro hconsistent
    refine ⟨fun pair hpair _ => ?_, ?_⟩
    · exact (reached_iff h).mpr (hconsistent.before pair hpair)
    · exact carried_iff.mpr ((reached_iff h).mpr hconsistent.average_le)
  · intro hmatched
    refine ⟨(reached_iff h).mp (carried_iff.mp hmatched.carried), fun pair hpair => ?_,
      fun pair hpair => hlong pair (List.mem_of_getLast? hpair)⟩
    by_cases hle : 1 ≤ pair.2
    · exact hlong pair (List.mem_of_mem_dropLast hpair) hle
    · exact (reached_iff h).mp (hmatched.reached pair hpair (not_le.mp hle))

end

/-! ## The lines of the master -/

/-- A line that names a variant, its average no higher than its peak. -/
def LineConsistent (line : String) : Prop :=
  ∃ peak average rest, line = streamInf ++ ("BANDWIDTH=" ++ Nat.repr peak ++
    ",AVERAGE-BANDWIDTH=" ++ Nat.repr average ++ "," ++ rest) ∧ average ≤ peak

theorem lineConsistent_rungLine {rung : PieceRung} {audio : ℕ × ℕ}
    (hrung : rung.average ≤ rung.peak) (haudio : audio.2 ≤ audio.1) :
    LineConsistent (rungLine rung audio) := by
  have hsize : ",RESOLUTION=" = "," ++ "RESOLUTION=" := rfl
  have haverage : ",AVERAGE-BANDWIDTH=" = "," ++ "AVERAGE-BANDWIDTH=" := rfl
  refine ⟨rung.peak + audio.1, rung.average + audio.2, "RESOLUTION=" ++ rung.facts.resolution ++
    "," ++ "CODECS=\"" ++ rung.facts.codec ++ ",mp4a.40.2\",AUDIO=\"group_audio\"", ?_,
    Nat.add_le_add hrung haudio⟩
  simp only [rungLine, toString, hsize, haverage, String.append_assoc]

theorem lineConsistent_soundLine {audio : ℕ × ℕ} (haudio : audio.2 ≤ audio.1) :
    LineConsistent (soundLine audio) := by
  have haverage : ",AVERAGE-BANDWIDTH=" = "," ++ "AVERAGE-BANDWIDTH=" := rfl
  refine ⟨audio.1, audio.2, "CODECS=\"mp4a.40.2\",AUDIO=\"group_audio\"", ?_, haudio⟩
  simp only [soundLine, toString, haverage, String.append_assoc]

/-- The sums of consistent rates are consistent. -/
theorem lineConsistent_of_mem {rungs : List PieceRung} {audio : ℕ × ℕ}
    (hrungs : ∀ rung ∈ rungs, rung.average ≤ rung.peak) (haudio : audio.2 ≤ audio.1) :
    ∀ line ∈ splitLines (writeMaster rungs audio (variantFile rungs.length indexName)),
      startsWith line streamInf = true → LineConsistent line := by
  intro line hline hnames
  have hplain : ∀ k, startsWith (variantFile k indexName) streamInf ≠ true := fun k =>
    (plain_variantFile k).1 ▸ Bool.false_ne_true
  rw [splitLines_writeMaster, masterText, List.append_assoc] at hline
  rcases List.mem_append.mp hline with hhead | hline
  · exact absurd hnames ((mem_masterHead hhead).1 ▸ Bool.false_ne_true)
  · simp only [List.mem_append, List.mem_flatMap, List.mem_cons, List.not_mem_nil,
      or_false] at hline
    rcases hline with ⟨rung, hrung, rfl | rfl | rfl⟩ | rfl | rfl
    · exact lineConsistent_rungLine (hrungs _ (List.fst_mem_of_mem_zipIdx hrung)) haudio
    · exact absurd hnames (hplain _)
    · exact absurd hnames (by decide)
    · exact lineConsistent_soundLine haudio
    · exact absurd hnames (hplain _)

/-! ## The rates and the master -/

/-- A rung with the segments it was measured by. -/
structure MeasuredRung where
  rung : PieceRung
  pairs : List (ℕ × ℚ)
  measured : Measured pairs
  rates : (rung.peak, rung.average) = ratesOf pairs

/-- Three segments; the second, of half a second, ends a piece. -/
def burstEntries : List (ℚ × String) := [(6, "a.ts"), (1 / 2, "b.ts"), (6, "c.ts")]

def burstTree : WorkTree := fun path =>
  ([(["v0", "a.ts"], "xxxxxx"), (["v0", "b.ts"], "xxxx"), (["v0", "c.ts"], "xxxxxx")].lookup
    path).map .text

def burstPairs : List (ℕ × ℚ) := measured [48, 32, 48] burstEntries

theorem burstPairs_eq : burstPairs = [(48, 6), (32, 1 / 2), (48, 6)] := by decide +kernel

theorem finite_of_lt {rate : ℚ} (hrate : rate < 2 ^ 10) : rate < 2 ^ 1023 :=
  hrate.trans_le (pow_le_pow_right₀ (by norm_num) (by norm_num))

theorem measured_burstPairs : Measured burstPairs := by
  rw [burstPairs_eq]
  refine ⟨by decide, by decide, ?_, fun pair hpair => finite_of_lt ?_⟩
  · simp only [List.forall_mem_cons]
    norm_num
  · revert pair
    simp only [List.forall_mem_cons]
    norm_num

theorem segmentSizes_burst : segmentSizes burstTree ["v0"] burstEntries = some [48, 32, 48] := by
  decide

theorem ratesOf_burst : ratesOf burstPairs = (8, 10) := by decide +kernel

/-- Two segments over a second, whose average is rounded past the peak. -/
example : ratesOf (measured [827200, 834720] [(11 / 10, "a.ts"), (111 / 100, "b.ts")]) =
    (751999, 752000) := by decide +kernel

def steadyPairs : List (ℕ × ℚ) := [(48, 6)]

theorem measured_steadyPairs : Measured steadyPairs := by
  refine ⟨by decide, by decide, ?_, fun pair hpair => finite_of_lt ?_⟩
  · simp only [steadyPairs, List.forall_mem_cons]
    norm_num
  · obtain rfl := List.mem_singleton.mp hpair
    norm_num

theorem matched_steadyPairs : Matched steadyPairs where
  reached := fun pair hpair => absurd hpair List.not_mem_nil
  carried := ⟨(48, 6), List.mem_cons_self, Or.inl (by norm_num), by decide +kernel⟩

end AdvertisedRates

end Worker
end MediaPlayer
