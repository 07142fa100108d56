import MediaPlayer.Library.Text
import MediaPlayer.Worker.ChunkedFrameStarts

/-!
# Where the pieces of a ladder start

`segment_aligned_starts` of `app/worker/ladder_pieces.py`.  Times are exact fractions of a
second, as the coordinator passes them.

`beginsOf` is the dictionary of the frames that begin an output frame, `nextBegun` and
`alignLoop` are the two `while` loops over the targets; the outer one takes fuel and answers
`none` when it runs out.  `segmentAlignedStarts_spec` shows that the fuel is enough and says
what the encode relies on: the starts meet `StartsSpec` and lie at least `pieceLength` output
frames apart, and exactly so many where every output frame is begun.
-/

namespace MediaPlayer
namespace Worker

open Library

/-- `SEGMENT_SECONDS`. -/
def segmentSeconds : ℕ := 6

/-- `begins.setdefault(tick, time_)`. -/
def setdefault (begins : List (ℤ × ℚ)) (tick : ℤ) (time : ℚ) : List (ℤ × ℚ) :=
  if (begins.lookup tick).isSome then begins else begins ++ [(tick, time)]

/-- One round of the loop over the times: `begins`, and `previous`. -/
def beginsStep (rate : ℚ) (s : List (ℤ × ℚ) × Option ℤ) (time : ℚ) :
    List (ℤ × ℚ) × Option ℤ :=
  let tick := outputTick time rate
  (if ∀ previous ∈ s.2, previous < tick then setdefault s.1 tick time else s.1, some tick)

/-- `begins`: of each output frame that a frame rounds to, the first such frame. -/
def beginsOf (times : List ℚ) (rate : ℚ) : List (ℤ × ℚ) :=
  (times.foldl (beginsStep rate) ([], none)).1

/-- `while target not in begins and target <= last: target += 1`; the first argument is the
number of output frames left up to `last`. -/
def nextBegun (begins : List (ℤ × ℚ)) : ℕ → ℤ → ℤ
  | 0, target => target
  | left + 1, target =>
      if (begins.lookup target).isNone then nextBegun begins left (target + 1) else target

/-- The outer loop, `while target <= last`. -/
def alignLoop (begins : List (ℤ × ℚ)) (last length : ℤ) : ℕ → ℤ → List ℚ → Option (List ℚ)
  | 0, _, _ => none
  | fuel + 1, target, starts =>
      if target ≤ last then
        let target := nextBegun begins (last - target + 1).toNat target
        if last < target then some starts
        else (begins.lookup target).bind fun time =>
          alignLoop begins last length fuel (target + length) (starts ++ [time])
      else some starts

/-- `max(1, round(piece_seconds / SEGMENT_SECONDS))`. -/
def pieceSegments (pieceSeconds : ℕ) : ℤ :=
  max 1 (roundHalfEven ((pieceSeconds : ℚ) / segmentSeconds))

/-- `math.ceil(segments * SEGMENT_SECONDS * rate)`. -/
def pieceLength (pieceSeconds : ℕ) (rate : ℚ) : ℤ :=
  ⌈(pieceSegments pieceSeconds * segmentSeconds : ℚ) * rate⌉

/-- `if len(starts) > 1 and last - output_tick(starts[-1], rate) < length / 2: starts.pop()`. -/
def dropRemainder (rate : ℚ) (last length : ℤ) (starts : List ℚ) : List ℚ :=
  if 1 < starts.length ∧ ((last - outputTick (starts.getLastD 0) rate : ℤ) : ℚ) < length / 2 then
    starts.dropLast
  else starts

/-- `segment_aligned_starts`. -/
def segmentAlignedStarts (frameTimes : List ℚ) (rate : ℚ) (pieceSeconds : ℕ) :
    Option (List ℚ) :=
  let begins := beginsOf (frameTimes.insertionSort (· ≤ ·)) rate
  let length := pieceLength pieceSeconds rate
  match (begins.map Prod.fst).min?, (begins.map Prod.fst).max? with
  | some first, some last =>
      (alignLoop begins last length (last - first + 2).toNat first []).map
        (dropRemainder rate last length)
  | _, _ => some []

theorem pieceSegments_pos (pieceSeconds : ℕ) : 1 ≤ pieceSegments pieceSeconds := le_max_left _ _

theorem pieceLength_pos (pieceSeconds : ℕ) {rate : ℚ} (hrate : 0 < rate) :
    0 < pieceLength pieceSeconds rate := by
  have hsegments : (0 : ℚ) < pieceSegments pieceSeconds := by
    exact_mod_cast pieceSegments_pos pieceSeconds
  have hseconds : (0 : ℚ) < segmentSeconds := by norm_num [segmentSeconds]
  exact Int.ceil_pos.mpr (mul_pos (mul_pos hsegments hseconds) hrate)

/-! ## The frames that begin an output frame -/

/-- What the loop knows after some of the times: of every output frame the first of them, and
the latest output frame. -/
structure BeginsInvariant (rate : ℚ) (times : List ℚ) (s : List (ℤ × ℚ) × Option ℤ) : Prop where
  lookup : ∀ tick, s.1.lookup tick = times.find? fun time => outputTick time rate = tick
  keys : ∀ tick, tick ∈ s.1.map Prod.fst ↔ ∃ time ∈ times, outputTick time rate = tick
  previous : (s.2 = none → times = []) ∧ ∀ previous ∈ s.2,
    (∃ time ∈ times, outputTick time rate = previous) ∧
      ∀ time ∈ times, outputTick time rate ≤ previous

theorem lookup_append_singleton (begins : List (ℤ × ℚ)) (tick other : ℤ) (time : ℚ) :
    (begins ++ [(tick, time)]).lookup other =
      (begins.lookup other).or (if tick = other then some time else none) := by
  rw [List.lookup_append, List.lookup_cons, List.lookup_nil]
  by_cases heq : tick = other
  · rw [if_pos heq, beq_iff_eq.mpr heq.symm]
  · rw [if_neg heq, beq_eq_false_iff_ne.mpr (Ne.symm heq)]

theorem find?_append_singleton (times : List ℚ) (rate time : ℚ) (tick : ℤ) :
    ((times ++ [time]).find? fun time => outputTick time rate = tick) =
      (times.find? fun time => outputTick time rate = tick).or
        (if outputTick time rate = tick then some time else none) := by
  rw [List.find?_append]
  congr 1
  by_cases heq : outputTick time rate = tick <;> simp [heq]

/-- One more time, none of those before it later. -/
theorem BeginsInvariant.step {rate : ℚ} (hrate : 0 ≤ rate) {times : List ℚ}
    {s : List (ℤ × ℚ) × Option ℤ} (hs : BeginsInvariant rate times s) {time : ℚ}
    (hlate : ∀ earlier ∈ times, earlier ≤ time) :
    BeginsInvariant rate (times ++ [time]) (beginsStep rate s time) := by
  have hprevious : (∃ other ∈ times ++ [time], outputTick other rate = outputTick time rate) ∧
      ∀ other ∈ times ++ [time], outputTick other rate ≤ outputTick time rate := by
    refine ⟨⟨time, by simp, rfl⟩, fun other hother => ?_⟩
    rcases List.mem_append.mp hother with hold | hlast
    · exact outputTick_mono hrate (hlate other hold)
    · rw [List.mem_singleton.mp hlast]
  by_cases hnew : ∀ previous ∈ s.2, previous < outputTick time rate
  · -- No earlier frame rounds to this output frame.
    have hnone : (times.find? fun other => outputTick other rate = outputTick time rate) =
        none := by
      refine List.find?_eq_none.mpr fun earlier hearlier heq => ?_
      cases hlast : s.2 with
      | none => exact absurd (hs.previous.1 hlast) (List.ne_nil_of_mem hearlier)
      | some previous =>
          have hle := (hs.previous.2 previous hlast).2 earlier hearlier
          have hlt := hnew previous hlast
          have heq : outputTick earlier rate = outputTick time rate := by simpa using heq
          omega
    have hbegins : (beginsStep rate s time).1 = s.1 ++ [(outputTick time rate, time)] := by
      show (if ∀ previous ∈ s.2, previous < outputTick time rate then
        setdefault s.1 (outputTick time rate) time else s.1) = _
      rw [if_pos hnew, setdefault, hs.lookup, hnone]
      simp
    refine ⟨fun tick => ?_, fun tick => ?_, nofun, fun _ hsome => Option.some.inj hsome ▸ hprevious⟩
    · rw [hbegins, lookup_append_singleton, find?_append_singleton, hs.lookup]
    · rw [hbegins, List.map_append, List.mem_append, hs.keys]
      simp only [List.map_cons, List.map_nil, List.mem_singleton, List.mem_append]
      constructor
      · rintro (⟨other, hother, rfl⟩ | rfl)
        · exact ⟨other, .inl hother, rfl⟩
        · exact ⟨time, .inr rfl, rfl⟩
      · rintro ⟨other, hother | rfl, rfl⟩
        · exact .inl ⟨other, hother, rfl⟩
        · exact .inr rfl
  · -- The frame shares its output frame with the one before it.
    obtain ⟨previous, hlast, hle⟩ : ∃ previous ∈ s.2, outputTick time rate ≤ previous := by
      simpa using hnew
    obtain ⟨⟨earlier, hearlier, hsame⟩, -⟩ := hs.previous.2 previous hlast
    have hsame : outputTick earlier rate = outputTick time rate := by
      have hmono := outputTick_mono hrate (hlate earlier hearlier)
      omega
    have hbegins : (beginsStep rate s time).1 = s.1 := if_neg hnew
    refine ⟨fun tick => ?_, fun tick => ?_, nofun, fun _ hsome => Option.some.inj hsome ▸ hprevious⟩
    · rw [hbegins, find?_append_singleton, hs.lookup]
      by_cases heq : outputTick time rate = tick
      · have hsome : (times.find? fun other => outputTick other rate = tick).isSome := by
          rw [List.find?_isSome]
          exact ⟨earlier, hearlier, by simpa using hsame.trans heq⟩
        obtain ⟨first, hfirst⟩ := Option.isSome_iff_exists.mp hsome
        rw [hfirst]
        rfl
      · rw [if_neg heq, Option.or_none]
    · rw [hbegins, hs.keys]
      constructor
      · rintro ⟨other, hother, rfl⟩
        exact ⟨other, List.mem_append_left _ hother, rfl⟩
      · rintro ⟨other, hother, rfl⟩
        rcases List.mem_append.mp hother with hold | hlast
        · exact ⟨other, hold, rfl⟩
        · rw [List.mem_singleton.mp hlast]
          exact ⟨earlier, hearlier, hsame⟩

/-- `begins` of sorted times. -/
theorem beginsOf_spec {rate : ℚ} (hrate : 0 ≤ rate) {times : List ℚ}
    (hsorted : times.Pairwise (· ≤ ·)) :
    (∀ tick, (beginsOf times rate).lookup tick =
      times.find? fun time => outputTick time rate = tick) ∧
    ∀ tick, tick ∈ (beginsOf times rate).map Prod.fst ↔
      ∃ time ∈ times, outputTick time rate = tick := by
  have hfold : BeginsInvariant rate times (times.foldl (beginsStep rate) ([], none)) := by
    induction times using List.reverseRecOn with
    | nil => exact ⟨fun _ => rfl, by simp, fun _ => rfl, nofun⟩
    | append_singleton times time ih =>
        rw [List.foldl_append]
        obtain ⟨hbefore, -, hlate⟩ := List.pairwise_append.mp hsorted
        exact (ih hbefore).step hrate fun earlier hearlier =>
          hlate earlier hearlier time List.mem_cons_self
  exact ⟨hfold.lookup, hfold.keys⟩

/-! ## The loops over the targets -/

/-- The inner loop stops on an output frame that is begun, or past the last one. -/
theorem nextBegun_spec (begins : List (ℤ × ℚ)) (left : ℕ) (target : ℤ) :
    target ≤ nextBegun begins left target ∧
      (nextBegun begins left target < target + left →
        (begins.lookup (nextBegun begins left target)).isSome = true) ∧
      ((begins.lookup target).isSome = true → nextBegun begins left target = target) := by
  induction left generalizing target with
  | zero =>
      refine ⟨le_rfl, fun hlt => ?_, fun _ => rfl⟩
      simp [nextBegun] at hlt
  | succ left ih =>
      unfold nextBegun
      split
      · next hnone =>
          obtain ⟨hle, hfound, -⟩ := ih (target + 1)
          refine ⟨by omega, fun hlt => hfound (by push_cast at hlt; omega), fun hsome => ?_⟩
          rw [Option.isNone_iff_eq_none.mp hnone] at hsome
          exact absurd hsome nofun
      · next hsome => exact ⟨le_rfl, fun _ => by simpa using hsome, fun _ => rfl⟩

/-- What the outer loop adds from a target on. -/
structure Aligned (begins : List (ℤ × ℚ)) (rate : ℚ) (last length target : ℤ)
    (added : List ℚ) : Prop where
  begun : ∀ time ∈ added, begins.lookup (outputTick time rate) = some time
  late : ∀ time ∈ added.head?, target ≤ outputTick time rate
  apart : added.IsChain fun s t => outputTick s rate + length ≤ outputTick t rate
  found : ∀ time, begins.lookup target = some time → target ≤ last → added.head? = some time
  full : (∀ tick, target ≤ tick → tick ≤ last → (begins.lookup tick).isSome = true) →
    (∀ time ∈ added.head?, outputTick time rate = target) ∧
      added.IsChain fun s t => outputTick s rate + length = outputTick t rate

/-- The outer loop ends. -/
theorem alignLoop_spec {begins : List (ℤ × ℚ)} {rate : ℚ} {last length : ℤ}
    (hlength : 0 < length)
    (hticks : ∀ tick time, begins.lookup tick = some time → outputTick time rate = tick)
    (n : ℕ) (target : ℤ) (starts : List ℚ) (hfuel : last < target + n) :
    ∃ added, alignLoop begins last length (n + 1) target starts = some (starts ++ added) ∧
      Aligned begins rate last length target added := by
  have hnothing : ∀ target : ℤ, (target ≤ last → begins.lookup target = none) →
      Aligned begins rate last length target [] := fun target hnone =>
    ⟨nofun, nofun, .nil, fun time htime hle => absurd (hnone hle ▸ htime) nofun,
      fun _ => ⟨nofun, .nil⟩⟩
  have hdone : ∀ n target starts, last < target → alignLoop begins last length (n + 1) target
      starts = some (starts ++ []) := fun n target starts hlt => by
    rw [alignLoop, if_neg (not_le.mpr hlt), List.append_nil]
  induction n generalizing target starts with
  | zero =>
      have hlt : last < target := by simpa using hfuel
      exact ⟨[], hdone 0 target starts hlt, hnothing target fun hle => absurd hlt (not_lt.mpr hle)⟩
  | succ n ih =>
      by_cases hgo : target ≤ last
      · obtain ⟨hle, hfound, hhere⟩ :=
          nextBegun_spec begins (last - target + 1).toNat target
        rw [alignLoop, if_pos hgo]
        set next := nextBegun begins (last - target + 1).toNat target with hnext
        by_cases hpast : last < next
        · refine ⟨[], by simp [hpast], hnothing target fun _ => ?_⟩
          by_contra hsome
          have hsame := hhere (Option.isSome_iff_ne_none.mpr hsome)
          omega
        · obtain ⟨time, htime⟩ := Option.isSome_iff_exists.mp (hfound (by omega))
          obtain ⟨added, hloop, hadded⟩ := ih (next + length) (starts ++ [time]) (by
            push_cast at hfuel
            omega)
          have htick : outputTick time rate = next := hticks next time htime
          refine ⟨time :: added, ?_, ?_⟩
          · simp only [if_neg hpast, htime, Option.bind_some]
            rw [hloop, List.append_assoc]
            rfl
          · refine ⟨?_, ?_, ?_, ?_, ?_⟩
            · intro other hother
              rcases List.mem_cons.mp hother with rfl | hrest
              · rw [htick, htime]
              · exact hadded.begun other hrest
            · rintro other hother
              obtain rfl := Option.some.inj hother
              rw [htick]
              exact hle
            · refine List.isChain_cons.mpr ⟨fun other hother => ?_, hadded.apart⟩
              rw [htick]
              exact hadded.late other hother
            · intro other hother _
              have hsame : next = target := hhere (by rw [hother]; rfl)
              rw [hsame, hother] at htime
              exact htime.symm
            · intro hfull
              have hsame : next = target := hhere (hfull target le_rfl hgo)
              obtain ⟨hfirst, hchain⟩ := hadded.full fun tick htick hlast =>
                hfull tick (by omega) hlast
              refine ⟨fun other hother => ?_, List.isChain_cons.mpr ⟨fun other hother => ?_, hchain⟩⟩
              · obtain rfl := Option.some.inj hother
                rw [htick, hsame]
              · rw [htick, hfirst other hother]
      · have hlt : last < target := not_le.mp hgo
        exact ⟨[], hdone (n + 1) target starts hlt,
          hnothing target fun hle => absurd hle hgo⟩

/-! ## What `segment_aligned_starts` answers -/

/-- Every output frame from the first frame's to the last's is begun by a frame. -/
def EveryTickBegun (times : List ℚ) (rate : ℚ) : Prop :=
  ∀ tick, (∃ s ∈ times, outputTick s rate ≤ tick) → (∃ t ∈ times, tick ≤ outputTick t rate) →
    ∃ time ∈ times, outputTick time rate = tick

/-- The starts of the pieces: what an encode needs of them, and how far apart they lie. -/
structure AlignedStarts (times : List ℚ) (rate : ℚ) (length : ℤ) (starts : List ℚ) : Prop where
  spec : StartsSpec times (some rate) starts
  apart : starts.IsChain fun s t => outputTick s rate + length ≤ outputTick t rate
  exact : EveryTickBegun times rate →
    starts.IsChain fun s t => outputTick s rate + length = outputTick t rate

/-- A remainder that joins the last piece leaves the others as they are. -/
theorem AlignedStarts.dropRemainder {times : List ℚ} {rate : ℚ} {length : ℤ} {starts : List ℚ}
    (hstarts : AlignedStarts times rate length starts) (last : ℤ) :
    AlignedStarts times rate length (dropRemainder rate last length starts) := by
  unfold Worker.dropRemainder
  split
  · next hshort =>
      refine ⟨⟨hstarts.spec.ordered.sublist (List.dropLast_sublist _),
        fun t ht => hstarts.spec.frames t (List.mem_of_mem_dropLast ht), ?_⟩,
        hstarts.apart.prefix (List.dropLast_prefix _),
        fun hfull => List.IsChain.prefix (hstarts.exact hfull) (List.dropLast_prefix _)⟩
      rw [← hstarts.spec.first]
      match starts, hshort.1 with
      | a :: b :: rest, _ => rfl
  · exact hstarts

/-- The first frame of an output frame is a suitable start. -/
theorem suitable_of_find? {rate : ℚ} (hrate : 0 ≤ rate) {times : List ℚ}
    (hsorted : times.Pairwise (· ≤ ·)) {tick : ℤ} {time : ℚ}
    (hfind : (times.find? fun time => outputTick time rate = tick) = some time) :
    ∃ i, times[i]? = some time ∧ suitable times (some rate) i = true := by
  obtain ⟨htick, i, hi, rfl, hfirst⟩ := List.find?_eq_some_iff_getElem.mp hfind
  refine ⟨i, List.getElem?_eq_getElem hi, ?_⟩
  cases i with
  | zero => rfl
  | succ i =>
      have hlt : i < times.length := by omega
      have hle : outputTick times[i] rate ≤ outputTick times[i + 1] rate :=
        outputTick_mono hrate (List.pairwise_iff_getElem.mp hsorted i (i + 1) hlt hi
          (Nat.lt_succ_self i))
      have hne : outputTick times[i] rate ≠ tick := by simpa using hfirst i (Nat.lt_succ_self i)
      have heq : outputTick times[i + 1] rate = tick := by simpa using htick
      have hbegins : outputTick times[i] rate < outputTick times[i + 1] rate := by omega
      simpa [suitable, List.getD_eq_getElem?_getD, List.getElem?_eq_getElem hlt,
        List.getElem?_eq_getElem hi] using hbegins

theorem segmentAlignedStarts_spec {frameTimes : List ℚ} (hne : frameTimes ≠ []) {rate : ℚ}
    (hrate : 0 < rate) (pieceSeconds : ℕ) :
    ∃ starts, segmentAlignedStarts frameTimes rate pieceSeconds = some starts ∧
      AlignedStarts (sortedTimes frameTimes) rate (pieceLength pieceSeconds rate) starts := by
  set times := sortedTimes frameTimes with htimes
  have hsorted : times.Pairwise (· ≤ ·) := sortedTimes_pairwise frameTimes
  obtain ⟨head, rest, hcons⟩ : ∃ head rest, times = head :: rest := by
    obtain ⟨t, ht⟩ := List.exists_mem_of_ne_nil _ hne
    exact List.exists_cons_of_ne_nil (List.ne_nil_of_mem (mem_sortedTimes.mpr ht))
  have hhead : ∀ time ∈ times, head ≤ time := by
    intro time htime
    rw [hcons] at hsorted htime
    rcases List.mem_cons.mp htime with rfl | hin
    · exact le_rfl
    · exact List.rel_of_pairwise_cons hsorted hin
  obtain ⟨hlookup, hkeys⟩ := beginsOf_spec hrate.le hsorted
  have hheadKey : outputTick head rate ∈ (beginsOf times rate).map Prod.fst :=
    (hkeys _).mpr ⟨head, by simp [hcons], rfl⟩
  obtain ⟨first, hfirst⟩ : ∃ first, ((beginsOf times rate).map Prod.fst).min? = some first :=
    Option.isSome_iff_exists.mp (List.isSome_min?_of_mem hheadKey)
  obtain ⟨last, hlast⟩ : ∃ last, ((beginsOf times rate).map Prod.fst).max? = some last :=
    Option.isSome_iff_exists.mp (List.isSome_max?_of_mem hheadKey)
  obtain ⟨hfirstMem, hfirstLe⟩ := List.min?_eq_some_iff.mp hfirst
  obtain ⟨hlastMem, hlastLe⟩ := List.max?_eq_some_iff.mp hlast
  obtain rfl : first = outputTick head rate := by
    obtain ⟨time, htime, rfl⟩ := (hkeys first).mp hfirstMem
    exact le_antisymm (hfirstLe _ hheadKey) (outputTick_mono hrate.le (hhead time htime))
  have hticks : ∀ tick time, (beginsOf times rate).lookup tick = some time →
      outputTick time rate = tick := by
    intro tick time htime
    rw [hlookup] at htime
    simpa using List.find?_some htime
  have hfirstLast := hlastLe _ hheadKey
  have henough : last < outputTick head rate + (last - outputTick head rate + 1).toNat := by
    omega
  obtain ⟨starts, hloop, hadded⟩ :=
    alignLoop_spec (pieceLength_pos pieceSeconds hrate) hticks _ _ [] henough
  have hfuel : (last - outputTick head rate + 2).toNat =
      (last - outputTick head rate + 1).toNat + 1 := by omega
  have hstart : (beginsOf times rate).lookup (outputTick head rate) = some head := by
    rw [hlookup, hcons]
    simp
  have hbegin : ∀ t ∈ starts,
      (times.find? fun time => outputTick time rate = outputTick t rate) = some t := by
    intro t ht
    rw [← hlookup]
    exact hadded.begun t ht
  have hordered : starts.Pairwise (· < ·) := by
    have hticks : starts.Pairwise fun s t => outputTick s rate < outputTick t rate := by
      refine List.isChain_iff_pairwise.mp (hadded.apart.imp fun s t hst => ?_)
      have hpos := pieceLength_pos pieceSeconds hrate
      omega
    refine hticks.imp fun {s t} hst => ?_
    by_contra hle
    exact absurd hst (not_lt.mpr (outputTick_mono hrate.le (not_lt.mp hle)))
  have haligned : AlignedStarts times rate (pieceLength pieceSeconds rate) starts := by
    refine ⟨⟨hordered, fun t ht => suitable_of_find? hrate.le hsorted (hbegin t ht), ?_⟩,
      hadded.apart, fun hfull => (hadded.full fun tick hge hle => ?_).2⟩
    · rw [hadded.found head hstart hfirstLast, hcons]
      rfl
    · obtain ⟨time, htime, hsame⟩ := (hkeys last).mp hlastMem
      obtain ⟨begun, hbegun, htick⟩ := hfull tick ⟨head, by simp [hcons], hge⟩
        ⟨time, htime, by omega⟩
      rw [hlookup, List.find?_isSome]
      exact ⟨begun, hbegun, by simpa using htick⟩
  refine ⟨Worker.dropRemainder rate last (pieceLength pieceSeconds rate) starts, ?_,
    haligned.dropRemainder last⟩
  show (match ((beginsOf times rate).map Prod.fst).min?,
      ((beginsOf times rate).map Prod.fst).max? with
    | some first, some last => (alignLoop (beginsOf times rate) last
        (pieceLength pieceSeconds rate) (last - first + 2).toNat first []).map
          (Worker.dropRemainder rate last (pieceLength pieceSeconds rate))
    | _, _ => some []) = _
  rw [hfirst, hlast]
  simp only [hfuel, hloop, List.nil_append, Option.map_some]

end Worker
end MediaPlayer
