import Mathlib.Data.List.Sort
import Mathlib.Data.Rat.Floor
import Mathlib.Algebra.Order.Floor.Semiring
import Mathlib.Tactic.Linarith
import Mathlib.Tactic.FieldSimp
import Mathlib.Tactic.Positivity

/-!
# Where the pieces of a chunked encode start

`outputTick` and `frameStarts` of `app/worker/chunked.py`.  Times are exact
fractions of a second.  The marks are whole multiples of `chunk_seconds`, which
the source keeps in a float and which are exact here.

The three loops of `frame_starts` are `nextIndex` (move on to a suitable frame at
or after the mark), `skipMarks` (move the mark past the last start) and
`cutLoop` (the outer loop).  The last two are not bounded by the list, so they
take fuel and answer `none` when it runs out; `frameStarts_spec` shows that the
fuel `frameStarts` gives is enough, whatever the times, and says all that the
encode relies on: the starts are strictly increasing frame times, the first is
the earliest frame, and every start begins its output frame.
-/

namespace MediaPlayer
namespace Worker

/-- The output frame the rate filter rounds a source frame to: nearest, a half up. -/
def outputTick (seconds rate : ℚ) : ℤ := ⌊seconds * rate + 1 / 2⌋

theorem outputTick_mono {rate : ℚ} (hrate : 0 ≤ rate) {s t : ℚ} (hst : s ≤ t) :
    outputTick s rate ≤ outputTick t rate := by
  apply Int.floor_le_floor
  have := mul_le_mul_of_nonneg_right hst hrate
  linarith

/-- A frame is suitable to start a piece if no rate is given, if it is the first,
or if the frame before it rounds to an earlier output frame. -/
def suitable (times : List ℚ) (rate : Option ℚ) (i : ℕ) : Bool :=
  match rate with
  | none => true
  | some r =>
      i == 0 || decide (outputTick (times.getD (i - 1) 0) r < outputTick (times.getD i 0) r)

/-- `while index < len(times) and (times[index] < mark - 1e-6 or not suitable(index))`:
`gap` is the number of frames left at `index`. -/
def nextIndex (times : List ℚ) (rate : Option ℚ) (mark : ℚ) : ℕ → ℕ → ℕ
  | 0, index => index
  | gap + 1, index =>
      if times.getD index 0 < mark - 1 / 10 ^ 6 ∨ suitable times rate index = false then
        nextIndex times rate mark gap (index + 1)
      else index

/-- `while mark <= starts[-1]: mark += chunk_seconds`. -/
def skipMarks (chunk : ℕ) (last : ℚ) : ℕ → ℚ → Option ℚ
  | 0, _ => none
  | fuel + 1, mark => if mark ≤ last then skipMarks chunk last fuel (mark + chunk) else some mark

/-- `if not starts or times[index] > starts[-1]: starts.append(times[index])`. -/
def addStart (starts : List ℚ) (time : ℚ) : List ℚ :=
  match starts.getLast? with
  | none => starts ++ [time]
  | some last => if last < time then starts ++ [time] else starts

/-- The outer loop, `while times and mark <= times[-1]`. -/
def cutLoop (times : List ℚ) (chunk : ℕ) (rate : Option ℚ) :
    ℕ → List ℚ → ℚ → ℕ → Option (List ℚ)
  | 0, _, _, _ => none
  | fuel + 1, starts, mark, index =>
      if times ≠ [] ∧ mark ≤ times.getLastD 0 then
        let index := nextIndex times rate mark (times.length - index) index
        if index = times.length then some starts
        else
          let starts := addStart starts (times.getD index 0)
          (skipMarks chunk (starts.getLastD 0) fuel (mark + chunk)).bind fun mark =>
            cutLoop times chunk rate fuel starts mark index
      else some starts

/-- `if len(starts) > 1 and times[-1] - starts[-1] < chunk_seconds / 2: starts.pop()`:
a remainder under half a piece joins the last piece. -/
def joinRemainder (times : List ℚ) (chunk : ℕ) (starts : List ℚ) : List ℚ :=
  if 1 < starts.length ∧ times.getLastD 0 - starts.getLastD 0 < (chunk : ℚ) / 2 then
    starts.dropLast
  else starts

/-- More rounds than either loop over the marks can need: every round moves the
mark, which starts at zero, on by `chunk` seconds. -/
def markFuel (times : List ℚ) (chunk : ℕ) : ℕ :=
  ⌊times.getLastD 0 / chunk⌋₊ + 3

/-- Each piece's start: the first suitable frame at or after every `chunk` seconds. -/
def frameStarts (frameTimes : List ℚ) (chunk : ℕ) (rate : Option ℚ) : Option (List ℚ) :=
  let times := frameTimes.insertionSort (· ≤ ·)
  (cutLoop times chunk rate (markFuel times chunk) [] 0 0).map (joinRemainder times chunk)

/-! ## The loops terminate and keep what the encode needs -/

/-- `nextIndex` stops on a suitable frame or at the end of the list. -/
theorem nextIndex_spec (times : List ℚ) (rate : Option ℚ) (mark : ℚ) (gap index : ℕ)
    (hgap : index + gap = times.length) :
    nextIndex times rate mark gap index ≤ times.length ∧
      (nextIndex times rate mark gap index ≠ times.length →
        suitable times rate (nextIndex times rate mark gap index) = true) := by
  induction gap generalizing index with
  | zero => exact ⟨by simp [nextIndex]; omega, fun hne => absurd (by simpa [nextIndex]) hne⟩
  | succ gap ih =>
      unfold nextIndex
      split
      · exact ih (index + 1) (by omega)
      · next hstop =>
          simp only [not_or, Bool.not_eq_false] at hstop
          exact ⟨by omega, fun _ => hstop.2⟩

/-- At the mark zero the first frame is taken, since no frame is before zero. -/
theorem nextIndex_zero (times : List ℚ) (rate : Option ℚ) (gap : ℕ)
    (hnonneg : 0 ≤ times.getD 0 0) : nextIndex times rate 0 gap 0 = 0 := by
  cases gap with
  | zero => rfl
  | succ gap =>
      have hlate : ¬ times.getD 0 0 < 0 - 1 / 10 ^ 6 := by
        have : (0 : ℚ) - 1 / 10 ^ 6 < 0 := by norm_num
        linarith
      have hsuit : suitable times rate 0 = true := by cases rate <;> simp [suitable]
      rw [nextIndex, if_neg (by simp only [hsuit, Bool.true_eq_false, or_false]; exact hlate)]

/-- The inner loop over the marks ends, past the last start and no earlier than
it began. -/
theorem skipMarks_spec (chunk : ℕ) (last mark : ℚ) (n : ℕ)
    (hfuel : last < mark + n * chunk) :
    ∃ mark', skipMarks chunk last (n + 1) mark = some mark' ∧ mark ≤ mark' := by
  induction n generalizing mark with
  | zero =>
      have hdone : ¬ mark ≤ last := by simpa using hfuel
      exact ⟨mark, by simp [skipMarks, hdone], le_rfl⟩
  | succ n ih =>
      unfold skipMarks
      split
      · have hfuel' : last < mark + chunk + n * chunk := by
          push_cast at hfuel
          linarith
        obtain ⟨mark', hmark', hle⟩ := ih (mark + chunk) hfuel'
        have hpos : (0 : ℚ) ≤ chunk := by positivity
        exact ⟨mark', hmark', by linarith⟩
      · exact ⟨mark, rfl, le_rfl⟩

/-- What holds of `starts` at every turn of the outer loop: strictly increasing,
suitable frames of the source, and, after the first turn, beginning with the
first frame. -/
structure CutInvariant (times : List ℚ) (rate : Option ℚ) (starts : List ℚ)
    (mark : ℚ) (index : ℕ) : Prop where
  ordered : starts.Pairwise (· < ·)
  frames : ∀ t ∈ starts, ∃ i, times[i]? = some t ∧ suitable times rate i = true
  first : starts = [] ∧ mark = 0 ∧ index = 0 ∨ starts.head? = times.head?

theorem addStart_ne_nil (starts : List ℚ) (t : ℚ) : addStart starts t ≠ [] := by
  cases hlast : starts.getLast? with
  | none => simp [addStart, hlast]
  | some last =>
      have hne : starts ≠ [] := by rintro rfl; simp at hlast
      by_cases hlt : last < t <;> simp [addStart, hlast, hlt, hne]

theorem head?_addStart {starts : List ℚ} (hne : starts ≠ []) (t : ℚ) :
    (addStart starts t).head? = starts.head? := by
  obtain ⟨a, rest, rfl⟩ := List.exists_cons_of_ne_nil hne
  unfold addStart
  split
  · rfl
  · split <;> rfl

theorem mem_addStart {starts : List ℚ} {t x : ℚ} (hx : x ∈ addStart starts t) :
    x ∈ starts ∨ x = t := by
  unfold addStart at hx
  split at hx
  · simpa using hx
  · split at hx
    · simpa using hx
    · exact .inl hx

theorem addStart_ordered {starts : List ℚ} (h : starts.Pairwise (· < ·)) (t : ℚ) :
    (addStart starts t).Pairwise (· < ·) := by
  unfold addStart
  split
  · next hnone =>
      obtain rfl : starts = [] := List.getLast?_eq_none_iff.mp hnone
      simp
  · next last hlast =>
      split
      · next hlt =>
          refine List.pairwise_append.mpr ⟨h, List.pairwise_singleton _ _, ?_⟩
          intro x hx y hy
          obtain rfl : y = t := by simpa using hy
          obtain ⟨init, rfl⟩ := List.getLast?_eq_some_iff.mp hlast
          rcases List.mem_append.mp hx with hin | hin
          · exact lt_trans ((List.pairwise_append.mp h).2.2 x hin last (by simp)) hlt
          · obtain rfl : x = last := by simpa using hin
            exact hlt
      · exact h

/-- One turn of the outer loop keeps the invariant. -/
theorem CutInvariant.turn {times : List ℚ} {rate : Option ℚ} {starts : List ℚ}
    {mark mark' : ℚ} {index : ℕ} (hnonneg : ∀ t ∈ times, 0 ≤ t)
    (hindex : index ≤ times.length) (hinv : CutInvariant times rate starts mark index)
    (hne : nextIndex times rate mark (times.length - index) index ≠ times.length) :
    CutInvariant times rate
      (addStart starts
        (times.getD (nextIndex times rate mark (times.length - index) index) 0))
      mark' (nextIndex times rate mark (times.length - index) index) := by
  set next := nextIndex times rate mark (times.length - index) index with hnext
  obtain ⟨hle, hsuit⟩ :=
    nextIndex_spec times rate mark (times.length - index) index (by omega)
  have hlt : next < times.length := by omega
  have hget : times[next]? = some (times.getD next 0) := by
    simp [List.getD_eq_getElem?_getD, List.getElem?_eq_getElem hlt]
  refine ⟨addStart_ordered hinv.ordered _, ?_, Or.inr ?_⟩
  · intro x hx
    rcases mem_addStart hx with hin | rfl
    · exact hinv.frames x hin
    · exact ⟨next, hget, hsuit hne⟩
  · rcases hinv.first with ⟨hnil, hmark, hzero⟩ | hhead
    · -- the first turn takes the first frame
      subst hmark hzero
      have hfirst : 0 ≤ times.getD 0 0 := by
        cases times with
        | nil => simp
        | cons a rest => exact hnonneg a (by simp)
      have hnext0 : next = 0 := hnext ▸ nextIndex_zero times rate _ hfirst
      rw [hnext0] at hget ⊢
      rw [List.head?_eq_getElem?, List.head?_eq_getElem?, hget, hnil]
      rfl
    · have hne' : starts ≠ [] := by
        rintro rfl
        cases times with
        | nil => exact absurd hlt (by simp)
        | cons a rest => simp at hhead
      rw [head?_addStart hne', hhead]

/-- Every element of a sorted list is at most the last. -/
theorem le_getLastD {times : List ℚ} (hsorted : times.Pairwise (· ≤ ·)) {t : ℚ}
    (ht : t ∈ times) : t ≤ times.getLastD 0 := by
  obtain ⟨init, last, rfl⟩ : ∃ init last, times = init ++ [last] :=
    ⟨times.dropLast, times.getLast (List.ne_nil_of_mem ht),
      (List.dropLast_append_getLast _).symm⟩
  rw [List.getLastD_concat]
  rcases List.mem_append.mp ht with hin | hin
  · exact (List.pairwise_append.mp hsorted).2.2 t hin last (by simp)
  · exact (List.mem_singleton.mp hin).le

/-- The last start is a frame, so it is no later than the last frame. -/
theorem CutInvariant.last_le {times : List ℚ} {rate : Option ℚ} {starts : List ℚ}
    {mark : ℚ} {index : ℕ} (hsorted : times.Pairwise (· ≤ ·))
    (hinv : CutInvariant times rate starts mark index) (hne : starts ≠ []) :
    starts.getLastD 0 ≤ times.getLastD 0 := by
  rw [List.getLastD_eq_getLast?, List.getLast?_eq_some_getLast hne]
  obtain ⟨i, hi, -⟩ := hinv.frames _ (List.getLast_mem hne)
  exact le_getLastD hsorted (List.mem_of_getElem? hi)

/-- The outer loop ends and answers starts with the invariant; there is at least
one if the source has a frame. -/
theorem cutLoop_spec {times : List ℚ} {rate : Option ℚ} {chunk : ℕ}
    (hnonneg : ∀ t ∈ times, 0 ≤ t) (hsorted : times.Pairwise (· ≤ ·))
    (n : ℕ) (starts : List ℚ) (mark : ℚ) (index : ℕ) (hindex : index ≤ times.length)
    (hinv : CutInvariant times rate starts mark index)
    (hfuel : times.getLastD 0 < mark + n * chunk) :
    ∃ starts' mark' index', cutLoop times chunk rate (n + 2) starts mark index = some starts' ∧
      CutInvariant times rate starts' mark' index' ∧ (times ≠ [] → starts' ≠ []) := by
  -- the loop is left only after a first turn: at the mark zero it takes a frame
  have hleft : times ≠ [] → times.getLastD 0 < mark → starts ≠ [] := by
    intro hne hlt hnil
    rcases hinv.first with ⟨-, hmark, -⟩ | hhead
    · have hlast := List.getLast_mem hne
      have hle := hnonneg _ hlast
      rw [List.getLastD_eq_getLast?, List.getLast?_eq_some_getLast hne] at hlt
      simp only [Option.getD_some] at hlt
      linarith
    · obtain ⟨a, rest, rfl⟩ := List.exists_cons_of_ne_nil hne
      simp [hnil] at hhead
  induction n generalizing starts mark index with
  | zero =>
      have hlt : times.getLastD 0 < mark := by simpa using hfuel
      refine ⟨starts, mark, index, ?_, hinv, fun hne => hleft hne hlt⟩
      rw [cutLoop, if_neg fun h => absurd h.2 (not_le.mpr hlt)]
  | succ n ih =>
      rw [cutLoop]
      split
      · next hgo =>
          obtain ⟨hne, hmark⟩ := hgo
          set next := nextIndex times rate mark (times.length - index) index with hnext
          by_cases hend : next = times.length
          · refine ⟨starts, mark, index, by simp [hend], hinv, fun _ hnil => ?_⟩
            rcases hinv.first with ⟨-, hmark0, hzero⟩ | hhead
            · subst hmark0 hzero
              obtain ⟨a, rest, rfl⟩ := List.exists_cons_of_ne_nil hne
              have hnext0 : next = 0 := nextIndex_zero _ rate _ (hnonneg a (by simp))
              simp [hnext0] at hend
            · obtain ⟨a, rest, rfl⟩ := List.exists_cons_of_ne_nil hne
              simp [hnil] at hhead
          · rw [if_neg hend]
            set starts' := addStart starts (times.getD next 0) with hstarts'
            have hturn : ∀ mark', CutInvariant times rate starts' mark' next := fun mark' =>
              hinv.turn hnonneg hindex hend
            have hne' : starts' ≠ [] := addStart_ne_nil _ _
            have hlast : starts'.getLastD 0 ≤ times.getLastD 0 := (hturn 0).last_le hsorted hne'
            have hfuel' : starts'.getLastD 0 < mark + chunk + (n + 1 : ℕ) * chunk := by
              have hpos : (0 : ℚ) ≤ chunk := by positivity
              linarith
            obtain ⟨mark', hskip, hle⟩ :=
              skipMarks_spec chunk (starts'.getLastD 0) (mark + chunk) (n + 1) hfuel'
            have hle' : next ≤ times.length :=
              (nextIndex_spec times rate mark _ index (by omega)).1
            have hfuel'' : times.getLastD 0 < mark' + n * chunk := by
              push_cast at hfuel
              linarith
            obtain ⟨out, m, i, hout, hI, hkeep⟩ :=
              ih starts' mark' next hle' (hturn mark') hfuel'' fun _ _ => hne'
            refine ⟨out, m, i, ?_, hI, hkeep⟩
            simp only [hskip, Option.bind_some]
            exact hout
      · next hstop =>
          refine ⟨starts, mark, index, rfl, hinv, fun hne => hleft hne ?_⟩
          by_contra hle
          exact hstop ⟨hne, not_lt.mp hle⟩

/-! ## What `frame_starts` answers -/

/-- The sorted source times, as `frame_starts` works on them. -/
def sortedTimes (frameTimes : List ℚ) : List ℚ := frameTimes.insertionSort (· ≤ ·)

theorem sortedTimes_pairwise (frameTimes : List ℚ) :
    (sortedTimes frameTimes).Pairwise (· ≤ ·) :=
  List.pairwise_insertionSort (· ≤ ·) frameTimes

theorem mem_sortedTimes {frameTimes : List ℚ} {t : ℚ} :
    t ∈ sortedTimes frameTimes ↔ t ∈ frameTimes :=
  (List.perm_insertionSort (· ≤ ·) frameTimes).mem_iff

/-- The starts of the pieces: strictly increasing, beginning with the earliest
frame, every one a suitable frame of the source. -/
structure StartsSpec (times : List ℚ) (rate : Option ℚ) (starts : List ℚ) : Prop where
  ordered : starts.Pairwise (· < ·)
  frames : ∀ t ∈ starts, ∃ i, times[i]? = some t ∧ suitable times rate i = true
  first : starts.head? = times.head?

/-- Leaving out the last start keeps the others as they are. -/
theorem StartsSpec.joinRemainder {times : List ℚ} {rate : Option ℚ} {starts : List ℚ}
    (hspec : StartsSpec times rate starts) (chunk : ℕ) :
    StartsSpec times rate (joinRemainder times chunk starts) := by
  unfold Worker.joinRemainder
  split
  · next hshort =>
      refine ⟨hspec.ordered.sublist (List.dropLast_sublist _),
        fun t ht => hspec.frames t (List.mem_of_mem_dropLast ht), ?_⟩
      rw [← hspec.first]
      match starts, hshort.1 with
      | a :: b :: rest, _ => rfl
  · exact hspec

/-- `frame_starts` always answers, and its answer meets `StartsSpec`. -/
theorem frameStarts_spec {frameTimes : List ℚ} (hne : frameTimes ≠ [])
    (hnonneg : ∀ t ∈ frameTimes, 0 ≤ t) {chunk : ℕ} (hchunk : 0 < chunk) (rate : Option ℚ) :
    ∃ starts, frameStarts frameTimes chunk rate = some starts ∧
      StartsSpec (sortedTimes frameTimes) rate starts := by
  set times := sortedTimes frameTimes with htimes
  have hsorted : times.Pairwise (· ≤ ·) := sortedTimes_pairwise frameTimes
  have hne' : times ≠ [] := by
    obtain ⟨t, ht⟩ := List.exists_mem_of_ne_nil _ hne
    exact List.ne_nil_of_mem (mem_sortedTimes.mpr ht)
  have hpos : (0 : ℚ) < chunk := by exact_mod_cast hchunk
  have hfuel : times.getLastD 0 < 0 + (⌊times.getLastD 0 / chunk⌋₊ + 1 : ℕ) * chunk := by
    have hfloor := Nat.lt_floor_add_one (times.getLastD 0 / chunk)
    rw [div_lt_iff₀ hpos] at hfloor
    push_cast
    linarith
  obtain ⟨starts, mark, index, hcut, hinv, hkeep⟩ :=
    cutLoop_spec (fun t ht => hnonneg t (mem_sortedTimes.mp ht)) hsorted _ [] 0 0
      (Nat.zero_le _) ⟨.nil, by simp, .inl ⟨rfl, rfl, rfl⟩⟩ hfuel
  have hfirst : starts.head? = times.head? := by
    rcases hinv.first with ⟨hnil, -⟩ | hhead
    · exact absurd hnil (hkeep hne')
    · exact hhead
  have hspec : StartsSpec times rate starts := ⟨hinv.ordered, hinv.frames, hfirst⟩
  refine ⟨joinRemainder times chunk starts, ?_, hspec.joinRemainder chunk⟩
  show (cutLoop times chunk rate (markFuel times chunk) [] 0 0).map _ = _
  rw [markFuel, hcut]
  rfl

/-- A start after the first frame begins its output frame: every earlier frame
rounds to an earlier output frame. -/
theorem outputTick_lt_of_suitable {times : List ℚ} {rate : ℚ} (hrate : 0 ≤ rate)
    (hsorted : times.Pairwise (· ≤ ·)) {i : ℕ} {s t : ℚ} (hi : times[i]? = some t)
    (hsuit : suitable times (some rate) i = true) (hs : s ∈ times) (hst : s < t) :
    outputTick s rate < outputTick t rate := by
  obtain ⟨hlt, rfl⟩ := List.getElem?_eq_some_iff.mp hi
  obtain ⟨j, hj, rfl⟩ := List.getElem_of_mem hs
  have hji : j < i := by
    by_contra hge
    rcases Nat.lt_or_eq_of_le (not_lt.mp hge) with h | h
    · exact absurd (List.pairwise_iff_getElem.mp hsorted i j hlt hj h) (not_le.mpr hst)
    · exact absurd hst (by simp [h])
  have hprev : i - 1 < times.length := by omega
  have hbefore : times[j] ≤ times[i - 1] := by
    rcases Nat.lt_or_eq_of_le (show j ≤ i - 1 by omega) with h | h
    · exact List.pairwise_iff_getElem.mp hsorted j (i - 1) hj hprev h
    · simp [h]
  have hbegin : outputTick times[i - 1] rate < outputTick times[i] rate := by
    have hi0 : i ≠ 0 := by omega
    simpa [suitable, hi0, List.getD_eq_getElem?_getD, List.getElem?_eq_getElem hlt,
      List.getElem?_eq_getElem hprev] using hsuit
  exact lt_of_le_of_lt (outputTick_mono hrate hbefore) hbegin

end Worker
end MediaPlayer
