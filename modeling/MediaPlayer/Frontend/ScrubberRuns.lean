import MediaPlayer.Frontend.ClipScrubber
import MediaPlayer.Frontend.EditRequests
import MediaPlayer.Worker.EditValidation

/-!
# Which ranges the scrubber reports

The shortest clip is a tenth of a second up to a minute and a second beyond, and a handle is
clamped to what the other one leaves.  On a video that has grown past a minute a range may end
within the first second, and then there is no room for the start: it is pushed below zero.

* `Room` — a handle has somewhere to go.
* `Sound` — what holds as long as no handle is moved without room, and no length comes that
  leaves none.
* `reports_valid` — every range reported until then is one the worker takes.
-/

namespace MediaPlayer
namespace Frontend

open Library Services Worker

/-! ## The grid -/

/-- A time the readout can show. -/
def OnGrid (seconds : ℚ) : Prop := ∃ tenths : ℤ, seconds = tenths / 10

theorem onGrid_toTenth (seconds : ℚ) : OnGrid (toTenth seconds) := ⟨_, rfl⟩

theorem onGrid_zero : OnGrid 0 := ⟨0, by norm_num⟩

theorem onGrid_snap (seconds : ℚ) (fine : Bool) : OnGrid (snap seconds fine) := by
  unfold snap
  split
  · exact onGrid_toTenth seconds
  · refine ⟨⌊seconds + 1 / 2⌋ * 10, ?_⟩
    push_cast
    ring

theorem onGrid_lastStop (duration : ℚ) : OnGrid (lastStop duration) := ⟨_, rfl⟩

theorem onGrid_shortest (fine : Bool) : OnGrid (shortest fine) := by
  cases fine with
  | true => exact ⟨1, by norm_num [shortest, minLengthFine]⟩
  | false => exact ⟨10, by norm_num [shortest, minLengthCoarse]⟩

theorem OnGrid.add {a b : ℚ} (ha : OnGrid a) (hb : OnGrid b) : OnGrid (a + b) := by
  obtain ⟨m, rfl⟩ := ha
  obtain ⟨n, rfl⟩ := hb
  exact ⟨m + n, by push_cast; ring⟩

theorem OnGrid.sub {a b : ℚ} (ha : OnGrid a) (hb : OnGrid b) : OnGrid (a - b) := by
  obtain ⟨m, rfl⟩ := ha
  obtain ⟨n, rfl⟩ := hb
  exact ⟨m - n, by push_cast; ring⟩

theorem OnGrid.min {a b : ℚ} (ha : OnGrid a) (hb : OnGrid b) : OnGrid (min a b) := by
  obtain h | h := min_choice a b <;> rw [h]
  · exact ha
  · exact hb

theorem OnGrid.max {a b : ℚ} (ha : OnGrid a) (hb : OnGrid b) : OnGrid (max a b) := by
  obtain h | h := max_choice a b <;> rw [h]
  · exact ha
  · exact hb

theorem OnGrid.clamp {value low high : ℚ} (hvalue : OnGrid value) (hlow : OnGrid low)
    (hhigh : OnGrid high) : OnGrid (clamp value low high) :=
  (hvalue.max hlow).min hhigh

/-- Times on the grid are left as they are. -/
theorem OnGrid.toTenth_eq {seconds : ℚ} (hgrid : OnGrid seconds) : toTenth seconds = seconds := by
  obtain ⟨tenths, rfl⟩ := hgrid
  have hfloor : ⌊(tenths : ℚ) / 10 * 10 + 1 / 2⌋ = tenths := by
    rw [Int.floor_eq_iff]
    constructor <;> linarith
  unfold toTenth
  rw [hfloor]

theorem shortest_pos (fine : Bool) : 0 < shortest fine := by
  cases fine <;> norm_num [shortest, minLengthFine, minLengthCoarse]

namespace Scrubber

variable {s t : Scrubber}

/-! ## Room -/

/-- The stretch a handle is clamped to is not empty. -/
def Room (s : Scrubber) : Handle → Prop
  | .start => s.gap ≤ s.finish
  | .finish => s.start + s.gap ≤ s.maxEnd

/-- The handle an event moves. -/
def moving (s : Scrubber) : ScrubberEvent → Option Handle
  | .press name (some _) | .key name _ => if s.usable then name else none
  | .pointerMove side _ =>
      match s.drag with
      | none => none
      | some (some name) => some name
      | some none => side
  | .press _ none | .durationChange _ | .release => none

/-- A handle is only moved where it has room.  A length that comes has its last stop within it,
and when a selection is to be fitted into it, that is not empty. -/
structure LeavesRoom (s : Scrubber) (event : ScrubberEvent) : Prop where
  move : ∀ name, s.moving event = some name → s.Room name
  stop : ∀ duration, event = .durationChange (some duration) → 0 < duration →
    lastStop duration ≤ duration
  selection : ∀ duration, event = .durationChange (some duration) → 0 < duration →
    s.touched = true → shortest (duration ≤ fineUpToSeconds) ≤ lastStop duration →
      s.start < s.finish

/-! ## The invariant -/

structure Sound (s : Scrubber) : Prop where
  unread : s.duration = none → s.maxEnd = 0
  stop_le : ∀ duration, s.duration = some duration → s.maxEnd ≤ duration
  stop_grid : OnGrid s.maxEnd
  start_grid : OnGrid s.start
  finish_grid : OnGrid s.finish
  start_nonneg : 0 ≤ s.start
  finish_le : s.finish ≤ s.maxEnd
  reports : ∀ report ∈ s.reports, report.Valid

/-- A range that is not empty is a valid report. -/
theorem Sound.report (hs : s.Sound) (hlt : s.start < s.finish) : s.report.Sound := by
  refine { hs with reports := fun report hreport => ?_ }
  obtain hold | hnew := List.mem_append.mp hreport
  · exact hs.reports report hold
  · obtain rfl := List.mem_singleton.mp hnew
    cases hduration : s.duration with
    | none =>
        -- Before a length has come there is no range.
        have hzero := hs.unread hduration
        have hnonneg := hs.start_nonneg
        have hle := hs.finish_le
        linarith
    | some duration =>
        exact ⟨duration, rfl, hs.start_nonneg, hlt, hs.finish_le.trans (hs.stop_le _ hduration)⟩

/-- A handle with room comes to stand on the grid, within the video and apart from the other. -/
theorem Sound.clamped_start (hs : s.Sound) (hroom : s.Room .start) (seconds : ℚ) :
    OnGrid (s.clamped seconds .start) ∧ 0 ≤ s.clamped seconds .start ∧
      s.clamped seconds .start < s.finish := by
  have hgap : OnGrid s.gap := onGrid_shortest s.fine
  have hlast := (hs.finish_grid.sub hgap).toTenth_eq
  have hpos : 0 < s.gap := shortest_pos s.fine
  -- With room the stretch is not empty, and on the grid rounding leaves its ends.
  have hhigh : 0 ≤ toTenth (s.finish - s.gap) := by
    rw [hlast]
    exact sub_nonneg.mpr hroom
  have hgrid := ((onGrid_snap seconds s.fine).clamp onGrid_zero hs.stop_grid).clamp onGrid_zero
    (onGrid_toTenth (s.finish - s.gap))
  obtain ⟨hlow, hle⟩ := EditPanel.clamp_mem (clamp (snap seconds s.fine) 0 s.maxEnd) hhigh
  refine ⟨hgrid, hlow, lt_of_le_of_lt hle ?_⟩
  rw [hlast]
  linarith

theorem Sound.clamped_finish (hs : s.Sound) (hroom : s.Room .finish) (seconds : ℚ) :
    OnGrid (s.clamped seconds .finish) ∧ s.start < s.clamped seconds .finish ∧
      s.clamped seconds .finish ≤ s.maxEnd := by
  have hgap : OnGrid s.gap := onGrid_shortest s.fine
  have hfirst := (hs.start_grid.add hgap).toTenth_eq
  have hpos : 0 < s.gap := shortest_pos s.fine
  have hlow : toTenth (s.start + s.gap) ≤ s.maxEnd := by
    rw [hfirst]
    exact hroom
  -- The end handle takes the last stop as it is, a time past it included.
  have hvalue : OnGrid (if s.maxEnd ≤ seconds then s.maxEnd
      else clamp (snap seconds s.fine) 0 s.maxEnd) := by
    split
    · exact hs.stop_grid
    · exact (onGrid_snap seconds s.fine).clamp onGrid_zero hs.stop_grid
  obtain ⟨hge, hle⟩ := EditPanel.clamp_mem (if s.maxEnd ≤ seconds then s.maxEnd
    else clamp (snap seconds s.fine) 0 s.maxEnd) hlow
  refine ⟨hvalue.clamp (onGrid_toTenth (s.start + s.gap)) hs.stop_grid, ?_, hle⟩
  refine lt_of_lt_of_le ?_ hge
  rw [hfirst]
  linarith

theorem Sound.setValue (hs : s.Sound) {name : Handle} (hroom : s.Room name) (seconds : ℚ) :
    (s.setValue name seconds).Sound := by
  have hplaced : ({ s.place (s.clamped seconds name) name with touched := true } : Scrubber).Sound ∧
      (s.place (s.clamped seconds name) name).start <
        (s.place (s.clamped seconds name) name).finish := by
    cases name with
    | start =>
        obtain ⟨hgrid, hnonneg, hlt⟩ := hs.clamped_start hroom seconds
        exact ⟨{ hs with start_grid := hgrid, start_nonneg := hnonneg }, hlt⟩
    | finish =>
        obtain ⟨hgrid, hlt, hle⟩ := hs.clamped_finish hroom seconds
        exact ⟨{ hs with finish_grid := hgrid, finish_le := hle }, hlt⟩
  unfold Scrubber.setValue
  dsimp only
  split
  · exact hplaced.1.report hplaced.2
  · exact hplaced.1

theorem fit_touched (s : Scrubber) : s.fit.touched = s.touched := by
  unfold Scrubber.fit
  split <;> rfl

theorem usable_fit {duration : ℚ} (husable : (s.resized duration).fit.usable = true) :
    shortest (duration ≤ fineUpToSeconds) ≤ lastStop duration := by
  have hroom := (of_decide_eq_true husable).2
  unfold Scrubber.fit at hroom
  split at hroom
  · exact hroom
  · exact hroom

/-- Both handles are within the new length, on the grid. -/
theorem Sound.fit (hs : s.Sound) (duration : ℚ) (hstop : lastStop duration ≤ duration) :
    (s.resized duration).fit.Sound := by
  have hstopGrid := onGrid_lastStop duration
  have hle : ∀ other, some duration = some other → lastStop duration ≤ other := by
    rintro other hother
    obtain rfl := Option.some.inj hother
    exact hstop
  unfold Scrubber.fit
  split
  · exact {
      unread := nofun
      stop_le := hle
      stop_grid := hstopGrid
      start_grid := onGrid_zero.max (hs.start_grid.min (onGrid_toTenth _))
      finish_grid := hs.finish_grid.min hstopGrid
      start_nonneg := le_max_left _ _
      finish_le := min_le_right _ _
      reports := hs.reports }
  · exact {
      unread := nofun
      stop_le := hle
      stop_grid := hstopGrid
      start_grid := onGrid_zero
      finish_grid := hstopGrid
      start_nonneg := le_refl _
      finish_le := le_refl _
      reports := hs.reports }

/-- A selection that is pulled in does not become empty. -/
theorem Sound.fit_lt (hs : s.Sound) {duration : ℚ} (htouched : s.touched = true)
    (husable : shortest (duration ≤ fineUpToSeconds) ≤ lastStop duration)
    (hlt : s.start < s.finish) :
    (s.resized duration).fit.start < (s.resized duration).fit.finish := by
  have hgap : 0 < shortest (duration ≤ fineUpToSeconds) := shortest_pos _
  -- The end stays a shortest clip above zero, and the start goes below it.
  have hfinish : 0 < min s.finish (lastStop duration) :=
    lt_min (lt_of_le_of_lt hs.start_nonneg hlt) (lt_of_lt_of_le hgap husable)
  have hroom : OnGrid (min s.finish (lastStop duration) - shortest (duration ≤ fineUpToSeconds)) :=
    (hs.finish_grid.min (onGrid_lastStop duration)).sub (onGrid_shortest _)
  unfold Scrubber.fit
  rw [if_pos (show (s.resized duration).touched = true from htouched)]
  show max 0 (min s.start (toTenth (min s.finish (lastStop duration) -
    shortest (duration ≤ fineUpToSeconds)))) < min s.finish (lastStop duration)
  rw [hroom.toTenth_eq]
  refine max_lt hfinish (lt_of_le_of_lt (min_le_right _ _) ?_)
  linarith

/-- A new length. -/
theorem Sound.readDuration (hs : s.Sound) {duration : ℚ}
    (hstop : 0 < duration → lastStop duration ≤ duration)
    (hselection : 0 < duration → s.touched = true →
      shortest (duration ≤ fineUpToSeconds) ≤ lastStop duration → s.start < s.finish) :
    (s.readDuration duration).Sound := by
  unfold Scrubber.readDuration
  split
  · exact hs
  · rename_i hnew
    have hpos : 0 < duration := not_le.mp fun hle => hnew (.inl hle)
    have hfit := hs.fit duration (hstop hpos)
    dsimp only
    split
    · rename_i hreported
      obtain ⟨htouched, husable⟩ := hreported
      replace htouched : s.touched = true :=
        (fit_touched (s.resized duration)).symm.trans htouched
      have hroom := usable_fit husable
      exact hfit.report (hs.fit_lt htouched hroom (hselection hpos htouched hroom))
    · exact hfit

theorem Sound.step (hs : s.Sound) {event : ScrubberEvent} (hroom : s.LeavesRoom event)
    (hstep : scrubberStep s event = some t) : t.Sound := by
  cases event with
  | durationChange duration =>
      cases duration with
      | none =>
          obtain rfl := Option.some.inj hstep
          exact hs
      | some duration =>
          obtain rfl := Option.some.inj hstep
          exact hs.readDuration (hroom.stop duration rfl) (hroom.selection duration rfl)
  | press name jump =>
      simp only [scrubberStep] at hstep
      split at hstep
      · rename_i husable
        have hheld : ({ s with drag := some name } : Scrubber).Sound := { hs with }
        split at hstep
        · rename_i name seconds
          obtain rfl := Option.some.inj hstep
          exact hheld.setValue (hroom.move name (if_pos husable)) seconds
        · obtain rfl := Option.some.inj hstep
          exact hheld
      · obtain rfl := Option.some.inj hstep
        exact hs
  | pointerMove side seconds =>
      have hmove := hroom.move
      simp only [scrubberStep] at hstep
      simp only [moving] at hmove
      split at hstep
      · cases hstep
      · rename_i name hdrag
        obtain rfl := Option.some.inj hstep
        rw [hdrag] at hmove
        exact hs.setValue (hmove name rfl) seconds
      · rename_i hdrag
        rw [hdrag] at hmove
        cases side with
        | none =>
            obtain rfl := Option.some.inj hstep
            exact hs
        | some name =>
            obtain rfl := Option.some.inj hstep
            have hheld : ({ s with drag := some (some name) } : Scrubber).Sound := { hs with }
            exact hheld.setValue (hmove name rfl) seconds
  | release =>
      obtain rfl := Option.some.inj hstep
      exact { hs with }
  | key name seconds =>
      obtain rfl := Option.some.inj hstep
      by_cases husable : s.usable = true
      · rw [if_pos husable]
        exact hs.setValue (hroom.move name (if_pos husable)) seconds
      · rw [if_neg husable]
        exact hs

theorem Sound.init (hinit : scrubberSystem.init s) : s.Sound := by
  obtain rfl : s = {} := hinit
  exact {
    unread := fun _ => rfl
    stop_le := nofun
    stop_grid := onGrid_zero
    start_grid := onGrid_zero
    finish_grid := onGrid_zero
    start_nonneg := le_refl _
    finish_le := le_refl _
    reports := nofun }

/-- As long as every handle that is moved has room and every length leaves some, each range the
scrubber reports lies within the video, and the worker takes it. -/
theorem reports_valid (s : Scrubber) (hreach : scrubberSystem.ReachableUnder LeavesRoom s) :
    ∀ report ∈ s.reports, ∃ duration, report.duration = some duration ∧
      (0 ≤ report.range.start ∧ report.range.start < report.range.finish ∧
        report.range.finish ≤ duration) ∧
      validateClip report.range.start report.range.finish (some duration) = .ok () := by
  have hs := hreach.invariant Sound (fun _ => Sound.init)
    fun _ _ _ _ hs hroom hstep => hs.step hroom hstep
  intro report hreport
  obtain ⟨duration, hduration, hvalid⟩ := hs.reports report hreport
  exact ⟨duration, hduration, hvalid, validateClip_ok_iff.mpr hvalid⟩

/-- On a video of a minute and a half the start is moved to the twelfth second. -/
theorem reports_valid_trimmed : ∃ s, scrubberSystem.ReachableUnder LeavesRoom s ∧
    s.reports = [⟨⟨12, 90⟩, some 90⟩] ∧ validateClip 12 90 (some 90) = .ok () := by
  have hloaded : scrubberSystem.ReachableUnder LeavesRoom (readDuration {} 90) := by
    refine .step (a := .durationChange (some 90)) (.init rfl) ⟨nofun, ?_, ?_⟩ rfl
    · rintro duration hduration -
      obtain rfl := Option.some.inj (ScrubberEvent.durationChange.inj hduration)
      decide +kernel
    · rintro duration - - htouched
      exact absurd htouched nofun
  have hmoved : scrubberSystem.ReachableUnder LeavesRoom
      ((readDuration {} 90).setValue .start 12) := by
    refine .step (a := .key .start 12) hloaded ⟨?_, nofun, nofun⟩ (by decide +kernel)
    intro name hname
    obtain ⟨-, hname⟩ := Option.ite_none_right_eq_some.mp hname
    obtain rfl := Option.some.inj hname
    show shortest _ ≤ _
    decide +kernel
  have hreports : ((readDuration {} 90).setValue .start 12).reports = [⟨⟨12, 90⟩, some 90⟩] := by
    decide +kernel
  obtain ⟨duration, hduration, -, haccepted⟩ := reports_valid _ hmoved ⟨⟨12, 90⟩, some 90⟩
    (by rw [hreports]; exact List.mem_singleton_self _)
  obtain rfl := Option.some.inj hduration
  exact ⟨_, hmoved, hreports, haccepted⟩

/-- A clip of the first tenth of a second, on a video that then turns out to be longer than a
minute: the start is moved, and pushed below zero. -/
theorem report_below_zero :
    ¬∀ s, scrubberSystem.Reachable s → ∀ report ∈ s.reports, report.Valid := by
  intro hall
  obtain ⟨s, hreach, hreported⟩ := StepSystem.Reachable.exists_of_run (M := scrubberSystem)
    (.init rfl) [.durationChange (some 50), .key .finish (1 / 10), .durationChange (some 100),
      .key .start 1] (fun s => s.reports.contains ⟨⟨-9 / 10, 1 / 10⟩, some 100⟩)
    (by decide +kernel)
  obtain ⟨duration, -, hnonneg, -⟩ := hall s hreach _ (List.contains_iff_mem.mp hreported)
  exact absurd hnonneg (by decide +kernel)

end Scrubber

end Frontend
end MediaPlayer
