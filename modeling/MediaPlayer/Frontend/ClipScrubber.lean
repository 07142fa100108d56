import MediaPlayer.Frontend.EditPanel

/-!
# The clip scrubber

`mountClipScrubber` of `frontend/clip-scrubber.js`: two handles on the timeline of a video whose
length may change, and the range it hands to `onChange`.  Where the pointer stands on the track
is a time, any time.

* `Scrubber.readDuration` — a new length sets the grid and moves both handles into it.
* `Scrubber.setValue` — a handle is clamped against the other one.
* `scrubberSystem` — every event of the element, the pointer and the keyboard.
-/

namespace MediaPlayer
namespace Frontend

open Library

/-- `MIN_LENGTH_FINE`. -/
def minLengthFine : ℚ := 1 / 10

/-- `MIN_LENGTH_COARSE`. -/
def minLengthCoarse : ℚ := 1

/-- `FINE_UP_TO_SECONDS`. -/
def fineUpToSeconds : ℚ := 60

/-- `Math.round(seconds * 10) / 10`. -/
def toTenth (seconds : ℚ) : ℚ := ⌊seconds * 10 + 1 / 2⌋ / 10

/-- Snap a time to the scrubber's grid. -/
def snap (seconds : ℚ) (fine : Bool) : ℚ := if fine then toTenth seconds else ⌊seconds + 1 / 2⌋

/-- The last stop on a video of this length, rounded down to a tenth. -/
def lastStop (duration : ℚ) : ℚ := ⌊duration * 10 + 1 / 1000000⌋ / 10

/-- The shortest clip on a grid. -/
def shortest (fine : Bool) : ℚ := if fine then minLengthFine else minLengthCoarse

inductive Handle
  | start
  | finish
  deriving DecidableEq

/-- What `onChange` was handed, and the length of the video at that moment. -/
structure ClipReport where
  range : ClipRange
  duration : Option ℚ
  deriving DecidableEq

/-- What `validate_clip` asks of a range on a video of the length at that moment. -/
def ClipReport.Valid (report : ClipReport) : Prop :=
  ∃ duration, report.duration = some duration ∧ 0 ≤ report.range.start ∧
    report.range.start < report.range.finish ∧ report.range.finish ≤ duration

/-- `state`, and what was reported so far. -/
structure Scrubber where
  duration : Option ℚ := none
  maxEnd : ℚ := 0
  fine : Bool := true
  start : ℚ := 0
  finish : ℚ := 0
  touched : Bool := false
  /-- `drag`, with the handle it has hold of once that is decided. -/
  drag : Option (Option Handle) := none
  reports : List ClipReport := []
  deriving DecidableEq

namespace Scrubber

def gap (s : Scrubber) : ℚ := shortest s.fine

def usable (s : Scrubber) : Bool := s.duration.isSome ∧ s.gap ≤ s.maxEnd

/-- `state[name]`. -/
def value (s : Scrubber) : Handle → ℚ
  | .start => s.start
  | .finish => s.finish

/-- `state[name] = value`. -/
def place (s : Scrubber) (value : ℚ) : Handle → Scrubber
  | .start => { s with start := value }
  | .finish => { s with finish := value }

def report (s : Scrubber) : Scrubber :=
  { s with reports := s.reports ++ [⟨⟨s.start, s.finish⟩, s.duration⟩] }

/-- What a length sets. -/
def resized (s : Scrubber) (duration : ℚ) : Scrubber :=
  { s with
    duration := some duration
    fine := duration ≤ fineUpToSeconds
    maxEnd := lastStop duration }

/-- The handles after the length has changed: pulled in, or at both ends of an untouched
track. -/
def fit (s : Scrubber) : Scrubber :=
  if s.touched then
    let finish := min s.finish s.maxEnd
    { s with start := max 0 (min s.start (toTenth (finish - s.gap))), finish := finish }
  else { s with start := 0, finish := s.maxEnd }

/-- `readDuration`, for a finite length. -/
def readDuration (s : Scrubber) (duration : ℚ) : Scrubber :=
  if duration ≤ 0 ∨ s.duration = some duration then s
  else
    let s := (s.resized duration).fit
    if s.touched ∧ s.usable then s.report else s

/-- Where a handle that is moved to a time comes to stand. -/
def clamped (s : Scrubber) (seconds : ℚ) : Handle → ℚ
  | .start => clamp (clamp (snap seconds s.fine) 0 s.maxEnd) 0 (toTenth (s.finish - s.gap))
  | .finish =>
      -- The last stop need not lie on the grid of the steps.
      let value := if s.maxEnd ≤ seconds then s.maxEnd
        else clamp (snap seconds s.fine) 0 s.maxEnd
      clamp value (toTenth (s.start + s.gap)) s.maxEnd

/-- `setValue`. -/
def setValue (s : Scrubber) (name : Handle) (seconds : ℚ) : Scrubber :=
  let value := s.clamped seconds name
  let changed := value ≠ s.value name ∨ ¬s.touched
  let s := { s.place value name with touched := true }
  if changed then s.report else s

end Scrubber

inductive ScrubberEvent
  /-- The element tells a length; one that is not finite is `none`. -/
  | durationChange (duration : Option ℚ)
  /-- A press takes hold of a handle, or of none yet when they lie on each other; on the bare
  track the handle jumps to the time. -/
  | press (name : Option Handle) (jump : Option ℚ)
  /-- A move of a drag to a time; `side` is the handle a first move decides for, if it goes to
  any side. -/
  | pointerMove (side : Option Handle) (seconds : ℚ)
  | release
  /-- A key takes a handle to a time. -/
  | key (name : Handle) (seconds : ℚ)

open Scrubber in
/-- One event.  The pointer is only listened to between a press and its release. -/
def scrubberStep (s : Scrubber) : ScrubberEvent → Option Scrubber
  | .durationChange none => some s
  | .durationChange (some duration) => some (s.readDuration duration)
  | .press name jump =>
      if s.usable then
        let s := { s with drag := some name }
        match name, jump with
        | some name, some seconds => some (s.setValue name seconds)
        | _, _ => some s
      else some s
  | .pointerMove side seconds =>
      match s.drag with
      | none => none
      | some (some name) => some (s.setValue name seconds)
      -- The handles lie on each other: the first move that goes to a side decides.
      | some none =>
          match side with
          | none => some s
          | some name => some ({ s with drag := some (some name) }.setValue name seconds)
  | .release => some { s with drag := none }
  | .key name seconds => some (if s.usable then s.setValue name seconds else s)

/-- The component when it is mounted, before the element has told a length. -/
def scrubberSystem : StepSystem Scrubber ScrubberEvent where
  init s := s = {}
  step := scrubberStep

end Frontend
end MediaPlayer
