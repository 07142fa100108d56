import MediaPlayer.Library.Parties
import MediaPlayer.Library.StepSystem
import MediaPlayer.Worker.ChunkedEncode
import MediaPlayer.Worker.PieceBoard

/-!
# One coordinator, its helpers, and the board between them

`ChunkedMp4.encode` with `_encode_until_all_done`, and `help_encode`, of
`app/worker/chunked.py`; `LadderPieces.encode` and `help_ladder` of
`app/worker/ladder_pieces.py` run the same loops over their own plan.  Each
Redis command or pipeline and each storage call is one step, and so is the work
between two of them.  A call may raise before or after it took effect, a process
may die between any two steps, a key may disappear at any time, and a step shows
the clock it reads.

* `Helper.next` is the helper's side: `take`, encode, `board.plan()`, upload,
  `finish`, and `give_back` from the `except BaseException`.
* `Attempt.next` is the coordinator's: `delete_prefix`, `open`, the loop with
  the three reads of `unclaimed`, the join, and the `finally`.
* `pieceSystem` interleaves attempts of one job, one after the other, with any
  number of helpers.

The progress reports, the wake-up calls and the audio have no effect on the
pieces and are left out; where one of them raises, the coordinator is where a
raise of the step before it leads.
-/

namespace MediaPlayer
namespace Worker

open Library

/-- `LadderPlan` of `app/worker/ladder_pieces.py`. -/
structure LadderPlan where
  jobId : ℕ
  sourceKey : String
  heights : List ℕ
  hdr : Bool
  maxFps : ℕ
  preset : String
  outputRate : ℚ
  starts : List ℚ
  startTicks : List ℤ
  firstFrames : List ℤ
  frames : List ℤ
  deriving DecidableEq

/-- `len(self.starts)`, as for the MP4's plan. -/
def LadderPlan.count (plan : LadderPlan) : ℕ := plan.starts.length

instance : BoardPlan PiecePlan := ⟨PiecePlan.count⟩

instance : BoardPlan LadderPlan := ⟨LadderPlan.count⟩

/-- What an encode of one piece yields: which plan it followed, and which piece. -/
structure Piece (π : Type*) where
  plan : π
  index : ℕ
  deriving DecidableEq

/-- Pieces by index: the job's objects under the pieces prefix (whose keys name
only the job and the index), or the coordinator's own files. -/
abbrev PieceStore (π : Type*) := AList fun _ : ℕ => Piece π

/-- What coordinator and helpers share.  `opened` counts the boards opened so far;
no process reads it. -/
structure PieceShared (π : Type*) where
  board : PieceBoard π
  objects : PieceStore π
  opened : ℕ

/-- Where a helper stands between two of its steps. -/
inductive HelperPhase
  | looking
  | popped (index : ℕ)
  | holding (index : ℕ)
  | encoded (index : ℕ)
  | checked (index : ℕ)
  /-- `under` is the number of boards opened when the upload was made. -/
  | uploaded (index under : ℕ)
  | finished (index : ℕ)
  | failing (index : ℕ)
  deriving DecidableEq

/-- A helper and the plan it read when it started. -/
structure Helper (π : Type*) where
  plan : π
  phase : HelperPhase

/-- Where the coordinator stands.  The phases of `unclaimed` carry what its reads
gave so far: the clock, the in-flight notes, the queue, the marks. -/
inductive CoordinatorPhase (π : Type*)
  | clearing (left : List ℕ)
  | looking
  | popped (index : ℕ)
  | readingInflight
  | readingTodo (t : ℚ) (seen : ℕ → Option ℚ)
  | droppingStale (t : ℚ) (seen : ℕ → Option ℚ) (queued : List ℕ)
  | readingDone (t : ℚ) (seen : ℕ → Option ℚ) (queued : List ℕ)
  | counting (t : ℚ) (seen : ℕ → Option ℚ) (queued : List ℕ) (done : Finset ℕ)
  | sleeping (t : ℚ) (seen : ℕ → Option ℚ) (queued : List ℕ) (done : Finset ℕ)
  | holding (index : ℕ)
  | finishing (index : ℕ)
  | joining (marks : Finset ℕ) (pieces : List (Piece π))
  | joined (marks : Finset ℕ) (pieces : List (Piece π))
  | closing
  | closed
  | cleaning (left : List ℕ)

/-- Between `board.open` and the `finally`: the attempt trusts its board. -/
def CoordinatorPhase.running {π : Type*} : CoordinatorPhase π → Bool
  | clearing _ | closing | closed | cleaning _ => false
  | _ => true

/-- One attempt: its plan, the pieces it encoded itself, and where it stands. -/
structure Attempt (π : Type*) where
  plan : π
  mine : PieceStore π
  phase : CoordinatorPhase π

namespace PieceShared

variable {π : Type*}

/-- Apply a command to the board. -/
def onBoard (shared : PieceShared π) (f : PieceBoard π → PieceBoard π) : PieceShared π :=
  { shared with board := f shared.board }

/-- `store.upload_file` under the piece's key. -/
def upload (shared : PieceShared π) (index : ℕ) (piece : Piece π) : PieceShared π :=
  { shared with objects := shared.objects.insert index piece }

/-- `remove_object` of one key that `delete_prefix` listed. -/
def removeObject (shared : PieceShared π) (index : ℕ) : PieceShared π :=
  { shared with objects := shared.objects.erase index }

/-- `board.open(plan)`. -/
def openBoard [BoardPlan π] (shared : PieceShared π) (plan : π) : PieceShared π :=
  { shared with board := PieceBoard.openWith plan, opened := shared.opened + 1 }

@[simp] theorem onBoard_board (shared : PieceShared π) (f : PieceBoard π → PieceBoard π) :
    (shared.onBoard f).board = f shared.board := rfl
@[simp] theorem onBoard_objects (shared : PieceShared π) (f : PieceBoard π → PieceBoard π) :
    (shared.onBoard f).objects = shared.objects := rfl
@[simp] theorem onBoard_opened (shared : PieceShared π) (f : PieceBoard π → PieceBoard π) :
    (shared.onBoard f).opened = shared.opened := rfl
@[simp] theorem upload_board (shared : PieceShared π) (i : ℕ) (piece : Piece π) :
    (shared.upload i piece).board = shared.board := rfl
@[simp] theorem upload_objects (shared : PieceShared π) (i : ℕ) (piece : Piece π) :
    (shared.upload i piece).objects = shared.objects.insert i piece := rfl
@[simp] theorem upload_opened (shared : PieceShared π) (i : ℕ) (piece : Piece π) :
    (shared.upload i piece).opened = shared.opened := rfl
@[simp] theorem removeObject_board (shared : PieceShared π) (i : ℕ) :
    (shared.removeObject i).board = shared.board := rfl
@[simp] theorem removeObject_opened (shared : PieceShared π) (i : ℕ) :
    (shared.removeObject i).opened = shared.opened := rfl

end PieceShared

section Steps

variable {π : Type*} [BoardPlan π]

/-- The helper goes on to `onReturn`, or its call raised and it goes to `onRaise`;
`none` ends it. -/
def Helper.go (helper : Helper π) (out : CallOutcome) (onReturn onRaise : Option HelperPhase) :
    Option (Helper π) :=
  (out.next onReturn onRaise).map fun phase => { helper with phase := phase }

/-- One step of `help_encode`. -/
def Helper.next (shared : PieceShared π) (helper : Helper π) (now : ℚ) (out : CallOutcome) :
    PieceShared π × Option (Helper π) :=
  match helper.phase with
  | .looking =>
      match shared.board.todo with
      | [] => (shared, none)
      | i :: _ =>
          (out.effect (·.onBoard PieceBoard.pop) shared, helper.go out (some (.popped i)) none)
  -- `take` raises outside the inner `try`: the piece is not given back.
  | .popped i =>
      (out.effect (·.onBoard (·.noteInflight i now)) shared,
        helper.go out (some (.holding i)) none)
  -- Download and encode; an index the plan does not have is an IndexError.
  | .holding i =>
      (shared, helper.go out
        (some (if i < BoardPlan.count helper.plan then .encoded i else .failing i))
        (some (.failing i)))
  | .encoded i =>
      (shared, helper.go out (if shared.board.plan.isNone then none else some (.checked i))
        (some (.failing i)))
  | .checked i =>
      (out.effect (·.upload i ⟨helper.plan, i⟩) shared,
        helper.go out (some (.uploaded i shared.opened)) (some (.failing i)))
  | .uploaded i _ =>
      (out.effect (·.onBoard (·.finish i)) shared,
        helper.go out (some (.finished i)) (some (.failing i)))
  | .finished i => (shared, helper.go out (some .looking) (some (.failing i)))
  | .failing i => (out.effect (·.onBoard (·.giveBack i)) shared, none)

/-- The coordinator goes on to `onReturn`; a raise takes it to its `finally`. -/
def Attempt.go (attempt : Attempt π) (out : CallOutcome) (onReturn : CoordinatorPhase π) :
    Option (Attempt π) :=
  some { attempt with phase := out.next onReturn .closing }

/-- A call outside the `try`: a raise ends the attempt. -/
def Attempt.goOutside (attempt : Attempt π) (out : CallOutcome)
    (onReturn : CoordinatorPhase π) : Option (Attempt π) :=
  out.next (some { attempt with phase := onReturn }) none

/-- One step of `encode`. -/
def Attempt.next (staleAfter : ℚ) (shared : PieceShared π) (attempt : Attempt π) (now : ℚ)
    (out : CallOutcome) : PieceShared π × Option (Attempt π) :=
  match attempt.phase with
  | .clearing (i :: left) =>
      (out.effect (·.removeObject i) shared, attempt.goOutside out (.clearing left))
  -- The loop starts with no piece of its own.
  | .clearing [] =>
      (out.effect (·.openBoard attempt.plan) shared,
        Attempt.goOutside { attempt with mine := ∅ } out .looking)
  | .looking =>
      match shared.board.todo with
      | [] => (shared, attempt.go out .readingInflight)
      | i :: _ => (out.effect (·.onBoard PieceBoard.pop) shared, attempt.go out (.popped i))
  | .popped i =>
      (out.effect (·.onBoard (·.noteInflight i now)) shared, attempt.go out (.holding i))
  -- `unclaimed`: the clock and the notes, the queue, the stale notes dropped, the marks.
  | .readingInflight => (shared, attempt.go out (.readingTodo now shared.board.inflight))
  | .readingTodo t seen => (shared, attempt.go out (.droppingStale t seen shared.board.todo))
  | .droppingStale t seen queued =>
      (out.effect (·.onBoard (·.dropStale staleAfter t seen)) shared,
        attempt.go out (.readingDone t seen queued))
  | .readingDone t seen queued =>
      match PieceBoard.orphans (BoardPlan.count attempt.plan) staleAfter t seen queued
          shared.board.done with
      | i :: _ => (shared, attempt.go out (.holding i))
      | [] => (shared, attempt.go out (.counting t seen queued shared.board.done))
  | .counting t seen queued done =>
      (shared, attempt.go out
        (if BoardPlan.count attempt.plan ≤ shared.board.done.card then
          .joining shared.board.done []
        else .sleeping t seen queued done))
  | .sleeping _ _ _ _ => (shared, attempt.go out .looking)
  | .holding i =>
      if i < BoardPlan.count attempt.plan then
        (shared, out.next
          (some { attempt with
            mine := attempt.mine.insert i ⟨attempt.plan, i⟩, phase := .finishing i })
          (some { attempt with phase := .closing }))
      else (shared, some { attempt with phase := .closing })
  | .finishing i => (out.effect (·.onBoard (·.finish i)) shared, attempt.go out .looking)
  -- `mine.get(index) or self._fetch(...)` for the next index, then the join.
  | .joining marks pieces =>
      if pieces.length < BoardPlan.count attempt.plan then
        match (attempt.mine.lookup pieces.length).or (shared.objects.lookup pieces.length) with
        | some piece => (shared, attempt.go out (.joining marks (pieces ++ [piece])))
        | none => (shared, some { attempt with phase := .closing })
      else (shared, attempt.go out (.joined marks pieces))
  | .joined _ _ => (shared, some { attempt with phase := .closing })
  | .closing =>
      (out.effect (·.onBoard fun _ => PieceBoard.empty) shared, attempt.goOutside out .closed)
  -- An exception from here on is logged and swallowed; the attempt is over either way.
  | .closed => (shared, attempt.goOutside out (.cleaning shared.objects.keys))
  | .cleaning (i :: left) =>
      (out.effect (·.removeObject i) shared, attempt.goOutside out (.cleaning left))
  | .cleaning [] => (shared, none)

end Steps

/-- The whole system at one moment. -/
structure PieceState (π : Type*) where
  shared : PieceShared π
  attempt : Option (Attempt π)
  helpers : ℕ → Option (Helper π)

/-- Who moves, and what the world shows the mover. -/
inductive PieceAction (π : Type*)
  /-- An attempt begins: `delete_prefix` lists the objects there are. -/
  | begin (plan : π)
  | coordinator (now : ℚ) (out : CallOutcome)
  | coordinatorDies
  /-- `board.plan()` of a new helper; with no plan there it returns at once. -/
  | helperStarts (helper : ℕ)
  | helper (helper : ℕ) (now : ℚ) (out : CallOutcome)
  | helperDies (helper : ℕ)
  | keyVanishes (key : BoardKey)

section System

variable {π : Type*} [BoardPlan π]

/-- One atomic step. -/
def pieceStep (staleAfter : ℚ) (s : PieceState π) : PieceAction π → Option (PieceState π)
  | .begin plan =>
      match s.attempt with
      | some _ => none
      | none => some { s with attempt := some ⟨plan, ∅, .clearing s.shared.objects.keys⟩ }
  | .coordinator now out =>
      s.attempt.map fun attempt =>
        let after := attempt.next staleAfter s.shared now out
        { s with shared := after.1, attempt := after.2 }
  | .coordinatorDies => some { s with attempt := none }
  | .helperStarts h =>
      match s.helpers h with
      | some _ => none
      | none => some { s with
          helpers := Function.update s.helpers h (s.shared.board.plan.map (⟨·, .looking⟩)) }
  | .helper h now out =>
      (s.helpers h).map fun helper =>
        let after := helper.next s.shared now out
        { s with shared := after.1, helpers := Function.update s.helpers h after.2 }
  | .helperDies h => some { s with helpers := Function.update s.helpers h none }
  | .keyVanishes key => some { s with shared := s.shared.onBoard (·.lose key) }

/-- Attempts of one job after each other, and the helpers, from a job nobody has
worked on. -/
def pieceSystem (π : Type*) [BoardPlan π] (staleAfter : ℚ) :
    StepSystem (PieceState π) (PieceAction π) where
  init s := s = ⟨⟨PieceBoard.empty, ∅, 0⟩, none, fun _ => none⟩
  step := pieceStep staleAfter

/-- One attempt only, from the moment its board is open: the helpers there are
hold its plan, and what lies in the bucket is arbitrary. -/
def oneAttemptSystem (plan : π) (staleAfter : ℚ) : StepSystem (PieceState π) (PieceAction π) where
  init s :=
    s.shared.board = PieceBoard.openWith plan ∧ s.attempt = some ⟨plan, ∅, .looking⟩ ∧
      ∀ h helper, s.helpers h = some helper → helper = ⟨plan, .looking⟩
  step s
    | .begin _ => none
    | action => pieceStep staleAfter s action

end System

end Worker
end MediaPlayer
