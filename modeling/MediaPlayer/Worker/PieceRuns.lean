import MediaPlayer.Worker.PieceSafety

/-!
# Runs of one attempt and of several

* `no_piece_lost` — one attempt, any number of helpers with its plan, any crashes,
  failures and lost keys: when the loop has returned, every piece is marked done and
  can be had, and the join gets the pieces in order; the coordinator sleeps only when
  every piece not done was seen queued or freshly in flight.
* `pieces_belong_to_attempt` — several attempts: what an attempt joins is its own, as
  long as no helper writes to a board that is not its own.
* `old_helper_joins_foreign_piece` — a run in which one does.
-/

namespace MediaPlayer
namespace Worker

open Library

section OneAttempt

variable {π : Type*} [BoardPlan π] {plan : π} {staleAfter : ℚ}

/-- Before `board.open`. -/
def CoordinatorPhase.preparing : CoordinatorPhase π → Bool
  | clearing _ => true
  | _ => false

omit [BoardPlan π] in
theorem Attempt.go_keeps {attempt attempt' : Attempt π} {out : CallOutcome}
    {onReturn : CoordinatorPhase π} (hreturn : onReturn.preparing = false)
    (hgo : attempt.go out onReturn = some attempt') :
    attempt'.plan = attempt.plan ∧ attempt'.phase.preparing = false := by
  obtain rfl := Option.some.inj hgo
  refine ⟨rfl, ?_⟩
  cases out with
  | returned => exact hreturn
  | raisedBefore => rfl
  | raisedAfter => rfl

/-- An attempt keeps its plan and does not prepare its board twice. -/
theorem Attempt.next_keeps {shared : PieceShared π} {attempt attempt' : Attempt π} {now : ℚ}
    {out : CallOutcome} (hopen : attempt.phase.preparing = false)
    (hnext : (attempt.next staleAfter shared now out).2 = some attempt') :
    attempt'.plan = attempt.plan ∧ attempt'.phase.preparing = false := by
  unfold Attempt.next at hnext
  cases hphase : attempt.phase with
  | clearing left => simp [hphase, CoordinatorPhase.preparing] at hopen
  | looking =>
      simp only [hphase] at hnext
      split at hnext <;> exact Attempt.go_keeps rfl hnext
  | readingDone t seen queued =>
      simp only [hphase] at hnext
      split at hnext <;> exact Attempt.go_keeps rfl hnext
  | counting t seen queued done =>
      simp only [hphase] at hnext
      refine Attempt.go_keeps ?_ hnext
      split <;> rfl
  | holding i =>
      simp only [hphase] at hnext
      split at hnext
      · cases out <;> obtain rfl := Option.some.inj hnext <;> exact ⟨rfl, rfl⟩
      · obtain rfl := Option.some.inj hnext
        exact ⟨rfl, rfl⟩
  | joining marks pieces =>
      simp only [hphase] at hnext
      split at hnext
      · split at hnext
        · exact Attempt.go_keeps rfl hnext
        · obtain rfl := Option.some.inj hnext
          exact ⟨rfl, rfl⟩
      · exact Attempt.go_keeps rfl hnext
  | joined marks pieces =>
      simp only [hphase] at hnext
      obtain rfl := Option.some.inj hnext
      exact ⟨rfl, rfl⟩
  | closing | closed =>
      simp only [hphase] at hnext
      obtain ⟨-, rfl⟩ := Attempt.of_goOutside hnext
      exact ⟨rfl, rfl⟩
  | cleaning left =>
      cases left with
      | nil => simp [hphase] at hnext
      | cons i left =>
          simp only [hphase] at hnext
          obtain ⟨-, rfl⟩ := Attempt.of_goOutside hnext
          exact ⟨rfl, rfl⟩
  | popped i | readingInflight | readingTodo t seen | droppingStale t seen queued
  | sleeping t seen queued done | finishing i =>
      simp only [hphase] at hnext
      exact Attempt.go_keeps rfl hnext

/-- With one attempt everybody has its plan, everything listed or held is an index of
it, and every upload was made since its board was opened. -/
structure OneAttempt (plan : π) (s : PieceState π) : Prop where
  listed : ∀ i ∈ s.shared.board.todo, i < BoardPlan.count plan
  stored : ∀ own, s.shared.board.plan = some own → own = plan
  attempt : ∀ attempt, s.attempt = some attempt →
    attempt.plan = plan ∧ attempt.phase.preparing = false
  helper : ∀ h helper, s.helpers h = some helper → helper.plan = plan ∧
    (∀ i, helper.phase.held = some i → i < BoardPlan.count plan) ∧
    ∀ i under, helper.phase = .uploaded i under → under = s.shared.opened

/-- So every step of a helper is one it may make. -/
theorem OneAttempt.trusted {s : PieceState π} (hone : OneAttempt plan s) (a : PieceAction π) :
    StepTrusted s a := by
  cases a with
  | helper h now out =>
      intro attempt hattempt helper hhelper hrunning
      obtain ⟨hplan, hheld, hunder⟩ := hone.helper h helper hhelper
      rw [(hone.attempt attempt hattempt).1]
      unfold Helper.MayWrite
      cases hphase : helper.phase with
      | checked i => exact hplan
      | uploaded i under => exact hunder i under hphase
      | failing i => exact hheld i (by rw [hphase]; rfl)
      | _ => trivial
  | _ => trivial

/-- What a helper's step leaves on the board. -/
theorem OneAttempt.helper_write {s : PieceState π} (hone : OneAttempt plan s) {h : ℕ}
    {helper : Helper π} (hhelper : s.helpers h = some helper) {after : PieceShared π}
    (hwrite : helper.Write s.shared after) :
    (∀ i ∈ after.board.todo, i < BoardPlan.count plan) ∧
      after.board.plan = s.shared.board.plan := by
  cases hwrite with
  | pop hphase => exact ⟨fun i hi => hone.listed i (PieceBoard.mem_pop_todo hi), rfl⟩
  | giveBack i hphase =>
      have hlt : i < BoardPlan.count plan :=
        (hone.helper h helper hhelper).2.1 i (by rw [hphase]; rfl)
      refine ⟨fun j hj => ?_, rfl⟩
      rcases List.mem_cons.mp hj with rfl | hj
      · exact hlt
      · exact hone.listed j hj
  | _ => exact ⟨hone.listed, rfl⟩

/-- Where a helper's step leaves the helper itself. -/
theorem OneAttempt.helper_move {s : PieceState π} (hone : OneAttempt plan s) {h : ℕ}
    {helper : Helper π} (hhelper : s.helpers h = some helper) {phase : HelperPhase}
    (hmove : helper.Move s.shared phase) :
    (∀ i, phase.held = some i → i < BoardPlan.count plan) ∧
      ∀ i under, phase = .uploaded i under → under = s.shared.opened := by
  have hheld := (hone.helper h helper hhelper).2.1
  cases hmove with
  | take i hmem =>
      refine ⟨?_, by simp⟩
      rintro _ ⟨⟩
      exact hone.listed i hmem
  | note i hphase | encode i hphase hlt | check i hphase | finish i under hphase =>
      refine ⟨?_, by simp⟩
      rintro _ ⟨⟩
      exact hheld i (by rw [hphase]; rfl)
  | upload i hphase =>
      refine ⟨?_, by rintro _ _ ⟨⟩; rfl⟩
      rintro _ ⟨⟩
      exact hheld i (by rw [hphase]; rfl)
  | again => exact ⟨by simp [HelperPhase.held], by simp⟩
  | fail i hphase =>
      refine ⟨?_, by simp⟩
      rintro _ ⟨⟩
      exact hheld i hphase

/-- What the coordinator's step leaves on the board, once the board is open. -/
theorem OneAttempt.attempt_write {s : PieceState π} (hone : OneAttempt plan s)
    {attempt : Attempt π} (hattempt : s.attempt = some attempt) {after : PieceShared π}
    (hwrite : attempt.Write s.shared after) :
    (∀ i ∈ after.board.todo, i < BoardPlan.count plan) ∧
      (∀ own, after.board.plan = some own → own = plan) ∧ after.opened = s.shared.opened := by
  cases hwrite with
  | openBoard hphase =>
      have hopen := (hone.attempt attempt hattempt).2
      simp [hphase, CoordinatorPhase.preparing] at hopen
  | pop => exact ⟨fun i hi => hone.listed i (PieceBoard.mem_pop_todo hi), hone.stored, rfl⟩
  | close => exact ⟨by simp [PieceBoard.empty], by simp [PieceBoard.empty], rfl⟩
  | _ => exact ⟨hone.listed, hone.stored, rfl⟩

theorem OneAttempt.step {s t : PieceState π} {a : PieceAction π} (hone : OneAttempt plan s)
    (hstep : (oneAttemptSystem plan staleAfter).step s a = some t) : OneAttempt plan t := by
  cases a with
  | begin own => simp [oneAttemptSystem] at hstep
  | coordinator now out =>
      obtain ⟨attempt, hattempt, rfl⟩ := Option.map_eq_some_iff.mp hstep
      obtain ⟨hlisted, hstored, hopened⟩ := hone.attempt_write hattempt
        (attempt.next_write staleAfter s.shared now out)
      have hkeeps := hone.attempt attempt hattempt
      refine ⟨hlisted, hstored, ?_, ?_⟩
      · intro attempt' hnext
        obtain ⟨hplan, hopen⟩ := Attempt.next_keeps hkeeps.2 hnext
        exact ⟨hplan.trans hkeeps.1, hopen⟩
      · dsimp only
        rw [hopened]
        exact hone.helper
  | coordinatorDies =>
      obtain rfl := Option.some.inj hstep
      exact ⟨hone.listed, hone.stored, by simp, hone.helper⟩
  | helperStarts h =>
      cases hhelper : s.helpers h with
      | some helper => simp [oneAttemptSystem, pieceStep, hhelper] at hstep
      | none =>
          simp only [oneAttemptSystem, pieceStep, hhelper] at hstep
          obtain rfl := Option.some.inj hstep
          refine ⟨hone.listed, hone.stored, hone.attempt,
            forall_update_some (fun g helper _ => hone.helper g helper) ?_⟩
          intro helper hsome
          obtain ⟨own, hown, rfl⟩ := Option.map_eq_some_iff.mp hsome
          exact ⟨hone.stored own hown, by simp [HelperPhase.held], by simp⟩
  | helper h now out =>
      obtain ⟨helper, hhelper, rfl⟩ := Option.map_eq_some_iff.mp hstep
      have hwrite := helper.next_write s.shared now out
      obtain ⟨hlisted, hboard⟩ := hone.helper_write hhelper hwrite
      refine ⟨hlisted, fun own hown => hone.stored own (hboard ▸ hown), hone.attempt, ?_⟩
      dsimp only
      rw [hwrite.opened_eq]
      refine forall_update_some (fun g helper _ => hone.helper g helper) ?_
      intro other hnext
      obtain ⟨phase, rfl, hmove⟩ := Helper.next_move hnext
      obtain ⟨hheld, hunder⟩ := hone.helper_move hhelper hmove
      exact ⟨(hone.helper h helper hhelper).1, hheld, hunder⟩
  | helperDies h =>
      obtain rfl := Option.some.inj hstep
      exact ⟨hone.listed, hone.stored, hone.attempt,
        forall_update_some (fun g helper _ => hone.helper g helper) (by simp)⟩
  | keyVanishes key =>
      obtain rfl := Option.some.inj hstep
      exact ⟨fun i hi => hone.listed i (PieceBoard.mem_lose.1 hi),
        fun own hown => hone.stored own (PieceBoard.lose_plan hown), hone.attempt, hone.helper⟩

/-- Both invariants hold from the moment the board is open. -/
theorem oneAttempt_reachable {s : PieceState π}
    (hs : (oneAttemptSystem plan staleAfter).Reachable s) :
    OneAttempt plan s ∧ PieceInv staleAfter s := by
  refine hs.invariant (fun s => OneAttempt plan s ∧ PieceInv staleAfter s) ?_ ?_
  · rintro s ⟨hboard, hattempt, hhelpers⟩
    refine ⟨⟨?_, ?_, ?_, ?_⟩, ?_, ?_⟩
    · intro i hi
      rw [hboard] at hi
      exact List.mem_range.mp hi
    · intro own hown
      rw [hboard] at hown
      exact (Option.some.inj hown).symm
    · intro attempt hsome
      obtain rfl := Option.some.inj (hattempt.symm.trans hsome)
      exact ⟨rfl, rfl⟩
    · intro h helper hhelper
      rw [hhelpers h helper hhelper]
      exact ⟨rfl, by simp [HelperPhase.held], by simp⟩
    · intro h helper hhelper
      rw [hhelpers h helper hhelper]
      trivial
    · intro attempt hsome hrunning
      obtain rfl := Option.some.inj (hattempt.symm.trans hsome)
      refine ⟨TrustedBoard.of_openWith hboard, trivial, ?_⟩
      intro h helper i hhelper huploaded
      simp [hhelpers h helper hhelper] at huploaded
  · rintro s a t - ⟨hone, hinv⟩ - hstep
    refine ⟨hone.step hstep, hinv.step (hone.trusted a) ?_⟩
    cases a with
    | begin own => simp [oneAttemptSystem] at hstep
    | _ => exact hstep

/-- What one attempt promises, where its coordinator stands. -/
def NoPieceLost (staleAfter : ℚ) (plan : π) (objects : PieceStore π) (attempt : Attempt π) :
    Prop :=
  match attempt.phase with
  -- The loop has returned: `marks` is what its last read of the marks gave, and the
  -- join has got `pieces` so far.
  | .joining marks pieces =>
      (∀ i < BoardPlan.count plan, i ∈ marks ∧
        (attempt.mine.lookup i ≠ none ∨ objects.lookup i ≠ none)) ∧
      pieces.length ≤ BoardPlan.count plan ∧
      pieces = (List.range pieces.length).map fun i => ⟨plan, i⟩
  | .joined marks pieces =>
      (∀ i < BoardPlan.count plan, i ∈ marks ∧
        (attempt.mine.lookup i ≠ none ∨ objects.lookup i ≠ none)) ∧
      pieces = (List.range (BoardPlan.count plan)).map fun i => ⟨plan, i⟩
  -- The coordinator sleeps after reading `seen`, `queued` and `done`.
  | .sleeping t seen queued done =>
      ∀ i < BoardPlan.count plan, i ∉ done →
        i ∈ queued ∨ PieceBoard.isFresh staleAfter t (seen i) = true
  | _ => True

omit [BoardPlan π] in
theorem HasPiece.found {mine objects : PieceStore π} {i : ℕ}
    (hhas : HasPiece plan mine objects i) : mine.lookup i ≠ none ∨ objects.lookup i ≠ none := by
  rcases hhas with h | h
  · exact Or.inl (by simp [h])
  · exact Or.inr (by simp [h])

/-- **No piece is lost.**  One attempt whose board is open, any number of helpers with
its plan, any order of their steps, any crash, failure or lost key. -/
theorem no_piece_lost {s : PieceState π} (hs : (oneAttemptSystem plan staleAfter).Reachable s)
    {attempt : Attempt π} (hattempt : s.attempt = some attempt) :
    NoPieceLost staleAfter plan s.shared.objects attempt := by
  obtain ⟨hone, hinv⟩ := oneAttempt_reachable hs
  have hplan := (hone.attempt attempt hattempt).1
  have hsound : attempt.phase.running = true →
      PhaseSound staleAfter plan attempt.mine s.shared.objects attempt.phase := by
    intro hrunning
    rw [← hplan]
    exact (hinv.attempt attempt hattempt hrunning).phase
  unfold NoPieceLost
  cases hphase : attempt.phase with
  | joining marks pieces =>
      rw [hphase] at hsound
      obtain ⟨hall, hle, hpieces⟩ := hsound rfl
      exact ⟨fun i hi => ⟨(hall i hi).1, (hall i hi).2.found⟩, hle, hpieces⟩
  | joined marks pieces =>
      rw [hphase] at hsound
      obtain ⟨hall, hpieces⟩ := hsound rfl
      exact ⟨fun i hi => ⟨(hall i hi).1, (hall i hi).2.found⟩, hpieces⟩
  | sleeping t seen queued done =>
      rw [hphase] at hsound
      exact hsound rfl
  | _ => trivial

end OneAttempt

/-- What the coordinator hands to the join, once it has every piece. -/
def Attempt.joinedPieces {π : Type*} (attempt : Attempt π) : Option (List (Piece π)) :=
  match attempt.phase with
  | .joined _ pieces => some pieces
  | _ => none

/-- Twenty seconds in two pieces. -/
def twoPiecePlan (crf : ℕ) : PiecePlan where
  jobId := 1
  sourceKey := "uploads/1"
  starts := [0, 10]
  maxFps := 30
  hdr := false
  maxHeight := 1080
  preset := "veryfast"
  crf := crf
  outputRate := some 30
  startTicks := [0, 300]
  frames := [300, 0]

/-- The board of the two pieces is open, and helper 0 has read its plan. -/
def twoPiecesOpen : PieceState PiecePlan where
  shared := ⟨PieceBoard.openWith (twoPiecePlan 23), ∅, 1⟩
  attempt := some ⟨twoPiecePlan 23, ∅, .looking⟩
  helpers := Function.update (fun _ => none) 0 (some ⟨twoPiecePlan 23, .looking⟩)

/-- `n` steps of the coordinator whose calls all return. -/
def coordinatorSteps (n : ℕ) : List (PieceAction PiecePlan) :=
  List.replicate n (.coordinator 0 .returned)

/-- `n` steps of a helper whose calls all return. -/
def helperSteps (h n : ℕ) : List (PieceAction PiecePlan) :=
  List.replicate n (.helper h 0 .returned)

/-- A helper uploads piece 0, the coordinator encodes piece 1 and joins both. -/
theorem no_piece_lost_twoPieces :
    ∃ (s : PieceState PiecePlan) (attempt : Attempt PiecePlan), s.attempt = some attempt ∧
    attempt.joinedPieces = some [⟨twoPiecePlan 23, 0⟩, ⟨twoPiecePlan 23, 1⟩] ∧
    NoPieceLost 60 (twoPiecePlan 23) s.shared.objects attempt := by
  have hinit : (oneAttemptSystem (twoPiecePlan 23) 60).Reachable twoPiecesOpen := by
    refine .init ⟨rfl, rfl, ?_⟩
    exact forall_update_some (p := fun _ helper => helper = _) (by simp) (by simp)
  obtain ⟨s, hs, hjoined⟩ := StepSystem.Reachable.exists_of_run hinit
    (helperSteps 0 6 ++ coordinatorSteps 13)
    (fun s => s.attempt.any fun attempt =>
      attempt.joinedPieces == some [⟨twoPiecePlan 23, 0⟩, ⟨twoPiecePlan 23, 1⟩])
    (by decide +kernel)
  obtain ⟨attempt, hattempt, hpieces⟩ := (Option.any_eq_true _ _).mp hjoined
  exact ⟨s, attempt, hattempt, by simpa using hpieces, no_piece_lost hs hattempt⟩

section Attempts

variable {π : Type*} [BoardPlan π] {staleAfter : ℚ}

/-- What every attempt is to rely on while its board is open: the indexes listed
(all that can be taken) and marked are its plan's, what it joins was encoded from its
plan, and the object of a piece it has to fetch next is there. -/
structure OwnPieces (shared : PieceShared π) (attempt : Attempt π) : Prop where
  listed : ∀ i ∈ shared.board.todo, i < BoardPlan.count attempt.plan
  marked : ∀ i ∈ shared.board.done, i < BoardPlan.count attempt.plan
  fetched : ∀ marks pieces, attempt.phase = .joining marks pieces →
    (∀ piece ∈ pieces, piece.plan = attempt.plan) ∧
      (pieces.length < BoardPlan.count attempt.plan →
        attempt.mine.lookup pieces.length = none → shared.objects.lookup pieces.length ≠ none)
  joined : ∀ pieces, attempt.joinedPieces = some pieces →
    ∀ piece ∈ pieces, piece.plan = attempt.plan

theorem pieceInv_reachable {s : PieceState π}
    (hs : (pieceSystem π staleAfter).ReachableUnder StepTrusted s) : PieceInv staleAfter s := by
  refine hs.invariant (PieceInv staleAfter) ?_ fun s a t _ hinv hok hstep => hinv.step hok hstep
  rintro s rfl
  exact ⟨by simp, by simp⟩

/-- **Pieces belong to their attempt**, in every run of attempts and helpers in which a
helper writes to an open board only what it may. -/
theorem pieces_belong_to_attempt {s : PieceState π}
    (hs : (pieceSystem π staleAfter).ReachableUnder StepTrusted s) {attempt : Attempt π}
    (hattempt : s.attempt = some attempt) (hrunning : attempt.phase.running = true) :
    OwnPieces s.shared attempt := by
  have hsound := (pieceInv_reachable hs).attempt attempt hattempt hrunning
  refine ⟨hsound.board.todo_lt, hsound.board.done_lt, ?_, ?_⟩
  · intro marks pieces hphase
    have hjoin := hsound.phase
    rw [hphase] at hjoin
    obtain ⟨-, -, hpieces⟩ := hjoin
    refine ⟨?_, ?_⟩
    · intro piece hpiece
      rw [hpieces] at hpiece
      obtain ⟨i, -, rfl⟩ := List.mem_map.mp hpiece
      rfl
    · intro hlt hmine
      have hfetch := hsound.fetch hphase hlt
      rw [hmine, Option.none_or] at hfetch
      simp [hfetch]
  · intro pieces hpieces piece hpiece
    have hjoin := hsound.phase
    unfold Attempt.joinedPieces at hpieces
    cases hphase : attempt.phase with
    | joined marks all =>
        rw [hphase] at hjoin
        simp only [hphase] at hpieces
        obtain rfl := Option.some.inj hpieces
        rw [hjoin.2] at hpiece
        obtain ⟨i, -, rfl⟩ := List.mem_map.mp hpiece
        rfl
    | _ => simp [hphase] at hpieces

end Attempts

/-- A first attempt at quality 23 whose helper has read its plan and is slow; the
attempt is given back, and a second one opens its board at quality 28. -/
def secondAttempt : List (PieceAction PiecePlan) :=
  .begin (twoPiecePlan 23) :: coordinatorSteps 1 ++ [.helperStarts 0] ++
    [.coordinator 0 .raisedBefore] ++ coordinatorSteps 3 ++
    .begin (twoPiecePlan 28) :: coordinatorSteps 1

/-- The old helper dies, and the second attempt joins its own pieces. -/
theorem pieces_belong_to_attempt_twoPieces :
    ∃ (s : PieceState PiecePlan) (attempt : Attempt PiecePlan),
      attempt.joinedPieces = some [⟨twoPiecePlan 28, 0⟩, ⟨twoPiecePlan 28, 1⟩] ∧
      OwnPieces s.shared attempt := by
  have hinit : (pieceSystem PiecePlan 60).ReachableUnder StepTrusted
    ⟨⟨PieceBoard.empty, ∅, 0⟩, none, fun _ => none⟩ := .init rfl
  obtain ⟨s, hs, hjoined⟩ := hinit.exists_of_runUnder
    (secondAttempt ++ [.helperDies 0] ++ coordinatorSteps 17)
    (fun s => s.attempt.any fun attempt => attempt.phase.running &&
      attempt.joinedPieces == some [⟨twoPiecePlan 28, 0⟩, ⟨twoPiecePlan 28, 1⟩])
    (by decide +kernel)
  obtain ⟨attempt, hattempt, hpieces⟩ := (Option.any_eq_true _ _).mp hjoined
  rw [Bool.and_eq_true, beq_iff_eq] at hpieces
  exact ⟨s, attempt, hpieces.2, pieces_belong_to_attempt hs hattempt hpieces.1⟩

/-- The board and the objects do not say whose they are.  The helper of the first
attempt takes piece 0 from the second one's list, encodes it at quality 23, finds a
plan stored, uploads and marks it; the second attempt joins it. -/
theorem old_helper_joins_foreign_piece :
    ¬ ∀ (s : PieceState PiecePlan) (attempt : Attempt PiecePlan),
      (pieceSystem PiecePlan 60).Reachable s → s.attempt = some attempt →
      attempt.phase.running = true → OwnPieces s.shared attempt := by
  intro hown
  have hinit : (pieceSystem PiecePlan 60).Reachable
    ⟨⟨PieceBoard.empty, ∅, 0⟩, none, fun _ => none⟩ := .init rfl
  obtain ⟨s, hs, hjoined⟩ := StepSystem.Reachable.exists_of_run hinit
    (secondAttempt ++ helperSteps 0 6 ++ coordinatorSteps 13)
    (fun s => s.attempt.any fun attempt => attempt.phase.running &&
      decide (attempt.plan = twoPiecePlan 28) &&
      attempt.joinedPieces == some [⟨twoPiecePlan 23, 0⟩, ⟨twoPiecePlan 28, 1⟩])
    (by decide +kernel)
  obtain ⟨attempt, hattempt, hfacts⟩ := (Option.any_eq_true _ _).mp hjoined
  simp only [Bool.and_eq_true, beq_iff_eq, decide_eq_true_eq] at hfacts
  have hplan := (hown s attempt hs hattempt hfacts.1.1).joined _ hfacts.2
    ⟨twoPiecePlan 23, 0⟩ (by simp)
  rw [hfacts.1.2] at hplan
  exact absurd hplan (by decide)

end Worker
end MediaPlayer
