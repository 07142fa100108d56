import MediaPlayer.Worker.PieceAttempts

/-!
# No piece is lost, and none is foreign

What every command keeps true of the board an attempt trusts:

* `TrustedBoard` — the indexes listed and marked are the plan's, and every piece
  marked done is one the coordinator encoded itself or an object encoded from
  this very plan.  Each command has its lemma.
* `PhaseSound` — what the coordinator knows where it stands, up to the list of
  pieces it joins.
* `AttemptSound` — the two together, with the uploads made since the board was
  opened; it survives every step that meets `StepTrusted`.

With the helpers of one attempt every step meets `StepTrusted`.  Over several
attempts a helper of an earlier one can break it, because the board and the
objects are named by the job alone.
-/

namespace MediaPlayer
namespace Worker

open Library

section Pieces

variable {π : Type*}

/-- Piece `i` of the plan can be had: it is the coordinator's own, or an object. -/
def HasPiece (plan : π) (mine objects : PieceStore π) (i : ℕ) : Prop :=
  mine.lookup i = some ⟨plan, i⟩ ∨ objects.lookup i = some ⟨plan, i⟩

/-- What is had can be fetched, and the fetch gives the plan's own piece. -/
theorem HasPiece.fetch {plan : π} {mine objects : PieceStore π} {i : ℕ}
    (hhas : HasPiece plan mine objects i)
    (hown : ∀ i piece, mine.lookup i = some piece → piece = ⟨plan, i⟩) :
    (mine.lookup i).or (objects.lookup i) = some ⟨plan, i⟩ := by
  cases hmine : mine.lookup i with
  | some piece => simp [hown i piece hmine]
  | none =>
      rcases hhas with h | h
      · simp [hmine] at h
      · simpa using h

/-- Uploading the plan's own piece keeps whatever is had. -/
theorem HasPiece.insert_object {plan : π} {mine objects : PieceStore π} {i : ℕ}
    (hhas : HasPiece plan mine objects i) (j : ℕ) :
    HasPiece plan mine (objects.insert j ⟨plan, j⟩) i := by
  rcases hhas with h | h
  · exact Or.inl h
  · refine Or.inr ?_
    by_cases hij : i = j
    · rw [hij, AList.lookup_insert]
    · rwa [AList.lookup_insert_ne hij]

theorem HasPiece.insert_mine {plan : π} {mine objects : PieceStore π} {i : ℕ}
    (hhas : HasPiece plan mine objects i) (j : ℕ) :
    HasPiece plan (mine.insert j ⟨plan, j⟩) objects i := by
  rcases hhas with h | h
  · refine Or.inl ?_
    by_cases hij : i = j
    · rw [hij, AList.lookup_insert]
    · rwa [AList.lookup_insert_ne hij]
  · exact Or.inr h

end Pieces

section Trust

variable {π : Type*} [BoardPlan π]

/-- What the attempt of `plan`, whose own pieces are `mine`, relies on. -/
structure TrustedBoard (plan : π) (mine : PieceStore π) (shared : PieceShared π) : Prop where
  todo_lt : ∀ i ∈ shared.board.todo, i < BoardPlan.count plan
  done_lt : ∀ i ∈ shared.board.done, i < BoardPlan.count plan
  done_has : ∀ i ∈ shared.board.done, HasPiece plan mine shared.objects i
  mine_own : ∀ i piece, mine.lookup i = some piece → piece = ⟨plan, i⟩

namespace TrustedBoard

variable {plan : π} {mine : PieceStore π} {shared : PieceShared π}

/-- A board just opened lists the plan's pieces and marks none. -/
theorem of_openWith (hopen : shared.board = PieceBoard.openWith plan) :
    TrustedBoard plan ∅ shared where
  todo_lt i hi := List.mem_range.mp (by rw [hopen] at hi; exact hi)
  done_lt i hi := by simp [hopen, PieceBoard.openWith] at hi
  done_has i hi := by simp [hopen, PieceBoard.openWith] at hi
  mine_own i piece hpiece := by simp at hpiece

theorem pop (hboard : TrustedBoard plan mine shared) :
    TrustedBoard plan mine (shared.onBoard PieceBoard.pop) :=
  ⟨fun i hi => hboard.todo_lt i (PieceBoard.mem_pop_todo hi), hboard.done_lt, hboard.done_has,
    hboard.mine_own⟩

theorem noteInflight (hboard : TrustedBoard plan mine shared) (i : ℕ) (now : ℚ) :
    TrustedBoard plan mine (shared.onBoard (·.noteInflight i now)) :=
  ⟨hboard.todo_lt, hboard.done_lt, hboard.done_has, hboard.mine_own⟩

theorem dropStale (hboard : TrustedBoard plan mine shared) (staleAfter now : ℚ)
    (seen : ℕ → Option ℚ) :
    TrustedBoard plan mine (shared.onBoard (·.dropStale staleAfter now seen)) :=
  ⟨hboard.todo_lt, hboard.done_lt, hboard.done_has, hboard.mine_own⟩

/-- A mark for a piece that can be had. -/
theorem finish (hboard : TrustedBoard plan mine shared) {i : ℕ}
    (hlt : i < BoardPlan.count plan) (hhas : HasPiece plan mine shared.objects i) :
    TrustedBoard plan mine (shared.onBoard (·.finish i)) where
  todo_lt := hboard.todo_lt
  done_lt j hj := by
    rcases Finset.mem_insert.mp hj with rfl | h
    · exact hlt
    · exact hboard.done_lt j h
  done_has j hj := by
    rcases Finset.mem_insert.mp hj with rfl | h
    · exact hhas
    · exact hboard.done_has j h
  mine_own := hboard.mine_own

theorem giveBack (hboard : TrustedBoard plan mine shared) {i : ℕ}
    (hlt : i < BoardPlan.count plan) :
    TrustedBoard plan mine (shared.onBoard (·.giveBack i)) where
  todo_lt j hj := by
    rcases List.mem_cons.mp hj with rfl | h
    · exact hlt
    · exact hboard.todo_lt j h
  done_lt := hboard.done_lt
  done_has := hboard.done_has
  mine_own := hboard.mine_own

theorem upload (hboard : TrustedBoard plan mine shared) (i : ℕ) :
    TrustedBoard plan mine (shared.upload i ⟨plan, i⟩) :=
  ⟨hboard.todo_lt, hboard.done_lt, fun j hj => (hboard.done_has j hj).insert_object i,
    hboard.mine_own⟩

/-- The coordinator's own encode of a piece. -/
theorem encode (hboard : TrustedBoard plan mine shared) (i : ℕ) :
    TrustedBoard plan (mine.insert i ⟨plan, i⟩) shared where
  todo_lt := hboard.todo_lt
  done_lt := hboard.done_lt
  done_has j hj := (hboard.done_has j hj).insert_mine i
  mine_own j piece hpiece := by
    by_cases hji : j = i
    · subst hji
      rw [AList.lookup_insert] at hpiece
      exact (Option.some.inj hpiece).symm
    · rw [AList.lookup_insert_ne hji] at hpiece
      exact hboard.mine_own j piece hpiece

/-- A key that disappears takes nothing into the lists. -/
theorem lose (hboard : TrustedBoard plan mine shared) (key : BoardKey) :
    TrustedBoard plan mine (shared.onBoard (·.lose key)) :=
  ⟨fun i hi => hboard.todo_lt i (PieceBoard.mem_lose.1 hi),
    fun i hi => hboard.done_lt i (PieceBoard.mem_lose.2 hi),
    fun i hi => hboard.done_has i (PieceBoard.mem_lose.2 hi), hboard.mine_own⟩

end TrustedBoard

/-- What the coordinator knows where it stands. -/
def PhaseSound (staleAfter : ℚ) (plan : π) (mine objects : PieceStore π) :
    CoordinatorPhase π → Prop
  | .popped i | .holding i => i < BoardPlan.count plan
  | .finishing i => i < BoardPlan.count plan ∧ HasPiece plan mine objects i
  | .counting t seen queued done | .sleeping t seen queued done =>
      ∀ i < BoardPlan.count plan, i ∉ done →
        i ∈ queued ∨ PieceBoard.isFresh staleAfter t (seen i) = true
  | .joining marks pieces =>
      (∀ i < BoardPlan.count plan, i ∈ marks ∧ HasPiece plan mine objects i) ∧
        pieces.length ≤ BoardPlan.count plan ∧
        pieces = (List.range pieces.length).map fun i => ⟨plan, i⟩
  | .joined marks pieces =>
      (∀ i < BoardPlan.count plan, i ∈ marks ∧ HasPiece plan mine objects i) ∧
        pieces = (List.range (BoardPlan.count plan)).map fun i => ⟨plan, i⟩
  | _ => True

/-- What the coordinator knows does not depend on the board, and survives the
upload of a piece of its plan. -/
theorem PhaseSound.upload {staleAfter : ℚ} {plan : π} {mine objects : PieceStore π}
    {phase : CoordinatorPhase π} (hphase : PhaseSound staleAfter plan mine objects phase)
    (i : ℕ) : PhaseSound staleAfter plan mine (objects.insert i ⟨plan, i⟩) phase := by
  cases phase with
  | finishing j => exact ⟨hphase.1, hphase.2.insert_object i⟩
  | joining marks pieces =>
      exact ⟨fun j hj => ⟨(hphase.1 j hj).1, (hphase.1 j hj).2.insert_object i⟩, hphase.2⟩
  | joined marks pieces =>
      exact ⟨fun j hj => ⟨(hphase.1 j hj).1, (hphase.1 j hj).2.insert_object i⟩, hphase.2⟩
  | _ => exact hphase

/-- An attempt whose board is open: its board can be trusted, its own knowledge is
right, and an upload made since the board was opened is the plan's piece. -/
structure AttemptSound (staleAfter : ℚ) (shared : PieceShared π) (attempt : Attempt π)
    (helpers : ℕ → Option (Helper π)) : Prop where
  board : TrustedBoard attempt.plan attempt.mine shared
  phase : PhaseSound staleAfter attempt.plan attempt.mine shared.objects attempt.phase
  uploaded : ∀ h helper i, helpers h = some helper → helper.phase = .uploaded i shared.opened →
    i < BoardPlan.count attempt.plan ∧ shared.objects.lookup i = some ⟨attempt.plan, i⟩

/-- What a helper has passed on its way: it encodes only indexes of its own plan, and
no upload is later than the last board. -/
def HelperSound (opened : ℕ) (helper : Helper π) : Prop :=
  match helper.phase with
  | .encoded i | .checked i => i < BoardPlan.count helper.plan
  | .uploaded i under => i < BoardPlan.count helper.plan ∧ under ≤ opened
  | _ => True

/-- The invariant: every helper is sound, and so is an attempt whose board is open. -/
structure PieceInv (staleAfter : ℚ) (s : PieceState π) : Prop where
  helper : ∀ h helper, s.helpers h = some helper → HelperSound s.shared.opened helper
  attempt : ∀ attempt, s.attempt = some attempt → attempt.phase.running = true →
    AttemptSound staleAfter s.shared attempt s.helpers

/-- What a helper may do to the board of `plan`, the last of `opened` boards: upload
a piece encoded from that plan, mark done a piece it uploaded since that board was
opened, give back an index of that plan. -/
def Helper.MayWrite (plan : π) (opened : ℕ) (helper : Helper π) : Prop :=
  match helper.phase with
  | .checked _ => helper.plan = plan
  | .uploaded _ under => under = opened
  | .failing i => i < BoardPlan.count plan
  | _ => True

/-- While an attempt's board is open, a helper that moves writes only what it may. -/
def StepTrusted (s : PieceState π) : PieceAction π → Prop
  | .helper h _ _ => ∀ attempt ∈ s.attempt, ∀ helper ∈ s.helpers h,
      attempt.phase.running = true → helper.MayWrite attempt.plan s.shared.opened
  | _ => True

instance [DecidableEq π] (plan : π) (opened : ℕ) :
    ∀ helper : Helper π, Decidable (helper.MayWrite plan opened)
  | ⟨own, .checked _⟩ => inferInstanceAs (Decidable (own = plan))
  | ⟨_, .uploaded _ under⟩ => inferInstanceAs (Decidable (under = opened))
  | ⟨_, .failing i⟩ => inferInstanceAs (Decidable (i < BoardPlan.count plan))
  | ⟨_, .looking⟩ | ⟨_, .popped _⟩ | ⟨_, .holding _⟩ | ⟨_, .encoded _⟩ | ⟨_, .finished _⟩ =>
      .isTrue trivial

instance [DecidableEq π] (s : PieceState π) : ∀ a, Decidable (StepTrusted s a)
  | .helper h _ _ => inferInstanceAs (Decidable (∀ attempt ∈ s.attempt, ∀ helper ∈ s.helpers h,
      attempt.phase.running = true → helper.MayWrite attempt.plan s.shared.opened))
  | .begin _ | .coordinator _ _ | .coordinatorDies | .helperStarts _ | .helperDies _
  | .keyVanishes _ => .isTrue trivial

/-! ## The helper's steps -/

/-- All that a helper's step can do to what it shares: nothing, or one command that
its phase calls for. -/
inductive Helper.Write (shared : PieceShared π) (helper : Helper π) : PieceShared π → Prop
  | nothing : Write shared helper shared
  | pop (hphase : helper.phase = .looking) :
      Write shared helper (shared.onBoard PieceBoard.pop)
  | note (i : ℕ) (now : ℚ) : Write shared helper (shared.onBoard (·.noteInflight i now))
  | upload (i : ℕ) (hphase : helper.phase = .checked i) :
      Write shared helper (shared.upload i ⟨helper.plan, i⟩)
  | finish (i under : ℕ) (hphase : helper.phase = .uploaded i under) :
      Write shared helper (shared.onBoard (·.finish i))
  | giveBack (i : ℕ) (hphase : helper.phase = .failing i) :
      Write shared helper (shared.onBoard (·.giveBack i))

theorem Helper.next_write (shared : PieceShared π) (helper : Helper π) (now : ℚ)
    (out : CallOutcome) : helper.Write shared (helper.next shared now out).1 := by
  have heffect : ∀ f : PieceShared π → PieceShared π, helper.Write shared (f shared) →
      helper.Write shared (out.effect f shared) := fun f hf =>
    CallOutcome.effect_of (p := helper.Write shared) .nothing hf out
  unfold Helper.next
  cases hphase : helper.phase with
  | looking =>
      cases shared.board.todo with
      | nil => exact .nothing
      | cons i rest => exact heffect (·.onBoard PieceBoard.pop) (.pop hphase)
  | popped i => exact heffect (·.onBoard (·.noteInflight i now)) (.note i now)
  | holding i => exact .nothing
  | encoded i => exact .nothing
  | checked i => exact heffect (·.upload i ⟨helper.plan, i⟩) (.upload i hphase)
  | uploaded i under => exact heffect (·.onBoard (·.finish i)) (.finish i under hphase)
  | finished i => exact .nothing
  | failing i => exact heffect (·.onBoard (·.giveBack i)) (.giveBack i hphase)

omit [BoardPlan π] in
/-- A helper opens no board. -/
theorem Helper.Write.opened_eq {shared after : PieceShared π} {helper : Helper π}
    (hwrite : helper.Write shared after) : after.opened = shared.opened := by
  cases hwrite <;> rfl

/-- The objects after a helper's step that is allowed: an object of the plan was
there before, or has just been uploaded, and none is lost. -/
theorem Helper.Write.lookup {plan : π} {shared after : PieceShared π} {helper : Helper π}
    (hwrite : helper.Write shared after) (hmay : helper.MayWrite plan shared.opened) {i : ℕ}
    (hobject : shared.objects.lookup i = some ⟨plan, i⟩) :
    after.objects.lookup i = some ⟨plan, i⟩ := by
  cases hwrite with
  | upload j hphase =>
      have hplan : helper.plan = plan := by simpa [Helper.MayWrite, hphase] using hmay
      rw [PieceShared.upload_objects, hplan]
      by_cases hij : i = j
      · rw [hij, AList.lookup_insert]
      · rwa [AList.lookup_insert_ne hij]
  | _ => exact hobject

/-- An allowed step of a sound helper keeps the board trusted. -/
theorem Helper.Write.board {plan : π} {mine : PieceStore π} {shared after : PieceShared π}
    {helper : Helper π} (hwrite : helper.Write shared after)
    (hmay : helper.MayWrite plan shared.opened) (hboard : TrustedBoard plan mine shared)
    (huploaded : ∀ i, helper.phase = .uploaded i shared.opened →
      i < BoardPlan.count plan ∧ shared.objects.lookup i = some ⟨plan, i⟩) :
    TrustedBoard plan mine after := by
  cases hwrite with
  | nothing => exact hboard
  | pop hphase => exact hboard.pop
  | note i now => exact hboard.noteInflight i now
  | upload i hphase =>
      have hplan : helper.plan = plan := by simpa [Helper.MayWrite, hphase] using hmay
      rw [hplan]
      exact hboard.upload i
  | finish i under hphase =>
      have hunder : under = shared.opened := by simpa [Helper.MayWrite, hphase] using hmay
      subst hunder
      have hpiece := huploaded i hphase
      exact hboard.finish hpiece.1 (Or.inr hpiece.2)
  | giveBack i hphase =>
      have hlt : i < BoardPlan.count plan := by simpa [Helper.MayWrite, hphase] using hmay
      exact hboard.giveBack hlt

theorem Helper.Write.phase {staleAfter : ℚ} {plan : π} {mine : PieceStore π}
    {shared after : PieceShared π} {helper : Helper π} (hwrite : helper.Write shared after)
    (hmay : helper.MayWrite plan shared.opened) {phase : CoordinatorPhase π}
    (hphase : PhaseSound staleAfter plan mine shared.objects phase) :
    PhaseSound staleAfter plan mine after.objects phase := by
  cases hwrite with
  | upload i hchecked =>
      have hplan : helper.plan = plan := by simpa [Helper.MayWrite, hchecked] using hmay
      rw [hplan]
      exact hphase.upload i
  | _ => exact hphase

/-- The index a helper has taken and neither finished with nor given back. -/
def HelperPhase.held : HelperPhase → Option ℕ
  | looking => none
  | popped i | holding i | encoded i | checked i | uploaded i _ | finished i | failing i => some i

/-- Where a helper can be after a step, if it has not ended. -/
inductive Helper.Move (shared : PieceShared π) (helper : Helper π) : HelperPhase → Prop
  | take (i : ℕ) (hmem : i ∈ shared.board.todo) : Move shared helper (.popped i)
  | note (i : ℕ) (hphase : helper.phase = .popped i) : Move shared helper (.holding i)
  | encode (i : ℕ) (hphase : helper.phase = .holding i)
      (hlt : i < BoardPlan.count helper.plan) : Move shared helper (.encoded i)
  | check (i : ℕ) (hphase : helper.phase = .encoded i) : Move shared helper (.checked i)
  | upload (i : ℕ) (hphase : helper.phase = .checked i) :
      Move shared helper (.uploaded i shared.opened)
  | finish (i under : ℕ) (hphase : helper.phase = .uploaded i under) :
      Move shared helper (.finished i)
  | again : Move shared helper .looking
  | fail (i : ℕ) (hheld : helper.phase.held = some i) : Move shared helper (.failing i)

omit [BoardPlan π] in
/-- `go` leaves the plan alone and ends in one of its two phases. -/
theorem Helper.of_go {helper helper' : Helper π} {out : CallOutcome}
    {onReturn onRaise : Option HelperPhase} (hgo : helper.go out onReturn onRaise = some helper')
    {p : HelperPhase → Prop} (hreturn : ∀ phase, onReturn = some phase → p phase)
    (hraise : ∀ phase, onRaise = some phase → p phase) :
    ∃ phase, helper' = { helper with phase := phase } ∧ p phase := by
  obtain ⟨phase, hphase, rfl⟩ := Option.map_eq_some_iff.mp hgo
  refine ⟨phase, rfl, ?_⟩
  cases out with
  | returned => exact hreturn phase hphase
  | raisedBefore => exact hraise phase hphase
  | raisedAfter => exact hraise phase hphase

theorem Helper.next_move {shared : PieceShared π} {helper helper' : Helper π} {now : ℚ}
    {out : CallOutcome} (hnext : (helper.next shared now out).2 = some helper') :
    ∃ phase, helper' = { helper with phase := phase } ∧ helper.Move shared phase := by
  have hfail : ∀ i, helper.phase.held = some i → ∀ phase,
      some (HelperPhase.failing i) = some phase → helper.Move shared phase := by
    intro i hheld phase hphase
    cases hphase
    exact .fail i hheld
  have hend : ∀ phase, (none : Option HelperPhase) = some phase → helper.Move shared phase :=
    fun _ h => absurd h (by simp)
  unfold Helper.next at hnext
  cases hphase : helper.phase with
  | looking =>
      cases htodo : shared.board.todo with
      | nil => simp [hphase, htodo] at hnext
      | cons i rest =>
          simp only [hphase, htodo] at hnext
          refine Helper.of_go hnext ?_ hend
          rintro _ ⟨⟩
          exact .take i (by simp [htodo])
  | popped i =>
      simp only [hphase] at hnext
      refine Helper.of_go hnext ?_ hend
      rintro _ ⟨⟩
      exact .note i hphase
  | holding i =>
      simp only [hphase] at hnext
      refine Helper.of_go hnext ?_ (hfail i (by simp [hphase, HelperPhase.held]))
      intro phase hsome
      by_cases hlt : i < BoardPlan.count helper.plan
      · rw [if_pos hlt] at hsome
        cases hsome
        exact .encode i hphase hlt
      · rw [if_neg hlt] at hsome
        exact hfail i (by simp [hphase, HelperPhase.held]) phase hsome
  | encoded i =>
      simp only [hphase] at hnext
      refine Helper.of_go hnext ?_ (hfail i (by simp [hphase, HelperPhase.held]))
      intro phase hsome
      cases hplan : shared.board.plan with
      | none => simp [hplan] at hsome
      | some plan =>
          simp only [hplan, Option.isNone_some] at hsome
          cases hsome
          exact .check i hphase
  | checked i =>
      simp only [hphase] at hnext
      refine Helper.of_go hnext ?_ (hfail i (by simp [hphase, HelperPhase.held]))
      rintro _ ⟨⟩
      exact .upload i hphase
  | uploaded i under =>
      simp only [hphase] at hnext
      refine Helper.of_go hnext ?_ (hfail i (by simp [hphase, HelperPhase.held]))
      rintro _ ⟨⟩
      exact .finish i under hphase
  | finished i =>
      simp only [hphase] at hnext
      refine Helper.of_go hnext ?_ (hfail i (by simp [hphase, HelperPhase.held]))
      rintro _ ⟨⟩
      exact .again
  | failing i => simp [hphase] at hnext

/-- What a helper has passed stays true of it. -/
theorem Helper.Move.sound {shared : PieceShared π} {helper : Helper π} {phase : HelperPhase}
    (hmove : helper.Move shared phase) (hsound : HelperSound shared.opened helper) :
    HelperSound shared.opened { helper with phase := phase } := by
  cases hmove with
  | encode i hphase hlt => exact hlt
  | check i hphase => simpa [HelperSound, hphase] using hsound
  | upload i hphase => exact ⟨by simpa [HelperSound, hphase] using hsound, le_rfl⟩
  | _ => trivial

/-- An allowed step of a helper keeps the attempt sound, also for the helper itself. -/
theorem AttemptSound.helper_next {staleAfter : ℚ} {shared : PieceShared π} {attempt : Attempt π}
    {helpers : ℕ → Option (Helper π)} (hattempt : AttemptSound staleAfter shared attempt helpers)
    {h : ℕ} {helper : Helper π} (hhelper : helpers h = some helper)
    (hsound : HelperSound shared.opened helper)
    (hmay : helper.MayWrite attempt.plan shared.opened) (now : ℚ) (out : CallOutcome) :
    AttemptSound staleAfter (helper.next shared now out).1 attempt
      (Function.update helpers h (helper.next shared now out).2) := by
  have hwrite := helper.next_write shared now out
  have hopened := hwrite.opened_eq
  refine ⟨hwrite.board hmay hattempt.board fun i hi => hattempt.uploaded h helper i hhelper hi,
    hwrite.phase hmay hattempt.phase, ?_⟩
  rw [hopened]
  intro g other i hother
  refine forall_update_some (p := fun _ o => o.phase = .uploaded i shared.opened → _)
    ?_ ?_ g other hother
  · intro g other _ hother huploaded
    have hold := hattempt.uploaded g other i hother huploaded
    exact ⟨hold.1, hwrite.lookup hmay hold.2⟩
  · intro other hnext huploaded
    obtain ⟨phase, rfl, hmove⟩ := Helper.next_move hnext
    cases hmove with
    | upload j hphase =>
        have hplan : helper.plan = attempt.plan := by
          simpa [Helper.MayWrite, hphase] using hmay
        have hlt : j < BoardPlan.count attempt.plan := by
          simpa [HelperSound, hphase, hplan] using hsound
        cases huploaded
        -- The helper has moved on, so the upload returned and its object is there.
        cases out with
        | returned => exact ⟨hlt, by simp [Helper.next, hphase, hplan]⟩
        | raisedBefore => simp [Helper.next, hphase, Helper.go] at hnext
        | raisedAfter => simp [Helper.next, hphase, Helper.go] at hnext
    | _ => simp at huploaded

/-! ## The coordinator's steps -/

omit [BoardPlan π] in
/-- After a call in the `try`, an attempt that goes on has had its result. -/
theorem Attempt.of_go {attempt attempt' : Attempt π} {out : CallOutcome}
    {onReturn : CoordinatorPhase π} (hgo : attempt.go out onReturn = some attempt')
    (hrunning : attempt'.phase.running = true) :
    out = .returned ∧ attempt' = { attempt with phase := onReturn } := by
  cases out with
  | returned => exact ⟨rfl, (Option.some.inj hgo).symm⟩
  | raisedBefore =>
      obtain rfl := Option.some.inj hgo
      simp [CoordinatorPhase.running] at hrunning
  | raisedAfter =>
      obtain rfl := Option.some.inj hgo
      simp [CoordinatorPhase.running] at hrunning

omit [BoardPlan π] in
/-- After a call outside the `try` there is an attempt only if the call returned. -/
theorem Attempt.of_goOutside {attempt attempt' : Attempt π} {out : CallOutcome}
    {onReturn : CoordinatorPhase π} (hgo : attempt.goOutside out onReturn = some attempt') :
    out = .returned ∧ attempt' = { attempt with phase := onReturn } := by
  cases out with
  | returned => exact ⟨rfl, (Option.some.inj hgo).symm⟩
  | raisedBefore => simp [Attempt.goOutside] at hgo
  | raisedAfter => simp [Attempt.goOutside] at hgo

/-- The marks were enough: every piece is marked and can be had. -/
theorem TrustedBoard.all_done {plan : π} {mine : PieceStore π} {shared : PieceShared π}
    (hboard : TrustedBoard plan mine shared)
    (hcount : BoardPlan.count plan ≤ shared.board.done.card) :
    ∀ i < BoardPlan.count plan, i ∈ shared.board.done ∧ HasPiece plan mine shared.objects i := by
  intro i hi
  have hmem := PieceBoard.mem_of_count_le hboard.done_lt hcount hi
  exact ⟨hmem, hboard.done_has i hmem⟩

/-- A fetch that is next in line finds the plan's own piece. -/
theorem AttemptSound.fetch {staleAfter : ℚ} {shared : PieceShared π} {attempt : Attempt π}
    {helpers : ℕ → Option (Helper π)} (hattempt : AttemptSound staleAfter shared attempt helpers)
    {marks : Finset ℕ} {pieces : List (Piece π)} (hphase : attempt.phase = .joining marks pieces)
    {i : ℕ} (hi : i < BoardPlan.count attempt.plan) :
    (attempt.mine.lookup i).or (shared.objects.lookup i) = some ⟨attempt.plan, i⟩ := by
  have hjoin := hattempt.phase
  rw [hphase] at hjoin
  exact (hjoin.1 i hi).2.fetch hattempt.board.mine_own

/-- A step that leaves the objects and the number of boards alone, with the board
trusted and the new phase right, keeps the attempt sound. -/
theorem AttemptSound.move {staleAfter : ℚ} {shared after : PieceShared π}
    {attempt attempt' : Attempt π} {helpers : ℕ → Option (Helper π)}
    (hattempt : AttemptSound staleAfter shared attempt helpers)
    (hplan : attempt'.plan = attempt.plan) (hobjects : after.objects = shared.objects)
    (hopened : after.opened = shared.opened)
    (hboard : TrustedBoard attempt'.plan attempt'.mine after)
    (hphase : PhaseSound staleAfter attempt'.plan attempt'.mine after.objects attempt'.phase) :
    AttemptSound staleAfter after attempt' helpers where
  board := hboard
  phase := hphase
  uploaded h helper i hhelper huploaded := by
    rw [hopened] at huploaded
    rw [hplan, hobjects]
    exact hattempt.uploaded h helper i hhelper huploaded

/-- A step of a running coordinator that goes on. -/
theorem AttemptSound.next {staleAfter : ℚ} {shared : PieceShared π} {attempt attempt' : Attempt π}
    {helpers : ℕ → Option (Helper π)} (hattempt : AttemptSound staleAfter shared attempt helpers)
    {now : ℚ} {out : CallOutcome} (hbefore : attempt.phase.running = true)
    (hnext : (attempt.next staleAfter shared now out).2 = some attempt')
    (hrunning : attempt'.phase.running = true) :
    AttemptSound staleAfter (attempt.next staleAfter shared now out).1 attempt' helpers := by
  have hboard := hattempt.board
  have hknown := hattempt.phase
  cases hphase : attempt.phase with
  | clearing left => simp [hphase, CoordinatorPhase.running] at hbefore
  | closing => simp [hphase, CoordinatorPhase.running] at hbefore
  | closed => simp [hphase, CoordinatorPhase.running] at hbefore
  | cleaning left => simp [hphase, CoordinatorPhase.running] at hbefore
  | looking =>
      cases htodo : shared.board.todo with
      | nil =>
          simp only [Attempt.next, hphase, htodo] at hnext ⊢
          obtain ⟨rfl, rfl⟩ := Attempt.of_go hnext hrunning
          exact hattempt.move rfl rfl rfl hboard trivial
      | cons i rest =>
          simp only [Attempt.next, hphase, htodo] at hnext ⊢
          obtain ⟨rfl, rfl⟩ := Attempt.of_go hnext hrunning
          exact hattempt.move rfl rfl rfl hboard.pop (hboard.todo_lt i (by simp [htodo]))
  | popped i =>
      rw [hphase] at hknown
      simp only [Attempt.next, hphase] at hnext ⊢
      obtain ⟨rfl, rfl⟩ := Attempt.of_go hnext hrunning
      exact hattempt.move rfl rfl rfl (hboard.noteInflight i now) hknown
  | readingInflight =>
      simp only [Attempt.next, hphase] at hnext ⊢
      obtain ⟨rfl, rfl⟩ := Attempt.of_go hnext hrunning
      exact hattempt.move rfl rfl rfl hboard trivial
  | readingTodo t seen =>
      simp only [Attempt.next, hphase] at hnext ⊢
      obtain ⟨rfl, rfl⟩ := Attempt.of_go hnext hrunning
      exact hattempt.move rfl rfl rfl hboard trivial
  | droppingStale t seen queued =>
      simp only [Attempt.next, hphase] at hnext ⊢
      obtain ⟨rfl, rfl⟩ := Attempt.of_go hnext hrunning
      exact hattempt.move rfl rfl rfl (hboard.dropStale staleAfter t seen) trivial
  | readingDone t seen queued =>
      cases horphans : PieceBoard.orphans (BoardPlan.count attempt.plan) staleAfter t seen queued
          shared.board.done with
      | nil =>
          simp only [Attempt.next, hphase, horphans] at hnext ⊢
          obtain ⟨rfl, rfl⟩ := Attempt.of_go hnext hrunning
          exact hattempt.move rfl rfl rfl hboard
            fun i hi hdone => PieceBoard.seen_of_orphans_eq_nil horphans hi hdone
      | cons i rest =>
          simp only [Attempt.next, hphase, horphans] at hnext ⊢
          obtain ⟨rfl, rfl⟩ := Attempt.of_go hnext hrunning
          have hmem : i ∈ PieceBoard.orphans (BoardPlan.count attempt.plan) staleAfter t seen
              queued shared.board.done := by simp [horphans]
          exact hattempt.move rfl rfl rfl hboard (PieceBoard.lt_of_mem_orphans hmem)
  | counting t seen queued done =>
      rw [hphase] at hknown
      simp only [Attempt.next, hphase] at hnext ⊢
      obtain ⟨rfl, rfl⟩ := Attempt.of_go hnext hrunning
      refine hattempt.move rfl rfl rfl hboard ?_
      by_cases hcount : BoardPlan.count attempt.plan ≤ shared.board.done.card
      · simp only [if_pos hcount]
        exact ⟨hboard.all_done hcount, Nat.zero_le _, rfl⟩
      · simp only [if_neg hcount]
        exact hknown
  | sleeping t seen queued done =>
      simp only [Attempt.next, hphase] at hnext ⊢
      obtain ⟨rfl, rfl⟩ := Attempt.of_go hnext hrunning
      exact hattempt.move rfl rfl rfl hboard trivial
  | holding i =>
      rw [hphase] at hknown
      have hlt : i < BoardPlan.count attempt.plan := hknown
      simp only [Attempt.next, hphase, if_pos hlt] at hnext ⊢
      cases out with
      | returned =>
          obtain rfl := Option.some.inj hnext
          exact hattempt.move rfl rfl rfl (hboard.encode i)
            ⟨hlt, Or.inl (AList.lookup_insert _)⟩
      | raisedBefore =>
          obtain rfl := Option.some.inj hnext
          simp [CoordinatorPhase.running] at hrunning
      | raisedAfter =>
          obtain rfl := Option.some.inj hnext
          simp [CoordinatorPhase.running] at hrunning
  | finishing i =>
      rw [hphase] at hknown
      simp only [Attempt.next, hphase] at hnext ⊢
      obtain ⟨rfl, rfl⟩ := Attempt.of_go hnext hrunning
      exact hattempt.move rfl rfl rfl (hboard.finish hknown.1 hknown.2) trivial
  | joining marks pieces =>
      rw [hphase] at hknown
      obtain ⟨hall, hle, hpieces⟩ := hknown
      by_cases hlt : pieces.length < BoardPlan.count attempt.plan
      · have hfetch := hattempt.fetch hphase hlt
        simp only [Attempt.next, hphase, if_pos hlt, hfetch] at hnext ⊢
        obtain ⟨rfl, rfl⟩ := Attempt.of_go hnext hrunning
        refine hattempt.move rfl rfl rfl hboard ⟨hall, by simpa [Nat.succ_le_iff] using hlt, ?_⟩
        rw [List.length_append, List.length_singleton, List.range_succ, List.map_append,
          ← hpieces]
        rfl
      · simp only [Attempt.next, hphase, if_neg hlt] at hnext ⊢
        obtain ⟨rfl, rfl⟩ := Attempt.of_go hnext hrunning
        have hlength : pieces.length = BoardPlan.count attempt.plan := by omega
        exact hattempt.move rfl rfl rfl hboard ⟨hall, hlength ▸ hpieces⟩
  | joined marks pieces =>
      simp only [Attempt.next, hphase] at hnext
      obtain rfl := Option.some.inj hnext
      simp [CoordinatorPhase.running] at hrunning

/-- All that the coordinator's step can do to what it shares. -/
inductive Attempt.Write (shared : PieceShared π) (attempt : Attempt π) : PieceShared π → Prop
  | nothing : Write shared attempt shared
  | remove (i : ℕ) : Write shared attempt (shared.removeObject i)
  | openBoard (hphase : attempt.phase = .clearing []) :
      Write shared attempt (shared.openBoard attempt.plan)
  | pop : Write shared attempt (shared.onBoard PieceBoard.pop)
  | note (i : ℕ) (now : ℚ) : Write shared attempt (shared.onBoard (·.noteInflight i now))
  | dropStale (staleAfter t : ℚ) (seen : ℕ → Option ℚ) :
      Write shared attempt (shared.onBoard (·.dropStale staleAfter t seen))
  | finish (i : ℕ) : Write shared attempt (shared.onBoard (·.finish i))
  | close : Write shared attempt (shared.onBoard fun _ => PieceBoard.empty)

theorem Attempt.next_write (staleAfter : ℚ) (shared : PieceShared π) (attempt : Attempt π)
    (now : ℚ) (out : CallOutcome) :
    attempt.Write shared (attempt.next staleAfter shared now out).1 := by
  have heffect : ∀ f : PieceShared π → PieceShared π, attempt.Write shared (f shared) →
      attempt.Write shared (out.effect f shared) := fun f hf =>
    CallOutcome.effect_of (p := attempt.Write shared) .nothing hf out
  unfold Attempt.next
  cases hphase : attempt.phase with
  | clearing left =>
      cases left with
      | nil => exact heffect (·.openBoard attempt.plan) (.openBoard hphase)
      | cons i left => exact heffect (·.removeObject i) (.remove i)
  | looking =>
      cases shared.board.todo with
      | nil => exact .nothing
      | cons i rest => exact heffect (·.onBoard PieceBoard.pop) .pop
  | popped i => exact heffect (·.onBoard (·.noteInflight i now)) (.note i now)
  | droppingStale t seen queued =>
      exact heffect (·.onBoard (·.dropStale staleAfter t seen)) (.dropStale staleAfter t seen)
  | readingDone t seen queued => dsimp only; split <;> exact .nothing
  | holding i => dsimp only; split <;> exact .nothing
  | finishing i => exact heffect (·.onBoard (·.finish i)) (.finish i)
  | joining marks pieces => dsimp only; split <;> [split; skip] <;> exact .nothing
  | closing => exact heffect (·.onBoard fun _ => PieceBoard.empty) .close
  | cleaning left =>
      cases left with
      | nil => exact .nothing
      | cons i left => exact heffect (·.removeObject i) (.remove i)
  | _ => exact .nothing

/-- The count of boards never goes back, and only the last step of the clearing
moves it. -/
theorem Attempt.Write.opened_le {shared after : PieceShared π} {attempt : Attempt π}
    (hwrite : attempt.Write shared after) : shared.opened ≤ after.opened := by
  cases hwrite with
  | openBoard hphase => exact Nat.le_succ _
  | _ => exact le_rfl

/-- The only step of an attempt whose board is not open that opens it. -/
theorem Attempt.next_opens {staleAfter : ℚ} {shared : PieceShared π}
    {attempt attempt' : Attempt π} {now : ℚ} {out : CallOutcome}
    (hbefore : attempt.phase.running = false)
    (hnext : (attempt.next staleAfter shared now out).2 = some attempt')
    (hrunning : attempt'.phase.running = true) :
    attempt' = ⟨attempt.plan, ∅, .looking⟩ ∧
      (attempt.next staleAfter shared now out).1 = shared.openBoard attempt.plan := by
  cases hphase : attempt.phase with
  | clearing left =>
      cases left with
      | nil =>
          simp only [Attempt.next, hphase] at hnext ⊢
          obtain ⟨rfl, rfl⟩ := Attempt.of_goOutside hnext
          exact ⟨rfl, rfl⟩
      | cons i left =>
          simp only [Attempt.next, hphase] at hnext
          obtain ⟨rfl, rfl⟩ := Attempt.of_goOutside hnext
          simp [CoordinatorPhase.running] at hrunning
  | closing | closed =>
      simp only [Attempt.next, hphase] at hnext
      obtain ⟨rfl, rfl⟩ := Attempt.of_goOutside hnext
      simp [CoordinatorPhase.running] at hrunning
  | cleaning left =>
      cases left with
      | nil => simp [Attempt.next, hphase] at hnext
      | cons i left =>
          simp only [Attempt.next, hphase] at hnext
          obtain ⟨rfl, rfl⟩ := Attempt.of_goOutside hnext
          simp [CoordinatorPhase.running] at hrunning
  | _ => simp [hphase, CoordinatorPhase.running] at hbefore

/-! ## Every run -/

theorem HelperSound.mono {helper : Helper π} {opened opened' : ℕ} (hle : opened ≤ opened')
    (hsound : HelperSound opened helper) : HelperSound opened' helper := by
  unfold HelperSound at hsound ⊢
  cases hphase : helper.phase with
  | uploaded i under =>
      simp only [hphase] at hsound ⊢
      exact ⟨hsound.1, hsound.2.trans hle⟩
  | encoded i => simpa only [hphase] using hsound
  | checked i => simpa only [hphase] using hsound
  | _ => trivial

/-- A helper that comes or goes has uploaded nothing. -/
theorem AttemptSound.set_helper {staleAfter : ℚ} {shared : PieceShared π} {attempt : Attempt π}
    {helpers : ℕ → Option (Helper π)} (hattempt : AttemptSound staleAfter shared attempt helpers)
    (h : ℕ) {helper' : Option (Helper π)}
    (hlooking : ∀ helper, helper' = some helper → helper.phase = .looking) :
    AttemptSound staleAfter shared attempt (Function.update helpers h helper') where
  board := hattempt.board
  phase := hattempt.phase
  uploaded g helper i hhelper := by
    refine forall_update_some (p := fun _ o => o.phase = .uploaded i shared.opened → _)
      (fun g helper _ hhelper => hattempt.uploaded g helper i hhelper) ?_ g helper hhelper
    intro helper hnew huploaded
    simp [hlooking helper hnew] at huploaded

theorem PieceInv.coordinator {staleAfter : ℚ} {s : PieceState π} (hinv : PieceInv staleAfter s)
    {attempt : Attempt π} (hattempt : s.attempt = some attempt) (now : ℚ) (out : CallOutcome) :
    PieceInv staleAfter { s with
      shared := (attempt.next staleAfter s.shared now out).1
      attempt := (attempt.next staleAfter s.shared now out).2 } where
  helper h helper hhelper :=
    (hinv.helper h helper hhelper).mono
      (attempt.next_write staleAfter s.shared now out).opened_le
  attempt attempt' hnext hrunning := by
    cases hbefore : attempt.phase.running with
    | true => exact (hinv.attempt attempt hattempt hbefore).next hbefore hnext hrunning
    | false =>
        obtain ⟨rfl, hshared⟩ := Attempt.next_opens hbefore hnext hrunning
        rw [hshared]
        refine ⟨TrustedBoard.of_openWith rfl, trivial, ?_⟩
        intro h helper i hhelper huploaded
        -- No upload can be later than the last board there was.
        have hsound := hinv.helper h helper hhelper
        simp only [HelperSound, huploaded, PieceShared.openBoard] at hsound
        omega

/-- One step keeps the invariant, as long as helpers write only what they may. -/
theorem PieceInv.step {staleAfter : ℚ} {s t : PieceState π} {a : PieceAction π}
    (hinv : PieceInv staleAfter s) (htrusted : StepTrusted s a)
    (hstep : pieceStep staleAfter s a = some t) : PieceInv staleAfter t := by
  cases a with
  | begin plan =>
      cases hattempt : s.attempt with
      | some attempt => simp [pieceStep, hattempt] at hstep
      | none =>
          simp only [pieceStep, hattempt] at hstep
          obtain rfl := Option.some.inj hstep
          refine ⟨hinv.helper, fun attempt hsome hrunning => ?_⟩
          obtain rfl := Option.some.inj hsome
          simp [CoordinatorPhase.running] at hrunning
  | coordinator now out =>
      obtain ⟨attempt, hattempt, rfl⟩ := Option.map_eq_some_iff.mp hstep
      exact hinv.coordinator hattempt now out
  | coordinatorDies =>
      obtain rfl := Option.some.inj hstep
      exact ⟨hinv.helper, fun attempt hsome => absurd hsome (by simp)⟩
  | helperStarts h =>
      cases hhelper : s.helpers h with
      | some helper => simp [pieceStep, hhelper] at hstep
      | none =>
          simp only [pieceStep, hhelper] at hstep
          obtain rfl := Option.some.inj hstep
          have hlooking : ∀ helper, s.shared.board.plan.map (Helper.mk · .looking) = some helper →
              helper.phase = .looking := by
            intro helper hsome
            obtain ⟨plan, -, rfl⟩ := Option.map_eq_some_iff.mp hsome
            rfl
          refine ⟨forall_update_some (fun g helper _ => hinv.helper g helper) ?_,
            fun attempt hsome hrunning =>
              (hinv.attempt attempt hsome hrunning).set_helper h hlooking⟩
          intro helper hsome
          simp [HelperSound, hlooking helper hsome]
  | helper h now out =>
      obtain ⟨helper, hhelper, rfl⟩ := Option.map_eq_some_iff.mp hstep
      have hsound := hinv.helper h helper hhelper
      have hopened := (helper.next_write s.shared now out).opened_eq
      refine ⟨?_, fun attempt hsome hrunning =>
        (hinv.attempt attempt hsome hrunning).helper_next hhelper hsound
          (htrusted attempt hsome helper hhelper hrunning) now out⟩
      dsimp only
      rw [hopened]
      refine forall_update_some (fun g helper _ => hinv.helper g helper) ?_
      intro other hnext
      obtain ⟨phase, rfl, hmove⟩ := Helper.next_move hnext
      exact hmove.sound hsound
  | helperDies h =>
      obtain rfl := Option.some.inj hstep
      exact ⟨forall_update_some (fun g helper _ => hinv.helper g helper) (by simp),
        fun attempt hsome hrunning =>
          (hinv.attempt attempt hsome hrunning).set_helper h (by simp)⟩
  | keyVanishes key =>
      obtain rfl := Option.some.inj hstep
      exact ⟨hinv.helper, fun attempt hsome hrunning =>
        let hattempt := hinv.attempt attempt hsome hrunning
        ⟨hattempt.board.lose key, hattempt.phase, hattempt.uploaded⟩⟩

end Trust

end Worker
end MediaPlayer
