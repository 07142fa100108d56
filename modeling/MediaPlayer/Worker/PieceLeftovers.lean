import MediaPlayer.Worker.PieceRuns

/-!
# What a piece attempt leaves in the bucket

The pieces are objects of the attempt alone: `encode` removes them in its `finally`, and
`help_encode` looks at the board before it uploads, so that a job that is over gets no more.
Looking and uploading are two steps, though, and the coordinator may close its board and
list the pieces prefix between them.

* `wholeAttempt` — one attempt from its first `delete_prefix` to its end, with helpers.
* `RemovedLater` — a helper uploads only what the coordinator is still to remove, and
  `board.open` and `board.close`, whose exceptions skip that removal, raise only with
  nothing under the prefix.
* `Cleaned` is kept by every step that meets `RemovedLater`; a step that does not leaves
  the state `Littered`, and no step of the attempt ends that.
-/

namespace MediaPlayer
namespace Worker

open Library

section Leftovers

variable {π : Type*}

/-- The coordinator is in `delete_prefix`: it lists, or removes what it has listed. -/
def CoordinatorPhase.deletesPrefix : CoordinatorPhase π → Bool
  | clearing (_ :: _) | closed | cleaning _ => true
  | _ => false

/-- The piece that is uploaded next. -/
def HelperPhase.toUpload : HelperPhase → Option ℕ
  | checked i => some i
  | _ => none

/-- The calls that list, remove or upload objects return. -/
def PieceState.storageSucceeds (s : PieceState π) : PieceAction π → Bool
  | .coordinator _ out => out == .returned || !s.attempt.any (·.phase.deletesPrefix)
  | .helper h _ out => out == .returned || !(s.helpers h).any (·.phase.toUpload.isSome)
  | _ => true

/-- The coordinator's last `delete_prefix` has yet to remove the object of piece `i`. -/
def Attempt.willRemove (attempt : Attempt π) (i : ℕ) : Prop :=
  match attempt.phase with
  | .cleaning left => i ∈ left
  | _ => True

/-- `board.open` and `board.close`, whose exceptions leave `encode` without a `delete_prefix`. -/
def CoordinatorPhase.outsideTry : CoordinatorPhase π → Bool
  | clearing [] | closing => true
  | _ => false

/-- An upload comes before the last removal of its key, and `board.open` and `board.close`
raise only if nothing is under the prefix. -/
def RemovedLater (s : PieceState π) : PieceAction π → Prop
  | .helper h _ _ => ∀ helper i, s.helpers h = some helper → helper.phase.toUpload = some i →
      ∃ attempt, s.attempt = some attempt ∧ attempt.willRemove i
  | .coordinator _ out => ∀ attempt, s.attempt = some attempt →
      attempt.phase.outsideTry = true → out = .returned ∨ s.shared.objects = ∅
  | _ => True

/-- Nothing is under the prefix that the attempt will not remove. -/
def Cleaned (s : PieceState π) : Prop :=
  ∀ i ∈ s.shared.objects, ∃ attempt, s.attempt = some attempt ∧ attempt.willRemove i

/-- Something is under the prefix that the attempt will not remove. -/
def Littered (s : PieceState π) : Prop :=
  ∃ i ∈ s.shared.objects, ∀ attempt, s.attempt = some attempt → ¬attempt.willRemove i

variable [BoardPlan π] {plan : π} {staleAfter : ℚ}

/-- One attempt of `plan`, from the moment its first `delete_prefix` has listed whatever lies
under the prefix; the board and the helpers may be left from an earlier attempt.  The calls
of the object store return, and `encode` is not killed: it ends by joining or by raising. -/
def wholeAttempt (plan : π) (staleAfter : ℚ) : StepSystem (PieceState π) (PieceAction π) where
  init s := s.attempt = some ⟨plan, ∅, .clearing s.shared.objects.keys⟩
  step s
    | .begin _ | .coordinatorDies => none
    | action => if s.storageSucceeds action then pieceStep staleAfter s action else none

/-- Once `encode` has ended and every helper has stopped, nothing is under the prefix. -/
def LeavesNoObjects (s : PieceState π) : Prop :=
  s.attempt = none → (∀ h, s.helpers h = none) → s.shared.objects = ∅

/-! ## What one step leaves -/

omit [BoardPlan π] in
theorem effect_onBoard_objects (shared : PieceShared π) (out : CallOutcome)
    (f : PieceBoard π → PieceBoard π) :
    (out.effect (·.onBoard f) shared).objects = shared.objects := by
  cases out <;> rfl

omit [BoardPlan π] in
theorem Attempt.go_willRemove {attempt : Attempt π} (out : CallOutcome)
    {onReturn : CoordinatorPhase π} (hreturn : onReturn.deletesPrefix = false) (i : ℕ) :
    ∃ attempt', attempt.go out onReturn = some attempt' ∧ attempt'.willRemove i := by
  refine ⟨_, rfl, ?_⟩
  cases out with
  | returned => cases onReturn <;> trivial
  | raisedBefore | raisedAfter => trivial

/-- Between its two `delete_prefix` the coordinator touches no object, and it goes on. -/
theorem Attempt.next_running {shared : PieceShared π} {attempt : Attempt π} {now : ℚ}
    {out : CallOutcome} (hrunning : attempt.phase.running = true) :
    (attempt.next staleAfter shared now out).1.objects = shared.objects ∧
      ∀ i, ∃ attempt', (attempt.next staleAfter shared now out).2 = some attempt' ∧
        attempt'.willRemove i := by
  unfold Attempt.next
  cases hphase : attempt.phase with
  | clearing left => simp [hphase, CoordinatorPhase.running] at hrunning
  | closing => simp [hphase, CoordinatorPhase.running] at hrunning
  | closed => simp [hphase, CoordinatorPhase.running] at hrunning
  | cleaning left => simp [hphase, CoordinatorPhase.running] at hrunning
  | looking =>
      cases shared.board.todo with
      | nil => exact ⟨rfl, Attempt.go_willRemove out rfl⟩
      | cons i rest =>
          exact ⟨effect_onBoard_objects shared out PieceBoard.pop, Attempt.go_willRemove out rfl⟩
  | popped i =>
      exact ⟨effect_onBoard_objects shared out (·.noteInflight i now),
        Attempt.go_willRemove out rfl⟩
  | droppingStale t seen queued =>
      exact ⟨effect_onBoard_objects shared out (·.dropStale staleAfter t seen),
        Attempt.go_willRemove out rfl⟩
  | finishing i =>
      exact ⟨effect_onBoard_objects shared out (·.finish i), Attempt.go_willRemove out rfl⟩
  | readingInflight => exact ⟨rfl, Attempt.go_willRemove out rfl⟩
  | readingTodo t seen => exact ⟨rfl, Attempt.go_willRemove out rfl⟩
  | sleeping t seen queued done => exact ⟨rfl, Attempt.go_willRemove out rfl⟩
  | readingDone t seen queued =>
      dsimp only
      split <;> exact ⟨rfl, Attempt.go_willRemove out rfl⟩
  | counting t seen queued done =>
      refine ⟨rfl, Attempt.go_willRemove out ?_⟩
      split <;> rfl
  | holding i =>
      dsimp only
      split
      · refine ⟨rfl, fun _ => ?_⟩
        cases out <;> exact ⟨_, rfl, trivial⟩
      · exact ⟨rfl, fun _ => ⟨_, rfl, trivial⟩⟩
  | joining marks pieces =>
      dsimp only
      split
      · split
        · exact ⟨rfl, Attempt.go_willRemove out rfl⟩
        · exact ⟨rfl, fun _ => ⟨_, rfl, trivial⟩⟩
      · exact ⟨rfl, Attempt.go_willRemove out rfl⟩
  | joined marks pieces => exact ⟨rfl, fun _ => ⟨_, rfl, trivial⟩⟩

/-- What is under the prefix after a step of the coordinator is still to be removed. -/
theorem Attempt.next_cleaned {shared : PieceShared π} {attempt : Attempt π} {now : ℚ}
    {out : CallOutcome} (hstorage : attempt.phase.deletesPrefix = true → out = .returned)
    (hok : attempt.phase.outsideTry = true → out = .returned ∨ shared.objects = ∅)
    (hclean : ∀ i ∈ shared.objects, attempt.willRemove i) :
    ∀ i ∈ (attempt.next staleAfter shared now out).1.objects,
      ∃ attempt', (attempt.next staleAfter shared now out).2 = some attempt' ∧
        attempt'.willRemove i := by
  by_cases hrunning : attempt.phase.running = true
  · exact fun i _ => (Attempt.next_running hrunning).2 i
  intro i hi
  unfold Attempt.next at hi ⊢
  cases hphase : attempt.phase with
  | clearing left =>
      cases left with
      | cons j left =>
          obtain rfl := hstorage (by rw [hphase]; rfl)
          exact ⟨_, rfl, trivial⟩
      | nil =>
          rcases hok (by rw [hphase]; rfl) with rfl | hempty
          · exact ⟨_, rfl, trivial⟩
          · have hnone : (out.effect (·.openBoard attempt.plan) shared).objects = ∅ := by
              cases out <;> exact hempty
            simp only [hphase, hnone] at hi
            simp at hi
  | closing =>
      rcases hok (by rw [hphase]; rfl) with rfl | hempty
      · exact ⟨_, rfl, trivial⟩
      · simp only [hphase, effect_onBoard_objects, hempty] at hi
        simp at hi
  | closed =>
      obtain rfl := hstorage (by rw [hphase]; rfl)
      simp only [hphase] at hi
      exact ⟨_, rfl, AList.mem_keys.mp hi⟩
  | cleaning left =>
      obtain rfl := hstorage (by rw [hphase]; rfl)
      cases left with
      | nil =>
          simp only [hphase] at hi
          simpa [Attempt.willRemove, hphase] using hclean i hi
      | cons j left =>
          simp only [hphase, CallOutcome.effect_returned, PieceShared.removeObject,
            AList.mem_erase] at hi
          have hlisted := hclean i hi.2
          simp only [Attempt.willRemove, hphase, List.mem_cons] at hlisted
          exact ⟨_, rfl, hlisted.resolve_left hi.1⟩
  | _ => simp [hphase, CoordinatorPhase.running] at hrunning

/-- What the coordinator has not listed stays. -/
theorem Attempt.next_littered {shared : PieceShared π} {attempt : Attempt π} {now : ℚ}
    {out : CallOutcome} {i : ℕ} (hi : i ∈ shared.objects) (hleft : ¬attempt.willRemove i) :
    i ∈ (attempt.next staleAfter shared now out).1.objects ∧
      ∀ attempt', (attempt.next staleAfter shared now out).2 = some attempt' →
        ¬attempt'.willRemove i := by
  unfold Attempt.next
  cases hphase : attempt.phase with
  | cleaning left =>
      simp only [Attempt.willRemove, hphase] at hleft
      cases left with
      | nil => exact ⟨hi, by simp⟩
      | cons j left =>
          have hne : i ≠ j := fun h => hleft (h ▸ List.mem_cons_self)
          refine ⟨?_, ?_⟩
          · exact CallOutcome.effect_of (p := fun after : PieceShared π => i ∈ after.objects) hi
              (AList.mem_erase.mpr ⟨hne, hi⟩) out
          · intro attempt' hnext
            obtain ⟨-, rfl⟩ := Attempt.of_goOutside hnext
            exact fun hremove => hleft (List.mem_cons_of_mem j hremove)
  | _ => simp [Attempt.willRemove, hphase] at hleft

/-- An exception of `board.open` or `board.close` ends the attempt and removes nothing. -/
theorem Attempt.next_outsideTry {attempt : Attempt π} (staleAfter : ℚ) (shared : PieceShared π)
    (now : ℚ) {out : CallOutcome} (houtside : attempt.phase.outsideTry = true) (hraise : out ≠ .returned) :
    (attempt.next staleAfter shared now out).1.objects = shared.objects ∧
      (attempt.next staleAfter shared now out).2 = none := by
  unfold Attempt.next
  cases hphase : attempt.phase with
  | clearing left =>
      cases left with
      | cons i left => simp [hphase, CoordinatorPhase.outsideTry] at houtside
      | nil => cases out <;> first | exact absurd rfl hraise | exact ⟨rfl, rfl⟩
  | closing => cases out <;> first | exact absurd rfl hraise | exact ⟨rfl, rfl⟩
  | _ => simp [hphase, CoordinatorPhase.outsideTry] at houtside

/-- A helper's step puts nothing under the prefix but its upload. -/
theorem Helper.next_objects {shared : PieceShared π} {helper : Helper π} {now : ℚ}
    {out : CallOutcome} {i : ℕ} (hi : i ∈ (helper.next shared now out).1.objects) :
    i ∈ shared.objects ∨ helper.phase.toUpload = some i := by
  have hwrite := helper.next_write shared now out
  revert hi
  generalize (helper.next shared now out).1 = after at hwrite
  intro hi
  cases hwrite with
  | upload j hphase =>
      rcases (AList.mem_insert _).mp hi with rfl | hold
      · exact Or.inr (by rw [hphase]; rfl)
      · exact Or.inl hold
  | _ => exact Or.inl hi

/-- A helper's step removes nothing. -/
theorem Helper.next_keeps_objects {shared : PieceShared π} {helper : Helper π} {now : ℚ}
    {out : CallOutcome} {i : ℕ} (hi : i ∈ shared.objects) :
    i ∈ (helper.next shared now out).1.objects := by
  have hwrite := helper.next_write shared now out
  generalize (helper.next shared now out).1 = after at hwrite
  cases hwrite with
  | upload j hphase => exact (AList.mem_insert _).mpr (Or.inr hi)
  | _ => exact hi

/-- An upload that returns is there. -/
theorem Helper.next_uploaded {shared : PieceShared π} {helper : Helper π} {now : ℚ} {i : ℕ}
    (hupload : helper.phase.toUpload = some i) :
    i ∈ (helper.next shared now .returned).1.objects := by
  unfold Helper.next
  cases hphase : helper.phase with
  | checked j =>
      rw [hphase] at hupload
      obtain rfl := Option.some.inj hupload
      exact (AList.mem_insert _).mpr (Or.inl rfl)
  | _ => simp [hphase, HelperPhase.toUpload] at hupload

/-! ## Whole runs -/

theorem wholeAttempt_step {s t : PieceState π} {a : PieceAction π}
    (hstep : (wholeAttempt plan staleAfter).step s a = some t) :
    s.storageSucceeds a = true ∧ pieceStep staleAfter s a = some t := by
  cases a with
  | begin own => simp [wholeAttempt] at hstep
  | coordinatorDies => simp [wholeAttempt] at hstep
  | _ =>
      simp only [wholeAttempt] at hstep
      exact Option.ite_none_right_eq_some.mp hstep

/-- All that a step can be: the coordinator's, a helper's, or one that leaves the attempt and
the objects as they are. -/
theorem wholeAttempt_cases {s t : PieceState π} {a : PieceAction π}
    (hstep : (wholeAttempt plan staleAfter).step s a = some t) :
    (∃ now out attempt, a = .coordinator now out ∧ s.attempt = some attempt ∧
      (attempt.phase.deletesPrefix = true → out = .returned) ∧
      t = { s with
        shared := (attempt.next staleAfter s.shared now out).1
        attempt := (attempt.next staleAfter s.shared now out).2 }) ∨
    (∃ h now out helper, a = .helper h now out ∧ s.helpers h = some helper ∧
      (helper.phase.toUpload.isSome = true → out = .returned) ∧
      t.attempt = s.attempt ∧ t.shared = (helper.next s.shared now out).1) ∨
    (RemovedLater s a ∧ t.attempt = s.attempt ∧ t.shared.objects = s.shared.objects) := by
  cases a with
  | begin own => simp [wholeAttempt] at hstep
  | coordinatorDies => simp [wholeAttempt] at hstep
  | coordinator now out =>
      obtain ⟨hstorage, hstep⟩ := wholeAttempt_step hstep
      obtain ⟨attempt, hattempt, rfl⟩ := Option.map_eq_some_iff.mp hstep
      refine Or.inl ⟨now, out, attempt, rfl, hattempt, fun hdeletes => ?_, rfl⟩
      simpa [PieceState.storageSucceeds, hattempt, hdeletes] using hstorage
  | helper h now out =>
      obtain ⟨hstorage, hstep⟩ := wholeAttempt_step hstep
      obtain ⟨helper, hhelper, rfl⟩ := Option.map_eq_some_iff.mp hstep
      refine Or.inr (Or.inl ⟨h, now, out, helper, rfl, hhelper, fun huploads => ?_, rfl, rfl⟩)
      simpa [PieceState.storageSucceeds, hhelper, huploads] using hstorage
  | helperStarts h =>
      have hstep := (wholeAttempt_step hstep).2
      cases hhelper : s.helpers h with
      | some helper => simp [pieceStep, hhelper] at hstep
      | none =>
          simp only [pieceStep, hhelper] at hstep
          obtain rfl := Option.some.inj hstep
          exact Or.inr (Or.inr ⟨trivial, rfl, rfl⟩)
  | helperDies h =>
      obtain rfl := Option.some.inj (wholeAttempt_step hstep).2
      exact Or.inr (Or.inr ⟨trivial, rfl, rfl⟩)
  | keyVanishes key =>
      obtain rfl := Option.some.inj (wholeAttempt_step hstep).2
      exact Or.inr (Or.inr ⟨trivial, rfl, rfl⟩)

/-- A step that meets the condition leaves nothing behind. -/
theorem Cleaned.step {s t : PieceState π} {a : PieceAction π} (hclean : Cleaned s)
    (hok : RemovedLater s a) (hstep : (wholeAttempt plan staleAfter).step s a = some t) :
    Cleaned t := by
  rcases wholeAttempt_cases hstep with ⟨now, out, attempt, rfl, hattempt, hstorage, rfl⟩ |
    ⟨h, now, out, helper, rfl, hhelper, -, hsame, hshared⟩ | ⟨-, hsame, hobjects⟩
  · refine Attempt.next_cleaned hstorage (hok attempt hattempt) fun i hi => ?_
    obtain ⟨own, hown, hremove⟩ := hclean i hi
    obtain rfl := Option.some.inj (hattempt.symm.trans hown)
    exact hremove
  · intro i hi
    rw [hshared] at hi
    rw [hsame]
    rcases Helper.next_objects hi with hold | hupload
    · exact hclean i hold
    · exact hok helper i hhelper hupload
  · intro i hi
    rw [hobjects] at hi
    rw [hsame]
    exact hclean i hi

/-- A step that breaks the condition leaves an object that nobody will remove. -/
theorem Cleaned.breaks {s t : PieceState π} {a : PieceAction π} (hbreak : ¬RemovedLater s a)
    (hstep : (wholeAttempt plan staleAfter).step s a = some t) : Littered t := by
  rcases wholeAttempt_cases hstep with ⟨now, out, attempt, rfl, hattempt, -, rfl⟩ |
    ⟨h, now, out, helper, rfl, hhelper, hstorage, hsame, hshared⟩ | ⟨hok, -, -⟩
  · simp only [RemovedLater, hattempt, Option.some.injEq, forall_eq', not_forall, not_or] at hbreak
    obtain ⟨houtside, hraise, hsome⟩ := hbreak
    obtain ⟨hobjects, hended⟩ := Attempt.next_outsideTry staleAfter s.shared now
      houtside hraise
    obtain ⟨i, hi⟩ : ∃ i, i ∈ s.shared.objects := by
      by_contra hnone
      refine hsome (AList.ext (List.eq_nil_iff_forall_not_mem.mpr fun entry hentry => ?_))
      exact hnone ⟨entry.1, List.mem_keys_of_mem hentry⟩
    exact ⟨i, hobjects ▸ hi, by simp [hended]⟩
  · obtain ⟨i, hupload, hleft⟩ : ∃ i, helper.phase.toUpload = some i ∧
        ∀ attempt, s.attempt = some attempt → ¬attempt.willRemove i := by
      by_contra hnone
      refine hbreak fun own i hown hupload => ?_
      obtain rfl := Option.some.inj (hhelper.symm.trans hown)
      by_contra hleft
      exact hnone ⟨i, hupload, fun attempt hattempt hremove => hleft ⟨attempt, hattempt, hremove⟩⟩
    obtain rfl := hstorage (by rw [hupload]; rfl)
    exact ⟨i, hshared ▸ Helper.next_uploaded hupload, hsame ▸ hleft⟩
  · exact absurd hok hbreak

/-- What nobody will remove stays. -/
theorem Littered.step {s t : PieceState π} {a : PieceAction π} (hlitter : Littered s)
    (hstep : (wholeAttempt plan staleAfter).step s a = some t) : Littered t := by
  obtain ⟨i, hi, hleft⟩ := hlitter
  rcases wholeAttempt_cases hstep with ⟨now, out, attempt, rfl, hattempt, -, rfl⟩ |
    ⟨h, now, out, helper, rfl, hhelper, -, hsame, hshared⟩ | ⟨-, hsame, hobjects⟩
  · exact ⟨i, Attempt.next_littered hi (hleft attempt hattempt)⟩
  · exact ⟨i, hshared ▸ Helper.next_keeps_objects hi, hsame ▸ hleft⟩
  · exact ⟨i, hobjects ▸ hi, hsame ▸ hleft⟩

/-- **What a piece attempt leaves.**  A run in which `encode` has ended has left nothing under
the prefix exactly when all its steps met `RemovedLater`. -/
theorem attempt_leaves_no_objects_iff {s t : PieceState π} {as : List (PieceAction π)}
    (hinit : (wholeAttempt plan staleAfter).init s)
    (hrun : (wholeAttempt plan staleAfter).run s as = some t) (hended : t.attempt = none) :
    t.shared.objects = ∅ ↔ (wholeAttempt plan staleAfter).MeetsAll RemovedLater s as := by
  have hclean : Cleaned s := fun i _ => ⟨_, hinit, trivial⟩
  rcases StepSystem.meetsAll_cases (fun _ _ _ => Cleaned.step)
    (fun _ _ _ _ => Cleaned.breaks) (fun _ _ _ => Littered.step) hclean hrun with
    ⟨hall, hclean⟩ | ⟨hnot, i, hi, -⟩
  · refine iff_of_true (AList.ext (List.eq_nil_iff_forall_not_mem.mpr fun entry hentry => ?_)) hall
    obtain ⟨attempt, hattempt, -⟩ := hclean entry.1 (List.mem_keys_of_mem hentry)
    simp [hended] at hattempt
  · refine iff_of_false (fun hempty => ?_) hnot
    rw [hempty] at hi
    exact absurd hi (AList.notMem_empty i)

/-! ## Two runs on fixed input -/

/-- The helper an action is about. -/
def PieceAction.helperId : PieceAction π → Option ℕ
  | helperStarts h | helper h _ _ | helperDies h => some h
  | _ => none

/-- A step leaves the other helpers alone. -/
theorem pieceStep_helpers {s t : PieceState π} {a : PieceAction π} {h : ℕ}
    (hother : a.helperId ≠ some h) (hstep : pieceStep staleAfter s a = some t) :
    t.helpers h = s.helpers h := by
  have hne : ∀ {g : ℕ}, some g ≠ some h → h ≠ g := fun hne heq => hne (congrArg some heq.symm)
  cases a with
  | begin own =>
      cases hattempt : s.attempt with
      | some attempt => simp [pieceStep, hattempt] at hstep
      | none =>
          simp only [pieceStep, hattempt] at hstep
          obtain rfl := Option.some.inj hstep
          rfl
  | coordinator now out =>
      obtain ⟨attempt, -, rfl⟩ := Option.map_eq_some_iff.mp hstep
      rfl
  | helperStarts g =>
      cases hhelper : s.helpers g with
      | some helper => simp [pieceStep, hhelper] at hstep
      | none =>
          simp only [pieceStep, hhelper] at hstep
          obtain rfl := Option.some.inj hstep
          exact Function.update_of_ne (hne hother) _ _
  | helper g now out =>
      obtain ⟨helper, -, rfl⟩ := Option.map_eq_some_iff.mp hstep
      exact Function.update_of_ne (hne hother) _ _
  | helperDies g =>
      obtain rfl := Option.some.inj hstep
      exact Function.update_of_ne (hne hother) _ _
  | coordinatorDies | keyVanishes key =>
      obtain rfl := Option.some.inj hstep
      rfl

theorem wholeAttempt_helpers {s t : PieceState π} {as : List (PieceAction π)} {h : ℕ}
    (hothers : ∀ a ∈ as, a.helperId ≠ some h)
    (hrun : (wholeAttempt plan staleAfter).run s as = some t) : t.helpers h = s.helpers h := by
  induction as generalizing s with
  | nil =>
      obtain rfl : s = t := by simpa using hrun
      rfl
  | cons a as ih =>
      obtain ⟨u, hu, hrest⟩ := Option.bind_eq_some_iff.mp hrun
      rw [ih (fun b hb => hothers b (List.mem_cons_of_mem a hb)) hrest]
      exact pieceStep_helpers (hothers a List.mem_cons_self) (wholeAttempt_step hu).2

end Leftovers

/-- An attempt at the two pieces whose `delete_prefix` has found nothing, and no helper. -/
def twoPiecesBegun : PieceState PiecePlan where
  shared := ⟨PieceBoard.empty, ∅, 0⟩
  attempt := some ⟨twoPiecePlan 23, ∅, .clearing []⟩
  helpers := fun _ => none

/-- A helper uploads piece 0 and stops, the coordinator encodes piece 1, joins and removes. -/
def helpedAttempt : List (PieceAction PiecePlan) :=
  coordinatorSteps 1 ++ .helperStarts 0 :: helperSteps 0 7 ++ coordinatorSteps 13 ++
    helperSteps 0 1 ++ coordinatorSteps 5

theorem attempt_leaves_no_objects_helped :
    (wholeAttempt (twoPiecePlan 23) 60).MeetsAll RemovedLater twoPiecesBegun helpedAttempt := by
  obtain ⟨t, hrun, hfacts⟩ := (Option.any_eq_true
    (fun t : PieceState PiecePlan => t.attempt.isNone && t.shared.objects.keys == [])
    ((wholeAttempt (twoPiecePlan 23) 60).run twoPiecesBegun helpedAttempt)).mp (by decide +kernel)
  simp only [Bool.and_eq_true, Option.isNone_iff_eq_none, beq_iff_eq] at hfacts
  have hinit : (wholeAttempt (twoPiecePlan 23) 60).init twoPiecesBegun := rfl
  have hempty : t.shared.objects = ∅ := AList.ext (List.map_eq_nil_iff.mp hfacts.2)
  exact (attempt_leaves_no_objects_iff hinit hrun hfacts.1).mp hempty

/-- The same helper is slow: it has looked at the board and is about to upload when its piece
is a hundred seconds old.  The coordinator encodes that one too, joins, closes the board and
removes what there is; then the upload arrives. -/
def overtakenAttempt : List (PieceAction PiecePlan) :=
  coordinatorSteps 1 ++ .helperStarts 0 :: helperSteps 0 4 ++
    List.replicate 24 (.coordinator 100 .returned) ++ helperSteps 0 4

/-- A helper may upload after the coordinator has removed the pieces: it looked at the board
before it was closed. -/
theorem attempt_leaves_overtaken_upload :
    ¬∀ (s t : PieceState PiecePlan) (as : List (PieceAction PiecePlan)),
      (wholeAttempt (twoPiecePlan 23) 60).init s →
      (wholeAttempt (twoPiecePlan 23) 60).run s as = some t → LeavesNoObjects t := by
  intro hnone
  obtain ⟨t, hrun, hfacts⟩ := (Option.any_eq_true
    (fun t : PieceState PiecePlan =>
      t.attempt.isNone && (t.helpers 0).isNone && t.shared.objects.keys == [0])
    ((wholeAttempt (twoPiecePlan 23) 60).run twoPiecesBegun overtakenAttempt)).mp
    (by decide +kernel)
  simp only [Bool.and_eq_true, Option.isNone_iff_eq_none, beq_iff_eq] at hfacts
  obtain ⟨⟨hended, hstopped⟩, hkeys⟩ := hfacts
  have hempty := hnone twoPiecesBegun t overtakenAttempt rfl hrun hended fun h => by
    by_cases hh : h = 0
    · rw [hh, hstopped]
    · refine wholeAttempt_helpers (fun a ha => ?_) hrun
      have hid : ∀ a ∈ overtakenAttempt, a.helperId = none ∨ a.helperId = some 0 := by
        simp [overtakenAttempt, coordinatorSteps, helperSteps, PieceAction.helperId]
      rcases hid a ha with hid | hid <;> simp [hid, Ne.symm hh]
  rw [hempty] at hkeys
  simp at hkeys

end Worker
end MediaPlayer
