import MediaPlayer.Frontend.TransferEnds

/-!
# What a failed transfer still sends

`Promise.all` rejects with the first loop that fails and ends none of the others, and with the
slot cleared `cancelUpload` has nothing to stop: the loops that are left go on until they run
out of parts.

* `Quiet` — the states in which nothing is left to begin.
* `failed_transfer_quiet_iff` — a transfer that was rejected sends nothing more exactly in
  these.
-/

namespace MediaPlayer
namespace Frontend

open Library

/-- Whatever comes back, the loop neither asks for a URL nor begins a PUT any more. -/
def SendPhase.Spent (transfer : Transfer) (next : ℕ) : SendPhase → Prop
  | .looping | .tagged _ _ => transfer.todo.length ≤ next
  | .signing _ | .pausing _ _ _ => False
  | .putting _ attempt _ => attempt = partAttempts ∧ transfer.todo.length ≤ next
  | .refused _ attempt _ => attempt = partAttempts
  | .answered _ response => (putPart response).isOk → transfer.todo.length ≤ next
  | .finished | .failed _ => True

namespace SendState

variable {transfer : Transfer} {s t u : SendState} {i : ℕ}

/-- The transfer is cancelled, or each of its loops is spent. -/
def Quiet (transfer : Transfer) (s : SendState) : Prop :=
  s.cancelled = true ∨ ∀ i, (s.phase i).Spent transfer s.next

/-- What has begun so far. -/
def SameRequests (s t : SendState) : Prop := t.signs = s.signs ∧ t.puts = s.puts

/-! ## Quiet transfers stay quiet -/

theorem spent_move {phase : SendPhase} (hspent : ∀ j, (s.phase j).Spent transfer s.next)
    (hphase : phase.Spent transfer s.next) (j : ℕ) :
    ((s.move i phase).phase j).Spent transfer s.next := by
  show (Function.update s.phase i phase j).Spent transfer s.next
  by_cases hj : j = i
  · subst hj
    rwa [Function.update_self]
  · rw [Function.update_of_ne hj]
    exact hspent j

/-- Every step of a quiet transfer. -/
theorem quiet_step (hquiet : s.Quiet transfer) {action : SendAction}
    (hstep : transferStep transfer s action = some t) :
    t.Quiet transfer ∧ SameRequests s t := by
  obtain hcancelled | hspent := hquiet
  · obtain hloop | ⟨-, result, rfl⟩ | ⟨-, -, rfl⟩ | ⟨-, -, rfl⟩ := step_cases hstep
    · obtain ⟨hputs, hsigns⟩ := hloop.silent hcancelled
      exact ⟨.inl (hloop.cancelled.trans hcancelled), hsigns, hputs⟩
    · exact ⟨.inl hcancelled, rfl, rfl⟩
    · exact ⟨.inl rfl, rfl, rfl⟩
    · exact ⟨.inl hcancelled, rfl, rfl⟩
  have hmove : ∀ {i : ℕ} {phase : SendPhase}, phase.Spent transfer s.next →
      (s.move i phase).Quiet transfer ∧ SameRequests s (s.move i phase) := fun hphase =>
    ⟨.inr (spent_move hspent hphase), rfl, rfl⟩
  cases action with
  | go i =>
      have hi := hspent i
      simp only [transferStep] at hstep
      split at hstep
      · rename_i hphase
        rw [hphase] at hi
        obtain rfl := Option.some.inj hstep
        unfold SendState.loop
        rw [List.getElem?_eq_none hi]
        exact hmove trivial
      · rename_i number response hphase
        rw [hphase] at hi
        split at hstep
        · obtain rfl := Option.some.inj hstep
          exact hmove trivial
        · rename_i etag hput
          obtain rfl := Option.some.inj hstep
          refine hmove (hi ?_)
          rw [hput]
          rfl
      · rename_i number etag hphase
        rw [hphase] at hi
        obtain rfl := Option.some.inj hstep
        exact ⟨.inr (spent_move hspent hi), rfl, rfl⟩
      · cases hstep
  | sign i answer =>
      have hi := hspent i
      simp only [transferStep] at hstep
      split at hstep
      · rename_i hphase
        rw [hphase] at hi
        exact hi.elim
      · cases hstep
  | respond i response =>
      have hi := hspent i
      simp only [transferStep] at hstep
      split at hstep
      · rename_i number attempt url hphase
        rw [hphase] at hi
        rw [if_pos (.inr (.inl hi.1))] at hstep
        obtain rfl := Option.some.inj hstep
        exact ⟨.inr (spent_move hspent fun _ => hi.2), rfl, rfl⟩
      · cases hstep
  | drop i message =>
      have hi := hspent i
      simp only [transferStep] at hstep
      split at hstep
      · rename_i number attempt url hphase
        rw [hphase] at hi
        rw [if_pos hi.1] at hstep
        split at hstep
        · obtain rfl := Option.some.inj hstep
          exact hmove trivial
        · obtain rfl := Option.some.inj hstep
          exact hmove trivial
      · rename_i number attempt url hphase
        rw [hphase] at hi
        rw [if_pos (show attempt = partAttempts from hi)] at hstep
        split at hstep
        · obtain rfl := Option.some.inj hstep
          exact hmove trivial
        · obtain rfl := Option.some.inj hstep
          exact hmove trivial
      · cases hstep
  | wake i =>
      have hi := hspent i
      simp only [transferStep] at hstep
      split at hstep
      · rename_i hphase
        rw [hphase] at hi
        exact hi.elim
      · cases hstep
  | resolve =>
      obtain ⟨-, hsome⟩ := Option.ite_none_right_eq_some.mp hstep
      obtain rfl := Option.some.inj hsome
      exact ⟨.inr hspent, rfl, rfl⟩
  | reject i =>
      simp only [transferStep] at hstep
      split at hstep
      · obtain rfl := Option.some.inj hstep
        exact ⟨.inr hspent, rfl, rfl⟩
      · cases hstep
  | cancel =>
      simp only [transferStep] at hstep
      split at hstep
      · obtain rfl := Option.some.inj hstep
        exact ⟨.inr hspent, rfl, rfl⟩
      · obtain rfl := Option.some.inj hstep
        exact ⟨.inl rfl, rfl, rfl⟩

theorem quiet_run (hquiet : s.Quiet transfer) {actions : List SendAction}
    (hrun : (sendSystem transfer).run s actions = some t) : SameRequests s t := by
  induction actions generalizing s with
  | nil =>
      obtain rfl : s = t := by simpa using hrun
      exact ⟨rfl, rfl⟩
  | cons action actions ih =>
      obtain ⟨u, hstep, hrest⟩ := Option.bind_eq_some_iff.mp hrun
      obtain ⟨hnext, hsigns, hputs⟩ := quiet_step hquiet hstep
      obtain ⟨hsigns', hputs'⟩ := ih hnext hrest
      exact ⟨hsigns'.trans hsigns, hputs'.trans hputs⟩

/-! ## The others do not -/

/-- Something comes back that lets another request begin. -/
def GoesOn (transfer : Transfer) (s : SendState) : Prop :=
  ∃ actions t, (sendSystem transfer).run s actions = some t ∧ ¬SameRequests s t

theorem GoesOn.of_step (hu : u.GoesOn transfer) (action : SendAction)
    (hstep : transferStep transfer s action = some u) (hsame : SameRequests s u) :
    s.GoesOn transfer := by
  obtain ⟨actions, t, hrun, hmore⟩ := hu
  refine ⟨action :: actions, t, Option.bind_eq_some_iff.mpr ⟨u, hstep, hrun⟩, ?_⟩
  rintro ⟨hsigns, hputs⟩
  exact hmore ⟨hsigns.trans hsame.1.symm, hputs.trans hsame.2.symm⟩

theorem GoesOn.of_last (action : SendAction) (hstep : transferStep transfer s action = some t)
    (hmore : ¬SameRequests s t) : s.GoesOn transfer :=
  ⟨[action], t, Option.bind_eq_some_iff.mpr ⟨t, hstep, rfl⟩, hmore⟩

theorem phase_move (s : SendState) (i : ℕ) (phase : SendPhase) :
    (s.move i phase).phase i = phase := Function.update_self _ _ _

/-- A PUT begins where the signal is not aborted. -/
theorem startPut_more (hrunning : s.cancelled = false) (number attempt : ℕ) (url : String) :
    ¬SameRequests s (s.startPut transfer i number attempt url) := by
  rintro ⟨-, hputs⟩
  unfold SendState.startPut at hputs
  rw [if_neg (by simp [hrunning])] at hputs
  exact absurd hputs (by simp)

theorem goesOn_pausing (hrunning : s.cancelled = false) {number attempt : ℕ} {url : String}
    (hphase : s.phase i = .pausing number attempt url) : s.GoesOn transfer := by
  have hstep : transferStep transfer s (.wake i) =
      some (s.startPut transfer i number (attempt + 1) url) := by
    simp only [transferStep, hphase]
  exact GoesOn.of_last _ hstep (startPut_more hrunning number (attempt + 1) url)

theorem goesOn_signing (hrunning : s.cancelled = false) {number : ℕ}
    (hphase : s.phase i = .signing number) : s.GoesOn transfer := by
  have hurl : signPart number (.signed fun _ => some "url") = .ok "url" := rfl
  have hstep : transferStep transfer s (.sign i (.signed fun _ => some "url")) =
      some (s.startPut transfer i number 1 "url") := by
    simp only [transferStep, hphase, hurl]
  exact GoesOn.of_last _ hstep (startPut_more hrunning number 1 "url")

/-- A dropped connection is tried again, unless this was the last attempt. -/
theorem goesOn_drop (hrunning : s.cancelled = false) {number attempt : ℕ} {url : String}
    (hphase : s.phase i = .putting number attempt url ∨ s.phase i = .refused number attempt url)
    (hattempt : attempt ≠ partAttempts) : s.GoesOn transfer := by
  have hnext : (s.move i (.pausing number attempt url)).GoesOn transfer :=
    goesOn_pausing hrunning (phase_move s i _)
  refine hnext.of_step (.drop i "") ?_ ⟨rfl, rfl⟩
  have hnot : ¬s.cancelled = true := by simp [hrunning]
  obtain hphase | hphase := hphase <;>
    simp only [transferStep, hphase, if_neg hnot, if_neg hattempt]

theorem goesOn_looping (hrunning : s.cancelled = false) (hphase : s.phase i = .looping)
    (hnext : s.next < transfer.todo.length) : s.GoesOn transfer := by
  refine GoesOn.of_last (.go i) (t := s.loop transfer i) ?_ ?_
  · simp only [transferStep, hphase]
  · rintro ⟨hsigns, -⟩
    unfold SendState.loop at hsigns
    rw [List.getElem?_eq_getElem hnext] at hsigns
    simp only [hrunning, Bool.false_eq_true, if_false] at hsigns
    exact absurd hsigns (by simp)

theorem goesOn_tagged (hrunning : s.cancelled = false) {number : ℕ} {etag : String}
    (hphase : s.phase i = .tagged number etag) (hnext : s.next < transfer.todo.length) :
    s.GoesOn transfer := by
  have hgoes : ({ s.move i .looping with
      etags := Function.update s.etags (number - 1) (some etag) } : SendState).GoesOn transfer :=
    goesOn_looping hrunning (phase_move s i _) hnext
  refine hgoes.of_step (.go i) ?_ ⟨rfl, rfl⟩
  simp only [transferStep, hphase]

theorem goesOn_answered (hrunning : s.cancelled = false) {number : ℕ} {response : PutResponse}
    (hphase : s.phase i = .answered number response) (hok : (putPart response).isOk = true)
    (hnext : s.next < transfer.todo.length) : s.GoesOn transfer := by
  cases hput : putPart response with
  | error error =>
      rw [hput] at hok
      exact absurd hok nofun
  | ok etag =>
      have hgoes : (s.move i (.tagged number etag)).GoesOn transfer :=
        goesOn_tagged hrunning (phase_move s i _) hnext
      refine hgoes.of_step (.go i) ?_ ⟨rfl, rfl⟩
      simp only [transferStep, hphase, hput]

/-- What storage takes leaves the loop free for the next part. -/
theorem goesOn_putting (hrunning : s.cancelled = false) {number attempt : ℕ} {url : String}
    (hphase : s.phase i = .putting number attempt url)
    (hnext : s.next < transfer.todo.length) : s.GoesOn transfer := by
  obtain ⟨response, hok, htaken⟩ : ∃ response : PutResponse,
      response.ok = true ∧ (putPart response).isOk = true := ⟨⟨200, some "etag"⟩, rfl, rfl⟩
  have hgoes : ({ s with answers := s.answers ++ [(number, response)] }.move i
      (.answered number response) : SendState).GoesOn transfer :=
    goesOn_answered hrunning (phase_move _ i _) htaken hnext
  refine hgoes.of_step (.respond i response) ?_ ⟨rfl, rfl⟩
  simp only [transferStep, hphase, hok, true_or, if_true]

theorem goesOn_of_not_quiet (hnot : ¬s.Quiet transfer) : s.GoesOn transfer := by
  obtain ⟨hcancelled, hloops⟩ := not_or.mp hnot
  obtain ⟨i, hi⟩ := Classical.not_forall.mp hloops
  have hrunning : s.cancelled = false := by simpa using hcancelled
  cases hphase : s.phase i with
  | looping =>
      rw [hphase] at hi
      exact goesOn_looping hrunning hphase (Nat.lt_of_not_le hi)
  | signing number => exact goesOn_signing hrunning hphase
  | putting number attempt url =>
      rw [hphase] at hi
      by_cases hattempt : attempt = partAttempts
      · exact goesOn_putting hrunning hphase (Nat.lt_of_not_le fun hle => hi ⟨hattempt, hle⟩)
      · exact goesOn_drop hrunning (.inl hphase) hattempt
  | refused number attempt url =>
      rw [hphase] at hi
      exact goesOn_drop hrunning (.inr hphase) hi
  | pausing number attempt url => exact goesOn_pausing hrunning hphase
  | answered number response =>
      rw [hphase] at hi
      obtain ⟨hok, hle⟩ := Classical.not_imp.mp hi
      exact goesOn_answered hrunning hphase hok (Nat.lt_of_not_le hle)
  | tagged number etag =>
      rw [hphase] at hi
      exact goesOn_tagged hrunning hphase (Nat.lt_of_not_le hi)
  | finished | failed error =>
      rw [hphase] at hi
      exact absurd trivial hi

/-- When `sendParts` is rejected, no part of the transfer is signed or PUT any more, whatever
comes back in whatever order, exactly if it was quiet by then. -/
theorem failed_transfer_quiet_iff {transfer : Transfer} {s t : SendState} {i : ℕ}
    (hstep : (sendSystem transfer).step s (.reject i) = some t) :
    (∀ actions u, (sendSystem transfer).run t actions = some u →
      u.signs = s.signs ∧ u.puts = s.puts) ↔ s.Quiet transfer := by
  have hrejected : ∃ result, t = { s with settled := some result, active := false } := by
    replace hstep : transferStep transfer s (.reject i) = some t := hstep
    simp only [transferStep] at hstep
    split at hstep
    · exact ⟨_, (Option.some.inj hstep).symm⟩
    · cases hstep
  obtain ⟨result, rfl⟩ := hrejected
  constructor
  · intro hsilent
    by_contra hnot
    obtain ⟨actions, u, hrun, hmore⟩ := goesOn_of_not_quiet
      (s := { s with settled := some result, active := false }) hnot
    exact hmore (hsilent actions u hrun)
  · intro hquiet actions u hrun
    exact quiet_run (s := { s with settled := some result, active := false }) hquiet hrun

/-- A file of so many parts of eight bytes, none of which the server holds. -/
def freshTransfer (partCount : ℕ) : Transfer where
  partSize := 8
  partCount := partCount
  fileSize := 8 * partCount
  held := fun _ => none

/-- Storage refuses the first part. -/
def refusedPart : List SendAction :=
  [.sign 0 (.signed fun _ => some "parts/1"), .respond 0 ⟨403, none⟩, .go 0]

/-- Before that the second of three parts was stored and its loop has ended, and the third is on
its last attempt. -/
def refusedLast : List SendAction :=
  [.sign 1 (.signed fun _ => some "parts/2"), .respond 1 ⟨200, some "b"⟩, .go 1, .go 1, .go 1,
    .sign 2 (.signed fun _ => some "parts/3"), .drop 2 "", .wake 2, .drop 2 "", .wake 2] ++
    refusedPart

/-- One loop has ended and one has a PUT under way, and the transfer sends nothing more. -/
theorem failed_transfer_quiet_iff_only : ∃ s t, (sendSystem (freshTransfer 3)).Reachable s ∧
    s.phase 1 = .finished ∧ s.phase 2 = .putting 3 3 "parts/3" ∧
    (sendSystem (freshTransfer 3)).step s (.reject 0) = some t ∧
    ∀ actions u, (sendSystem (freshTransfer 3)).run t actions = some u →
      u.signs = s.signs ∧ u.puts = s.puts := by
  obtain ⟨s, hreach, hfailed⟩ := StepSystem.Reachable.exists_of_run
    (M := sendSystem (freshTransfer 3)) (.init rfl) refusedLast
    (fun s => s.phase 0 == .failed (.failed "storage rejected a part (HTTP 403)") &&
      s.phase 1 == .finished && s.phase 2 == .putting 3 3 "parts/3" && s.next == 3 &&
      s.settled.isNone) (by decide +kernel)
  simp only [Bool.and_eq_true, beq_iff_eq, Option.isNone_iff_eq_none] at hfailed
  obtain ⟨⟨⟨⟨hphase, hended⟩, hputting⟩, hnext⟩, hopen⟩ := hfailed
  have hstep : (sendSystem (freshTransfer 3)).step s (.reject 0) =
      some { s with
        settled := some (.error (.failed "storage rejected a part (HTTP 403)"))
        active := false } := by
    show transferStep (freshTransfer 3) s (.reject 0) = _
    simp only [transferStep, hopen, hphase]
  have hquiet : s.Quiet (freshTransfer 3) := by
    refine .inr fun i => ?_
    obtain rfl | rfl | rfl | hlate : i = 0 ∨ i = 1 ∨ i = 2 ∨ 3 ≤ i := by omega
    · rw [hphase]
      trivial
    · rw [hended]
      trivial
    · rw [hputting, hnext]
      exact ⟨rfl, by decide⟩
    · rw [(Consistent.of_reachable hreach).idle i hlate]
      trivial
  exact ⟨s, _, hreach, hended, hputting, hstep, (failed_transfer_quiet_iff hstep).mpr hquiet⟩

/-- The first of four parts is refused while the second waits for its URL, and is sent. -/
theorem failed_transfer_sends_on :
    ¬∀ (transfer : Transfer) (s : SendState) (error : SendError),
      (sendSystem transfer).Reachable s → s.settled = some (.error error) →
      ∀ actions t, (sendSystem transfer).run s actions = some t →
        t.signs = s.signs ∧ t.puts = s.puts := by
  intro hall
  obtain ⟨s, hreach, hrejected⟩ := StepSystem.Reachable.exists_of_run
    (M := sendSystem (freshTransfer 4)) (.init rfl) (refusedPart ++ [.reject 0])
    (fun s => s.phase 1 == .signing 2 && !s.cancelled &&
      s.settled.any fun result => result.toOption.isNone) (by decide +kernel)
  simp only [Bool.and_eq_true, beq_iff_eq, Bool.not_eq_true'] at hrejected
  obtain ⟨⟨hphase, hrunning⟩, hsettled⟩ := hrejected
  have hgoes : s.GoesOn (freshTransfer 4) := goesOn_signing hrunning hphase
  obtain ⟨actions, t, hrun, hmore⟩ := hgoes
  obtain ⟨result, hresult, hfailed⟩ := (Option.any_eq_true _ _).mp hsettled
  cases result with
  | ok parts => exact absurd hfailed nofun
  | error error => exact hmore (hall (freshTransfer 4) s error hreach hresult actions t hrun)

end SendState

end Frontend
end MediaPlayer
