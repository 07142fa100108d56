import MediaPlayer.Frontend.PartSends

/-!
# What a transfer has sent when it ends

* `step_cases` — what an action does to the control of the transfer.
* `parts_sent_once` — a `sendParts` that resolves has sent every missing part once, whatever
  the order in which the awaits came back; a cancelled one begins no PUT.
-/

namespace MediaPlayer
namespace Frontend

open Library

namespace SendState

variable {transfer : Transfer} {s t : SendState} {i : ℕ}

/-! ## The control of a transfer -/

/-- A step of a loop: the control is left as it is, and under an aborted signal nothing
begins. -/
structure LoopStep (s t : SendState) : Prop where
  cancelled : t.cancelled = s.cancelled
  active : t.active = s.active
  settled : t.settled = s.settled
  silent : s.cancelled = true → t.puts = s.puts ∧ t.signs = s.signs

theorem loopStep_move (s : SendState) (i : ℕ) (phase : SendPhase) : LoopStep s (s.move i phase) :=
  ⟨rfl, rfl, rfl, fun _ => ⟨rfl, rfl⟩⟩

theorem loopStep_startPut (s : SendState) (i number attempt : ℕ) (url : String) :
    LoopStep s (s.startPut transfer i number attempt url) := by
  unfold SendState.startPut
  split
  · exact loopStep_move s i _
  · rename_i hrunning
    exact ⟨rfl, rfl, rfl, fun hcancelled => absurd hcancelled hrunning⟩

theorem loopStep_loop (s : SendState) (i : ℕ) : LoopStep s (s.loop transfer i) := by
  unfold SendState.loop
  split
  · exact loopStep_move s i _
  · split
    · exact loopStep_move s i _
    · rename_i hrunning
      exact ⟨rfl, rfl, rfl, fun hcancelled => absurd hcancelled hrunning⟩

/-- Where the connection dropped, the loop waits or fails; it does not send at once. -/
theorem drop_cases {i : ℕ} {message : String}
    (hstep : transferStep transfer s (.drop i message) = some t) :
    ∃ phase, t = s.move i phase ∧
      ∀ number attempt url, phase ≠ .putting number attempt url := by
  simp only [transferStep] at hstep
  cases hphase : s.phase i with
  | putting number attempt url | refused number attempt url =>
      simp only [hphase] at hstep
      split at hstep
      · exact ⟨_, (Option.some.inj hstep).symm, by simp⟩
      · split at hstep
        · exact ⟨_, (Option.some.inj hstep).symm, by simp⟩
        · exact ⟨_, (Option.some.inj hstep).symm, by simp⟩
  | looping | signing | pausing | answered | tagged | finished | failed =>
      simp [hphase] at hstep

/-- What an action does to the control. -/
theorem step_cases {action : SendAction} (hstep : transferStep transfer s action = some t) :
    LoopStep s t ∨
      (s.settled = none ∧ ∃ result, t = { s with settled := some result, active := false }) ∨
      (action = .cancel ∧ s.active = true ∧ t = { s with cancelled := true }) ∨
      (action = .cancel ∧ (s.active = false ∨ s.cancelled = true) ∧ t = s) := by
  cases action with
  | go i =>
      refine .inl ?_
      simp only [transferStep] at hstep
      split at hstep
      · obtain rfl := Option.some.inj hstep
        exact loopStep_loop s i
      · split at hstep
        · obtain rfl := Option.some.inj hstep
          exact loopStep_move s i _
        · obtain rfl := Option.some.inj hstep
          exact loopStep_move s i _
      · obtain rfl := Option.some.inj hstep
        exact ⟨rfl, rfl, rfl, fun _ => ⟨rfl, rfl⟩⟩
      · cases hstep
  | sign i answer =>
      refine .inl ?_
      simp only [transferStep] at hstep
      split at hstep
      · split at hstep
        · obtain rfl := Option.some.inj hstep
          exact loopStep_move s i _
        · obtain rfl := Option.some.inj hstep
          exact loopStep_startPut s i _ _ _
      · cases hstep
  | respond i response =>
      refine .inl ?_
      simp only [transferStep] at hstep
      split at hstep
      · split at hstep
        · obtain rfl := Option.some.inj hstep
          exact ⟨rfl, rfl, rfl, fun _ => ⟨rfl, rfl⟩⟩
        · obtain rfl := Option.some.inj hstep
          exact ⟨rfl, rfl, rfl, fun _ => ⟨rfl, rfl⟩⟩
      · cases hstep
  | drop i message =>
      obtain ⟨phase, rfl, -⟩ := drop_cases hstep
      exact .inl (loopStep_move s i phase)
  | wake i =>
      refine .inl ?_
      simp only [transferStep] at hstep
      split at hstep
      · obtain rfl := Option.some.inj hstep
        exact loopStep_startPut s i _ _ _
      · cases hstep
  | resolve =>
      obtain ⟨⟨hopen, -⟩, hsome⟩ := Option.ite_none_right_eq_some.mp hstep
      exact .inr (.inl ⟨hopen, _, (Option.some.inj hsome).symm⟩)
  | reject i =>
      simp only [transferStep] at hstep
      split at hstep
      · rename_i hopen _
        exact .inr (.inl ⟨hopen, _, (Option.some.inj hstep).symm⟩)
      · cases hstep
  | cancel =>
      simp only [transferStep] at hstep
      split at hstep
      · rename_i hidle
        obtain rfl := Option.some.inj hstep
        exact .inr (.inr (.inr ⟨rfl, by simpa using hidle, rfl⟩))
      · rename_i hactive
        obtain rfl := Option.some.inj hstep
        simp only [not_or, not_not] at hactive
        exact .inr (.inr (.inl ⟨rfl, hactive.1, rfl⟩))

/-- Cancel has a transfer to stop until `sendParts` has ended. -/
theorem active_of_reachable (hreach : (sendSystem transfer).Reachable s) :
    s.active = s.settled.isNone := by
  have hstart : ∀ k, LoopStep (openTransfer transfer)
      ((List.range k).foldl (fun s i => s.loop transfer i) (openTransfer transfer)) := by
    intro k
    induction k with
    | zero => exact ⟨rfl, rfl, rfl, fun _ => ⟨rfl, rfl⟩⟩
    | succ k ih =>
        rw [List.range_succ, List.foldl_append]
        obtain ⟨hcancelled, hactive, hsettled, hsilent⟩ := @loopStep_loop transfer
          ((List.range k).foldl (fun s i => s.loop transfer i) (openTransfer transfer)) k
        exact ⟨hcancelled.trans ih.cancelled, hactive.trans ih.active, hsettled.trans ih.settled,
          fun habsurd => absurd habsurd nofun⟩
  refine hreach.invariant (fun s => s.active = s.settled.isNone) ?_ ?_
  · rintro s rfl
    have hloops := hstart transfer.sends
    show (startTransfer transfer).active = (startTransfer transfer).settled.isNone
    unfold startTransfer
    rw [hloops.active, hloops.settled]
    rfl
  · intro s action t _ hs _ hstep
    obtain hloop | ⟨-, result, rfl⟩ | ⟨-, -, rfl⟩ | ⟨-, -, rfl⟩ := step_cases hstep
    · rw [hloop.active, hloop.settled]
      exact hs
    · rfl
    · exact hs
    · exact hs

/-- Under an aborted signal nothing begins any more. -/
theorem run_cancelled (hcancelled : s.cancelled = true) {actions : List SendAction}
    (hrun : (sendSystem transfer).run s actions = some t) :
    t.cancelled = true ∧ t.puts = s.puts ∧ t.signs = s.signs := by
  induction actions generalizing s with
  | nil =>
      obtain rfl : s = t := by simpa using hrun
      exact ⟨hcancelled, rfl, rfl⟩
  | cons action actions ih =>
      obtain ⟨u, hstep, hrest⟩ := Option.bind_eq_some_iff.mp hrun
      obtain hloop | ⟨-, result, rfl⟩ | ⟨-, -, rfl⟩ | ⟨-, -, rfl⟩ := step_cases hstep
      · obtain ⟨hstays, hputs, hsigns⟩ := ih (hloop.cancelled.trans hcancelled) hrest
        exact ⟨hstays, hputs.trans (hloop.silent hcancelled).1,
          hsigns.trans (hloop.silent hcancelled).2⟩
      · exact ih (s := { s with settled := some result, active := false }) hcancelled hrest
      · exact ih (s := { s with cancelled := true }) rfl hrest
      · exact ih hcancelled hrest

/-! ## The parts of a transfer that ends well -/

/-- The ETag the server holds, or the one that came back with the only PUT that succeeded. -/
def OwnEtag (transfer : Transfer) (s : SendState) (part : ManifestPart) : Prop :=
  match transfer.held part.n with
  | some already => part.etag = some already
  | none => ∃ response etag, s.succeeded part.n = [response] ∧ response.etag = some etag ∧
      part.etag = some etag

/-- No loop is left with a part, and none has failed. -/
theorem Consistent.kept_of_settled (hs : s.Consistent transfer) {parts : List ManifestPart}
    (hsettled : s.settled = some (.ok parts)) {number : ℕ} (hmem : number ∈ transfer.todo) :
    s.Kept number := by
  have hfinished : ∀ i, s.phase i = .finished := fun i => by
    by_cases hi : i < transfer.sends
    · exact (hs.settled parts hsettled).1 i hi
    · exact hs.idle i (Nat.le_of_not_lt hi)
  have hlength : transfer.todo.length ≤ s.next := by
    by_cases hsends : 0 < transfer.sends
    · exact hs.drained 0 hsends (hfinished 0)
    · unfold Transfer.sends partsInFlight at hsends
      omega
  rw [← List.take_of_length_le hlength] at hmem
  obtain ⟨i, hi⟩ | ⟨i, error, hi⟩ | hkept := hs.kept number hmem
  · rw [hfinished i] at hi
    exact absurd hi nofun
  · exact absurd ((hfinished i).symm.trans hi) nofun
  · exact hkept

/-- When `sendParts` resolves, every part the server did not hold has been taken once and no
other was sent, and the manifest has every part's own ETag; once it is cancelled, no PUT
begins. -/
theorem parts_sent_once (transfer : Transfer) (s : SendState)
    (hreach : (sendSystem transfer).Reachable s) :
    (∀ parts, s.settled = some (.ok parts) →
      (∀ number, 1 ≤ number → number ≤ transfer.partCount → transfer.held number = none →
        (s.succeeded number).length = 1) ∧
      (∀ put ∈ s.puts, transfer.held put.number = none) ∧
      parts.map ManifestPart.n = List.range' 1 transfer.partCount ∧
      ∀ part ∈ parts, OwnEtag transfer s part) ∧
    (s.settled = none → ∀ t, (sendSystem transfer).step s .cancel = some t →
      t.cancelled = true) ∧
    (s.cancelled = true → ∀ actions t, (sendSystem transfer).run s actions = some t →
      t.puts = s.puts) := by
  have hs := Consistent.of_reachable hreach
  refine ⟨fun parts hsettled => ⟨?_, ?_, ?_, ?_⟩, ?_, ?_⟩
  · intro number hone hcount hmissing
    obtain ⟨response, etag, hsucceeded, -⟩ :=
      hs.kept_of_settled hsettled (mem_todo.mpr ⟨hone, hcount, hmissing⟩)
    rw [hsucceeded, List.length_singleton]
  · intro put hput
    exact (mem_todo.mp (List.mem_of_mem_take (hs.puts put hput))).2.2
  · rw [(hs.settled parts hsettled).2]
    unfold SendState.manifest
    rw [List.map_map, List.range'_eq_map_range]
    refine List.map_congr_left fun index _ => ?_
    exact Nat.add_comm index 1
  · intro part hpart
    rw [(hs.settled parts hsettled).2] at hpart
    obtain ⟨index, hindex, rfl⟩ := List.mem_map.mp hpart
    rw [List.mem_range] at hindex
    unfold OwnEtag
    simp only
    cases hheld : transfer.held (index + 1) with
    | some already => exact hs.held index hindex already hheld
    | none =>
        obtain ⟨response, etag, hsucceeded, hetag, hplace⟩ :=
          hs.kept_of_settled hsettled (mem_todo.mpr ⟨Nat.le_add_left 1 index, hindex, hheld⟩)
        exact ⟨response, etag, hsucceeded, hetag, hplace⟩
  · intro hopen t hstep
    have hactive := active_of_reachable hreach
    rw [hopen] at hactive
    replace hstep : (if ¬s.active = true ∨ s.cancelled = true then some s
      else some { s with cancelled := true }) = some t := hstep
    split at hstep
    · rename_i hidle
      obtain rfl := Option.some.inj hstep
      exact hidle.resolve_left (fun hnot => hnot hactive)
    · obtain rfl := Option.some.inj hstep
      rfl
  · intro hcancelled actions t hrun
    exact (run_cancelled hcancelled hrun).2.1

/-- A file of two parts, the first of which the server holds. -/
def resumedTransfer : Transfer where
  partSize := 8
  partCount := 2
  fileSize := 12
  held number := if number = 1 then some "7c4a" else none

theorem parts_sent_once_resumed : ∃ s, (sendSystem resumedTransfer).Reachable s ∧
    s.settled = some (.ok [⟨1, some "7c4a"⟩, ⟨2, some "9f0b"⟩]) ∧
    (s.succeeded 2).length = 1 := by
  obtain ⟨s, hreach, hsettled⟩ := StepSystem.Reachable.exists_of_run
    (M := sendSystem resumedTransfer) (.init rfl)
    [.sign 0 (.signed fun _ => some "parts/2"), .respond 0 ⟨503, none⟩, .wake 0,
      .respond 0 ⟨200, some "9f0b"⟩, .go 0, .go 0, .go 0, .resolve]
    (fun s => s.settled.any fun result =>
      result.toOption == some [⟨1, some "7c4a"⟩, ⟨2, some "9f0b"⟩]) (by decide +kernel)
  replace hsettled : s.settled = some (.ok [⟨1, some "7c4a"⟩, ⟨2, some "9f0b"⟩]) := by
    obtain ⟨result, hresult, hok⟩ := (Option.any_eq_true _ _).mp hsettled
    cases result with
    | error error => exact absurd hok nofun
    | ok parts =>
        have hparts : some parts = some [⟨1, some "7c4a"⟩, ⟨2, some "9f0b"⟩] := by
          simpa [Except.toOption] using hok
        rw [hresult, Option.some.inj hparts]
  exact ⟨s, hreach, hsettled, ((parts_sent_once resumedTransfer s hreach).1 _ hsettled).1 2
    (by decide) (by decide) rfl⟩

end SendState

end Frontend
end MediaPlayer
