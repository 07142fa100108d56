import MediaPlayer.Library.Parties
import MediaPlayer.Library.StepSystem
import Mathlib.Algebra.Order.Ring.Int

/-!
# Waking the workers

`wake_workers` of `app/services/worker_wake.py`, called by the API for one worker and by the
coordinator of a piece attempt for as many as it has helpers.  A call is three requests: the
throttle key in Redis, `describe_auto_scaling_groups`, and `set_desired_capacity` if the group
wants fewer than the call asks for.  Any number of calls run side by side in `wakeSystem`;
a throttle key holds back a second call of the same size until it expires.

* `InOrder` — a capacity is set only while no call that asks for less stands between its
  `describe` and its `set`.
* `PendingAbove` — every call that has looked asks for no less than the group has; it is what
  steps meeting `InOrder` keep, and why they never lower the capacity.
-/

namespace MediaPlayer
namespace Services

open Library

/-- `WAKE_KEY`, one key per size asked for. -/
def wakeKey (atLeast : ℤ) : String :=
  if atLeast = 1 then "flickpond:worker-wake" else s!"flickpond:worker-wake:{atLeast}"

/-- What `wake_workers` reads of a group in the answer to `describe`. -/
structure DescribedGroup where
  desiredCapacity : Option ℤ
  maxSize : Option ℤ

/-- `min(at_least, groups[0].get("MaxSize", at_least))`. -/
def DescribedGroup.target (group : DescribedGroup) (atLeast : ℤ) : ℤ :=
  min atLeast (group.maxSize.getD atLeast)

/-- Where a call stands between two of its requests. -/
inductive WakePhase
  | throttling (atLeast : ℤ)
  | describing (atLeast : ℤ)
  | asking (target : ℤ)
  | returned (asked : Bool)
  deriving DecidableEq

/-- After `describe`: ask for the target if the group wants fewer. -/
def WakePhase.afterDescribe (atLeast : ℤ) (groups : List DescribedGroup) : WakePhase :=
  match groups with
  | [] => returned false
  | group :: _ =>
      if group.target atLeast ≤ group.desiredCapacity.getD 0 then returned false
      else asking (group.target atLeast)

/-- The group's desired capacity, the throttle keys there are, and the calls. -/
structure WakeState where
  capacity : ℤ
  keys : List String
  calls : ℕ → Option WakePhase

/-- Who moves.  `found` says whether the answer to `describe` lists the group. -/
inductive WakeAction
  | call (id : ℕ) (atLeast : ℤ)
  | advance (id : ℕ) (out : CallOutcome) (found : Bool)
  | keyExpires (key : String)

/-- One request of a call.  An exception is logged, and the call returns `False`. -/
def WakePhase.next (maxSize : ℤ) (s : WakeState) (out : CallOutcome) (found : Bool) :
    WakePhase → WakeState × WakePhase
  | throttling atLeast =>
      if wakeKey atLeast ∈ s.keys then (s, returned false)
      else (out.effect (fun s => { s with keys := wakeKey atLeast :: s.keys }) s,
        out.next (describing atLeast) (returned false))
  | describing atLeast =>
      let groups := if found then [⟨some s.capacity, some maxSize⟩] else []
      (s, out.next (afterDescribe atLeast groups) (returned false))
  | asking target =>
      (out.effect (fun s => { s with capacity := target }) s,
        out.next (returned true) (returned false))
  | returned asked => (s, returned asked)

/-- One step of the system.  With no group configured a call returns at once. -/
def wakeStep (groupName : String) (maxSize : ℤ) (s : WakeState) : WakeAction → Option WakeState
  | .call id atLeast =>
      match s.calls id with
      | some _ => none
      | none =>
          let phase := if groupName = "" then .returned false else .throttling atLeast
          some { s with calls := Function.update s.calls id (some phase) }
  | .advance id out found =>
      (s.calls id).map fun phase =>
        let after := phase.next maxSize s out found
        { after.1 with calls := Function.update s.calls id (some after.2) }
  | .keyExpires key => some { s with keys := s.keys.filter (· ≠ key) }

/-- Any number of calls, from a capacity within the group's limits; nothing else changes it. -/
def wakeSystem (groupName : String) (maxSize : ℤ) : StepSystem WakeState WakeAction where
  init s := 0 ≤ s.capacity ∧ s.capacity ≤ maxSize ∧ ∀ id, s.calls id = none
  step := wakeStep groupName maxSize

/-- A call that has looked at the group and asks for fewer than `target` has not set it yet. -/
def Overtakes (s : WakeState) (target : ℤ) : Prop :=
  ∃ id fewer, s.calls id = some (.asking fewer) ∧ fewer < target

/-- A `set_desired_capacity` that takes effect overtakes no call that asks for less. -/
def InOrder (s : WakeState) : WakeAction → Prop
  | .advance id out _ => ∀ target, s.calls id = some (.asking target) → out ≠ .raisedBefore →
      ¬Overtakes s target
  | _ => True

/-- The call asks for no less than there is, within the maximum, if it asks. -/
def WakePhase.Above (capacity maxSize : ℤ) : WakePhase → Prop
  | asking target => capacity ≤ target ∧ target ≤ maxSize
  | _ => True

/-- Every call that has looked asks for no less than the group has, and nobody for more than
its maximum. -/
structure PendingAbove (maxSize : ℤ) (s : WakeState) : Prop where
  capacity_le : s.capacity ≤ maxSize
  calls : ∀ id phase, s.calls id = some phase → phase.Above s.capacity maxSize

variable {groupName : String} {maxSize : ℤ} {s t : WakeState}

theorem above_afterDescribe (capacity atLeast : ℤ) (found : Bool) :
    (WakePhase.afterDescribe atLeast
      (if found then [⟨some capacity, some maxSize⟩] else [])).Above capacity maxSize := by
  cases found with
  | false => trivial
  | true =>
      by_cases henough : min atLeast maxSize ≤ capacity
      · simp [WakePhase.afterDescribe, DescribedGroup.target, henough, WakePhase.Above]
      · have hless : capacity ≤ min atLeast maxSize := (not_le.mp henough).le
        simpa [WakePhase.afterDescribe, DescribedGroup.target, henough, WakePhase.Above]
          using hless

/-- All that a request does to the capacity: nothing, and the call asks for no less if it goes on
to ask; or the call sets what it asked for and asks no more. -/
theorem WakePhase.next_cases (s : WakeState) (out : CallOutcome) (found : Bool)
    (phase : WakePhase) (habove : phase.Above s.capacity maxSize) :
    ((phase.next maxSize s out found).1.capacity = s.capacity ∧
      (phase.next maxSize s out found).2.Above s.capacity maxSize) ∨
    (∃ target, phase = .asking target ∧ out ≠ .raisedBefore ∧
      (phase.next maxSize s out found).1.capacity = target ∧
      (phase.next maxSize s out found).2.Above target maxSize) := by
  cases phase with
  | throttling atLeast =>
      refine Or.inl ?_
      by_cases hkey : wakeKey atLeast ∈ s.keys
      · simp [WakePhase.next, hkey, WakePhase.Above]
      · cases out <;> simp [WakePhase.next, hkey, WakePhase.Above]
  | describing atLeast =>
      refine Or.inl ⟨rfl, ?_⟩
      cases out with
      | returned => exact above_afterDescribe s.capacity atLeast found
      | raisedBefore => trivial
      | raisedAfter => trivial
  | asking target =>
      cases out with
      | raisedBefore => exact Or.inl ⟨rfl, trivial⟩
      | returned => exact Or.inr ⟨target, rfl, by simp, rfl, trivial⟩
      | raisedAfter => exact Or.inr ⟨target, rfl, by simp, rfl, trivial⟩
  | returned asked => exact Or.inl ⟨rfl, habove⟩

theorem PendingAbove.init (hinit : (wakeSystem groupName maxSize).init s) :
    PendingAbove maxSize s :=
  ⟨hinit.2.1, fun id phase hcall => by simp [hinit.2.2 id] at hcall⟩

/-- A step in order keeps every call that has looked above the capacity, and raises it if
anything. -/
theorem PendingAbove.step {a : WakeAction} (hpending : PendingAbove maxSize s)
    (horder : InOrder s a) (hstep : (wakeSystem groupName maxSize).step s a = some t) :
    PendingAbove maxSize t ∧ s.capacity ≤ t.capacity := by
  cases a with
  | call id atLeast =>
      cases hcall : s.calls id with
      | some phase => simp [wakeSystem, wakeStep, hcall] at hstep
      | none =>
          simp only [wakeSystem, wakeStep, hcall] at hstep
          obtain rfl := Option.some.inj hstep
          refine ⟨⟨hpending.capacity_le, forall_update_some
            (fun other phase _ => hpending.calls other phase) ?_⟩, le_rfl⟩
          intro phase hphase
          obtain rfl := Option.some.inj hphase
          show WakePhase.Above s.capacity maxSize _
          split <;> trivial
  | keyExpires key =>
      obtain rfl := Option.some.inj hstep
      exact ⟨⟨hpending.capacity_le, hpending.calls⟩, le_rfl⟩
  | advance id out found =>
      obtain ⟨phase, hcall, rfl⟩ := Option.map_eq_some_iff.mp hstep
      have hown := hpending.calls id phase hcall
      rcases phase.next_cases s out found hown with
        ⟨hsame, habove⟩ | ⟨target, rfl, hraise, hset, habove⟩
      · refine ⟨⟨?_, forall_update_some (fun other phase _ hother => ?_) ?_⟩, hsame.ge⟩
        · show (phase.next maxSize s out found).1.capacity ≤ maxSize
          rw [hsame]
          exact hpending.capacity_le
        · show phase.Above (WakePhase.next maxSize s out found _).1.capacity maxSize
          rw [hsame]
          exact hpending.calls other phase hother
        · intro after hafter
          obtain rfl := Option.some.inj hafter
          show WakePhase.Above (phase.next maxSize s out found).1.capacity maxSize _
          rw [hsame]
          exact habove
      · obtain ⟨hless, hmost⟩ := hown
        refine ⟨⟨?_, forall_update_some (fun other phase _ hother => ?_) ?_⟩, ?_⟩
        · show (WakePhase.next maxSize s out found _).1.capacity ≤ maxSize
          rw [hset]
          exact hmost
        · show phase.Above (WakePhase.next maxSize s out found _).1.capacity maxSize
          rw [hset]
          have hkept := hpending.calls other phase hother
          cases phase with
          | asking asked =>
              -- The other call has looked, so it asks for no less than this one sets.
              refine ⟨?_, hkept.2⟩
              by_contra hfewer
              exact horder target hcall hraise ⟨other, asked, hother, not_le.mp hfewer⟩
          | _ => trivial
        · intro after hafter
          obtain rfl := Option.some.inj hafter
          show WakePhase.Above (WakePhase.next maxSize s out found _).1.capacity maxSize _
          rw [hset]
          exact habove
        · show s.capacity ≤ (WakePhase.next maxSize s out found _).1.capacity
          rw [hset]
          exact hless

/-- A call that asks gets what it asks for. -/
theorem step_asking {id : ℕ} {target : ℤ} (hcall : s.calls id = some (.asking target)) :
    ∃ t, (wakeSystem groupName maxSize).step s (.advance id .returned true) = some t ∧
      t.capacity = target :=
  ⟨_, Option.map_eq_some_iff.mpr ⟨_, hcall, rfl⟩, rfl⟩

/-- A step out of order can be followed by one that lowers the capacity. -/
theorem lowered_of_overtaken {a : WakeAction} (hbreak : ¬InOrder s a)
    (hstep : (wakeSystem groupName maxSize).step s a = some t) :
    ∃ b u, (wakeSystem groupName maxSize).step t b = some u ∧ u.capacity < t.capacity := by
  cases a with
  | call id atLeast => exact absurd trivial hbreak
  | keyExpires key => exact absurd trivial hbreak
  | advance id out found =>
      simp only [InOrder, not_forall, not_not] at hbreak
      obtain ⟨target, hcall, hraise, other, fewer, hother, hfewer⟩ := hbreak
      obtain ⟨phase, hphase, ht⟩ := Option.map_eq_some_iff.mp hstep
      obtain rfl := Option.some.inj (hcall.symm.trans hphase)
      have hne : other ≠ id := by
        rintro rfl
        have hsame := WakePhase.asking.inj (Option.some.inj (hother.symm.trans hcall))
        omega
      have hset : t.capacity = target := by
        subst ht
        cases out <;> first | exact absurd rfl hraise | rfl
      have hwaiting : t.calls other = some (.asking fewer) := by
        subst ht
        exact (Function.update_of_ne hne _ _).trans hother
      obtain ⟨u, hu, hcapacity⟩ := step_asking hwaiting
      exact ⟨.advance other .returned true, u, hu, by omega⟩

/-- **Waking only scales up**, in every run whose calls set the capacity in order; a step out of
order can always be followed by one that scales down. -/
theorem wake_only_scales_up :
    (∀ (s t : WakeState) (as : List WakeAction),
      (wakeSystem groupName maxSize).ReachableUnder InOrder s →
      (wakeSystem groupName maxSize).run s as = some t →
      (wakeSystem groupName maxSize).MeetsAll InOrder s as →
      s.capacity ≤ t.capacity ∧ t.capacity ≤ maxSize) ∧
    ∀ (s t : WakeState) (a : WakeAction), ¬InOrder s a →
      (wakeSystem groupName maxSize).step s a = some t →
      ∃ b u, (wakeSystem groupName maxSize).step t b = some u ∧ u.capacity < t.capacity := by
  refine ⟨?_, fun s t a hbreak hstep => lowered_of_overtaken hbreak hstep⟩
  intro s t as hs hrun hmeets
  have hpending : PendingAbove maxSize s :=
    hs.invariant (PendingAbove maxSize) (fun _ hinit => .init hinit)
      fun _ _ _ _ hpending horder hstep => (hpending.step horder hstep).1
  clear hs
  induction as generalizing s with
  | nil =>
      obtain rfl : s = t := by simpa using hrun
      exact ⟨le_rfl, hpending.capacity_le⟩
  | cons a as ih =>
      obtain ⟨u, hu, hrest⟩ := Option.bind_eq_some_iff.mp hrun
      obtain ⟨hafter, hup⟩ := hpending.step hmeets.1 hu
      obtain ⟨hle, hmost⟩ := ih u hrest (hmeets.2 u hu) hafter
      exact ⟨hup.trans hle, hmost⟩

/-- A group of at most four that wants one worker. -/
def oneWanted : WakeState := ⟨1, [], fun _ => none⟩

/-- Three requests of a call, all of which return. -/
def wakeFully (id : ℕ) : List WakeAction :=
  List.replicate 3 (.advance id .returned true)

/-- A call that is alone is in order. -/
theorem meetsAll_alone (id : ℕ) {s : WakeState} {as : List WakeAction}
    (hids : ∀ a ∈ as, ∃ atLeast out found, a = .call id atLeast ∨ a = .advance id out found)
    (halone : ∀ other ≠ id, s.calls other = none) :
    (wakeSystem groupName maxSize).MeetsAll InOrder s as := by
  induction as generalizing s with
  | nil => trivial
  | cons a as ih =>
      obtain ⟨atLeast, out, found, ha⟩ := hids a List.mem_cons_self
      refine ⟨?_, fun t hstep => ih (fun b hb => hids b (List.mem_cons_of_mem a hb)) ?_⟩
      · rcases ha with rfl | rfl
        · trivial
        · rintro target hcall - ⟨other, fewer, hother, hfewer⟩
          by_cases hne : other = id
          · subst hne
            have hsame := WakePhase.asking.inj (Option.some.inj (hcall.symm.trans hother))
            omega
          · simp [halone other hne] at hother
      · intro other hne
        rcases ha with rfl | rfl
        · cases hcall : s.calls id with
          | some phase => simp [wakeSystem, wakeStep, hcall] at hstep
          | none =>
              simp only [wakeSystem, wakeStep, hcall] at hstep
              obtain rfl := Option.some.inj hstep
              exact (Function.update_of_ne hne _ _).trans (halone other hne)
        · obtain ⟨phase, -, rfl⟩ := Option.map_eq_some_iff.mp hstep
          exact (Function.update_of_ne hne _ _).trans (halone other hne)

/-- One coordinator with a helper: the group goes from one worker to two. -/
theorem wake_only_scales_up_alone : ∃ t,
    (wakeSystem "workers" 4).run oneWanted (.call 0 2 :: wakeFully 0) = some t ∧
      t.capacity = 2 ∧ oneWanted.capacity ≤ t.capacity ∧ t.capacity ≤ 4 := by
  obtain ⟨t, hrun, htwo⟩ := (Option.any_eq_true (fun t : WakeState => t.capacity == 2)
    ((wakeSystem "workers" 4).run oneWanted (.call 0 2 :: wakeFully 0))).mp (by decide +kernel)
  have hinit : (wakeSystem "workers" 4).ReachableUnder InOrder oneWanted :=
    .init ⟨by decide, by decide, fun _ => rfl⟩
  refine ⟨t, hrun, by simpa using htwo,
    wake_only_scales_up.1 oneWanted t (.call 0 2 :: wakeFully 0) hinit hrun ?_⟩
  refine meetsAll_alone 0 (fun a ha => ⟨2, .returned, true, ?_⟩) fun _ _ => rfl
  simpa [wakeFully] using ha

/-- The coordinator of one helper looks, that of three helpers wakes four workers, and the
first sets the two it decided on. -/
theorem wake_scales_down :
    ¬∀ (s t : WakeState) (as : List WakeAction), (wakeSystem "workers" 4).Reachable s →
      (wakeSystem "workers" 4).run s as = some t → s.capacity ≤ t.capacity ∧ t.capacity ≤ 4 := by
  intro hup
  have hinit : (wakeSystem "workers" 4).Reachable oneWanted :=
    .init ⟨by decide, by decide, fun _ => rfl⟩
  obtain ⟨s, hrun, hfour⟩ := (Option.any_eq_true (fun s : WakeState => s.capacity == 4 &&
      s.calls 0 == some (.asking 2)) ((wakeSystem "workers" 4).run oneWanted
    (.call 0 2 :: (wakeFully 0).take 2 ++ .call 1 4 :: wakeFully 1))).mp (by decide +kernel)
  simp only [Bool.and_eq_true, beq_iff_eq] at hfour
  obtain ⟨t, hstep, htwo⟩ : ∃ t, (wakeSystem "workers" 4).step s (.advance 0 .returned true) =
      some t ∧ t.capacity = 2 := step_asking hfour.2
  have hle := (hup s t [.advance 0 .returned true] (hinit.of_run hrun) (by simp [hstep])).1
  omega

end Services
end MediaPlayer
