import Mathlib.Data.List.Basic

/-!
# Systems of atomic steps

A `StepSystem` is a set of initial states and a partial, executable step
function.  Everything a step leaves open (which party moves, what a failed call
did before it failed, what a clock shows) is part of the action, so one action
in one state has at most one result and a run is just a list of actions.

* `StepSystem.run` executes a list of actions.
* `StepSystem.ReachableUnder ok` is the states reached by steps that all meet a
  condition `ok` on the state before the step and the action; `Reachable` is the
  case without a condition.
* `MeetsAll ok` says of a run that all its steps meet `ok`; `meetsAll_cases` decides by it
  between what steps meeting `ok` preserve and what a step that breaks `ok` leaves for good.
* `CallOutcome` is what a caller sees of a call on a store across the network,
  which may fail although the store has done the work.
* `ReachableUnder.invariant` is the one induction over runs: an invariant that
  holds initially and survives every step meeting `ok` holds in every state
  reached.  The step premise also gets that the state before is reached, so a
  second invariant may lean on a first.
-/

namespace MediaPlayer
namespace Library

/-- Initial states and the atomic steps.  `step s a = none` says that action `a`
cannot happen in state `s`. -/
structure StepSystem (σ α : Type*) where
  init : σ → Prop
  step : σ → α → Option σ

namespace StepSystem

variable {σ α : Type*} (M : StepSystem σ α)

/-- Execute a list of actions, one after the other. -/
def run (s : σ) : List α → Option σ
  | [] => some s
  | a :: as => (M.step s a).bind fun t => run t as

@[simp] theorem run_nil (s : σ) : M.run s [] = some s := rfl

@[simp] theorem run_cons (s : σ) (a : α) (as : List α) :
    M.run s (a :: as) = (M.step s a).bind fun t => M.run t as := rfl

/-- The first step of a run is known. -/
theorem run_of_step {s t : σ} {a : α} (hstep : M.step s a = some t) (as : List α) :
    M.run s (a :: as) = M.run t as := by
  rw [run_cons, hstep, Option.bind_some]

/-- A run goes on where an earlier one has ended. -/
theorem run_append {s t : σ} {as : List α} (hrun : M.run s as = some t) (bs : List α) :
    M.run s (as ++ bs) = M.run t bs := by
  induction as generalizing s with
  | nil =>
      obtain rfl : s = t := by simpa using hrun
      rfl
  | cons a as ih =>
      obtain ⟨u, hu, hrest⟩ := Option.bind_eq_some_iff.mp hrun
      rw [List.cons_append, M.run_of_step hu, ih hrest]

/-- Execute a list of actions as long as each of them meets `ok`. -/
def runUnder (ok : σ → α → Prop) [∀ s a, Decidable (ok s a)] (s : σ) :
    List α → Option σ
  | [] => some s
  | a :: as => if ok s a then (M.step s a).bind fun t => runUnder ok t as else none

/-- Every step of the run from `s` meets `ok`. -/
def MeetsAll (ok : σ → α → Prop) (s : σ) : List α → Prop
  | [] => True
  | a :: as => ok s a ∧ ∀ t, M.step s a = some t → MeetsAll ok t as

/-- The states reached from an initial one by steps that all meet `ok`. -/
inductive ReachableUnder (ok : σ → α → Prop) : σ → Prop
  | init {s : σ} (hinit : M.init s) : ReachableUnder ok s
  | step {s t : σ} {a : α} (hs : ReachableUnder ok s) (hok : ok s a)
      (hstep : M.step s a = some t) : ReachableUnder ok t

/-- The states reached by steps of any kind. -/
abbrev Reachable (s : σ) : Prop := M.ReachableUnder (fun _ _ => True) s

variable {M} {ok : σ → α → Prop}

/-- The induction over runs: what holds initially and survives every step that
meets `ok` holds in every state reached. -/
theorem ReachableUnder.invariant (inv : σ → Prop)
    (hinit : ∀ s, M.init s → inv s)
    (hstep : ∀ s a t, M.ReachableUnder ok s → inv s → ok s a →
      M.step s a = some t → inv t)
    {s : σ} (hs : M.ReachableUnder ok s) : inv s := by
  induction hs with
  | init h => exact hinit _ h
  | step hs hok h ih => exact hstep _ _ _ hs ih hok h

/-- A weaker condition. -/
theorem ReachableUnder.mono {ok' : σ → α → Prop} {s : σ} (hs : M.ReachableUnder ok s)
    (hok : ∀ s a, ok s a → ok' s a) : M.ReachableUnder ok' s := by
  induction hs with
  | init hinit => exact .init hinit
  | step _ ha hstep ih => exact .step ih (hok _ _ ha) hstep

theorem ReachableUnder.reachable {s : σ} (hs : M.ReachableUnder ok s) : M.Reachable s :=
  hs.mono fun _ _ _ => trivial

/-- Extending a run by one more step. -/
theorem Reachable.next {s t : σ} {a : α} (hs : M.Reachable s)
    (hstep : M.step s a = some t) : M.Reachable t :=
  .step hs trivial hstep

/-- A state a list of actions leads to from a reached state is reached. -/
theorem Reachable.of_run {s t : σ} (hs : M.Reachable s) {as : List α}
    (hrun : M.run s as = some t) : M.Reachable t := by
  induction as generalizing s with
  | nil =>
      obtain rfl : s = t := by simpa using hrun
      exact hs
  | cons a as ih =>
      obtain ⟨u, hu, hrest⟩ := Option.bind_eq_some_iff.mp hrun
      exact ih (hs.next hu) hrest

/-- A run that ends in a state with property `p` shows that such a state is reached. -/
theorem Reachable.exists_of_run {s : σ} (hs : M.Reachable s) (as : List α) (p : σ → Bool)
    (hrun : (M.run s as).any p = true) : ∃ t, M.Reachable t ∧ p t = true := by
  obtain ⟨t, ht, hp⟩ := (Option.any_eq_true p (M.run s as)).mp hrun
  exact ⟨t, hs.of_run ht, hp⟩

/-- A preorder that holds across every step from a reached state holds across every run
from one. -/
theorem Reachable.relation_of_run {rel : σ → σ → Prop} (hrefl : ∀ s, rel s s)
    (htrans : ∀ s t u, rel s t → rel t u → rel s u)
    (hstep : ∀ s a t, M.Reachable s → M.step s a = some t → rel s t) {s t : σ}
    (hs : M.Reachable s) {as : List α} (hrun : M.run s as = some t) : rel s t := by
  induction as generalizing s with
  | nil =>
      obtain rfl : s = t := by simpa using hrun
      exact hrefl s
  | cons a as ih =>
      obtain ⟨u, hu, hrest⟩ := Option.bind_eq_some_iff.mp hrun
      exact htrans s u t (hstep s a u hs hu) (ih (hs.next hu) hrest)

/-- The same for a run that checks `ok` before every step. -/
theorem ReachableUnder.of_runUnder [∀ s a, Decidable (ok s a)] {s t : σ}
    (hs : M.ReachableUnder ok s) {as : List α}
    (hrun : M.runUnder ok s as = some t) : M.ReachableUnder ok t := by
  induction as generalizing s with
  | nil =>
      obtain rfl : s = t := by simpa [runUnder] using hrun
      exact hs
  | cons a as ih =>
      by_cases hok : ok s a
      · simp only [runUnder, if_pos hok] at hrun
        obtain ⟨u, hu, hrest⟩ := Option.bind_eq_some_iff.mp hrun
        exact ih (.step hs hok hu) hrest
      · simp [runUnder, hok] at hrun

theorem ReachableUnder.exists_of_runUnder [∀ s a, Decidable (ok s a)] {s : σ}
    (hs : M.ReachableUnder ok s) (as : List α) (p : σ → Bool)
    (hrun : (M.runUnder ok s as).any p = true) : ∃ t, M.ReachableUnder ok t ∧ p t = true := by
  obtain ⟨t, ht, hp⟩ := (Option.any_eq_true p (M.runUnder ok s as)).mp hrun
  exact ⟨t, hs.of_runUnder ht, hp⟩

/-- A run that checks `ok` before every step is a run whose steps all meet it. -/
theorem meetsAll_of_runUnder [∀ s a, Decidable (ok s a)] {s t : σ} {as : List α}
    (hrun : M.runUnder ok s as = some t) : M.MeetsAll ok s as ∧ M.run s as = some t := by
  induction as generalizing s with
  | nil => exact ⟨trivial, hrun⟩
  | cons a as ih =>
      obtain ⟨hok, hsome⟩ := Option.ite_none_right_eq_some.mp hrun
      obtain ⟨u, hu, hrest⟩ := Option.bind_eq_some_iff.mp hsome
      obtain ⟨hmeets, hends⟩ := ih hrest
      refine ⟨⟨hok, fun v hv => ?_⟩, (M.run_of_step hu as).trans hends⟩
      obtain rfl := Option.some.inj (hu.symm.trans hv)
      exact hmeets

/-- A condition that `ok` gives where an invariant holds that it keeps. -/
theorem MeetsAll.imp_of_invariant {ok' : σ → α → Prop} {inv : σ → Prop}
    (hstep : ∀ s a t, inv s → ok' s a → M.step s a = some t → inv t)
    (hok : ∀ s a, inv s → ok s a → ok' s a) {s : σ} (hs : inv s) {as : List α}
    (hmeets : M.MeetsAll ok s as) : M.MeetsAll ok' s as := by
  induction as generalizing s with
  | nil => trivial
  | cons a as ih =>
      have ha := hok s a hs hmeets.1
      exact ⟨ha, fun t ht => ih (hstep s a t hs ha ht) (hmeets.2 t ht)⟩

/-- A state that a run whose steps meet `ok` leads to from a reached one is reached. -/
theorem ReachableUnder.of_run {s t : σ} (hs : M.ReachableUnder ok s) {as : List α}
    (hrun : M.run s as = some t) (hmeets : M.MeetsAll ok s as) : M.ReachableUnder ok t := by
  induction as generalizing s with
  | nil =>
      obtain rfl : s = t := by simpa using hrun
      exact hs
  | cons a as ih =>
      obtain ⟨u, hu, hrest⟩ := Option.bind_eq_some_iff.mp hrun
      exact ih (.step hs hmeets.1 hu) hrest (hmeets.2 u hu)

/-- A run whose steps all meet `ok` keeps what each such step keeps.  In any other run some
step breaks `ok`, and what that leaves behind stays if every step keeps it. -/
theorem meetsAll_cases {good bad : σ → Prop}
    (hgood : ∀ s a t, good s → ok s a → M.step s a = some t → good t)
    (hbreak : ∀ s a t, good s → ¬ok s a → M.step s a = some t → bad t)
    (hbad : ∀ s a t, bad s → M.step s a = some t → bad t) {s t : σ} (hs : good s)
    {as : List α} (hrun : M.run s as = some t) :
    (M.MeetsAll ok s as ∧ good t) ∨ (¬M.MeetsAll ok s as ∧ bad t) := by
  have hstays : ∀ {as : List α} {s : σ}, bad s → M.run s as = some t → bad t := by
    intro as
    induction as with
    | nil =>
        intro s hs hrun
        obtain rfl : s = t := by simpa using hrun
        exact hs
    | cons a as ih =>
        intro s hs hrun
        obtain ⟨u, hu, hrest⟩ := Option.bind_eq_some_iff.mp hrun
        exact ih (hbad s a u hs hu) hrest
  induction as generalizing s with
  | nil =>
      obtain rfl : s = t := by simpa using hrun
      exact Or.inl ⟨trivial, hs⟩
  | cons a as ih =>
      obtain ⟨u, hu, hrest⟩ := Option.bind_eq_some_iff.mp hrun
      by_cases hok : ok s a
      · rcases ih (hgood s a u hs hok hu) hrest with ⟨hall, ht⟩ | ⟨hnot, ht⟩
        · refine Or.inl ⟨⟨hok, fun v hv => ?_⟩, ht⟩
          obtain rfl := Option.some.inj (hu.symm.trans hv)
          exact hall
        · exact Or.inr ⟨fun hmeets => hnot (hmeets.2 u hu), ht⟩
      · exact Or.inr ⟨fun hmeets => hok hmeets.1, hstays (hbreak s a u hs hok hu) hrest⟩

end StepSystem

/-- How a call on a remote store ends: it returns, or it raises, and then the
store may or may not have done what was asked. -/
inductive CallOutcome
  | returned
  | raisedBefore
  | raisedAfter
  deriving DecidableEq

namespace CallOutcome

variable {σ α : Type*}

/-- What the call does to the store. -/
def effect (out : CallOutcome) (f : σ → σ) (s : σ) : σ :=
  match out with
  | raisedBefore => s
  | returned | raisedAfter => f s

/-- Where the caller goes on: after the call, or with its exception. -/
def next (out : CallOutcome) (onReturn onRaise : α) : α :=
  match out with
  | returned => onReturn
  | raisedBefore | raisedAfter => onRaise

@[simp] theorem effect_returned (f : σ → σ) (s : σ) : effect returned f s = f s := rfl
@[simp] theorem effect_raisedBefore (f : σ → σ) (s : σ) : effect raisedBefore f s = s := rfl
@[simp] theorem effect_raisedAfter (f : σ → σ) (s : σ) : effect raisedAfter f s = f s := rfl
@[simp] theorem next_returned (x y : α) : next returned x y = x := rfl
@[simp] theorem next_raisedBefore (x y : α) : next raisedBefore x y = y := rfl
@[simp] theorem next_raisedAfter (x y : α) : next raisedAfter x y = y := rfl

/-- What holds before the call and after its effect holds however it ended. -/
theorem effect_of {p : σ → Prop} {f : σ → σ} {s : σ} (hbefore : p s) (hafter : p (f s))
    (out : CallOutcome) : p (out.effect f s) := by
  cases out with
  | returned => exact hafter
  | raisedBefore => exact hbefore
  | raisedAfter => exact hafter

/-- What holds after the call and at its exception holds where the caller goes on. -/
theorem next_of {p : α → Prop} {onReturn onRaise : α} (hreturn : p onReturn) (hraise : p onRaise)
    (out : CallOutcome) : p (out.next onReturn onRaise) := by
  cases out with
  | returned => exact hreturn
  | raisedBefore | raisedAfter => exact hraise

end CallOutcome

end Library
end MediaPlayer
