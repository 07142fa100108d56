import Mathlib.Data.List.Basic

/-!
# Folds that may refuse

A list of operations is checked one after another: each sees the state the ones before it
leave, and the first that is refused ends the fold.

* `foldlM_simulates` — related states stay related, if every step keeps them so.
* `foldlM_preserves` — an invariant of the accepted steps.
* `visited` — the operations with the states they are checked against.
* `foldlM_along` — a second fold that carries the state of the first along sees the same states.
-/

namespace MediaPlayer
namespace Library

section

variable {ε ε' σ τ α β : Type*} {step : σ → α → Except ε σ}

theorem foldlM_cons_ok {s t : σ} {x : α} {xs : List α} :
    (x :: xs).foldlM step s = .ok t ↔
      ∃ next, step s x = .ok next ∧ xs.foldlM step next = .ok t := by
  rw [List.foldlM_cons]
  cases step s x with
  | error e => exact iff_of_false nofun fun ⟨_, hnext, _⟩ => absurd hnext nofun
  | ok next =>
      constructor
      · intro h
        exact ⟨next, rfl, h⟩
      · rintro ⟨other, hother, h⟩
        obtain rfl := Except.ok.inj hother
        exact h

/-- A fold that is accepted from one state is accepted from every state related to it. -/
theorem foldlM_simulates {other : τ → α → Except ε' τ} {R : σ → τ → Prop}
    (hstep : ∀ s t x next, R s t → other t x = .ok next →
      ∃ mine, step s x = .ok mine ∧ R mine next) {xs : List α} {s : σ} {t u : τ} (hR : R s t)
    (hok : xs.foldlM other t = .ok u) : ∃ v, xs.foldlM step s = .ok v ∧ R v u := by
  induction xs generalizing s t with
  | nil =>
      obtain rfl := Except.ok.inj hok
      exact ⟨s, rfl, hR⟩
  | cons x xs ih =>
      obtain ⟨next, hnext, hrest⟩ := foldlM_cons_ok.mp hok
      obtain ⟨mine, hmine, hrelated⟩ := hstep s t x next hR hnext
      obtain ⟨v, hv, hend⟩ := ih hrelated hrest
      exact ⟨v, foldlM_cons_ok.mpr ⟨mine, hmine, hv⟩, hend⟩

/-- What every accepted step keeps holds at the end of an accepted fold. -/
theorem foldlM_preserves {P : σ → Prop} {xs : List α}
    (hstep : ∀ x ∈ xs, ∀ s next, P s → step s x = .ok next → P next) {s t : σ} (hs : P s)
    (hok : xs.foldlM step s = .ok t) : P t := by
  induction xs generalizing s with
  | nil =>
      obtain rfl := Except.ok.inj hok
      exact hs
  | cons x xs ih =>
      obtain ⟨next, hnext, hrest⟩ := foldlM_cons_ok.mp hok
      refine ih (fun y hy => hstep y (List.mem_cons_of_mem _ hy)) ?_ hrest
      exact hstep x (List.mem_cons_self ..) s next hs hnext

/-- The operations of a fold with the states they are checked against, up to the first that is
refused. -/
def visited (step : σ → α → Except ε σ) (s : σ) : List α → List (α × σ)
  | [] => []
  | x :: xs => (x, s) :: match step s x with
    | .ok next => visited step next xs
    | .error _ => []

theorem visited_cons {s next : σ} {x : α} {xs : List α} (hnext : step s x = .ok next) :
    visited step s (x :: xs) = (x, s) :: visited step next xs := by
  rw [visited, hnext]

/-- An exception of a fold is one of its steps'. -/
theorem foldlM_error {P : ε → Prop} {xs : List α}
    (hstep : ∀ s x e, step s x = .error e → P e) {s : σ} {e : ε}
    (herror : xs.foldlM step s = .error e) : P e := by
  induction xs generalizing s with
  | nil => exact absurd herror (by simp [pure, Except.pure])
  | cons x xs ih =>
      rw [List.foldlM_cons] at herror
      cases hnext : step s x with
      | error raised =>
          rw [hnext] at herror
          obtain rfl : raised = e := Except.error.inj herror
          exact hstep s x raised hnext
      | ok next =>
          rw [hnext] at herror
          exact ih herror

/-- A fold that keeps the state of another beside its own adds up what that one visits. -/
theorem foldlM_along {along : β × σ → α → Except ε' (β × σ)} {add : β → α → σ → β}
    {s t : σ} {xs : List α}
    (halong : ∀ x ∈ xs, ∀ acc s next, step s x = .ok next →
      along (acc, s) x = .ok (add acc x s, next))
    (hok : xs.foldlM step s = .ok t) (acc : β) :
    xs.foldlM along (acc, s) =
      .ok ((visited step s xs).foldl (fun acc call => add acc call.1 call.2) acc, t) := by
  induction xs generalizing s acc with
  | nil =>
      obtain rfl := Except.ok.inj hok
      rfl
  | cons x xs ih =>
      obtain ⟨next, hnext, hrest⟩ := foldlM_cons_ok.mp hok
      rw [visited_cons hnext, List.foldl_cons]
      refine foldlM_cons_ok.mpr ⟨(add acc x s, next), ?_, ?_⟩
      · exact halong x (List.mem_cons_self ..) acc s next hnext
      -- The state beside the accumulator is the one the next element is checked against.
      · exact ih (fun y hy => halong y (List.mem_cons_of_mem _ hy)) hrest (add acc x s)

end

end Library
end MediaPlayer
