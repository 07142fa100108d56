import Mathlib.Init

/-!
# Programs that may raise

An `EStateM ε σ` program reads and writes a state and may raise; what it had done to
the state by then stays done.  `Ensures p x q r` is its specification: run from a state
with `p`, the program ends with `q` of its value and state, or raises with `r`.

The rules follow the constructs of a `do` block, one each, so that the proof of a
specification follows the text of the program.
-/

namespace MediaPlayer
namespace Library

universe u

variable {ε σ α β : Type u}

/-- Run from a state with `p`, the program ends with `q` or raises with `r`. -/
def Ensures (p : σ → Prop) (x : EStateM ε σ α) (q : α → σ → Prop) (r : ε → σ → Prop) : Prop :=
  ∀ s, p s → match x s with
    | .ok a t => q a t
    | .error e t => r e t

namespace Ensures

variable {p p' : σ → Prop} {q q' : α → σ → Prop} {r r' : ε → σ → Prop} {x : EStateM ε σ α}

/-- A stronger precondition, a weaker postcondition, a weaker one for exceptions. -/
theorem conseq (hx : Ensures p x q r) (hp : ∀ s, p' s → p s) (hq : ∀ a s, q a s → q' a s)
    (hr : ∀ e s, r e s → r' e s) : Ensures p' x q' r' := by
  intro s hs
  have hend := hx s (hp s hs)
  cases hrun : x s with
  | ok a t =>
      rw [hrun] at hend
      exact hq a t hend
  | error e t =>
      rw [hrun] at hend
      exact hr e t hend

theorem pre (hx : Ensures p x q r) (hp : ∀ s, p' s → p s) : Ensures p' x q r :=
  fun s hs => hx s (hp s hs)

/-- Nothing is asked of the end. -/
theorem any (x : EStateM ε σ α) : Ensures p x (fun _ _ => True) fun _ _ => True := by
  intro s _
  cases x s <;> trivial

theorem pure (a : α) (hq : ∀ s, p s → q a s) : Ensures p (Pure.pure a : EStateM ε σ α) q r :=
  fun s hs => hq s hs

theorem throw (e : ε) (hr : ∀ s, p s → r e s) :
    Ensures p (MonadExcept.throw e : EStateM ε σ α) q r :=
  fun s hs => hr s hs

/-- Sequencing: what the first program leaves is what the second one starts from. -/
theorem bind {m : β → σ → Prop} {y : EStateM ε σ β} {f : β → EStateM ε σ α}
    (hy : Ensures p y m r) (hf : ∀ b, Ensures (m b) (f b) q r) : Ensures p (y >>= f) q r := by
  intro s hs
  have hend := hy s hs
  change match (match y s with
      | .ok b t => f b t
      | .error e t => .error e t) with
    | .ok a t => q a t
    | .error e t => r e t
  cases hrun : y s with
  | ok b t =>
      rw [hrun] at hend
      exact hf b t hend
  | error e t =>
      rw [hrun] at hend
      exact hend

theorem map {m : β → σ → Prop} {y : EStateM ε σ β} (f : β → α) (hy : Ensures p y m r)
    (hf : ∀ b s, m b s → q (f b) s) : Ensures p (f <$> y) q r := by
  intro s hs
  have hend := hy s hs
  change match EStateM.map f y s with
    | .ok a t => q a t
    | .error e t => r e t
  unfold EStateM.map
  cases hrun : y s with
  | ok b t =>
      rw [hrun] at hend
      exact hf b t hend
  | error e t =>
      rw [hrun] at hend
      exact hend

theorem ite {c : Prop} [Decidable c] {y : EStateM ε σ α} (hx : c → Ensures p x q r)
    (hy : ¬ c → Ensures p y q r) : Ensures p (if c then x else y) q r := by
  by_cases hc : c
  · rw [if_pos hc]
    exact hx hc
  · rw [if_neg hc]
    exact hy hc

/-- An exception the handler catches goes on from the state it was raised in. -/
theorem tryCatch {m : ε → σ → Prop} {handler : ε → EStateM ε σ α} (hx : Ensures p x q m)
    (hhandler : ∀ e, Ensures (m e) (handler e) q r) :
    Ensures p (MonadExcept.tryCatch x handler) q r := by
  intro s hs
  have hend := hx s hs
  change match EStateM.tryCatch x handler s with
    | .ok a t => q a t
    | .error e t => r e t
  unfold EStateM.tryCatch
  cases hrun : x s with
  | ok a t =>
      rw [hrun] at hend
      exact hend
  | error e t =>
      rw [hrun] at hend
      exact hhandler e t hend

/-- A loop: what holds of the rows it has been through holds of one more after each round. -/
theorem loop {rows : List β} {body : β → EStateM ε σ PUnit} {inv : List β → σ → Prop}
    (hbody : ∀ done row, row ∈ rows →
      Ensures (inv done) (body row) (fun _ => inv (done ++ [row])) r) :
    Ensures (inv []) (forM rows body) (fun _ => inv rows) r := by
  suffices hrest : ∀ done, Ensures (inv done) (forM rows body) (fun _ => inv (done ++ rows)) r from
    hrest []
  induction rows with
  | nil => exact fun done => Ensures.pure _ fun s hs => by rwa [List.append_nil]
  | cons row rows ih =>
      intro done
      have hsplit : done ++ row :: rows = (done ++ [row]) ++ rows := List.append_cons ..
      rw [List.forM_cons, hsplit]
      refine (hbody done row List.mem_cons_self).bind fun _ => ?_
      exact ih (fun others other hmem => hbody others other (List.mem_cons_of_mem _ hmem)) _

/-- What holds of every result of a run. -/
theorem ok {s t : σ} {a : α} (hx : Ensures p x q r) (hs : p s) (hrun : x s = .ok a t) : q a t := by
  have hend := hx s hs
  rwa [hrun] at hend

theorem error {s t : σ} {e : ε} (hx : Ensures p x q r) (hs : p s) (hrun : x s = .error e t) :
    r e t := by
  have hend := hx s hs
  rwa [hrun] at hend

end Ensures

end Library
end MediaPlayer
