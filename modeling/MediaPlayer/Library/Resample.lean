import Mathlib.Data.List.Basic
import Mathlib.Data.List.Range
import Mathlib.Data.Int.Order.Basic
import Mathlib.Tactic.Linarith

/-!
# Sample-and-hold resampling of a list, and cutting it into pieces

A list of items carries a tick for each item.  `resample` visits every tick from
the first item's to the last item's and emits the latest item whose tick is not
above it: items that share a tick collapse to the last of them, and an item is
repeated while no newer one has come.

The result of this file is `resamplePieces_eq`: cut a list with nondecreasing
ticks at any suffixes, resample every piece to the end of the list but stop it
after as many outputs as lie between its first tick and the next piece's, and
the pieces put together are the resampled whole.  Nothing is asked of the
ticks inside a piece: they may repeat, jump, or leave gaps longer than a piece.
-/

namespace MediaPlayer
namespace Library

variable {α : Type*} (tick : α → ℤ)

/-- The latest item whose tick is at most `k`. -/
def latestAt (items : List α) (k : ℤ) : Option α :=
  (items.filter fun item => tick item ≤ k).getLast?

/-- The items shown on the `n` ticks from `first` on. -/
def holdFrom (items : List α) (first : ℤ) (n : ℕ) : List α :=
  (List.range n).filterMap fun j : ℕ => latestAt tick items (first + j)

/-- The items shown on every tick from the first item's to the last item's. -/
def resample (items : List α) : List α :=
  match items.head?, items.getLast? with
  | some a, some b => holdFrom tick items (tick a) (tick b - tick a + 1).toNat
  | _, _ => []

variable {tick}

/-- An earlier part of the list does not matter once the later part has an item
at or below the tick. -/
theorem latestAt_append_cons (p s : List α) (a : α) {k : ℤ} (hk : tick a ≤ k) :
    latestAt tick (p ++ a :: s) k = latestAt tick (a :: s) k := by
  unfold latestAt
  rw [List.filter_append, List.filter_cons_of_pos (by simpa using hk)]
  rw [List.getLast?_append_of_ne_nil _ (List.cons_ne_nil _ _)]

theorem latestAt_isSome (a : α) (s : List α) {k : ℤ} (hk : tick a ≤ k) :
    (latestAt tick (a :: s) k).isSome := by
  unfold latestAt
  rw [List.filter_cons_of_pos (by simpa using hk)]
  simp

theorem holdFrom_add (items : List α) (first : ℤ) (m n : ℕ) :
    holdFrom tick items first (m + n) =
      holdFrom tick items first m ++ holdFrom tick items (first + m) n := by
  unfold holdFrom
  rw [List.range_add, List.filterMap_append, List.filterMap_map]
  congr 2
  funext j
  simp [add_assoc]

/-- From the first item's tick on every tick shows an item. -/
theorem length_holdFrom (a : α) (s : List α) {first : ℤ} (hfirst : tick a ≤ first)
    (n : ℕ) : (holdFrom tick (a :: s) first n).length = n := by
  induction n with
  | zero => rfl
  | succ n ih =>
      have hk : tick a ≤ first + n := by omega
      obtain ⟨b, hb⟩ := Option.isSome_iff_exists.mp (latestAt_isSome a s hk)
      rw [holdFrom_add, List.length_append, ih]
      simp [holdFrom, hb]

/-- Dropping the items before `a` changes nothing from `a`'s tick on. -/
theorem holdFrom_append_cons (p s : List α) (a : α) {first : ℤ}
    (hfirst : tick a ≤ first) (n : ℕ) :
    holdFrom tick (p ++ a :: s) first n = holdFrom tick (a :: s) first n := by
  unfold holdFrom
  apply List.filterMap_congr
  intro j _
  exact latestAt_append_cons p s a (by omega)

@[simp] theorem resample_nil : resample tick ([] : List α) = [] := rfl

theorem resample_cons (a : α) (s : List α) :
    resample tick (a :: s) =
      holdFrom tick (a :: s) (tick a)
        (tick ((a :: s).getLast (List.cons_ne_nil _ _)) - tick a + 1).toNat := by
  simp [resample, List.getLast?_eq_some_getLast (List.cons_ne_nil a s)]

theorem length_resample (a : α) (s : List α) :
    (resample tick (a :: s)).length =
      (tick ((a :: s).getLast (List.cons_ne_nil _ _)) - tick a + 1).toNat := by
  rw [resample_cons, length_holdFrom a s le_rfl]

theorem tick_le_getLast {a b : α} {s : List α}
    (hsorted : (a :: s).Pairwise fun x y => tick x ≤ tick y) (hb : b ∈ a :: s) :
    tick b ≤ tick ((a :: s).getLast (List.cons_ne_nil _ _)) := by
  rw [← List.dropLast_append_getLast (List.cons_ne_nil a s)] at hsorted hb
  rcases List.mem_append.mp hb with hin | hlast
  · exact (List.pairwise_append.mp hsorted).2.2 b hin _ (List.mem_singleton_self _)
  · rw [List.mem_singleton.mp hlast]

/-- **One seam.**  The whole is the first piece, stopped after the outputs that
lie before the second piece's first tick, followed by the second piece. -/
theorem resample_seam (a b : α) (p s : List α)
    (hsorted : (a :: (p ++ b :: s)).Pairwise fun x y => tick x ≤ tick y) :
    resample tick (a :: (p ++ b :: s)) =
      (resample tick (a :: (p ++ b :: s))).take (tick b - tick a).toNat ++
        resample tick (b :: s) := by
  have hab : tick a ≤ tick b := by
    have hmem : b ∈ p ++ b :: s := by simp
    exact List.rel_of_pairwise_cons hsorted hmem
  have hlast : (a :: (p ++ b :: s)).getLast (List.cons_ne_nil _ _) =
      (b :: s).getLast (List.cons_ne_nil _ _) := by
    simp only [← List.cons_append]
    exact List.getLast_append_of_ne_nil _ (List.cons_ne_nil _ _)
  have htail : (b :: s).Pairwise fun x y => tick x ≤ tick y :=
    (List.pairwise_append.mp (List.pairwise_cons.mp hsorted).2).2.1
  have hbl : tick b ≤ tick ((b :: s).getLast (List.cons_ne_nil _ _)) :=
    tick_le_getLast htail List.mem_cons_self
  set n := (tick b - tick a).toNat with hn
  set m := (tick ((b :: s).getLast (List.cons_ne_nil _ _)) - tick b + 1).toNat with hm
  have hcount : (tick ((b :: s).getLast (List.cons_ne_nil _ _)) - tick a + 1).toNat = n + m := by
    omega
  have hshift : tick a + (n : ℤ) = tick b := by omega
  have hwhole : resample tick (a :: (p ++ b :: s)) =
      holdFrom tick (a :: (p ++ b :: s)) (tick a) n ++ resample tick (b :: s) := by
    rw [resample_cons, hlast, hcount, holdFrom_add, hshift]
    rw [← List.cons_append, holdFrom_append_cons (a :: p) s b le_rfl, ← resample_cons]
  rw [hwhole, List.take_left' (length_holdFrom a _ le_rfl n)]

/-- What is left of a list sorted by a key from a bound on is its end. -/
theorem filter_le_suffix {β : Type*} [LinearOrder β] (key : α → β) (bound : β) (items : List α)
    (hsorted : items.Pairwise fun x y => key x ≤ key y) :
    items.filter (fun item => bound ≤ key item) <:+ items := by
  induction items with
  | nil => exact List.suffix_rfl
  | cons a rest ih =>
      have hrest := List.pairwise_cons.mp hsorted
      by_cases ha : bound ≤ key a
      · have hall : ∀ item ∈ a :: rest, decide (bound ≤ key item) = true := by
          intro item hitem
          rcases List.mem_cons.mp hitem with rfl | hin
          · exact decide_eq_true ha
          · exact decide_eq_true (le_trans ha (hrest.1 item hin))
        exact ⟨[], List.filter_eq_self.mpr hall⟩
      · rw [List.filter_cons_of_neg (by simpa using ha)]
        exact (ih hrest.2).trans (List.suffix_cons a rest)

/-- The pieces put together.  Each piece is resampled to the end of the list and
stopped where the next piece's first tick begins; the last one is not stopped. -/
def resamplePieces (tick : α → ℤ) : List (List α) → List α
  | [] => []
  | [s] => resample tick s
  | s :: t :: rest =>
      (match s.head?, t.head? with
        | some a, some b => (resample tick s).take (tick b - tick a).toNat
        | _, _ => []) ++ resamplePieces tick (t :: rest)

theorem resamplePieces_cons_cons (a b : α) (s t : List α) (rest : List (List α)) :
    resamplePieces tick ((a :: s) :: (b :: t) :: rest) =
      (resample tick (a :: s)).take (tick b - tick a).toNat ++
        resamplePieces tick ((b :: t) :: rest) := rfl

/-- Cutting a list at suffixes and putting the resampled pieces together gives
the resampled list. -/
theorem resamplePieces_eq (s : List α) (rest : List (List α))
    (hsorted : s.Pairwise fun x y => tick x ≤ tick y) (hne : s ≠ [])
    (hchain : (s :: rest).IsChain fun u v => v <:+ u ∧ v ≠ []) :
    resamplePieces tick (s :: rest) = resample tick s := by
  induction rest generalizing s with
  | nil => rfl
  | cons t rest ih =>
      rw [List.isChain_cons_cons] at hchain
      obtain ⟨⟨⟨p, hp⟩, ht⟩, hrest⟩ := hchain
      have htsorted : t.Pairwise fun x y => tick x ≤ tick y := by
        rw [← hp] at hsorted
        exact (List.pairwise_append.mp hsorted).2.1
      have hpieces := ih t htsorted ht hrest
      obtain ⟨b, s', rfl⟩ := List.exists_cons_of_ne_nil ht
      cases p with
      | nil =>
          -- the same suffix twice: nothing lies between the two first ticks
          obtain rfl : b :: s' = s := by simpa using hp
          rw [resamplePieces_cons_cons, hpieces]
          simp
      | cons a p =>
          obtain rfl : a :: (p ++ b :: s') = s := by simpa using hp
          rw [resamplePieces_cons_cons, hpieces]
          exact (resample_seam a b p s' hsorted).symm

end Library
end MediaPlayer
