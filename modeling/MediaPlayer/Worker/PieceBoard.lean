import Mathlib.Data.Finset.Card
import Mathlib.Data.Rat.Defs
import Mathlib.Algebra.Order.Ring.Rat
import Mathlib.Logic.Function.Basic

/-!
# The pieces of one job in Redis

`PieceBoard` of `app/worker/chunked.py`: the plan, the list of pieces to do, the
pieces in flight with the time they were taken, and the set of pieces done.
Every Redis command or pipeline is one function here.  `take` is a pop and, as a
second command, the in-flight note, so it appears as `pop` and `noteInflight`.

The board is generic in its plan, as in the source, where the MP4's plan and the
ladder's go through the same class; all it needs of a plan is its `count`.
-/

namespace MediaPlayer
namespace Worker

/-- A plan cuts a job into `count` pieces. -/
class BoardPlan (π : Type*) where
  count : π → ℕ

/-- The four keys of a job's board. -/
structure PieceBoard (π : Type*) where
  plan : Option π
  todo : List ℕ
  inflight : ℕ → Option ℚ
  done : Finset ℕ

/-- The name of one of the four keys. -/
inductive BoardKey
  | plan
  | todo
  | inflight
  | done
  deriving DecidableEq

namespace PieceBoard

variable {π : Type*}

/-- No key exists. -/
def empty : PieceBoard π := ⟨none, [], fun _ => none, ∅⟩

/-- `open`: delete the four keys, store the plan, list every piece. -/
def openWith [BoardPlan π] (plan : π) : PieceBoard π where
  plan := some plan
  todo := List.range (BoardPlan.count plan)
  inflight := fun _ => none
  done := ∅

/-- `LPOP todo`. -/
def pop (board : PieceBoard π) : PieceBoard π := { board with todo := board.todo.tail }

/-- `HSET inflight index now`. -/
def noteInflight (board : PieceBoard π) (index : ℕ) (now : ℚ) : PieceBoard π :=
  { board with inflight := Function.update board.inflight index (some now) }

/-- `SADD done index`, `HDEL inflight index`. -/
def finish (board : PieceBoard π) (index : ℕ) : PieceBoard π :=
  { board with
    done := insert index board.done
    inflight := Function.update board.inflight index none }

/-- `HDEL inflight index`, `LPUSH todo index`. -/
def giveBack (board : PieceBoard π) (index : ℕ) : PieceBoard π :=
  { board with
    inflight := Function.update board.inflight index none
    todo := index :: board.todo }

/-- Whether an in-flight note is too old: `now - since > stale_after`. -/
def isStale (staleAfter now : ℚ) (note : Option ℚ) : Bool :=
  match note with
  | none => false
  | some since => decide (staleAfter < now - since)

/-- `HDEL inflight *stale`, for the notes found stale in an earlier read. -/
def dropStale (board : PieceBoard π) (staleAfter now : ℚ) (seen : ℕ → Option ℚ) : PieceBoard π :=
  { board with
    inflight := fun i => if isStale staleAfter now (seen i) then none else board.inflight i }

/-- A note in an earlier read that is there and not stale. -/
def isFresh (staleAfter now : ℚ) (note : Option ℚ) : Bool :=
  note.isSome && !isStale staleAfter now note

/-- `sorted(set(range(count)) - done - busy - queued)`, from what the reads gave. -/
def orphans (count : ℕ) (staleAfter now : ℚ) (seen : ℕ → Option ℚ) (queued : List ℕ)
    (done : Finset ℕ) : List ℕ :=
  (List.range count).filter fun i =>
    decide (i ∉ done) && !isFresh staleAfter now (seen i) && decide (i ∉ queued)

/-- One key disappears: it expired, was evicted, or Redis lost it. -/
def lose (board : PieceBoard π) : BoardKey → PieceBoard π
  | .plan => { board with plan := none }
  | .todo => { board with todo := [] }
  | .inflight => { board with inflight := fun _ => none }
  | .done => { board with done := ∅ }

/-! ## What each command does to the lists that matter -/

@[simp] theorem pop_plan (board : PieceBoard π) : board.pop.plan = board.plan := rfl
@[simp] theorem pop_done (board : PieceBoard π) : board.pop.done = board.done := rfl
@[simp] theorem noteInflight_plan (board : PieceBoard π) (i : ℕ) (now : ℚ) :
    (board.noteInflight i now).plan = board.plan := rfl
@[simp] theorem noteInflight_todo (board : PieceBoard π) (i : ℕ) (now : ℚ) :
    (board.noteInflight i now).todo = board.todo := rfl
@[simp] theorem noteInflight_done (board : PieceBoard π) (i : ℕ) (now : ℚ) :
    (board.noteInflight i now).done = board.done := rfl
@[simp] theorem finish_plan (board : PieceBoard π) (i : ℕ) :
    (board.finish i).plan = board.plan := rfl
@[simp] theorem finish_todo (board : PieceBoard π) (i : ℕ) :
    (board.finish i).todo = board.todo := rfl
@[simp] theorem finish_done (board : PieceBoard π) (i : ℕ) :
    (board.finish i).done = insert i board.done := rfl
@[simp] theorem giveBack_plan (board : PieceBoard π) (i : ℕ) :
    (board.giveBack i).plan = board.plan := rfl
@[simp] theorem giveBack_todo (board : PieceBoard π) (i : ℕ) :
    (board.giveBack i).todo = i :: board.todo := rfl
@[simp] theorem giveBack_done (board : PieceBoard π) (i : ℕ) :
    (board.giveBack i).done = board.done := rfl
@[simp] theorem dropStale_plan (board : PieceBoard π) (staleAfter now : ℚ)
    (seen : ℕ → Option ℚ) : (board.dropStale staleAfter now seen).plan = board.plan := rfl
@[simp] theorem dropStale_todo (board : PieceBoard π) (staleAfter now : ℚ)
    (seen : ℕ → Option ℚ) : (board.dropStale staleAfter now seen).todo = board.todo := rfl
@[simp] theorem dropStale_done (board : PieceBoard π) (staleAfter now : ℚ)
    (seen : ℕ → Option ℚ) : (board.dropStale staleAfter now seen).done = board.done := rfl

theorem mem_pop_todo {board : PieceBoard π} {i : ℕ} (hi : i ∈ board.pop.todo) :
    i ∈ board.todo :=
  List.mem_of_mem_tail hi

/-- Nobody is missed: a piece that is not among the orphans was seen done, seen
queued, or seen freshly in flight. -/
theorem seen_of_orphans_eq_nil {count : ℕ} {staleAfter now : ℚ} {seen : ℕ → Option ℚ}
    {queued : List ℕ} {done : Finset ℕ}
    (hnil : orphans count staleAfter now seen queued done = []) {i : ℕ} (hi : i < count)
    (hdone : i ∉ done) : i ∈ queued ∨ isFresh staleAfter now (seen i) = true := by
  by_contra hmiss
  have hmem : i ∈ orphans count staleAfter now seen queued done := by
    unfold orphans
    refine List.mem_filter.mpr ⟨List.mem_range.mpr hi, ?_⟩
    simp only [not_or, Bool.not_eq_true] at hmiss
    simp [hdone, hmiss.1, hmiss.2]
  rw [hnil] at hmem
  exact List.not_mem_nil hmem

theorem lt_of_mem_orphans {count : ℕ} {staleAfter now : ℚ} {seen : ℕ → Option ℚ}
    {queued : List ℕ} {done : Finset ℕ} {i : ℕ}
    (hi : i ∈ orphans count staleAfter now seen queued done) : i < count :=
  List.mem_range.mp (List.mem_filter.mp hi).1

/-- The exit test counts the marks.  As long as only pieces of the plan are
marked, enough marks means every piece is. -/
theorem mem_of_count_le {count : ℕ} {done : Finset ℕ} (hlt : ∀ i ∈ done, i < count)
    (hcount : count ≤ done.card) {i : ℕ} (hi : i < count) : i ∈ done := by
  have hsub : done ⊆ Finset.range count := fun j hj => Finset.mem_range.mpr (hlt j hj)
  have heq : done = Finset.range count :=
    Finset.eq_of_subset_of_card_le hsub (by simpa using hcount)
  rw [heq]
  exact Finset.mem_range.mpr hi

/-- What is left of the lists when a key disappears was there before. -/
theorem mem_lose {board : PieceBoard π} {key : BoardKey} {i : ℕ} :
    (i ∈ (board.lose key).todo → i ∈ board.todo) ∧
      (i ∈ (board.lose key).done → i ∈ board.done) := by
  cases key <;> simp [lose]

theorem lose_plan {board : PieceBoard π} {key : BoardKey} {plan : π}
    (hplan : (board.lose key).plan = some plan) : board.plan = some plan := by
  cases key <;> simp_all [lose]

end PieceBoard

end Worker
end MediaPlayer
