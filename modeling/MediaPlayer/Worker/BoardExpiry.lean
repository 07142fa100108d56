import MediaPlayer.Library.Keyspace
import MediaPlayer.Worker.PieceRuns

/-!
# When the keys of a board expire

The four keys of `PieceBoard` (`app/worker/chunked.py`) with their expiry times.  `open` gives
one to the plan and to the list of pieces, `take` to the notes, `finish` to the marks; they
bound what a crash leaves.

* `BoardKeys.toBoard` forgets the expiry times; every operation on the keys is then the one on
  the board (`toBoard_openWith` and the lemmas after it).
* `boardSystem` is what the coordinators and helpers of a job do to the keys, one Redis
  transaction at a time, with any of them gone between two transactions.
* `keys_expire_while_listed` — as long as no helper gives a piece back when the list is gone,
  every key there is expires, and nothing is left when `BOARD_TTL_SECONDS` have passed.  Giving
  back is the one push without an `EXPIRE`, and a list it creates stays for good.
-/

namespace MediaPlayer
namespace Worker

open Library

/-- `BOARD_TTL_SECONDS`. -/
def boardTtlSeconds : ℚ := 3 * 3600

/-- What each key holds: a string, a list, a hash, a set. -/
abbrev BoardValue (π : Type) : BoardKey → Type
  | .plan => π
  | .todo => List ℕ
  | .inflight => AList fun _ : ℕ => ℚ
  | .done => Finset ℕ

/-- The keys of a board on the server. -/
abbrev BoardKeys (π : Type) := Keyspace ℚ BoardKey (BoardValue π)

namespace BoardKeys

variable {π : Type}

/-! ## The operations, as transactions -/

/-- `open`; `expiry` is `BOARD_TTL_SECONDS` from now, here and below. -/
def openWith [BoardPlan π] (keys : BoardKeys π) (plan : π) (expiry : ℚ) : BoardKeys π :=
  (((keys.delete [.plan, .todo, .inflight, .done]).setEx .plan plan expiry).write .todo
    (Keyspace.rpush (List.range (BoardPlan.count plan)))).expire .todo expiry

/-- The pop of `take`. -/
def pop (keys : BoardKeys π) : BoardKeys π := keys.write .todo Keyspace.lpop

/-- The in-flight note of `take`. -/
def noteInflight (keys : BoardKeys π) (index : ℕ) (now expiry : ℚ) : BoardKeys π :=
  (keys.write .inflight (Keyspace.hset index now)).expire .inflight expiry

/-- `finish`. -/
def finish (keys : BoardKeys π) (index : ℕ) (expiry : ℚ) : BoardKeys π :=
  ((keys.write .done (Keyspace.sadd index)).expire .done expiry).write .inflight
    (Keyspace.hdel [index])

/-- `give_back`; there is no `EXPIRE` in it. -/
def giveBack (keys : BoardKeys π) (index : ℕ) : BoardKeys π :=
  (keys.write .inflight (Keyspace.hdel [index])).write .todo (Keyspace.lpush index)

/-- The notes `unclaimed` finds too old. -/
def staleNotes (staleAfter now : ℚ) (notes : AList fun _ : ℕ => ℚ) : List ℕ :=
  notes.keys.filter fun index => PieceBoard.isStale staleAfter now (notes.lookup index)

/-- The `HDEL` of `unclaimed`, sent if there is something to delete. -/
def dropStale (keys : BoardKeys π) (stale : List ℕ) : BoardKeys π :=
  if stale = [] then keys else keys.write .inflight (Keyspace.hdel stale)

/-- `close`. -/
def close (keys : BoardKeys π) : BoardKeys π := keys.delete [.plan, .todo, .inflight, .done]

/-! ## Without the expiry times, a `PieceBoard` -/

def toBoard (keys : BoardKeys π) : PieceBoard π where
  plan := keys.value .plan
  todo := (keys.value .todo).getD []
  inflight := fun index => (keys.value .inflight).bind (·.lookup index)
  done := (keys.value .done).getD ∅

theorem toBoard_openWith [BoardPlan π] (keys : BoardKeys π) (plan : π) (expiry : ℚ) :
    (keys.openWith plan expiry).toBoard = PieceBoard.openWith plan := by
  unfold toBoard openWith PieceBoard.openWith
  simp [Keyspace.value_write_of_ne, Keyspace.value_setEx_of_ne, Keyspace.rpush]

theorem toBoard_pop (keys : BoardKeys π) : keys.pop.toBoard = keys.toBoard.pop := by
  unfold toBoard pop PieceBoard.pop
  simp [Keyspace.value_write_of_ne, Keyspace.getD_lpop]

theorem toBoard_noteInflight (keys : BoardKeys π) (index : ℕ) (now expiry : ℚ) :
    (keys.noteInflight index now expiry).toBoard = keys.toBoard.noteInflight index now := by
  unfold toBoard noteInflight PieceBoard.noteInflight
  simp only [Keyspace.value_expire, Keyspace.value_write, ne_eq, reduceCtorEq, not_false_eq_true,
    Keyspace.value_write_of_ne, PieceBoard.mk.injEq, true_and, and_true]
  funext i
  rw [Keyspace.lookup_hset, Function.update_apply]

theorem toBoard_finish (keys : BoardKeys π) (index : ℕ) (expiry : ℚ) :
    (keys.finish index expiry).toBoard = keys.toBoard.finish index := by
  unfold toBoard finish PieceBoard.finish
  simp only [Keyspace.value_expire, Keyspace.value_write, ne_eq, reduceCtorEq, not_false_eq_true,
    Keyspace.value_write_of_ne, PieceBoard.mk.injEq, true_and]
  refine ⟨?_, rfl⟩
  funext i
  simp [Keyspace.lookup_hdel, Function.update_apply]

theorem toBoard_giveBack (keys : BoardKeys π) (index : ℕ) :
    (keys.giveBack index).toBoard = keys.toBoard.giveBack index := by
  unfold toBoard giveBack PieceBoard.giveBack
  simp only [Keyspace.value_write, ne_eq, reduceCtorEq, not_false_eq_true,
    Keyspace.value_write_of_ne, PieceBoard.mk.injEq, true_and, and_true]
  refine ⟨rfl, ?_⟩
  funext i
  simp [Keyspace.lookup_hdel, Function.update_apply]

theorem mem_staleNotes {staleAfter now : ℚ} {notes : AList fun _ : ℕ => ℚ} {index : ℕ} :
    index ∈ staleNotes staleAfter now notes ↔
      PieceBoard.isStale staleAfter now (notes.lookup index) = true := by
  unfold staleNotes
  rw [List.mem_filter]
  constructor
  · exact And.right
  · intro hstale
    refine ⟨?_, hstale⟩
    by_contra hnot
    rw [AList.lookup_eq_none.mpr hnot] at hstale
    exact absurd hstale nofun

theorem toBoard_dropStale (keys : BoardKeys π) (staleAfter now : ℚ)
    (notes : AList fun _ : ℕ => ℚ) :
    (keys.dropStale (staleNotes staleAfter now notes)).toBoard =
      keys.toBoard.dropStale staleAfter now notes.lookup := by
  have hinflight (i : ℕ) :
      (Keyspace.hdel (staleNotes staleAfter now notes) (keys.value .inflight)).bind
          (·.lookup i) =
        if PieceBoard.isStale staleAfter now (notes.lookup i) then none
        else (keys.value .inflight).bind (·.lookup i) := by
    rw [Keyspace.lookup_hdel]
    simp only [mem_staleNotes]
  unfold dropStale
  split
  · -- Without stale notes nothing is sent, and no note is found stale.
    rename_i hnone
    unfold toBoard PieceBoard.dropStale
    congr 1
    funext i
    have hfresh : ¬PieceBoard.isStale staleAfter now (notes.lookup i) = true := by
      rw [← mem_staleNotes, hnone]
      exact List.not_mem_nil
    exact (if_neg hfresh).symm
  · unfold toBoard PieceBoard.dropStale
    simp only [Keyspace.value_write, ne_eq, reduceCtorEq, not_false_eq_true,
      Keyspace.value_write_of_ne, PieceBoard.mk.injEq, true_and, and_true]
    funext i
    exact hinflight i

/-- Keys that are gone are keys that are lost. -/
theorem toBoard_delete (keys : BoardKeys π) (gone : List BoardKey) :
    BoardKeys.toBoard (keys.delete gone) = gone.foldl PieceBoard.lose keys.toBoard := by
  induction gone generalizing keys with
  | nil => simp [toBoard]
  | cons key rest ih =>
      have hlose : BoardKeys.toBoard (keys.delete [key]) = keys.toBoard.lose key := by
        cases key <;> simp [toBoard, PieceBoard.lose]
      rw [List.foldl_cons, ← hlose, ← ih]
      congr 1
      funext k
      unfold Keyspace.delete
      by_cases hrest : k ∈ rest <;> by_cases hkey : k = key <;> simp [hrest, hkey]

/-- Time only takes keys away. -/
theorem toBoard_elapse (keys : BoardKeys π) (now : ℚ) :
    ∃ gone : List BoardKey,
      BoardKeys.toBoard (keys.elapse now) = gone.foldl PieceBoard.lose keys.toBoard := by
  let gone := [BoardKey.plan, .todo, .inflight, .done].filter fun k =>
    (keys.elapse now k).isNone
  refine ⟨gone, ?_⟩
  rw [← toBoard_delete]
  congr 1
  funext k
  have hmem : k ∈ gone ↔ keys.elapse now k = none := by
    cases k <;> simp [gone]
  unfold Keyspace.delete
  split
  · rename_i hgone
    exact hmem.mp hgone
  · rename_i hleft
    obtain ⟨entry, hentry⟩ := Option.ne_none_iff_exists'.mp (fun hnone => hleft (hmem.mpr hnone))
    rw [hentry]
    exact (Option.filter_eq_some_iff.mp hentry).1.symm

/-! ## What each operation does to the expiry times -/

variable {keys : BoardKeys π} {limit : ℚ}

theorem openWith_expires [BoardPlan π] (hkeys : keys.ExpiresBy limit) (plan : π) :
    (keys.openWith plan limit).ExpiresBy limit := by
  have hplan := (hkeys.delete [.plan, .todo, .inflight, .done]).setEx (k := .plan) plan
  exact hplan.write_expire (k := .todo) _

theorem pop_expires (hkeys : keys.ExpiresBy limit) : keys.pop.ExpiresBy limit :=
  hkeys.write (Or.inr rfl)

theorem noteInflight_expires (hkeys : keys.ExpiresBy limit) (index : ℕ) (now : ℚ) :
    (keys.noteInflight index now limit).ExpiresBy limit :=
  hkeys.write_expire _

theorem finish_expires (hkeys : keys.ExpiresBy limit) (index : ℕ) :
    (keys.finish index limit).ExpiresBy limit :=
  (hkeys.write_expire _).write (Or.inr rfl)

theorem dropStale_expires (hkeys : keys.ExpiresBy limit) (stale : List ℕ) :
    (keys.dropStale stale).ExpiresBy limit := by
  unfold dropStale
  split
  · exact hkeys
  · exact hkeys.write (Or.inr rfl)

theorem close_expires (hkeys : keys.ExpiresBy limit) : keys.close.ExpiresBy limit :=
  hkeys.delete _

/-- The first half of `give_back` leaves the list alone. -/
theorem write_inflight_todo (keys : BoardKeys π)
    (f : Option (BoardValue π .inflight) → Option (BoardValue π .inflight)) :
    keys.write .inflight f .todo = keys .todo :=
  Function.update_of_ne (by decide) _ _

/-- A list that is there keeps its expiry time when a piece is given back. -/
theorem giveBack_expires (hkeys : keys.ExpiresBy limit) (htodo : keys .todo ≠ none)
    (index : ℕ) : (keys.giveBack index).ExpiresBy limit := by
  refine (hkeys.write (Or.inr rfl)).write (Or.inl ?_)
  rwa [write_inflight_todo]

/-- A list that was emptied, closed or never opened is created without one. -/
theorem giveBack_not_expiring (htodo : keys .todo = none) (index : ℕ) :
    ¬(keys.giveBack index).Expiring := by
  refine Keyspace.not_expiring_write ?_ rfl
  rwa [write_inflight_todo]

end BoardKeys

/-! ## The parties of a job -/

/-- Who calls the board: `ChunkedMp4` and `LadderPieces`, or a helper. -/
inductive BoardCaller
  | coordinator
  | helper
  deriving DecidableEq

/-- Where a party stands between two transactions. -/
inductive BoardPhase
  | idle
  -- `take`: a piece is popped and not yet noted; then it is being encoded.
  | popped (index : ℕ)
  | holding (index : ℕ)
  -- `unclaimed`: the notes are read, the list is read, the stale notes are dropped.
  | notesRead (now : ℚ) (notes : AList fun _ : ℕ => ℚ)
  | todoRead (now : ℚ) (notes : AList fun _ : ℕ => ℚ) (queued : List ℕ)
  | staleDropped (now : ℚ) (notes : AList fun _ : ℕ => ℚ) (queued : List ℕ)

/-- The server's clock and keys, and the parties by number. -/
structure BoardState (π : Type) where
  clock : ℚ
  keys : BoardKeys π
  parties : ℕ → BoardPhase

inductive BoardAction (π : Type)
  | openBoard (party : ℕ) (plan : π)
  | pop (party : ℕ)
  | note (party : ℕ) (now : ℚ)
  -- A `finish` that raises may have been executed; a helper then gives the piece back.
  | finish (party : ℕ) (raised : Bool)
  | giveBack (party : ℕ)
  | readNotes (party : ℕ) (now : ℚ)
  | readTodo (party : ℕ)
  | dropStale (party : ℕ)
  | readDone (party : ℕ) (count : ℕ)
  | close (party : ℕ)
  -- The process has died, or given up what it was doing.
  | crash (party : ℕ)
  | wait (seconds : ℚ)

namespace BoardState

variable {π : Type}

/-- When a key expires that is given its expiry now. -/
def expiry (s : BoardState π) : ℚ := s.clock + boardTtlSeconds

/-- One party has made its step. -/
def move (s : BoardState π) (party : ℕ) (phase : BoardPhase) (keys : BoardKeys π) :
    BoardState π :=
  { s with keys := keys, parties := Function.update s.parties party phase }

@[simp] theorem move_keys (s : BoardState π) (party : ℕ) (phase : BoardPhase)
    (keys : BoardKeys π) : (s.move party phase keys).keys = keys := rfl

@[simp] theorem move_expiry (s : BoardState π) (party : ℕ) (phase : BoardPhase)
    (keys : BoardKeys π) : (s.move party phase keys).expiry = s.expiry := rfl

end BoardState

section Runs

variable {π : Type} [BoardPlan π]

/-- One transaction of one party, a crash, or time passing. -/
def boardStep (caller : ℕ → BoardCaller) (staleAfter : ℚ) (s : BoardState π) :
    BoardAction π → Option (BoardState π)
  | .openBoard party plan =>
      match caller party, s.parties party with
      | .coordinator, .idle => some (s.move party .idle (s.keys.openWith plan s.expiry))
      | _, _ => none
  | .pop party =>
      match s.parties party with
      | .idle =>
          some (s.move party
            (((s.keys.value .todo).getD []).head?.elim .idle .popped) s.keys.pop)
      | _ => none
  | .note party now =>
      match s.parties party with
      | .popped index =>
          some (s.move party (.holding index) (s.keys.noteInflight index now s.expiry))
      | _ => none
  | .finish party raised =>
      match s.parties party with
      | .holding index =>
          some (s.move party (if raised then .holding index else .idle)
            (s.keys.finish index s.expiry))
      | _ => none
  | .giveBack party =>
      match caller party, s.parties party with
      | .helper, .holding index => some (s.move party .idle (s.keys.giveBack index))
      | _, _ => none
  | .readNotes party now =>
      match caller party, s.parties party with
      | .coordinator, .idle =>
          some (s.move party (.notesRead now ((s.keys.value .inflight).getD ∅)) s.keys)
      | _, _ => none
  | .readTodo party =>
      match s.parties party with
      | .notesRead now notes =>
          some (s.move party (.todoRead now notes ((s.keys.value .todo).getD [])) s.keys)
      | _ => none
  | .dropStale party =>
      match s.parties party with
      | .todoRead now notes queued =>
          some (s.move party (.staleDropped now notes queued)
            (s.keys.dropStale (BoardKeys.staleNotes staleAfter now notes)))
      | _ => none
  | .readDone party count =>
      match s.parties party with
      | .staleDropped now notes queued =>
          -- The first orphan is the coordinator's to encode.
          let orphans := PieceBoard.orphans count staleAfter now notes.lookup queued
            ((s.keys.value .done).getD ∅)
          some (s.move party (orphans.head?.elim .idle .holding) s.keys)
      | _ => none
  | .close party =>
      match caller party with
      | .coordinator => some (s.move party .idle s.keys.close)
      | .helper => none
  | .crash party => some (s.move party .idle s.keys)
  | .wait seconds =>
      if 0 ≤ seconds then
        some { s with clock := s.clock + seconds, keys := s.keys.elapse (s.clock + seconds) }
      else none

/-- A job starts with no key and nobody at work. -/
def boardSystem (caller : ℕ → BoardCaller) (staleAfter : ℚ) :
    StepSystem (BoardState π) (BoardAction π) where
  init := fun s => s.keys = (fun _ => none) ∧ s.parties = fun _ => .idle
  step := boardStep caller staleAfter

/-- What a step leaves of the keys. -/
inductive KeysMove (staleAfter : ℚ) (s : BoardState π) : BoardAction π → BoardKeys π → Prop
  | openWith (party : ℕ) (plan : π) :
      KeysMove staleAfter s (.openBoard party plan) (s.keys.openWith plan s.expiry)
  | pop (party : ℕ) : KeysMove staleAfter s (.pop party) s.keys.pop
  | noteInflight (party index : ℕ) (now : ℚ) :
      KeysMove staleAfter s (.note party now) (s.keys.noteInflight index now s.expiry)
  | finish (party index : ℕ) (raised : Bool) :
      KeysMove staleAfter s (.finish party raised) (s.keys.finish index s.expiry)
  | giveBack (party index : ℕ) : KeysMove staleAfter s (.giveBack party) (s.keys.giveBack index)
  | dropStale (party : ℕ) (now : ℚ) (notes : AList fun _ : ℕ => ℚ) :
      KeysMove staleAfter s (.dropStale party)
        (s.keys.dropStale (BoardKeys.staleNotes staleAfter now notes))
  | close (party : ℕ) : KeysMove staleAfter s (.close party) s.keys.close
  | kept (a : BoardAction π) : KeysMove staleAfter s a s.keys
  | elapse (seconds : ℚ) : KeysMove staleAfter s (.wait seconds) (s.keys.elapse (s.clock + seconds))

variable {caller : ℕ → BoardCaller} {staleAfter : ℚ}

theorem boardStep_keys {s t : BoardState π} {a : BoardAction π}
    (hstep : boardStep caller staleAfter s a = some t) :
    KeysMove staleAfter s a t.keys ∧ s.expiry ≤ t.expiry := by
  cases a with
  | openBoard party plan =>
      simp only [boardStep] at hstep
      split at hstep
      · obtain rfl := Option.some.inj hstep
        exact ⟨.openWith party plan, le_rfl⟩
      · cases hstep
  | pop party =>
      simp only [boardStep] at hstep
      split at hstep
      · obtain rfl := Option.some.inj hstep
        exact ⟨.pop party, le_rfl⟩
      · cases hstep
  | note party now =>
      simp only [boardStep] at hstep
      split at hstep
      · obtain rfl := Option.some.inj hstep
        exact ⟨.noteInflight party _ now, le_rfl⟩
      · cases hstep
  | finish party raised =>
      simp only [boardStep] at hstep
      split at hstep
      · obtain rfl := Option.some.inj hstep
        exact ⟨.finish party _ raised, le_rfl⟩
      · cases hstep
  | giveBack party =>
      simp only [boardStep] at hstep
      split at hstep
      · obtain rfl := Option.some.inj hstep
        exact ⟨.giveBack party _, le_rfl⟩
      · cases hstep
  | dropStale party =>
      simp only [boardStep] at hstep
      split at hstep
      · obtain rfl := Option.some.inj hstep
        exact ⟨.dropStale party _ _, le_rfl⟩
      · cases hstep
  | readNotes party now | readTodo party | readDone party count =>
      simp only [boardStep] at hstep
      split at hstep
      · obtain rfl := Option.some.inj hstep
        exact ⟨.kept _, le_rfl⟩
      · cases hstep
  | close party =>
      simp only [boardStep] at hstep
      split at hstep
      · obtain rfl := Option.some.inj hstep
        exact ⟨.close party, le_rfl⟩
      · cases hstep
  | crash party =>
      obtain rfl := Option.some.inj hstep
      exact ⟨.kept _, le_rfl⟩
  | wait seconds =>
      obtain ⟨hseconds, hnext⟩ := Option.ite_none_right_eq_some.mp hstep
      obtain rfl := Option.some.inj hnext
      refine ⟨.elapse seconds, ?_⟩
      show s.clock + boardTtlSeconds ≤ s.clock + seconds + boardTtlSeconds
      linarith

/-- What one transaction, or time, does to a board. -/
inductive BoardMove (board : PieceBoard π) : PieceBoard π → Prop
  | read : BoardMove board board
  | openWith (plan : π) : BoardMove board (PieceBoard.openWith plan)
  | pop : BoardMove board board.pop
  | noteInflight (index : ℕ) (now : ℚ) : BoardMove board (board.noteInflight index now)
  | finish (index : ℕ) : BoardMove board (board.finish index)
  | giveBack (index : ℕ) : BoardMove board (board.giveBack index)
  | dropStale (staleAfter now : ℚ) (seen : ℕ → Option ℚ) :
      BoardMove board (board.dropStale staleAfter now seen)
  | close : BoardMove board PieceBoard.empty
  | lose (gone : List BoardKey) : BoardMove board (gone.foldl PieceBoard.lose board)

/-- Without the expiry times, every step is one of the board's own. -/
theorem KeysMove.board {s : BoardState π} {a : BoardAction π} {keys : BoardKeys π}
    (hmove : KeysMove staleAfter s a keys) : BoardMove s.keys.toBoard keys.toBoard := by
  cases hmove with
  | openWith party plan => exact BoardKeys.toBoard_openWith s.keys plan _ ▸ .openWith plan
  | pop party => exact BoardKeys.toBoard_pop s.keys ▸ .pop
  | noteInflight party index now =>
      exact BoardKeys.toBoard_noteInflight s.keys index now _ ▸ .noteInflight index now
  | finish party index raised => exact BoardKeys.toBoard_finish s.keys index _ ▸ .finish index
  | giveBack party index => exact BoardKeys.toBoard_giveBack s.keys index ▸ .giveBack index
  | dropStale party now notes =>
      exact BoardKeys.toBoard_dropStale s.keys staleAfter now notes ▸ .dropStale staleAfter now _
  | close party => exact .close
  | kept => exact .read
  | elapse seconds =>
      obtain ⟨gone, hgone⟩ := s.keys.toBoard_elapse (s.clock + seconds)
      exact hgone ▸ .lose gone

/-- A piece is given back only while the list of pieces is there. -/
def TodoKept (s : BoardState π) : BoardAction π → Prop
  | .giveBack _ => s.keys .todo ≠ none
  | _ => True

instance (s : BoardState π) (a : BoardAction π) : Decidable (TodoKept s a) :=
  match a with
  | .giveBack _ => decidable_of_iff ((s.keys .todo).isSome = true) Option.isSome_iff_ne_none
  | .openBoard _ _ | .pop _ | .note _ _ | .finish _ _ | .readNotes _ _ | .readTodo _
  | .dropStale _ | .readDone _ _ | .close _ | .crash _ | .wait _ => isTrue trivial

/-- A step that gives nothing back, or to a list that is there, keeps the expiry times. -/
theorem KeysMove.expires {s : BoardState π} {a : BoardAction π} {keys : BoardKeys π}
    (hs : s.keys.ExpiresBy s.expiry) (hkept : TodoKept s a) (hmove : KeysMove staleAfter s a keys) :
    keys.ExpiresBy s.expiry := by
  cases hmove with
  | openWith party plan => exact BoardKeys.openWith_expires hs plan
  | pop party => exact BoardKeys.pop_expires hs
  | noteInflight party index now => exact BoardKeys.noteInflight_expires hs index now
  | finish party index raised => exact BoardKeys.finish_expires hs index
  | giveBack party index => exact BoardKeys.giveBack_expires hs hkept index
  | dropStale party now notes => exact BoardKeys.dropStale_expires hs _
  | close party => exact BoardKeys.close_expires hs
  | kept => exact hs
  | elapse seconds => exact hs.elapse _

/-- The invariant: nothing outlives `BOARD_TTL_SECONDS` from now. -/
theorem boardStep_expires {s t : BoardState π} {a : BoardAction π}
    (hs : s.keys.ExpiresBy s.expiry) (hkept : TodoKept s a)
    (hstep : boardStep caller staleAfter s a = some t) : t.keys.ExpiresBy t.expiry := by
  obtain ⟨hmove, hlater⟩ := boardStep_keys hstep
  exact (hmove.expires hs hkept).mono hlater

/-- A piece given back when the list is gone creates a list that never expires. -/
theorem giveBack_creates {s t : BoardState π} {a : BoardAction π} (hkept : ¬TodoKept s a)
    (hstep : boardStep caller staleAfter s a = some t) : ¬t.keys.Expiring := by
  cases a with
  | giveBack party =>
      have htodo : s.keys .todo = none := not_not.mp hkept
      simp only [boardStep] at hstep
      split at hstep
      · obtain rfl := Option.some.inj hstep
        exact BoardKeys.giveBack_not_expiring htodo _
      · cases hstep
  | _ => exact absurd trivial hkept

/-- **The keys of a board expire** as long as every piece given back finds the list there: each
key has an expiry time, and none is left once `BOARD_TTL_SECONDS` have passed.  The first piece
that does not find it leaves a key without one. -/
theorem keys_expire_while_listed (caller : ℕ → BoardCaller) (staleAfter : ℚ) :
    (∀ s : BoardState π, (boardSystem caller staleAfter).ReachableUnder TodoKept s →
      (∀ key entry, s.keys key = some entry →
        ∃ time, entry.expiry = some time ∧ time ≤ s.clock + boardTtlSeconds) ∧
      ∀ now, s.clock + boardTtlSeconds ≤ now → ∀ key, s.keys.elapse now key = none) ∧
    ∀ (s t : BoardState π) (a : BoardAction π), (boardSystem caller staleAfter).Reachable s →
      ¬TodoKept s a → (boardSystem caller staleAfter).step s a = some t →
      ∃ key entry, t.keys key = some entry ∧ entry.expiry = none := by
  refine ⟨?_, ?_⟩
  · intro s hs
    have hexpires : s.keys.ExpiresBy s.expiry := by
      refine hs.invariant (fun s => s.keys.ExpiresBy s.expiry) ?_ ?_
      · rintro s ⟨hkeys, -⟩
        rw [hkeys]
        exact Keyspace.expiresBy_none _
      · intro s a t _ hexpires hkept hstep
        exact boardStep_expires hexpires hkept hstep
    exact ⟨hexpires, fun now hnow key => hexpires.elapse_eq_none hnow key⟩
  · intro s t a _ hkept hstep
    have hnot := giveBack_creates hkept hstep
    by_contra hall
    refine hnot fun key entry hentry => ?_
    exact Option.ne_none_iff_exists'.mp fun hnone => hall ⟨key, entry, hentry, hnone⟩

end Runs

/-! ## A piece given back in time, and one too late -/

/-- Party 0 coordinates, the others help. -/
def firstCoordinates (party : ℕ) : BoardCaller := if party = 0 then .coordinator else .helper

/-- No key, nobody at work. -/
def noBoard : BoardState PiecePlan := ⟨0, fun _ => none, fun _ => .idle⟩

/-- A helper stops while the other piece is still listed. -/
def givenBackInTime : List (BoardAction PiecePlan) :=
  [.openBoard 0 (twoPiecePlan 23), .pop 1, .note 1 5, .giveBack 1]

/-- A helper stops when both pieces are taken; then the coordinator dies, and a day passes. -/
def givenBackLate : List (BoardAction PiecePlan) :=
  [.openBoard 0 (twoPiecePlan 23), .pop 0, .note 0 4, .pop 1, .note 1 5, .giveBack 1, .crash 0,
    .wait 86400]

/-- The condition is met in a run with a piece given back, which is then listed again. -/
theorem keys_expire_while_listed_in_time :
    ∃ s : BoardState PiecePlan, (boardSystem firstCoordinates 300).ReachableUnder TodoKept s ∧
      s.keys.value .todo = some [0, 1] ∧
      ∀ key, s.keys.elapse (s.clock + boardTtlSeconds) key = none := by
  have hinit : (boardSystem firstCoordinates 300).init noBoard := ⟨rfl, rfl⟩
  have hrun : (((boardSystem firstCoordinates 300).runUnder TodoKept noBoard
      givenBackInTime).any fun s => decide (s.keys.value .todo = some [0, 1])) = true := by
    decide +kernel
  obtain ⟨s, hs, htodo⟩ :=
    StepSystem.ReachableUnder.exists_of_runUnder (.init hinit) _ _ hrun
  refine ⟨s, hs, of_decide_eq_true htodo, ?_⟩
  exact ((keys_expire_while_listed firstCoordinates 300).1 s hs).2 _ le_rfl

/-- Every key of the board expires: not so when a helper stops after the last piece is taken. -/
theorem keys_outlive_ttl :
    ¬∀ s : BoardState PiecePlan, (boardSystem firstCoordinates 300).Reachable s →
      ∀ key entry, s.keys key = some entry → entry.expiry ≠ none := by
  intro hall
  have hinit : (boardSystem firstCoordinates 300).init noBoard := ⟨rfl, rfl⟩
  have hrun : (((boardSystem firstCoordinates 300).run noBoard givenBackLate).any fun s =>
      (s.keys .todo).any fun entry => entry.expiry.isNone) = true := by decide +kernel
  obtain ⟨s, hs, hentry⟩ := StepSystem.Reachable.exists_of_run (.init hinit) _ _ hrun
  obtain ⟨entry, hsome, hnone⟩ := (Option.any_eq_true _ _).mp hentry
  exact hall s hs .todo entry hsome (Option.isNone_iff_eq_none.mp hnone)

end Worker
end MediaPlayer
