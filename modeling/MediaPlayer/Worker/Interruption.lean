import MediaPlayer.Library.Parties
import MediaPlayer.Library.StepSystem

/-!
# Stopping the worker's processes

`run` and `request_stop` of `app/worker/interruption.py` among threads that share the stop flag,
the lock and the set of running processes.  A call is a `CallFrame`: the statement it executes next.
The handler of SIGTERM is a call of `request_stop` on top of whatever the main thread is in.

* `Shared.exec` — what one statement does.
* `interruptionSystem` — calls, statements, signals and ends of processes in any order.
* `Shared.InGap` — a call of `run` between its look at the flag and the registration of its
  process.
-/

namespace MediaPlayer
namespace Worker

open Library

/-- A child process. -/
structure Child where
  running : Bool := true
  terminated : Bool := false
  killed : Bool := false
  deriving DecidableEq

/-- A process that has just been started. -/
def Child.new : Child := {}

/-- The statement a call executes next.  Processes are named in the order they start. -/
inductive CallFrame
  /-- `run`: `if _stop.is_set()`. -/
  | checking
  /-- `subprocess.Popen`. -/
  | starting
  /-- `with _lock`, around `_running.add`. -/
  | registering (process : ℕ)
  | adding (process : ℕ)
  | added (process : ℕ)
  /-- `process.communicate(timeout=timeout)`. -/
  | communicating (process : ℕ)
  /-- `process.kill()`, and `process.communicate()` after it. -/
  | killing (process : ℕ)
  | reaping (process : ℕ)
  /-- `with _lock`, around `_running.discard`. -/
  | removing (process : ℕ)
  | discarding (process : ℕ)
  | discarded (process : ℕ)
  /-- `request_stop`: `_stop.set()`. -/
  | stopping
  /-- `with _lock`, around `list(_running)`. -/
  | locking
  | listing
  | listed (running : List ℕ)
  /-- The loop over the listed processes. -/
  | terminating (running : List ℕ)
  deriving DecidableEq

/-- Inside `with _lock`. -/
def CallFrame.holds : CallFrame → Bool
  | .adding _ | .added _ | .discarding _ | .discarded _ | .listing | .listed _ => true
  | .checking | .starting | .registering _ | .communicating _ | .killing _ | .reaping _
  | .removing _ | .stopping | .locking | .terminating _ => false

/-- The module's globals, and the processes. -/
structure Shared where
  /-- `_stop`. -/
  stop : Bool := false
  /-- `_lock`: the thread that holds it. -/
  lock : Option ℕ := none
  /-- `_running`, a set. -/
  running : List ℕ := []
  children : List Child := []
  /-- Whether a call of `request_stop` has returned; nobody reads it. -/
  stopped : Bool := false

namespace Shared

def isRunning (s : Shared) (process : ℕ) : Bool := s.children[process]?.any (·.running)

def hasEnded (s : Shared) (process : ℕ) : Bool := s.children[process]?.any (! ·.running)

def isTerminated (s : Shared) (process : ℕ) : Bool := s.children[process]?.any (·.terminated)

/-- The process runs, and no stop has told it to end. -/
def runsOn (s : Shared) (process : ℕ) : Bool :=
  s.children[process]?.any fun child => child.running && !child.terminated

def modify (s : Shared) (process : ℕ) (f : Child → Child) : Shared :=
  { s with children := s.children.modify process f }

/-- The lock is not reentrant: its holder waits for itself. -/
def acquire (s : Shared) (thread : ℕ) : Option Shared :=
  if s.lock = none then some { s with lock := some thread } else none

def release (s : Shared) : Shared := { s with lock := none }

/-- One statement of a call in a thread: what it leaves, and where the call goes on unless it is
over; `none` while it has to wait. -/
def exec (s : Shared) (thread : ℕ) : CallFrame → Option (Shared × Option CallFrame)
  -- A stop raises `Interrupted`.
  | .checking => some (s, if s.stop then none else some .starting)
  | .starting =>
      some ({ s with children := s.children ++ [.new] }, some (.registering s.children.length))
  | .registering process => (s.acquire thread).map fun s => (s, some (.adding process))
  | .adding process =>
      some ({ s with running := s.running.insert process }, some (.added process))
  | .added process => some (s.release, some (.communicating process))
  | .communicating process =>
      if s.hasEnded process then some (s, some (.removing process)) else none
  | .killing process => some (s.modify process ({ · with killed := true }), some (.reaping process))
  | .reaping process => if s.hasEnded process then some (s, some (.removing process)) else none
  | .removing process => (s.acquire thread).map fun s => (s, some (.discarding process))
  | .discarding process =>
      some ({ s with running := s.running.filter (· ≠ process) }, some (.discarded process))
  | .discarded _ => some (s.release, none)
  | .stopping => some ({ s with stop := true }, some .locking)
  | .locking => (s.acquire thread).map fun s => (s, some .listing)
  | .listing => some (s, some (.listed s.running))
  | .listed running => some (s.release, some (.terminating running))
  | .terminating (process :: rest) =>
      some (s.modify process ({ · with terminated := true }), some (.terminating rest))
  | .terminating [] => some ({ s with stopped := true }, none)

/-- A call of `run` that has seen no stop and whose process is not registered yet: the process is
still to come, or it runs. -/
def inGap (s : Shared) : CallFrame → Bool
  | .starting => true
  | .registering process | .adding process => s.isRunning process
  | .checking | .added _ | .communicating _ | .killing _ | .reaping _ | .removing _ | .discarding _
  | .discarded _ | .stopping | .locking | .listing | .listed _ | .terminating _ => false

end Shared

/-- Each thread has the calls it is in, the innermost first. -/
structure Interruption where
  shared : Shared := {}
  threads : Parties ℕ (List CallFrame) := ∅

inductive InterruptionAction
  /-- A thread that is in no call calls `run`, or `request_stop`. -/
  | run (thread : ℕ)
  | requestStop (thread : ℕ)
  /-- SIGTERM: the handler starts in the main thread, wherever that is. -/
  | signal
  /-- A thread executes a statement. -/
  | advance (thread : ℕ)
  /-- `Popen` raises. -/
  | popenRaises (thread : ℕ)
  /-- `communicate` raises `TimeoutExpired`. -/
  | timeout (thread : ℕ)
  /-- A process ends. -/
  | exit (process : ℕ)

namespace Interruption

/-- The main thread, in which Python runs signal handlers. -/
def main : ℕ := 0

/-- The calls a thread is in. -/
def calls (s : Interruption) (thread : ℕ) : List CallFrame := (s.threads.lookup thread).getD []

def setCalls (s : Interruption) (thread : ℕ) (frames : List CallFrame) : Interruption :=
  { s with threads := s.threads.insert thread frames }

/-- One atomic step. -/
def step (s : Interruption) : InterruptionAction → Option Interruption
  | .run thread => if s.calls thread = [] then some (s.setCalls thread [.checking]) else none
  | .requestStop thread =>
      if s.calls thread = [] then some (s.setCalls thread [.stopping]) else none
  | .signal => some (s.setCalls main (.stopping :: s.calls main))
  | .advance thread =>
      match s.calls thread with
      | [] => none
      | frame :: outer => (s.shared.exec thread frame).map fun (shared, next) =>
          { s with shared := shared }.setCalls thread (next.toList ++ outer)
  | .popenRaises thread =>
      match s.calls thread with
      | .starting :: outer => some (s.setCalls thread outer)
      | _ => none
  | .timeout thread =>
      match s.calls thread with
      | .communicating process :: outer => some (s.setCalls thread (.killing process :: outer))
      | _ => none
  | .exit process =>
      if s.shared.isRunning process then
        some { s with shared := s.shared.modify process ({ · with running := false }) }
      else none

end Interruption

/-- The worker's system: no thread is in a call. -/
def interruptionSystem : StepSystem Interruption InterruptionAction where
  init s := s = {}
  step := Interruption.step

/-! ## One statement -/

/-- The call is about to register the process. -/
def CallFrame.registers (process : ℕ) : CallFrame → Prop
  | .registering other | .adding other => other = process
  | _ => False

/-- The call is about to remove the process. -/
def CallFrame.removes (process : ℕ) : CallFrame → Prop
  | .removing other | .discarding other => other = process
  | _ => False

/-- Where a call goes when its thread moves: to the next statement, or out of `Popen` or
`communicate` by an exception. -/
inductive Goes (s : Shared) (thread : ℕ) : CallFrame → Shared → Option CallFrame → Prop
  | interrupted (hstop : s.stop = true) : Goes s thread .checking s none
  | checked (hstop : s.stop = false) : Goes s thread .checking s (some .starting)
  | started : Goes s thread .starting { s with children := s.children ++ [.new] }
      (some (.registering s.children.length))
  | popenRaises : Goes s thread .starting s none
  | registering (process : ℕ) (hlock : s.lock = none) :
      Goes s thread (.registering process) { s with lock := some thread } (some (.adding process))
  | adding (process : ℕ) : Goes s thread (.adding process)
      { s with running := s.running.insert process } (some (.added process))
  | added (process : ℕ) :
      Goes s thread (.added process) s.release (some (.communicating process))
  | ended (process : ℕ) (hended : s.hasEnded process = true) :
      Goes s thread (.communicating process) s (some (.removing process))
  | timeout (process : ℕ) : Goes s thread (.communicating process) s (some (.killing process))
  | killing (process : ℕ) : Goes s thread (.killing process)
      (s.modify process ({ · with killed := true })) (some (.reaping process))
  | reaped (process : ℕ) (hended : s.hasEnded process = true) :
      Goes s thread (.reaping process) s (some (.removing process))
  | removing (process : ℕ) (hlock : s.lock = none) :
      Goes s thread (.removing process) { s with lock := some thread } (some (.discarding process))
  | discarding (process : ℕ) : Goes s thread (.discarding process)
      { s with running := s.running.filter (· ≠ process) } (some (.discarded process))
  | discarded (process : ℕ) : Goes s thread (.discarded process) s.release none
  | stopping : Goes s thread .stopping { s with stop := true } (some .locking)
  | locking (hlock : s.lock = none) :
      Goes s thread .locking { s with lock := some thread } (some .listing)
  | listing : Goes s thread .listing s (some (.listed s.running))
  | listed (running : List ℕ) :
      Goes s thread (.listed running) s.release (some (.terminating running))
  | terminating (process : ℕ) (rest : List ℕ) : Goes s thread (.terminating (process :: rest))
      (s.modify process ({ · with terminated := true })) (some (.terminating rest))
  | returned : Goes s thread (.terminating []) { s with stopped := true } none

section Statements

variable {s t : Shared} {thread process other : ℕ} {frame : CallFrame} {next : Option CallFrame}

theorem acquire_some (hacquired : s.acquire thread = some t) :
    s.lock = none ∧ t = { s with lock := some thread } := by
  unfold Shared.acquire at hacquired
  split at hacquired
  · exact ⟨by assumption, (Option.some.inj hacquired).symm⟩
  · cases hacquired

/-- A statement is one of these. -/
theorem goes_exec (hexec : s.exec thread frame = some (t, next)) : Goes s thread frame t next := by
  cases frame with
  | checking =>
      obtain ⟨rfl, rfl⟩ := Prod.mk.inj (Option.some.inj hexec)
      split
      · exact .interrupted (by assumption)
      · exact .checked (Bool.eq_false_iff.mpr (by assumption))
  | registering | removing | locking =>
      obtain ⟨u, hu, hnext⟩ := Option.map_eq_some_iff.mp hexec
      obtain ⟨rfl, rfl⟩ := Prod.mk.inj hnext
      obtain ⟨hlock, rfl⟩ := acquire_some hu
      constructor
      exact hlock
  | communicating | reaping =>
      simp only [Shared.exec] at hexec
      split at hexec
      · obtain ⟨rfl, rfl⟩ := Prod.mk.inj (Option.some.inj hexec)
        constructor
        assumption
      · cases hexec
  | terminating running =>
      cases running <;>
      · obtain ⟨rfl, rfl⟩ := Prod.mk.inj (Option.some.inj hexec)
        constructor
  | starting | adding | added | killing | discarding | discarded | stopping | listing | listed =>
      obtain ⟨rfl, rfl⟩ := Prod.mk.inj (Option.some.inj hexec)
      constructor

/-- What a change of a process cannot bring about held before it. -/
theorem any_of_modify {q : Child → Bool} {f : Child → Child} {children : List Child}
    (hf : ∀ child, q (f child) = true → q child = true)
    (hany : ((children.modify process f)[other]?).any q = true) :
    (children[other]?).any q = true := by
  rw [List.getElem?_modify] at hany
  cases hchild : children[other]? with
  | none => simp [hchild] at hany
  | some child =>
      rw [hchild] at hany
      by_cases hsame : process = other
      · exact hf child (by simpa [hsame] using hany)
      · simpa [hsame] using hany

/-- What a change of a process keeps holds after it. -/
theorem any_modify {q : Child → Bool} {f : Child → Child} {children : List Child}
    (hf : ∀ child, q child = true → q (f child) = true)
    (hany : (children[other]?).any q = true) :
    ((children.modify process f)[other]?).any q = true := by
  rw [List.getElem?_modify]
  cases hchild : children[other]? with
  | none => simp [hchild] at hany
  | some child =>
      rw [hchild] at hany
      by_cases hsame : process = other
      · simpa [hsame] using hf child hany
      · simpa [hsame] using hany

/-- What holds of a process after another one was started held before. -/
theorem any_of_append {q : Child → Bool} {children : List Child} {child : Child}
    (hother : other ≠ children.length)
    (hany : ((children ++ [child])[other]?).any q = true) : (children[other]?).any q = true := by
  rcases Nat.lt_or_gt_of_ne hother with hlt | hgt
  · rwa [List.getElem?_append_left hlt] at hany
  · rw [List.getElem?_eq_none (by simp; omega)] at hany
    cases hany

theorem not_isRunning_of_hasEnded (hended : s.hasEnded process = true) :
    s.isRunning process = false := by
  unfold Shared.hasEnded at hended
  unfold Shared.isRunning
  cases hchild : s.children[process]? with
  | none => rfl
  | some child => simpa [hchild] using hended

theorem isRunning_of_runsOn (hrunsOn : s.runsOn process = true) : s.isRunning process = true := by
  unfold Shared.runsOn at hrunsOn
  unfold Shared.isRunning
  cases hchild : s.children[process]? with
  | none => simp [hchild] at hrunsOn
  | some child => simp_all

/-- A process that was told to end does not run on. -/
theorem runsOn_terminated :
    (s.modify process ({ · with terminated := true })).runsOn process = false := by
  unfold Shared.runsOn Shared.modify
  rw [List.getElem?_modify]
  cases s.children[process]? <;> simp

theorem inGap_of_isRunning
    (hrunning : ∀ process, t.isRunning process = true → s.isRunning process = true)
    (hgap : t.inGap frame = true) : s.inGap frame = true := by
  cases frame with
  | registering process | adding process => exact hrunning process hgap
  | _ => exact hgap

namespace Goes

/-- A process runs that ran before, or the one that has just been started. -/
theorem isRunning (h : Goes s thread frame t next) (hrunning : t.isRunning process = true) :
    s.isRunning process = true ∨ (frame = .starting ∧ next = some (.registering process)) := by
  cases h with
  | started =>
      by_cases hnew : process = s.children.length
      · exact Or.inr ⟨rfl, by rw [hnew]⟩
      · exact Or.inl (any_of_append hnew hrunning)
  | killing | terminating =>
      refine Or.inl (any_of_modify ?_ hrunning)
      exact fun _ h => h
  | _ => exact Or.inl hrunning

theorem hasEnded (h : Goes s thread frame t next) (hended : s.hasEnded process = true) :
    t.hasEnded process = true := by
  cases h with
  | started =>
      have hlt : process < s.children.length := by
        by_contra hle
        simp [Shared.hasEnded, List.getElem?_eq_none (Nat.not_lt.mp hle)] at hended
      unfold Shared.hasEnded
      rwa [List.getElem?_append_left hlt]
  | killing | terminating =>
      refine any_modify ?_ hended
      exact fun _ h => h
  | _ => exact hended

/-- No statement but the start of a process makes one run on. -/
theorem runsOn (h : Goes s thread frame t next) (hframe : frame ≠ .starting)
    (hrunsOn : t.runsOn process = true) : s.runsOn process = true := by
  cases h with
  | started => exact absurd rfl hframe
  | killing | terminating =>
      refine any_of_modify (fun child hchild => ?_) hrunsOn
      simp_all
  | _ => exact hrunsOn

/-- Nobody takes a stop back. -/
theorem stop (h : Goes s thread frame t next) (hstop : s.stop = true) : t.stop = true := by
  cases h <;> first | exact hstop | rfl

/-- `request_stop` returns after its loop. -/
theorem stopped (h : Goes s thread frame t next) (hstopped : t.stopped = true) :
    s.stopped = true ∨ frame = .terminating [] := by
  cases h with
  | returned => exact Or.inr rfl
  | _ => exact Or.inl hstopped

/-- A call comes into the gap from its look at the flag only. -/
theorem inGap {after : CallFrame} (h : Goes s thread frame t (some after))
    (hgap : t.inGap after = true) : s.inGap frame = true ∨ s.stop = false := by
  cases h with
  | checked hstop => exact Or.inr hstop
  | started => exact Or.inl rfl
  | registering process => exact Or.inl hgap
  | _ => cases hgap

/-- Who holds the lock after a statement: the call, which goes on inside, or who held it. -/
theorem lock (h : Goes s thread frame t next) (hlock : t.lock = some other) :
    (other = thread ∧ ∃ after, next = some after ∧ after.holds = true) ∨
      (s.lock = some other ∧
        (frame.holds = true → ∃ after, next = some after ∧ after.holds = true)) := by
  cases h with
  | registering | removing | locking =>
      exact Or.inl ⟨(Option.some.inj hlock).symm, _, rfl, rfl⟩
  | added | discarded | listed => cases hlock
  | adding | discarding | listing => exact Or.inr ⟨hlock, fun _ => ⟨_, rfl, rfl⟩⟩
  | _ => exact Or.inr ⟨hlock, fun hholds => by cases hholds⟩

/-- A process that runs is registered, or its call is about to register it. -/
theorem registered (h : Goes s thread frame t next) (hrunning : t.isRunning process = true)
    (hremoves : frame.removes process → s.hasEnded process = true) :
    (∃ after, next = some after ∧ after.registers process) ∨
      (s.isRunning process = true ∧ (process ∈ s.running → process ∈ t.running) ∧
        (frame.registers process → process ∈ t.running)) := by
  rcases h.isRunning hrunning with hbefore | ⟨-, hnext⟩
  · cases h with
    | registering other =>
        by_cases hother : other = process
        · exact Or.inl ⟨_, rfl, hother⟩
        · exact Or.inr ⟨hbefore, id, fun h => absurd h hother⟩
    | adding other =>
        refine Or.inr ⟨hbefore, List.mem_insert_of_mem, fun h => ?_⟩
        obtain rfl : other = process := h
        exact List.mem_insert_self
    | discarding other =>
        refine Or.inr ⟨hbefore, fun hmem => List.mem_filter.mpr ⟨hmem, ?_⟩, fun h => h.elim⟩
        rw [decide_eq_true_iff]
        rintro rfl
        rw [not_isRunning_of_hasEnded (hremoves rfl)] at hbefore
        cases hbefore
    | _ => exact Or.inr ⟨hbefore, id, fun h => h.elim⟩
  · exact Or.inl ⟨_, hnext, rfl⟩

/-- A call removes a process that has ended. -/
theorem removes {after : CallFrame} (h : Goes s thread frame t (some after))
    (hafter : after.removes process) (hframe : frame.removes process → s.hasEnded process = true) :
    s.hasEnded process = true := by
  cases h with
  | ended other hended | reaped other hended =>
      obtain rfl : other = process := hafter
      exact hended
  | removing other => exact hframe hafter
  | _ => exact hafter.elim

end Goes

end Statements

end Worker
end MediaPlayer
