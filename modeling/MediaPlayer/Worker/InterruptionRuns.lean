import MediaPlayer.Worker.Interruption

/-!
# Stopping among running calls

* `Timely` — the steps that leave out the two gaps: a signal comes while the main thread does not
  hold the lock, and the running processes are listed while no call is between its look at the
  flag and its registration.
* `Covered` — whoever runs on was listed, and nothing starts any more.
* `stop_ends_every_process` — in a run of such steps nothing runs on after a stop, and no handler
  waits for its own thread.
-/

namespace MediaPlayer
namespace Worker

open Library

namespace Interruption

variable {s t : Interruption} {a : InterruptionAction}

/-- No call is in the gap. -/
def gapFree (s : Interruption) : Bool :=
  s.threads.all fun _ frames => frames.all fun frame => !s.shared.inGap frame

/-- What a step must meet for the stop to be safe. -/
def Timely (s : Interruption) : InterruptionAction → Prop
  | .signal => s.shared.lock ≠ some main
  | .advance thread => (s.calls thread).head? = some .listing → s.gapFree = true
  | .run _ | .requestStop _ | .popenRaises _ | .timeout _ | .exit _ => True

instance : ∀ s a, Decidable (Timely s a)
  | s, .signal => inferInstanceAs (Decidable (s.shared.lock ≠ some main))
  | s, .advance thread =>
      inferInstanceAs (Decidable ((s.calls thread).head? = some .listing → s.gapFree = true))
  | _, .run _ | _, .requestStop _ | _, .popenRaises _ | _, .timeout _ | _, .exit _ =>
      .isTrue trivial

/-- Once a `request_stop` has returned, no process runs that was not told to end; and no call of
`request_stop` waits for the lock in a thread that holds it. -/
structure StopSafe (s : Interruption) : Prop where
  ended : s.shared.stopped = true → ∀ process, s.shared.runsOn process = false
  waits : ∀ thread outer, s.calls thread = .locking :: outer → s.shared.lock ≠ some thread

/-! ## One step -/

@[simp] theorem calls_setCalls (s : Interruption) (thread : ℕ) (frames : List CallFrame) :
    (s.setCalls thread frames).calls thread = frames := by
  unfold calls setCalls
  rw [AList.lookup_insert]
  rfl

theorem calls_setCalls_of_ne {thread other : ℕ} {frames : List CallFrame} (hne : other ≠ thread) :
    (s.setCalls thread frames).calls other = s.calls other := by
  unfold calls setCalls
  rw [AList.lookup_insert_ne hne]

theorem gapFree_iff : s.gapFree = true ↔
    ∀ thread, ∀ frame ∈ s.calls thread, s.shared.inGap frame = false := by
  unfold gapFree calls
  rw [Parties.all_iff]
  constructor
  · intro hall thread frame hframe
    cases hlookup : s.threads.lookup thread with
    | none => simp [hlookup] at hframe
    | some frames =>
        rw [hlookup, Option.getD_some] at hframe
        simpa using List.all_eq_true.mp (hall thread frames hlookup) frame hframe
  · intro hall thread frames hlookup
    refine List.all_eq_true.mpr fun frame hframe => ?_
    simpa using hall thread frame (by rwa [hlookup])

/-- What a step does. -/
inductive Steps (s : Interruption) (a : InterruptionAction) : Interruption → Prop
  /-- A call begins, in a thread that was in none, or as the handler. -/
  | begun (thread : ℕ) (frame : CallFrame) (hframe : frame = .checking ∨ frame = .stopping)
      (hwhere : s.calls thread = [] ∨ (a = .signal ∧ thread = main)) :
      Steps s a (s.setCalls thread (frame :: s.calls thread))
  | moved (thread : ℕ) (frame : CallFrame) (outer : List CallFrame) (shared : Shared)
      (next : Option CallFrame) (hcalls : s.calls thread = frame :: outer)
      (hgoes : Goes s.shared thread frame shared next)
      (haction : frame = .listing → a = .advance thread) :
      Steps s a ({ s with shared := shared }.setCalls thread (next.toList ++ outer))
  | ended (process : ℕ) : Steps s a
      { s with shared := s.shared.modify process ({ · with running := false }) }

theorem step_cases (hstep : s.step a = some t) : Steps s a t := by
  cases a with
  | run thread =>
      simp only [step] at hstep
      split at hstep
      · rename_i hidle
        obtain rfl := Option.some.inj hstep
        have hbegun := Steps.begun (a := .run thread) thread .checking (Or.inl rfl) (Or.inl hidle)
        rwa [hidle] at hbegun
      · cases hstep
  | requestStop thread =>
      simp only [step] at hstep
      split at hstep
      · rename_i hidle
        obtain rfl := Option.some.inj hstep
        have hbegun := Steps.begun (a := .requestStop thread) thread .stopping (Or.inr rfl)
          (Or.inl hidle)
        rwa [hidle] at hbegun
      · cases hstep
  | signal =>
      obtain rfl := Option.some.inj hstep
      exact .begun main .stopping (Or.inr rfl) (Or.inr ⟨rfl, rfl⟩)
  | advance thread =>
      simp only [step] at hstep
      split at hstep
      · cases hstep
      · rename_i frame outer hcalls
        obtain ⟨⟨shared, next⟩, hexec, rfl⟩ := Option.map_eq_some_iff.mp hstep
        exact .moved thread frame outer shared next hcalls (goes_exec hexec) fun _ => rfl
  | popenRaises thread =>
      simp only [step] at hstep
      split at hstep
      · rename_i outer hcalls
        obtain rfl := Option.some.inj hstep
        exact .moved thread .starting outer s.shared none hcalls .popenRaises (by simp)
      · cases hstep
  | timeout thread =>
      simp only [step] at hstep
      split at hstep
      · rename_i process outer hcalls
        obtain rfl := Option.some.inj hstep
        exact .moved thread _ outer s.shared _ hcalls (.timeout process) (by simp)
      · cases hstep
  | exit process =>
      simp only [step] at hstep
      split at hstep
      · obtain rfl := Option.some.inj hstep
        exact .ended process
      · cases hstep

/-- A frame of a thread after a statement is the one it went to, or was there before. -/
theorem mem_calls_moved {shared : Shared} {thread other : ℕ} {frame after : CallFrame}
    {outer : List CallFrame} {next : Option CallFrame} (hcalls : s.calls thread = frame :: outer)
    (hmem : after ∈
      ({ s with shared := shared }.setCalls thread (next.toList ++ outer)).calls other) :
    (other = thread ∧ next = some after) ∨ after ∈ s.calls other := by
  by_cases hother : other = thread
  · subst hother
    rw [calls_setCalls, List.mem_append, Option.mem_toList] at hmem
    rcases hmem with hnext | houter
    · exact Or.inl ⟨rfl, hnext⟩
    · exact Or.inr (hcalls ▸ List.mem_cons_of_mem _ houter)
  · rw [calls_setCalls_of_ne hother] at hmem
    exact Or.inr hmem

/-- A frame of a thread after a call began is that call, or was there before. -/
theorem mem_calls_begun {thread other : ℕ} {frame after : CallFrame}
    (hmem : after ∈ (s.setCalls thread (frame :: s.calls thread)).calls other) :
    after = frame ∨ after ∈ s.calls other := by
  by_cases hother : other = thread
  · subst hother
    rw [calls_setCalls] at hmem
    exact List.mem_cons.mp hmem
  · rw [calls_setCalls_of_ne hother] at hmem
    exact Or.inr hmem

/-! ## Where a running process is known -/

/-- A process that runs is registered, or its call is about to register it; and a call removes only
what has ended. -/
structure Accounted (s : Interruption) : Prop where
  registered : ∀ process, s.shared.isRunning process = true → process ∈ s.shared.running ∨
    ∃ thread, ∃ frame ∈ s.calls thread, frame.registers process
  removed : ∀ thread, ∀ frame ∈ s.calls thread, ∀ process, frame.removes process →
    s.shared.hasEnded process = true

theorem Accounted.step (hs : Accounted s) (hstep : Steps s a t) : Accounted t := by
  cases hstep with
  | begun thread frame hframe hwhere =>
      have hkept : ∀ other, ∀ after ∈ s.calls other,
          after ∈ (s.setCalls thread (frame :: s.calls thread)).calls other := by
        intro other after hafter
        by_cases hother : other = thread
        · subst hother
          rw [calls_setCalls]
          exact List.mem_cons_of_mem _ hafter
        · rwa [calls_setCalls_of_ne hother]
      refine ⟨fun process hrunning => ?_, fun other after hafter process hremoves => ?_⟩
      · rcases hs.registered process hrunning with hmem | ⟨other, after, hafter, hregisters⟩
        · exact Or.inl hmem
        · exact Or.inr ⟨other, after, hkept other after hafter, hregisters⟩
      · rcases mem_calls_begun hafter with rfl | hbefore
        · rcases hframe with rfl | rfl <;> exact hremoves.elim
        · exact hs.removed other after hbefore process hremoves
  | moved thread frame outer shared next hcalls hgoes haction =>
      have htop : frame ∈ s.calls thread := hcalls ▸ List.mem_cons_self
      constructor
      · intro process hrunning
        have hnext := hgoes.registered hrunning (hs.removed thread frame htop process)
        rcases hnext with ⟨after, rfl, hregisters⟩ | ⟨hbefore, hkept, hregistered⟩
        · refine Or.inr ⟨thread, after, ?_, hregisters⟩
          rw [calls_setCalls]
          exact List.mem_cons_self
        · rcases hs.registered process hbefore with hmem | ⟨other, after, hafter, hregisters⟩
          · exact Or.inl (hkept hmem)
          · by_cases hother : other = thread
            · subst hother
              rw [hcalls] at hafter
              rcases List.mem_cons.mp hafter with rfl | houter
              · exact Or.inl (hregistered hregisters)
              · refine Or.inr ⟨other, after, ?_, hregisters⟩
                rw [calls_setCalls]
                exact List.mem_append_right _ houter
            · exact Or.inr ⟨other, after, by rwa [calls_setCalls_of_ne hother], hregisters⟩
      · intro other after hafter process hremoves
        refine hgoes.hasEnded ?_
        rcases mem_calls_moved hcalls hafter with ⟨rfl, rfl⟩ | hbefore
        · exact hgoes.removes hremoves (hs.removed other frame htop process)
        · exact hs.removed other after hbefore process hremoves
  | ended process =>
      constructor
      · intro other hrunning
        refine hs.registered other (any_of_modify (fun child hchild => ?_) hrunning)
        cases hchild
      · intro thread frame hframe other hremoves
        refine any_modify (fun child _ => ?_) (hs.removed thread frame hframe other hremoves)
        rfl

/-! ## Who holds the lock -/

/-- The call that holds the lock is the innermost one of its thread. -/
def HolderRuns (s : Interruption) : Prop :=
  ∀ thread, s.shared.lock = some thread →
    ∃ frame outer, s.calls thread = frame :: outer ∧ frame.holds = true

theorem HolderRuns.step (hs : HolderRuns s) (htimely : Timely s a) (hstep : Steps s a t) :
    HolderRuns t := by
  intro other hlock
  cases hstep with
  | begun thread frame hframe hwhere =>
      obtain ⟨holder, outer, hcalls, hholds⟩ := hs other hlock
      have hne : other ≠ thread := by
        rintro rfl
        rcases hwhere with hidle | ⟨rfl, rfl⟩
        · rw [hcalls] at hidle
          cases hidle
        · exact htimely hlock
      exact ⟨holder, outer, by rw [calls_setCalls_of_ne hne, hcalls], hholds⟩
  | moved thread frame outer shared next hcalls hgoes haction =>
      rcases hgoes.lock hlock with ⟨rfl, after, rfl, hholds⟩ | ⟨hbefore, hnext⟩
      · exact ⟨after, outer, calls_setCalls .., hholds⟩
      · obtain ⟨holder, inner, hholder, hholds⟩ := hs other hbefore
        by_cases hother : other = thread
        · subst hother
          obtain ⟨rfl, rfl⟩ := List.cons.inj (hholder.symm.trans hcalls)
          obtain ⟨after, rfl, hafter⟩ := hnext hholds
          exact ⟨after, inner, calls_setCalls .., hafter⟩
        · exact ⟨holder, inner, by rwa [calls_setCalls_of_ne hother], hholds⟩
  | ended process => exact hs other hlock

/-! ## What a stop has listed -/

/-- A stop was requested, no call is in the gap, and whatever runs on is listed. -/
structure Covered (s : Interruption) (listed : List ℕ) : Prop where
  stop : s.shared.stop = true
  gap : ∀ thread, ∀ frame ∈ s.calls thread, s.shared.inGap frame = false
  runsOn : ∀ process, s.shared.runsOn process = true → process ∈ listed

/-- It stays so, whoever moves. -/
theorem Covered.step {listed : List ℕ} (hs : Covered s listed) (hstep : Steps s a t) :
    Covered t listed := by
  cases hstep with
  | begun thread frame hframe hwhere =>
      refine ⟨hs.stop, fun other after hafter => ?_, hs.runsOn⟩
      rcases mem_calls_begun hafter with rfl | hbefore
      · rcases hframe with rfl | rfl <;> rfl
      · exact hs.gap other after hbefore
  | moved thread frame outer shared next hcalls hgoes haction =>
      have hgap := hs.gap thread frame (hcalls ▸ List.mem_cons_self)
      have hframe : frame ≠ .starting := by
        rintro rfl
        cases hgap
      refine ⟨hgoes.stop hs.stop, fun other after hafter => ?_,
        fun process hrunsOn => hs.runsOn process (hgoes.runsOn hframe hrunsOn)⟩
      rw [← Bool.not_eq_true]
      intro hinGap
      rcases mem_calls_moved hcalls hafter with ⟨rfl, rfl⟩ | hbefore
      · rcases hgoes.inGap hinGap with h | h
        · rw [hgap] at h
          cases h
        · rw [hs.stop] at h
          cases h
      · have hstill := inGap_of_isRunning (s := s.shared) (fun process hrunning =>
          (hgoes.isRunning hrunning).resolve_right fun h => hframe h.1) hinGap
        rw [hs.gap other after hbefore] at hstill
        cases hstill
  | ended process =>
      refine ⟨hs.stop, fun thread frame hframe => ?_, fun other hrunsOn => ?_⟩
      · rw [← Bool.not_eq_true]
        intro hinGap
        have hstill := inGap_of_isRunning (s := s.shared) (fun other hrunning => by
          refine any_of_modify (fun child hchild => ?_) hrunning
          cases hchild) hinGap
        rw [hs.gap thread frame hframe] at hstill
        cases hstill
      · refine hs.runsOn other (any_of_modify (fun child hchild => ?_) hrunsOn)
        cases hchild

/-- What a call of `request_stop` relies on. -/
def Stops (s : Interruption) : CallFrame → Prop
  | .locking | .listing => s.shared.stop = true
  | .listed listed | .terminating listed => Covered s listed
  | _ => True

theorem Stops.step {frame : CallFrame} (hs : Stops s frame) (hstep : Steps s a t) :
    Stops t frame := by
  have hstop : s.shared.stop = true → t.shared.stop = true := by
    intro h
    cases hstep with
    | moved thread frame outer shared next hcalls hgoes => exact hgoes.stop h
    | begun | ended => exact h
  cases frame with
  | locking | listing => exact hstop hs
  | listed | terminating => exact Covered.step hs hstep
  | _ => trivial

/-- Where `request_stop` goes on, what it relies on holds: it lists the running processes while no
call is in the gap, and takes those it has told to end off its list. -/
theorem Stops.moved {shared : Shared} {thread : ℕ} {frame after : CallFrame}
    (haccounted : Accounted s) (hstops : Stops s frame) (hstep : Steps s a t)
    (ht : t.shared = shared) (hgoes : Goes s.shared thread frame shared (some after))
    (hfree : frame = .listing → s.gapFree = true) : Stops t after := by
  cases hgoes with
  | stopping => exact (congrArg Shared.stop ht : t.shared.stop = true)
  | locking => exact Stops.step (hstops : Stops s .locking) hstep
  | listing =>
      have hgap := gapFree_iff.mp (hfree rfl)
      refine Covered.step ⟨hstops, hgap, fun process hrunsOn => ?_⟩ hstep
      have hrunning := isRunning_of_runsOn hrunsOn
      rcases haccounted.registered process hrunning with hmem | ⟨other, frame, hframe, hregisters⟩
      · exact hmem
      · have hinGap : s.shared.inGap frame = true := by
          cases frame with
          | registering | adding =>
              obtain rfl := hregisters
              exact hrunning
          | _ => exact hregisters.elim
        rw [hgap other frame hframe] at hinGap
        cases hinGap
  | listed => exact Covered.step hstops hstep
  | terminating process rest =>
      have hcovered := Covered.step hstops hstep
      refine ⟨hcovered.stop, hcovered.gap, fun other hrunsOn => ?_⟩
      rcases List.mem_cons.mp (hcovered.runsOn other hrunsOn) with rfl | hrest
      · rw [ht, runsOn_terminated] at hrunsOn
        cases hrunsOn
      · exact hrest
  | _ => trivial

/-- What holds in every state of a timely run. -/
structure StopInvariant (s : Interruption) : Prop where
  accounted : Accounted s
  holder : HolderRuns s
  stops : ∀ thread, ∀ frame ∈ s.calls thread, Stops s frame
  stopped : s.shared.stopped = true → Covered s []

theorem StopInvariant.step (hs : StopInvariant s) (htimely : Timely s a)
    (hstep : s.step a = some t) : StopInvariant t := by
  have hsteps := step_cases hstep
  refine ⟨hs.accounted.step hsteps, hs.holder.step htimely hsteps, ?_, ?_⟩
  · intro other after hafter
    have hkept : after ∈ s.calls other → Stops t after :=
      fun hbefore => (hs.stops other after hbefore).step hsteps
    cases hcases : hsteps with
    | begun thread frame hframe hwhere =>
        rcases mem_calls_begun hafter with rfl | hbefore
        · rcases hframe with rfl | rfl <;> trivial
        · exact hkept hbefore
    | moved thread frame outer shared next hcalls hgoes haction =>
        rcases mem_calls_moved hcalls hafter with ⟨rfl, rfl⟩ | hbefore
        · refine Stops.moved hs.accounted ?_ hsteps rfl hgoes fun hlisting => ?_
          · exact hs.stops other frame (hcalls ▸ List.mem_cons_self)
          · obtain rfl := haction hlisting
            exact htimely (by rw [hcalls, hlisting, List.head?_cons])
        · exact hkept hbefore
    | ended process => exact hkept hafter
  · intro hstopped
    have hbefore : Covered s [] := by
      cases hsteps with
      | moved thread frame outer shared next hcalls hgoes haction =>
          rcases hgoes.stopped hstopped with h | rfl
          · exact hs.stopped h
          · exact hs.stops thread _ (hcalls ▸ List.mem_cons_self)
      | begun | ended => exact hs.stopped hstopped
    exact hbefore.step hsteps

theorem StopInvariant.stopSafe (hs : StopInvariant s) : StopSafe s where
  ended hstopped process := by
    rw [← Bool.not_eq_true]
    exact fun hrunsOn => List.not_mem_nil ((hs.stopped hstopped).runsOn process hrunsOn)
  waits thread outer hcalls hlock := by
    obtain ⟨holder, inner, hholder, hholds⟩ := hs.holder thread hlock
    obtain ⟨rfl, -⟩ := List.cons.inj (hholder.symm.trans hcalls)
    cases hholds

/-- In every run in which no signal comes while the main thread holds the lock, and no process is
between the look at the flag and its registration when the running ones are listed, a stop ends
every process and no handler waits for its own thread. -/
theorem stop_ends_every_process (hs : interruptionSystem.ReachableUnder Timely s) : StopSafe s := by
  refine (hs.invariant StopInvariant ?_ fun s a t _ hs htimely hstep =>
    hs.step htimely hstep).stopSafe
  rintro s rfl
  have hidle : ∀ thread, calls {} thread = [] := fun _ => rfl
  refine ⟨⟨?_, ?_⟩, ?_, ?_, ?_⟩
  · intro process hrunning
    simp [Shared.isRunning] at hrunning
  · intro thread frame hframe
    simp [hidle] at hframe
  · intro thread hlock
    cases hlock
  · intro thread frame hframe
    simp [hidle] at hframe
  · intro hstopped
    cases hstopped

/-- A stop between two encodes of the main thread, after which it starts no other, and one that
comes while the main thread waits for its encode and ends this one and that of another thread. -/
theorem stop_ends_every_process_encode :
    (∃ s : Interruption, s.shared.stopped = true ∧ s.shared.hasEnded 0 = true ∧
      s.shared.children.length = 1 ∧ s.calls main = [] ∧ StopSafe s) ∧
    ∃ s : Interruption, s.shared.stopped = true ∧ s.shared.isTerminated 0 = true ∧
      s.shared.isTerminated 1 = true ∧ StopSafe s := by
  have hinit : interruptionSystem.ReachableUnder Timely {} := .init rfl
  constructor
  · obtain ⟨s, hs, hend⟩ := hinit.exists_of_runUnder
      ([.run main] ++ List.replicate 5 (.advance main) ++ [.exit 0] ++
        List.replicate 4 (.advance main) ++ [.signal] ++ List.replicate 5 (.advance main) ++
        [.run main, .advance main])
      (fun s => s.shared.stopped && s.shared.hasEnded 0 && s.shared.children.length == 1 &&
        s.calls main == []) (by decide)
    simp only [Bool.and_eq_true, beq_iff_eq] at hend
    obtain ⟨⟨⟨hstopped, hended⟩, hone⟩, hidle⟩ := hend
    exact ⟨s, hstopped, hended, hone, hidle, stop_ends_every_process hs⟩
  · obtain ⟨s, hs, hend⟩ := hinit.exists_of_runUnder
      ([.run main] ++ List.replicate 5 (.advance main) ++ [.run 1] ++
        List.replicate 5 (.advance 1) ++ [.signal] ++ List.replicate 7 (.advance main))
      (fun s => s.shared.stopped && s.shared.isTerminated 0 && s.shared.isTerminated 1) (by decide)
    simp only [Bool.and_eq_true] at hend
    obtain ⟨⟨hstopped, hfirst⟩, hsecond⟩ := hend
    exact ⟨s, hstopped, hfirst, hsecond, stop_ends_every_process hs⟩

/-! ## The two gaps -/

/-- A signal between the look at the flag and the start lets the process run on; one inside
`with _lock` waits for the statement it has interrupted. -/
theorem signal_in_gap_unsafe :
    (∃ s, interruptionSystem.run {} [.run main, .advance main, .signal, .advance main,
        .advance main, .advance main, .advance main, .advance main, .advance main] = some s ∧
      s.shared.stopped = true ∧ s.shared.runsOn 0 = true ∧ ¬StopSafe s) ∧
    ∃ s, interruptionSystem.run {} [.run main, .advance main, .advance main, .advance main,
        .signal, .advance main] = some s ∧
      s.calls main = [.locking, .adding 0] ∧ s.shared.lock = some main ∧ ¬StopSafe s := by
  refine ⟨⟨_, rfl, rfl, rfl, fun hsafe => ?_⟩, _, rfl, rfl, rfl, fun hsafe => ?_⟩
  · have hended := hsafe.ended rfl 0
    cases hended
  · exact hsafe.waits main [.adding 0] rfl rfl

/-- Some steps lead from a state to another one. -/
def Leads (s t : Interruption) : Prop := ∃ as, interruptionSystem.run s as = some t

theorem Leads.refl (s : Interruption) : Leads s s := ⟨[], rfl⟩

theorem Leads.of_step {u : Interruption} (hstep : s.step a = some u) (h : Leads u t) :
    Leads s t := by
  obtain ⟨as, hrun⟩ := h
  refine ⟨a :: as, ?_⟩
  rw [StepSystem.run_cons]
  exact (congrArg (·.bind fun u => interruptionSystem.run u as) hstep).trans hrun

/-- A thread executes its next statement first. -/
theorem Leads.advance {thread : ℕ} {frame : CallFrame} {outer : List CallFrame} {shared : Shared}
    {next : Option CallFrame} (hcalls : s.calls thread = frame :: outer)
    (hexec : s.shared.exec thread frame = some (shared, next))
    (h : Leads ({ s with shared := shared }.setCalls thread (next.toList ++ outer)) t) :
    Leads s t := by
  refine Leads.of_step (a := .advance thread) ?_ h
  simp only [step, hcalls, hexec, Option.map_some]

/-- A handler that starts while its thread holds the lock comes to wait for it. -/
theorem signal_waits (hlock : s.shared.lock = some main) :
    ∃ t, s.step .signal = some t ∧ ∃ u, Leads t u ∧ ¬StopSafe u := by
  refine ⟨_, rfl, _, Leads.advance (calls_setCalls ..) rfl (Leads.refl _), fun hsafe => ?_⟩
  exact hsafe.waits main (s.calls main) (calls_setCalls ..) hlock

/-- `request_stop` gets through its loop, while the other threads stay where they are. -/
theorem terminating_returns {thread : ℕ} {outer : List CallFrame} (running : List ℕ) :
    ∀ s : Interruption, s.calls thread = .terminating running :: outer →
      ∃ t, (∀ u, Leads t u → Leads s u) ∧ t.calls thread = outer ∧
        (∀ other, other ≠ thread → t.calls other = s.calls other) ∧ t.shared.stopped = true := by
  induction running with
  | nil =>
      intro s hcalls
      refine ⟨{ s with shared := { s.shared with stopped := true } }.setCalls thread outer,
        fun u h => Leads.advance hcalls rfl h, calls_setCalls .., ?_, rfl⟩
      exact fun other hother => calls_setCalls_of_ne hother
  | cons process rest ih =>
      intro s hcalls
      obtain ⟨t, hleads, hthread, hothers, hstopped⟩ :=
        ih ({ s with shared := s.shared.modify process ({ · with terminated := true }) }.setCalls
          thread (.terminating rest :: outer)) (calls_setCalls ..)
      refine ⟨t, fun u h => Leads.advance hcalls rfl (hleads u h), hthread, ?_, hstopped⟩
      exact fun other hother => (hothers other hother).trans (calls_setCalls_of_ne hother)

/-- A process that starts now runs on. -/
theorem Leads.starting {thread : ℕ} {outer : List CallFrame} (hstopped : s.shared.stopped = true)
    (hcalls : s.calls thread = .starting :: outer) : ∃ t, Leads s t ∧ ¬StopSafe t := by
  refine ⟨_, Leads.advance hcalls rfl (Leads.refl _), fun hsafe => ?_⟩
  have hended := hsafe.ended hstopped s.shared.children.length
  unfold setCalls Shared.runsOn at hended
  rw [List.getElem?_append_right (Nat.le_refl _), Nat.sub_self] at hended
  cases hended

/-- If the running processes are listed while a call is about to start its process, innermost in
another thread or just interrupted in this one, that process may run on after the stop. -/
theorem listing_in_gap_unsafe {thread other : ℕ} {outer inner : List CallFrame}
    (hlisting : s.calls thread = .listing :: outer)
    (hstarting : (other ≠ thread ∧ s.calls other = .starting :: inner) ∨
      (other = thread ∧ outer = .starting :: inner)) :
    ∃ t, s.step (.advance thread) = some t ∧ ∃ u, Leads t u ∧ ¬StopSafe u := by
  let listed := s.setCalls thread (.listed s.shared.running :: outer)
  let released := { listed with shared := listed.shared.release }.setCalls thread
    (.terminating s.shared.running :: outer)
  obtain ⟨t, hleads, hthread, hothers, hstopped⟩ :=
    terminating_returns s.shared.running released (calls_setCalls ..)
  have hreturned : ∃ u, Leads t u ∧ ¬StopSafe u := by
    rcases hstarting with ⟨hother, hcalls⟩ | ⟨rfl, rfl⟩
    · refine Leads.starting hstopped (?_ : t.calls other = .starting :: inner)
      rw [hothers other hother, calls_setCalls_of_ne hother]
      exact (calls_setCalls_of_ne hother).trans hcalls
    · exact Leads.starting hstopped hthread
  obtain ⟨u, hu, hunsafe⟩ := hreturned
  refine ⟨listed, ?_, u, ?_, hunsafe⟩
  · simp only [step, hlisting, Shared.exec, Option.map_some]
    rfl
  · exact Leads.advance (calls_setCalls ..) rfl (hleads u hu)

end Interruption

end Worker
end MediaPlayer
