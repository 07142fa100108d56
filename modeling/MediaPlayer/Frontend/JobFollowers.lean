import MediaPlayer.Library.Parties
import MediaPlayer.Library.StepSystem

/-!
# Following a job

`followJob` and `stopPolling` of `frontend/app.js`: the loop that asks for a job until it settles,
once on the upload card and once in the editor.  Whoever follows another job leaves the timer of the
one before running, and an answer may come after its follower was replaced, or after the reader has
signed out.

* `Page` — the timers and the requests of a page, with what every surface was told.
* `followSystem` — what one surface is promised: the job that is followed now, its answers one after
  the other, then one end.
* `jobs_followed` — in every run of the page each surface is told what it was promised, and a job
  that is followed always has exactly one question under way.
-/

namespace MediaPlayer
namespace Frontend

open Library

/-- The surfaces that follow a job. -/
inductive Surface
  | upload
  | edit
  deriving DecidableEq

/-- A job, as far as the page reads the answer: an error has none of it. -/
structure JobDocument where
  id : Option ℕ := none
  status : Option String := none
  hlsStatus : Option String := none
  hlsUrl : Option String := none
  outputUrl : Option String := none
  previewVttUrl : Option String := none
  deriving DecidableEq

/-- What a surface is told: that it follows a job or none, and the calls of its handlers. -/
inductive FollowEvent
  | followed (jobId : ℕ)
  | stopped
  | onJob (jobId attempt : ℕ) (job : JobDocument)
  | onDone (job : JobDocument)
  | onFailed (job : JobDocument)
  | onError (message : String)
  deriving DecidableEq

/-! ## What a surface is promised -/

inductive Following
  | nothing
  | asking (jobId attempt : ℕ)
  /-- The last answer ends it, and its end is still to be said. -/
  | ending (job : JobDocument)
  deriving DecidableEq

/-- A job that is not going to change. -/
inductive Ended
  | done
  | failed
  deriving DecidableEq

/-- Whether an answer is the last one: the ladder of a job that is done may still be built. -/
def JobDocument.ended (job : JobDocument) : Option Ended :=
  if job.status = some "done" then
    if job.hlsStatus = some "pending" then none else some .done
  else if job.status = some "failed" then some .failed
  else none

/-- What may be said next. -/
def Following.step : Following → FollowEvent → Option Following
  | _, .followed jobId => some (.asking jobId 0)
  | _, .stopped => some .nothing
  | .asking jobId attempt, .onJob answered n job =>
      if answered = jobId ∧ n = attempt then
        some (if job.ended.isSome then .ending job else .asking jobId (attempt + 1))
      else none
  | .asking _ _, .onError _ => some .nothing
  | .ending job, .onDone last =>
      if last = job ∧ job.ended = some .done then some .nothing else none
  | .ending job, .onFailed last =>
      if last = job ∧ job.ended = some .failed then some .nothing else none
  | _, _ => none

theorem Following.step_onJob (jobId attempt : ℕ) (job : JobDocument) :
    (asking jobId attempt).step (.onJob jobId attempt job) =
      some (if job.ended.isSome then ending job else asking jobId (attempt + 1)) :=
  if_pos ⟨rfl, rfl⟩

theorem Following.step_onDone {job : JobDocument} (hended : job.ended = some .done) :
    (ending job).step (.onDone job) = some nothing :=
  if_pos ⟨rfl, hended⟩

theorem Following.step_onFailed {job : JobDocument} (hended : job.ended = some .failed) :
    (ending job).step (.onFailed job) = some nothing :=
  if_pos ⟨rfl, hended⟩

/-- One follower after the other. -/
def followSystem : StepSystem Following FollowEvent where
  init := (· = .nothing)
  step := Following.step

/-! ## The page -/

/-- What one call of `tick` was made for. -/
structure Poll where
  surface : Surface
  run : ℕ
  jobId : ℕ
  attempt : ℕ
  deriving DecidableEq

/-- What the browser does for the page: a timer that calls `tick`, or the request it awaits. -/
inductive Task
  | timer (poll : Poll)
  | request (poll : Poll)
  deriving DecidableEq

def Task.poll : Task → Poll
  | timer poll | request poll => poll

structure Page where
  pollTimers : Surface → Option ℕ := fun _ => none
  pollRuns : Surface → ℕ := fun _ => 0
  tasks : Parties ℕ Task := ∅
  nextTask : ℕ := 0
  /-- What every surface was told. -/
  told : Surface → List FollowEvent := fun _ => []

/-- What a request of `tick` comes back with. -/
inductive PollAnswer
  /-- 401. -/
  | signedOut
  | document (job : JobDocument)
  /-- The request or the reading of its body failed. -/
  | failed (message : String)

namespace Page

variable (page : Page)

def tell (surface : Surface) (event : FollowEvent) : Page :=
  { page with told := Function.update page.told surface (page.told surface ++ [event]) }

def start (task : Task) : Page :=
  { page with
    tasks := page.tasks.insert page.nextTask task
    nextTask := page.nextTask + 1 }

/-- `clearTimeout`. -/
def clearTimeout (id : ℕ) : Page := { page with tasks := page.tasks.erase id }

/-- Whatever is under way for the surface is of an earlier run from now on. -/
def nextRun (surface : Surface) : Page :=
  { page with pollRuns := Function.update page.pollRuns surface (page.pollRuns surface + 1) }

/-- The timer the page holds for the surface is cleared. -/
def release (surface : Surface) : Page :=
  match page.pollTimers surface with
  | some id =>
      { page.clearTimeout id with pollTimers := Function.update page.pollTimers surface none }
  | none => page

/-- `stopPolling`, of one surface. -/
def stopPolling (surface : Surface) : Page :=
  ((page.nextRun surface).release surface).tell surface .stopped

/-- `stopPolling`, of all of them, as `showSignedOut` calls it. -/
def stopAll : Page := (page.stopPolling .upload).stopPolling .edit

/-- `tick`, up to its request. -/
def tick (poll : Poll) : Page :=
  { page with pollTimers := Function.update page.pollTimers poll.surface none }.start
    (.request poll)

/-- `setTimeout(() => tick(attempt + 1), POLL_INTERVAL_MS)`. -/
def schedule (poll : Poll) : Page :=
  { page with
    pollTimers := Function.update page.pollTimers poll.surface (some page.nextTask) }.start
    (.timer { poll with attempt := poll.attempt + 1 })

/-- `followJob`. -/
def followJob (surface : Surface) (jobId : ℕ) : Page :=
  let next := page.nextRun surface
  (next.tell surface (.followed jobId)).tick ⟨surface, next.pollRuns surface, jobId, 0⟩

/-- `tick`, from the answer on. -/
def answered (poll : Poll) : PollAnswer → Page
  -- Also of a follower that was replaced.
  | .signedOut => page.stopAll
  | .failed message =>
      if page.pollRuns poll.surface ≠ poll.run then page
      else page.tell poll.surface (.onError message)
  | .document job =>
      if page.pollRuns poll.surface ≠ poll.run then page
      else
        let told := page.tell poll.surface (.onJob poll.jobId poll.attempt job)
        if job.status = some "done" then
          if job.hlsStatus = some "pending" then told.schedule poll
          else told.tell poll.surface (.onDone job)
        else if job.status = some "failed" then told.tell poll.surface (.onFailed job)
        else told.schedule poll

end Page

inductive PageAction
  | followJob (surface : Surface) (jobId : ℕ)
  | stopPolling (surface : Surface)
  /-- Anything that signs the reader out. -/
  | showSignedOut
  /-- A timer fires. -/
  | fire (id : ℕ)
  | answer (id : ℕ) (answer : PollAnswer)

def Page.step (page : Page) : PageAction → Option Page
  | .followJob surface jobId => some (page.followJob surface jobId)
  | .stopPolling surface => some (page.stopPolling surface)
  | .showSignedOut => some page.stopAll
  | .fire id =>
      match page.tasks.lookup id with
      | some (.timer poll) => some ((page.clearTimeout id).tick poll)
      | _ => none
  | .answer id answer =>
      match page.tasks.lookup id with
      | some (.request poll) => some ((page.clearTimeout id).answered poll answer)
      | _ => none

/-- A page, whoever it follows and whenever its questions are answered. -/
def pageSystem : StepSystem Page PageAction where
  init := (· = {})
  step := Page.step

/-! ## What every run keeps -/

/-- What is under way for a surface, where it is promised as much. -/
def Following.Now (page : Page) (surface : Surface) : Following → Prop
  | nothing => ∀ id task, page.tasks.lookup id = some task → task.poll.surface = surface →
      task.poll.run ≠ page.pollRuns surface
  | asking jobId attempt => ∃ id task, page.tasks.lookup id = some task ∧
      task.poll = ⟨surface, page.pollRuns surface, jobId, attempt⟩
  | ending _ => False

namespace Page

/-- The timers and requests of a page. -/
structure Sound (page : Page) : Prop where
  held : ∀ surface id, page.pollTimers surface = some id → id < page.nextTask ∧
    ∀ task, page.tasks.lookup id = some task → task.poll.surface = surface
  fresh : ∀ id task, page.tasks.lookup id = some task → id < page.nextTask
  begun : ∀ id task, page.tasks.lookup id = some task →
    task.poll.run ≤ page.pollRuns task.poll.surface
  single : ∀ i j task other, page.tasks.lookup i = some task → page.tasks.lookup j = some other →
    task.poll.surface = other.poll.surface → task.poll.run = other.poll.run → i = j

/-- What a surface was told is a beginning of what it is promised. -/
def Leads (page : Page) (surface : Surface) (f : Following) : Prop :=
  followSystem.run .nothing (page.told surface) = some f

/-- A surface was told what it is promised, and what comes next is under way. -/
def Keeps (page : Page) (surface : Surface) : Prop :=
  ∃ f, page.Leads surface f ∧ f.Now page surface

variable {page : Page} {surface other : Surface} {id : ℕ} {poll : Poll} {f : Following}

/-! ### Words -/

theorem told_tell_self (event : FollowEvent) :
    (page.tell surface event).told surface = page.told surface ++ [event] :=
  Function.update_self ..

theorem told_tell (hne : other ≠ surface) (event : FollowEvent) :
    (page.tell surface event).told other = page.told other :=
  Function.update_of_ne hne ..

theorem Leads.tell {event : FollowEvent} {next : Following} (hleads : page.Leads surface f)
    (hstep : f.step event = some next) : (page.tell surface event).Leads surface next := by
  unfold Leads
  rw [told_tell_self, followSystem.run_append hleads]
  exact followSystem.run_of_step hstep []

theorem Leads.tell_other (hleads : page.Leads other f) (hne : other ≠ surface)
    (event : FollowEvent) : (page.tell surface event).Leads other f := by
  unfold Leads
  rw [told_tell hne]
  exact hleads

theorem Sound.tell (hsound : page.Sound) (surface : Surface) (event : FollowEvent) :
    (page.tell surface event).Sound :=
  ⟨hsound.held, hsound.fresh, hsound.begun, hsound.single⟩

theorem Keeps.tell (hkeeps : page.Keeps other) (hne : other ≠ surface) (event : FollowEvent) :
    (page.tell surface event).Keeps other := by
  obtain ⟨f, hleads, hnow⟩ := hkeeps
  refine ⟨f, hleads.tell_other hne event, ?_⟩
  cases f <;> exact hnow

/-! ### Timers and requests -/

theorem Sound.clearTimeout (hsound : page.Sound) (id : ℕ) : (page.clearTimeout id).Sound := by
  have hsub : ∀ j task, (page.clearTimeout id).tasks.lookup j = some task →
      page.tasks.lookup j = some task := fun j task hlookup =>
    (Parties.lookup_erase_eq_some.mp hlookup).2
  exact ⟨fun surface j hheld => ⟨(hsound.held surface j hheld).1, fun task hlookup =>
      (hsound.held surface j hheld).2 task (hsub _ _ hlookup)⟩,
    fun j task hlookup => hsound.fresh j task (hsub _ _ hlookup),
    fun j task hlookup => hsound.begun j task (hsub _ _ hlookup),
    fun i j task other hi hj => hsound.single i j task other (hsub _ _ hi) (hsub _ _ hj)⟩

/-- A task goes that is not the one a surface waits for. -/
theorem Keeps.clearTimeout (hkeeps : page.Keeps surface)
    (hid : ∀ task, page.tasks.lookup id = some task → task.poll.surface = surface →
      task.poll.run ≠ page.pollRuns surface) : (page.clearTimeout id).Keeps surface := by
  obtain ⟨f, hleads, hnow⟩ := hkeeps
  refine ⟨f, hleads, ?_⟩
  cases f with
  | nothing =>
      intro j task hlookup
      exact hnow j task (Parties.lookup_erase_eq_some.mp hlookup).2
  | asking jobId attempt =>
      obtain ⟨j, task, hlookup, hpoll⟩ := hnow
      refine ⟨j, task, Parties.lookup_erase_eq_some.mpr ⟨?_, hlookup⟩, hpoll⟩
      rintro rfl
      exact hid task hlookup (by rw [hpoll]) (by rw [hpoll])
  | ending => exact hnow

/-- Nothing of the run that is followed is under way. -/
def Quiet (page : Page) (surface : Surface) : Prop :=
  ∀ id task, page.tasks.lookup id = some task → task.poll.surface = surface →
    task.poll.run ≠ page.pollRuns surface

theorem Quiet.keeps (hquiet : page.Quiet surface) (hleads : page.Leads surface .nothing) :
    page.Keeps surface := ⟨.nothing, hleads, hquiet⟩

/-- The task of a run goes, and there is no other. -/
theorem Sound.quiet_clearTimeout (hsound : page.Sound) {task : Task}
    (hlookup : page.tasks.lookup id = some task) {surface : Surface}
    (hsurface : task.poll.surface = surface) (hrun : task.poll.run = page.pollRuns surface) :
    (page.clearTimeout id).Quiet surface := by
  intro j other hother hsurface' hrun'
  obtain ⟨hne, hother⟩ := Parties.lookup_erase_eq_some.mp hother
  exact hne (hsound.single j id other task hother hlookup (hsurface'.trans hsurface.symm)
    (hrun'.trans hrun.symm))

/-- The task of the run that is followed asks what comes next. -/
theorem Keeps.asking (hkeeps : page.Keeps surface) (hsound : page.Sound) {task : Task}
    (hlookup : page.tasks.lookup id = some task) (hsurface : task.poll.surface = surface)
    (hrun : task.poll.run = page.pollRuns surface) :
    page.Leads surface (.asking task.poll.jobId task.poll.attempt) := by
  obtain ⟨f, hleads, hnow⟩ := hkeeps
  cases f with
  | nothing => exact absurd hrun (hnow id task hlookup hsurface)
  | asking jobId attempt =>
      obtain ⟨j, waiting, hwaiting, hpoll⟩ := hnow
      obtain rfl := hsound.single j id waiting task hwaiting hlookup (by rw [hpoll, hsurface])
        (by rw [hpoll, hrun])
      obtain rfl := Option.some.inj (hwaiting.symm.trans hlookup)
      rw [hpoll]
      exact hleads
  | ending => exact hnow.elim

theorem lookup_start {task other : Task} :
    (page.start task).tasks.lookup id = some other ↔
      (id = page.nextTask ∧ other = task) ∨
        (id ≠ page.nextTask ∧ page.tasks.lookup id = some other) := by
  unfold Page.start
  by_cases hid : id = page.nextTask
  · subst hid
    simp [eq_comm]
  · simp [hid, AList.lookup_insert_ne hid]

/-- A task begins, for a run that has no other. -/
theorem Sound.start (hsound : page.Sound) (task : Task) {held : Option ℕ}
    (hheld : held = none ∨ held = some page.nextTask)
    (hbegun : task.poll.run ≤ page.pollRuns task.poll.surface)
    (hsingle : ∀ id other, page.tasks.lookup id = some other →
      other.poll.surface = task.poll.surface → other.poll.run ≠ task.poll.run) :
    ({ page with pollTimers := Function.update page.pollTimers task.poll.surface held }.start
      task).Sound where
  held := by
    intro surface id hsome
    change Function.update page.pollTimers task.poll.surface held surface = some id at hsome
    by_cases hsurface : surface = task.poll.surface
    · subst hsurface
      rw [Function.update_self] at hsome
      rcases hheld with rfl | rfl
      · exact absurd hsome (by simp)
      · obtain rfl := Option.some.inj hsome
        refine ⟨Nat.lt_succ_self _, fun other hlookup => ?_⟩
        rcases lookup_start.mp hlookup with ⟨-, rfl⟩ | ⟨hne, -⟩
        · rfl
        · exact absurd rfl hne
    · rw [Function.update_of_ne hsurface] at hsome
      obtain ⟨hlt, htasks⟩ := hsound.held surface id hsome
      refine ⟨Nat.lt_succ_of_lt hlt, fun other hlookup => ?_⟩
      rcases lookup_start.mp hlookup with ⟨rfl, -⟩ | ⟨-, hold⟩
      · exact absurd hlt (Nat.lt_irrefl _)
      · exact htasks other hold
  fresh := by
    intro id other hlookup
    rcases lookup_start.mp hlookup with ⟨rfl, -⟩ | ⟨-, hold⟩
    · exact Nat.lt_succ_self _
    · exact Nat.lt_succ_of_lt (hsound.fresh id other hold)
  begun := by
    intro id other hlookup
    rcases lookup_start.mp hlookup with ⟨-, rfl⟩ | ⟨-, hold⟩
    · exact hbegun
    · exact hsound.begun id other hold
  single := by
    intro i j a b hi hj hsurface hrun
    rcases lookup_start.mp hi with ⟨rfl, rfl⟩ | ⟨hinew, hi⟩ <;>
      rcases lookup_start.mp hj with ⟨rfl, rfl⟩ | ⟨hjnew, hj⟩
    · rfl
    · exact absurd hrun.symm (hsingle j b hj hsurface.symm)
    · exact absurd hrun (hsingle i a hi hsurface)
    · exact hsound.single i j a b hi hj hsurface hrun

/-- A task begins that is not of the run that is followed. -/
theorem Keeps.start (hkeeps : page.Keeps surface) (hsound : page.Sound) (task : Task)
    (hother : task.poll.surface = surface → task.poll.run ≠ page.pollRuns surface)
    (pollTimers : Surface → Option ℕ) :
    ({ page with pollTimers }.start task).Keeps surface := by
  obtain ⟨f, hleads, hnow⟩ := hkeeps
  refine ⟨f, hleads, ?_⟩
  cases f with
  | nothing =>
      intro id waiting hlookup
      rcases lookup_start.mp hlookup with ⟨-, rfl⟩ | ⟨-, hold⟩
      · exact hother
      · exact hnow id waiting hold
  | asking jobId attempt =>
      obtain ⟨id, waiting, hlookup, hpoll⟩ := hnow
      have hne : id ≠ page.nextTask := Nat.ne_of_lt (hsound.fresh id waiting hlookup)
      exact ⟨id, waiting, lookup_start.mpr (Or.inr ⟨hne, hlookup⟩), hpoll⟩
  | ending => exact hnow

/-- What comes next is asked. -/
theorem Leads.start (task : Task)
    (hleads : page.Leads task.poll.surface (.asking task.poll.jobId task.poll.attempt))
    (hrun : task.poll.run = page.pollRuns task.poll.surface) (pollTimers : Surface → Option ℕ) :
    ({ page with pollTimers }.start task).Keeps task.poll.surface := by
  refine ⟨_, hleads, page.nextTask, task, lookup_start.mpr (Or.inl ⟨rfl, rfl⟩), ?_⟩
  change task.poll = ⟨task.poll.surface, page.pollRuns task.poll.surface, _, _⟩
  rw [← hrun]

theorem Sound.tick (hsound : page.Sound) (hbegun : poll.run ≤ page.pollRuns poll.surface)
    (hsingle : ∀ id other, page.tasks.lookup id = some other →
      other.poll.surface = poll.surface → other.poll.run ≠ poll.run) : (page.tick poll).Sound :=
  hsound.start (.request poll) (Or.inl rfl) hbegun hsingle

theorem Keeps.tick (hkeeps : page.Keeps surface) (hsound : page.Sound)
    (hother : poll.surface = surface → poll.run ≠ page.pollRuns surface) :
    (page.tick poll).Keeps surface :=
  hkeeps.start hsound (.request poll) hother _

theorem Leads.tick (hleads : page.Leads poll.surface (.asking poll.jobId poll.attempt))
    (hrun : poll.run = page.pollRuns poll.surface) : (page.tick poll).Keeps poll.surface :=
  Leads.start (.request poll) hleads hrun _

/-! ### The functions -/

/-- The invariant. -/
structure Kept (page : Page) : Prop where
  sound : page.Sound
  keeps : ∀ surface, page.Keeps surface

theorem pollRuns_nextRun_self :
    (page.nextRun surface).pollRuns surface = page.pollRuns surface + 1 :=
  Function.update_self ..

theorem pollRuns_nextRun (hne : other ≠ surface) :
    (page.nextRun surface).pollRuns other = page.pollRuns other :=
  Function.update_of_ne hne ..

theorem Sound.nextRun (hsound : page.Sound) (surface : Surface) : (page.nextRun surface).Sound := by
  refine ⟨hsound.held, hsound.fresh, fun id task hlookup => ?_, hsound.single⟩
  have hbegun := hsound.begun id task hlookup
  by_cases hsurface : task.poll.surface = surface
  · subst hsurface
    rw [pollRuns_nextRun_self]
    exact Nat.le_succ_of_le hbegun
  · rw [pollRuns_nextRun hsurface]
    exact hbegun

theorem Sound.quiet_nextRun (hsound : page.Sound) (surface : Surface) :
    (page.nextRun surface).Quiet surface := by
  intro id task hlookup hsurface
  subst hsurface
  have hbegun := hsound.begun id task hlookup
  rw [pollRuns_nextRun_self]
  exact Nat.ne_of_lt (Nat.lt_succ_of_le hbegun)

theorem Keeps.nextRun (hkeeps : page.Keeps other) (hne : other ≠ surface) :
    (page.nextRun surface).Keeps other := by
  obtain ⟨f, hleads, hnow⟩ := hkeeps
  refine ⟨f, hleads, ?_⟩
  cases f with
  | nothing =>
      intro id task hlookup hsurface
      rw [pollRuns_nextRun hne]
      exact hnow id task hlookup hsurface
  | asking jobId attempt =>
      unfold Following.Now
      rw [pollRuns_nextRun hne]
      exact hnow
  | ending => exact hnow

theorem Sound.release (hsound : page.Sound) (surface : Surface) : (page.release surface).Sound := by
  unfold Page.release
  split
  · rename_i id hid
    have hcleared := hsound.clearTimeout id
    refine ⟨fun other j hheld => ?_, hcleared.fresh, hcleared.begun, hcleared.single⟩
    by_cases hother : other = surface
    · subst hother
      exact absurd hheld (by simp)
    · exact hcleared.held other j ((Function.update_of_ne hother ..).symm.trans hheld)
  · exact hsound

theorem Quiet.release (hquiet : page.Quiet surface) : (page.release surface).Quiet surface := by
  unfold Page.release
  split
  · intro j task hlookup
    exact hquiet j task (Parties.lookup_erase_eq_some.mp hlookup).2
  · exact hquiet

theorem told_release (surface : Surface) : (page.release surface).told = page.told := by
  unfold Page.release
  split <;> rfl

/-- The timer a surface holds is its own. -/
theorem Keeps.release (hkeeps : page.Keeps other) (hsound : page.Sound) (hne : other ≠ surface) :
    (page.release surface).Keeps other := by
  unfold Page.release
  split
  · rename_i id hid
    obtain ⟨f, hleads, hnow⟩ : (page.clearTimeout id).Keeps other := by
      refine hkeeps.clearTimeout fun task hlookup hsurface => ?_
      exact absurd (hsurface.symm.trans ((hsound.held surface id hid).2 task hlookup)) hne
    exact ⟨f, hleads, by cases f <;> exact hnow⟩
  · exact hkeeps

theorem Sound.stopPolling (hsound : page.Sound) (surface : Surface) :
    (page.stopPolling surface).Sound :=
  ((hsound.nextRun surface).release surface).tell surface _

theorem Sound.stopPolling_keeps (hsound : page.Sound) (hleads : page.Leads surface f) :
    (page.stopPolling surface).Keeps surface := by
  have hquiet := (hsound.quiet_nextRun surface).release
  have hreleased : ((page.nextRun surface).release surface).Leads surface f := by
    unfold Leads
    rw [told_release]
    exact hleads
  exact ⟨.nothing, hreleased.tell (by cases f <;> rfl), hquiet⟩

theorem Keeps.stopPolling (hkeeps : page.Keeps other) (hsound : page.Sound)
    (hne : other ≠ surface) : (page.stopPolling surface).Keeps other :=
  ((hkeeps.nextRun hne).release (hsound.nextRun surface) hne).tell hne _

theorem Kept.stopPolling (hkept : page.Kept) (surface : Surface) :
    (page.stopPolling surface).Kept := by
  refine ⟨hkept.sound.stopPolling surface, fun other => ?_⟩
  by_cases hother : other = surface
  · subst hother
    obtain ⟨f, hleads, -⟩ := hkept.keeps other
    exact hkept.sound.stopPolling_keeps hleads
  · exact (hkept.keeps other).stopPolling hkept.sound hother

/-- Everything is stopped, wherever the surfaces are. -/
theorem Sound.stopAll (hsound : page.Sound) (hleads : ∀ surface, ∃ f, page.Leads surface f) :
    page.stopAll.Kept := by
  obtain ⟨upload, hupload⟩ := hleads .upload
  obtain ⟨edit, hedit⟩ := hleads .edit
  have hfirst := hsound.stopPolling_keeps hupload
  have hsoundFirst := hsound.stopPolling .upload
  have heditFirst : (page.stopPolling .upload).Leads .edit edit := by
    refine Leads.tell_other ?_ (by simp) _
    unfold Leads
    rw [told_release]
    exact hedit
  refine ⟨hsoundFirst.stopPolling .edit, fun surface => ?_⟩
  cases surface with
  | upload => exact hfirst.stopPolling hsoundFirst (by simp)
  | edit => exact hsoundFirst.stopPolling_keeps heditFirst

/-- A surface starts to follow a job, whatever it did before. -/
theorem Kept.followJob (hkept : page.Kept) (surface : Surface) (jobId : ℕ) :
    (page.followJob surface jobId).Kept := by
  have hsound := (hkept.sound.nextRun surface).tell surface (.followed jobId)
  refine ⟨hsound.tick le_rfl (hkept.sound.quiet_nextRun surface), fun other => ?_⟩
  by_cases hother : other = surface
  · subst hother
    obtain ⟨f, hleads, -⟩ := hkept.keeps other
    have hfollowed : (page.nextRun other).Leads other f := hleads
    exact Leads.tick (hfollowed.tell (by cases f <;> rfl)) rfl
  · have hothers := ((hkept.keeps other).nextRun hother).tell hother (.followed jobId)
    exact hothers.tick hsound fun hsurface => absurd hsurface.symm hother

/-- A timer fires, of the run that is followed or of an earlier one. -/
theorem Kept.fire (hkept : page.Kept) {id : ℕ} (hlookup : page.tasks.lookup id = some (.timer poll)) :
    ((page.clearTimeout id).tick poll).Kept := by
  have hsound := hkept.sound.clearTimeout id
  have hsingle : ∀ j other, (page.clearTimeout id).tasks.lookup j = some other →
      other.poll.surface = poll.surface → other.poll.run ≠ poll.run := by
    intro j other hother hsurface hrun
    obtain ⟨hne, hother⟩ := Parties.lookup_erase_eq_some.mp hother
    exact hne (hkept.sound.single j id other _ hother hlookup hsurface hrun)
  refine ⟨hsound.tick (hkept.sound.begun id _ hlookup) hsingle, fun surface => ?_⟩
  by_cases hcurrent : poll.surface = surface ∧ poll.run = page.pollRuns surface
  · obtain ⟨rfl, hrun⟩ := hcurrent
    exact Leads.tick ((hkept.keeps _).asking hkept.sound hlookup rfl hrun) hrun
  · refine Keeps.tick ((hkept.keeps surface).clearTimeout fun task htask hsurface hrun => ?_) hsound
      fun hsurface hrun => hcurrent ⟨hsurface, hrun⟩
    obtain rfl := Option.some.inj (hlookup.symm.trans htask)
    exact hcurrent ⟨hsurface, hrun⟩

/-- An answer of a run that was replaced: nobody hears of it. -/
theorem Kept.unheard (hkept : page.Kept) {id : ℕ}
    (hlookup : page.tasks.lookup id = some (.request poll))
    (hrun : page.pollRuns poll.surface ≠ poll.run) : (page.clearTimeout id).Kept := by
  refine ⟨hkept.sound.clearTimeout id, fun surface => ?_⟩
  refine (hkept.keeps surface).clearTimeout fun task htask hsurface => ?_
  obtain rfl := Option.some.inj (hlookup.symm.trans htask)
  subst hsurface
  exact hrun.symm

/-- The question of a surface has been answered, and the answer is being told. -/
structure Hearing (page : Page) (surface : Surface) (f : Following) : Prop where
  sound : page.Sound
  others : ∀ other, other ≠ surface → page.Keeps other
  quiet : page.Quiet surface
  leads : page.Leads surface f

theorem Hearing.tell (hhears : page.Hearing surface f) {event : FollowEvent} {next : Following}
    (hstep : f.step event = some next) : (page.tell surface event).Hearing surface next where
  sound := hhears.sound.tell surface event
  others other hother := (hhears.others other hother).tell hother event
  quiet := hhears.quiet
  leads := hhears.leads.tell hstep

theorem Hearing.kept (hhears : page.Hearing surface .nothing) : page.Kept := by
  refine ⟨hhears.sound, fun other => ?_⟩
  by_cases hother : other = surface
  · subst hother
    exact ⟨.nothing, hhears.leads, hhears.quiet⟩
  · exact hhears.others other hother

theorem Hearing.schedule (hrun : poll.run = page.pollRuns poll.surface)
    (hhears : page.Hearing poll.surface (.asking poll.jobId (poll.attempt + 1))) :
    (page.schedule poll).Kept := by
  have hsingle : ∀ id other, page.tasks.lookup id = some other →
      other.poll.surface = poll.surface → other.poll.run ≠ poll.run := by
    rw [hrun]
    exact hhears.quiet
  refine ⟨hhears.sound.start (.timer { poll with attempt := poll.attempt + 1 }) (Or.inr rfl)
    (Nat.le_of_eq hrun) hsingle, fun other => ?_⟩
  by_cases hother : other = poll.surface
  · subst hother
    exact Leads.start (.timer { poll with attempt := poll.attempt + 1 }) hhears.leads hrun _
  · exact (hhears.others other hother).start hhears.sound
      (.timer { poll with attempt := poll.attempt + 1 })
      (fun hsurface => absurd hsurface.symm hother) _

/-- The answer of the run that is followed. -/
theorem Kept.hearing (hkept : page.Kept) {id : ℕ}
    (hlookup : page.tasks.lookup id = some (.request poll))
    (hrun : page.pollRuns poll.surface = poll.run) :
    (page.clearTimeout id).Hearing poll.surface (.asking poll.jobId poll.attempt) where
  sound := hkept.sound.clearTimeout id
  others other hother := (hkept.keeps other).clearTimeout fun task htask hsurface => by
    obtain rfl := Option.some.inj (hlookup.symm.trans htask)
    exact absurd hsurface.symm hother
  quiet := hkept.sound.quiet_clearTimeout hlookup rfl hrun.symm
  leads := (hkept.keeps _).asking hkept.sound hlookup rfl hrun.symm

theorem Kept.answered (hkept : page.Kept) {id : ℕ}
    (hlookup : page.tasks.lookup id = some (.request poll)) (answer : PollAnswer) :
    ((page.clearTimeout id).answered poll answer).Kept := by
  cases answer with
  | signedOut =>
      refine (hkept.sound.clearTimeout id).stopAll fun surface => ?_
      obtain ⟨f, hleads, -⟩ := hkept.keeps surface
      exact ⟨f, hleads⟩
  | failed message =>
      rw [Page.answered]
      split
      · rename_i hrun
        exact hkept.unheard hlookup hrun
      · rename_i hrun
        exact ((hkept.hearing hlookup (not_not.mp hrun)).tell rfl).kept
  | document job =>
      rw [Page.answered]
      split
      · rename_i hrun
        exact hkept.unheard hlookup hrun
      · rename_i hrun
        have hcurrent : page.pollRuns poll.surface = poll.run := not_not.mp hrun
        have hhears := hkept.hearing hlookup hcurrent
        have htold := hhears.tell (Following.step_onJob poll.jobId poll.attempt job)
        by_cases hdone : job.status = some "done"
        · by_cases hpending : job.hlsStatus = some "pending"
          · rw [if_pos hdone, if_pos hpending]
            refine Hearing.schedule hcurrent.symm ?_
            simpa [JobDocument.ended, hdone, hpending] using htold
          · rw [if_pos hdone, if_neg hpending]
            have hended : job.ended = some .done := by simp [JobDocument.ended, hdone, hpending]
            rw [hended] at htold
            exact (htold.tell (Following.step_onDone hended)).kept
        · rw [if_neg hdone]
          by_cases hfailed : job.status = some "failed"
          · rw [if_pos hfailed]
            have hended : job.ended = some .failed := by simp [JobDocument.ended, hfailed]
            rw [hended] at htold
            exact (htold.tell (Following.step_onFailed hended)).kept
          · rw [if_neg hfailed]
            refine Hearing.schedule hcurrent.symm ?_
            simpa [JobDocument.ended, hdone, hfailed] using htold

theorem Kept.step (hkept : page.Kept) {action : PageAction} {next : Page}
    (hstep : page.step action = some next) : next.Kept := by
  cases action with
  | followJob surface jobId =>
      obtain rfl := Option.some.inj hstep
      exact hkept.followJob surface jobId
  | stopPolling surface =>
      obtain rfl := Option.some.inj hstep
      exact hkept.stopPolling surface
  | showSignedOut =>
      obtain rfl := Option.some.inj hstep
      exact (hkept.stopPolling .upload).stopPolling .edit
  | fire id =>
      rw [Page.step] at hstep
      split at hstep
      · rename_i poll hlookup
        obtain rfl := Option.some.inj hstep
        exact hkept.fire hlookup
      · exact absurd hstep (by simp)
  | answer id answer =>
      rw [Page.step] at hstep
      split at hstep
      · rename_i poll hlookup
        obtain rfl := Option.some.inj hstep
        exact hkept.answered hlookup answer
      · exact absurd hstep (by simp)

theorem kept_init : Kept {} where
  sound := ⟨fun _ _ h => absurd h (by simp), fun _ _ h => absurd h (by simp),
    fun _ _ h => absurd h (by simp), fun _ _ _ _ h => absurd h (by simp)⟩
  keeps _ := ⟨.nothing, rfl, fun _ _ h => absurd h (by simp)⟩

end Page

/-- Whoever follows which job whenever, and in whatever order the timers fire and the answers come:
every surface hears the answers about the job it follows now, numbered from zero, and then of one
end; nothing of a job it followed before or after it was stopped.  A job that has not ended has
exactly one question under way, and no follower ever has two. -/
theorem jobs_followed {page : Page} (hs : pageSystem.Reachable page) (surface : Surface) :
    (∃ f, followSystem.run .nothing (page.told surface) = some f ∧ f.Now page surface) ∧
      ∀ i j task other, page.tasks.lookup i = some task → page.tasks.lookup j = some other →
        task.poll.surface = other.poll.surface → task.poll.run = other.poll.run → i = j := by
  have hkept : page.Kept := by
    refine hs.invariant _ (fun page hinit => ?_) fun _ _ _ _ hkept _ hstep => hkept.step hstep
    obtain rfl := hinit
    exact Page.kept_init
  exact ⟨hkept.keeps surface, hkept.sound.single⟩

/-- The reader uploads again before the first answer about the first job, which comes late. -/
theorem jobs_followed_replaced : ∃ page : Page, page.told .upload =
    [.followed 7, .followed 8, .onJob 8 0 { status := some "queued" }] ∧
      ∃ id task, page.tasks.lookup id = some task ∧ task.poll = ⟨.upload, 2, 8, 1⟩ := by
  have hinit : pageSystem.Reachable {} := .init rfl
  obtain ⟨page, hpage, hstate⟩ := hinit.exists_of_run
    [.followJob .upload 7, .followJob .upload 8, .answer 1 (.document { status := some "queued" }),
      .answer 0 (.document { status := some "done" })]
    (fun page => page.told .upload ==
      [.followed 7, .followed 8, .onJob 8 0 { status := some "queued" }] &&
        page.pollRuns .upload == 2) (by decide +kernel)
  rw [Bool.and_eq_true, beq_iff_eq, beq_iff_eq] at hstate
  obtain ⟨htold, hruns⟩ := hstate
  obtain ⟨⟨f, hleads, hnow⟩, -⟩ := jobs_followed hpage .upload
  rw [htold] at hleads
  obtain rfl : Following.asking 8 1 = f := Option.some.inj hleads
  rw [Following.Now, hruns] at hnow
  exact ⟨page, htold, hnow⟩

end Frontend
end MediaPlayer
