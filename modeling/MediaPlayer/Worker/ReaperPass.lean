import MediaPlayer.Worker.StaleRuns

/-!
# One undisturbed reaper pass

The database half of `run_once` of `app/worker/reaper.py` with `_heartbeat_alive`,
`_ladder_queue_status` and `_settle_stale_ladders`, as one function of the rows and of
RQ's entries: fail abandoned jobs, re-enqueue lost queued ones, settle stale ladders.
The sweep of orphaned objects that follows touches neither rows nor entries.

* Each of the three loops has a lemma on what it leaves alone and what it achieves.
* `nothing_stuck_iff` — exactly when, after the pass, everything that waits has an
  entry that will still be delivered.  The ladder loop judges the state of an entry;
  the loop over queued jobs asks only whether there is one.
* `failed_entry_stuck` — a queued row whose entry failed is left to wait for ever.
-/

namespace MediaPlayer
namespace Worker

open Library Models Repositories

/-- The states of an RQ entry. -/
inductive RqStatus
  | queued
  | finished
  | failed
  | started
  | deferred
  | scheduled
  | stopped
  | canceled
  deriving DecidableEq

/-- An RQ entry: its state, and whether a worker keeps it alive in its queue's started
registry. -/
structure RqEntry where
  status : RqStatus
  heartbeat : Bool := false
  deriving DecidableEq

/-- RQ's entries by job: of the main queue, and of the ladder queue. -/
structure Rq where
  jobs : UUID → Option RqEntry
  ladders : UUID → Option RqEntry

/-- `_LADDER_STILL_COMING`. -/
def ladderStillComing : RqStatus → Bool
  | .queued | .started | .deferred | .scheduled => true
  | .finished | .failed | .stopped | .canceled => false

/-- `_heartbeat_alive`. -/
def heartbeatAlive (entry : Option RqEntry) : Bool := entry.any (·.heartbeat)

/-- The rows and the entries a pass works on. -/
structure ReaperState where
  table : JobTable
  rq : Rq

namespace ReaperState

/-- `enqueue_job`. -/
def enqueueJob (s : ReaperState) (jobId : UUID) : ReaperState :=
  { s with rq := { s.rq with jobs := Function.update s.rq.jobs jobId (some ⟨.queued, false⟩) } }

/-- `enqueue_ladder`. -/
def enqueueLadder (s : ReaperState) (jobId : UUID) : ReaperState :=
  { s with rq := { s.rq with
      ladders := Function.update s.rq.ladders jobId (some ⟨.queued, false⟩) } }

/-- Whether the first loop passes a row over: its lease has not expired and a worker
keeps its entry alive. -/
def keptAlive (leaseBefore : Timestamp) (rq : Rq) (jobId : UUID) (job : Job) : Bool :=
  !decide (job.updatedAt < leaseBefore) && heartbeatAlive (rq.jobs jobId)

/-- The first loop: fail what nobody is working on any more. -/
def failAbandoned (leaseBefore now : Timestamp) :
    List (UUID × Job) → ReaperState → Except JobError ReaperState
  | [], s => .ok s
  | (jobId, job) :: rest, s =>
      if keptAlive leaseBefore s.rq jobId job then failAbandoned leaseBefore now rest s
      else match markStaleFailed now (s.table.lookup jobId) with
        | .ok row =>
            failAbandoned leaseBefore now rest { s with table := s.table.put jobId row }
        | .error e => .error e

/-- The second loop: re-enqueue a queued job whose entry is gone. -/
def requeueLost : List (UUID × Job) → ReaperState → ReaperState
  | [], s => s
  | (jobId, _) :: rest, s =>
      requeueLost rest (if (s.rq.jobs jobId).isSome then s else s.enqueueJob jobId)

/-- `mark_ladder_unavailable` on one row. -/
def giveUpLadder (now : Timestamp) (jobId : UUID) (s : ReaperState) :
    Except JobError ReaperState :=
  match markLadderUnavailable now (s.table.lookup jobId) with
  | .ok row => .ok { s with table := s.table.put jobId row }
  | .error e => .error e

/-- One turn of `_settle_stale_ladders`. -/
def settleOne (now : Timestamp) (jobId : UUID) (s : ReaperState) : Except JobError ReaperState :=
  match s.rq.ladders jobId with
  -- Never reached Redis, or Redis lost it.
  | none => .ok (s.enqueueLadder jobId)
  | some entry =>
      if entry.status = .started ∧ heartbeatAlive (some entry) = false then
        giveUpLadder now jobId s
      else if ladderStillComing entry.status then .ok s
      else giveUpLadder now jobId s

/-- `_settle_stale_ladders`. -/
def settleStaleLadders (now : Timestamp) :
    List (UUID × Job) → ReaperState → Except JobError ReaperState
  | [], s => .ok s
  | (jobId, _) :: rest, s =>
      match settleOne now jobId s with
      | .ok after => settleStaleLadders now rest after
      | .error e => .error e

/-- `run_once` up to the orphan sweep: `now` is the clock the cutoffs are taken from,
`dbNow` the database's. -/
def runOnce (settings : ReaperSettings) (now dbNow : Timestamp) (s : ReaperState) :
    Except JobError ReaperState :=
  let leaseBefore := now - settings.lease
  let abandonedBefore := now - settings.abandoned
  let graceBefore := now - settings.orphanGrace
  match failAbandoned leaseBefore dbNow (s.table.listStale .processing abandonedBefore) s with
  | .error e => .error e
  | .ok reaped =>
      let requeued := requeueLost (reaped.table.listStale .queued graceBefore) reaped
      settleStaleLadders dbNow (requeued.table.listStaleLadders abandonedBefore) requeued

/-! ## What has to hold after a pass -/

/-- An entry that a worker will still run, or is running. -/
def WillDeliver (entry : Option RqEntry) : Prop :=
  ∃ e, entry = some e ∧ ladderStillComing e.status = true ∧
    (e.status = .started → e.heartbeat = true)

/-- A done job still waiting for its ladder. -/
def LadderPending (job : Job) : Prop := job.status = .done ∧ job.hlsStatus = .pending

/-- Everything that has waited past its cutoff has an entry that will be delivered. -/
structure NothingStuck (settings : ReaperSettings) (now : Timestamp) (s : ReaperState) :
    Prop where
  queued : ∀ jobId job, s.table.lookup jobId = some job → job.status = .queued →
    job.updatedAt < now - settings.orphanGrace → WillDeliver (s.rq.jobs jobId)
  ladder : ∀ jobId job, s.table.lookup jobId = some job → LadderPending job →
    job.updatedAt < now - settings.abandoned → WillDeliver (s.rq.ladders jobId)

/-- What a pass needs to find.  Every entry of a job queued past the grace time will
still be delivered; and no abandoned row holds a ladder key while it is processing,
which the table's checks would allow and no write of the repository leaves. -/
structure EntriesComing (settings : ReaperSettings) (now : Timestamp) (s : ReaperState) :
    Prop where
  queued : ∀ jobId job, s.table.lookup jobId = some job → job.status = .queued →
    job.updatedAt < now - settings.orphanGrace → ∀ entry, s.rq.jobs jobId = some entry →
      WillDeliver (some entry)
  processing : ∀ jobId job, s.table.lookup jobId = some job → job.status = .processing →
    job.updatedAt < now - settings.abandoned →
    keptAlive (now - settings.lease) s.rq jobId job = false → job.hlsKey = none

/-! ## The first loop -/

variable {now : Timestamp} {s after : ReaperState}

/-- The first loop leaves the entries, and every row that is not processing. -/
structure OnlyFailed (s after : ReaperState) : Prop where
  rq : after.rq = s.rq
  kept : ∀ jobId job, s.table.lookup jobId = some job → job.status ≠ .processing →
    after.table.lookup jobId = some job
  old : ∀ jobId job, after.table.lookup jobId = some job → job.status ≠ .failed →
    s.table.lookup jobId = some job

theorem OnlyFailed.refl (s : ReaperState) : OnlyFailed s s :=
  ⟨rfl, fun _ _ h _ => h, fun _ _ h _ => h⟩

theorem OnlyFailed.trans {mid : ReaperState} (h : OnlyFailed s mid) (h' : OnlyFailed mid after) :
    OnlyFailed s after where
  rq := h'.rq.trans h.rq
  kept jobId job hjob hne := h'.kept jobId job (h.kept jobId job hjob hne) hne
  old jobId job hjob hne := h.old jobId job (h'.old jobId job hjob hne) hne

/-- One write of the first loop. -/
theorem OnlyFailed.put {jobId : UUID} {row : Option Job}
    (hwrite : markStaleFailed now (s.table.lookup jobId) = .ok row) :
    OnlyFailed s { s with table := s.table.put jobId row } := by
  cases row with
  | none => exact OnlyFailed.refl s
  | some failed =>
      obtain ⟨before, hbefore, hprocessing, hfailed, -⟩ := markStaleFailed_some hwrite
      refine ⟨rfl, ?_, ?_⟩
      · intro other job hjob hne
        have hother : other ≠ jobId := by
          rintro rfl
          obtain rfl := Option.some.inj (hbefore.symm.trans hjob)
          exact hne hprocessing
        rwa [JobTable.lookup_put_of_ne _ _ hother]
      · intro other job hjob hne
        rcases JobTable.lookup_put_some hjob with ⟨rfl, rfl⟩ | ⟨-, hold⟩
        · exact absurd hfailed hne
        · exact hold

theorem failAbandoned_onlyFailed {leaseBefore : Timestamp} {rows : List (UUID × Job)}
    (hok : failAbandoned leaseBefore now rows s = .ok after) : OnlyFailed s after := by
  induction rows generalizing s with
  | nil =>
      obtain rfl := Except.ok.inj hok
      exact OnlyFailed.refl s
  | cons row rest ih =>
      obtain ⟨jobId, job⟩ := row
      simp only [failAbandoned] at hok
      by_cases halive : keptAlive leaseBefore s.rq jobId job = true
      · rw [if_pos halive] at hok
        exact ih hok
      · rw [if_neg halive] at hok
        cases hwrite : markStaleFailed now (s.table.lookup jobId) with
        | error e => simp [hwrite] at hok
        | ok written =>
            simp only [hwrite] at hok
            exact (OnlyFailed.put hwrite).trans (ih hok)

/-- The first loop ends without an exception exactly when no row it has to fail holds a
ladder key. -/
theorem failAbandoned_ok_iff {leaseBefore : Timestamp} {rows : List (UUID × Job)}
    (hnodup : (rows.map (·.1)).Nodup)
    (hrows : ∀ row ∈ rows, s.table.lookup row.1 = some row.2 ∧ row.2.status = .processing) :
    (∃ after, failAbandoned leaseBefore now rows s = .ok after) ↔
      ∀ row ∈ rows, keptAlive leaseBefore s.rq row.1 row.2 = false → row.2.hlsKey = none := by
  induction rows generalizing s with
  | nil => simp [failAbandoned]
  | cons row rest ih =>
      obtain ⟨jobId, job⟩ := row
      obtain ⟨hfresh, hrest⟩ := List.nodup_cons.mp hnodup
      obtain ⟨hlookup, hstatus⟩ := hrows (jobId, job) (by simp)
      have hrows' : ∀ row ∈ rest, s.table.lookup row.1 = some row.2 ∧ row.2.status = .processing :=
        fun row hrow => hrows row (List.mem_cons_of_mem _ hrow)
      simp only [failAbandoned, List.forall_mem_cons]
      by_cases halive : keptAlive leaseBefore s.rq jobId job = true
      · simp only [halive, if_true, Bool.true_eq_false, false_implies, true_and]
        exact ih hrest hrows'
      · simp only [Bool.eq_false_of_not_eq_true halive, true_implies]
        have hwritable := markStaleFailed_ok_iff now job
        rw [← hlookup] at hwritable
        cases hwrite : markStaleFailed now (s.table.lookup jobId) with
        | error e =>
            have hkey : job.hlsKey ≠ none := fun hkey => by
              obtain ⟨written, hwritten⟩ := hwritable.mpr fun _ => hkey
              rw [hwrite] at hwritten
              exact absurd hwritten (by simp)
            simp [hkey]
        | ok written =>
            have hkey : job.hlsKey = none := hwritable.mp ⟨written, hwrite⟩ hstatus
            simp only [hkey, true_and]
            refine ih (s := { s with table := s.table.put jobId written }) hrest ?_
            intro row hrow
            have hne : row.1 ≠ jobId := by
              rintro rfl
              exact hfresh (List.mem_map.mpr ⟨row, hrow, rfl⟩)
            rw [JobTable.lookup_put_of_ne _ _ hne]
            exact hrows' row hrow

/-! ## The second loop -/

variable {jobId : UUID} {rows : List (UUID × Job)}

theorem requeueLost_table (rows : List (UUID × Job)) (s : ReaperState) :
    (requeueLost rows s).table = s.table := by
  induction rows generalizing s with
  | nil => rfl
  | cons row rest ih =>
      simp only [requeueLost]
      rw [ih]
      split <;> rfl

/-- An entry that is there stays as it is, whatever its state. -/
theorem requeueLost_jobs_of_some {entry : RqEntry} (hentry : s.rq.jobs jobId = some entry) :
    (requeueLost rows s).rq.jobs jobId = some entry := by
  induction rows generalizing s with
  | nil => exact hentry
  | cons row rest ih =>
      simp only [requeueLost]
      apply ih
      by_cases hthere : (s.rq.jobs row.1).isSome
      · rwa [if_pos hthere]
      · have hne : jobId ≠ row.1 := by
          rintro rfl
          exact hthere (by simp [hentry])
        rw [if_neg hthere]
        simpa [enqueueJob, Function.update_of_ne hne] using hentry

/-- A listed job without an entry gets one. -/
theorem requeueLost_jobs_of_none (hentry : s.rq.jobs jobId = none)
    (hlisted : jobId ∈ rows.map (·.1)) :
    (requeueLost rows s).rq.jobs jobId = some ⟨.queued, false⟩ := by
  induction rows generalizing s with
  | nil => simp at hlisted
  | cons row rest ih =>
      simp only [requeueLost]
      by_cases hsame : jobId = row.1
      · subst hsame
        apply requeueLost_jobs_of_some
        simp [hentry, enqueueJob]
      · have hrest : jobId ∈ rest.map (·.1) := by simpa [hsame] using hlisted
        apply ih _ hrest
        by_cases hthere : (s.rq.jobs row.1).isSome
        · rwa [if_pos hthere]
        · rw [if_neg hthere]
          simpa [enqueueJob, Function.update_of_ne hsame] using hentry

/-! ## The third loop -/

/-- The row does not wait for a ladder nobody will build. -/
def LadderSettled (s : ReaperState) (jobId : UUID) : Prop :=
  ∀ job, s.table.lookup jobId = some job → LadderPending job → WillDeliver (s.rq.ladders jobId)

/-- The third loop leaves the main queue's entries and every row that is not done, and
makes no ladder pending. -/
structure LaddersOnly (s after : ReaperState) : Prop where
  jobs : after.rq.jobs = s.rq.jobs
  kept : ∀ jobId job, s.table.lookup jobId = some job → job.status ≠ .done →
    after.table.lookup jobId = some job
  old : ∀ jobId job, after.table.lookup jobId = some job →
    job.status ≠ .done ∨ job.hlsStatus = .pending → s.table.lookup jobId = some job
  settled : ∀ jobId, LadderSettled s jobId → LadderSettled after jobId

theorem LaddersOnly.refl (s : ReaperState) : LaddersOnly s s :=
  ⟨rfl, fun _ _ h _ => h, fun _ _ h _ => h, fun _ h => h⟩

theorem LaddersOnly.trans {mid : ReaperState} (h : LaddersOnly s mid)
    (h' : LaddersOnly mid after) : LaddersOnly s after where
  jobs := h'.jobs.trans h.jobs
  kept jobId job hjob hne := h'.kept jobId job (h.kept jobId job hjob hne) hne
  old jobId job hjob hopen := h.old jobId job (h'.old jobId job hjob hopen) hopen
  settled jobId hsettled := h'.settled jobId (h.settled jobId hsettled)

/-- Giving up on a ladder always succeeds, and then the row waits for none. -/
theorem giveUpLadder_spec (now : Timestamp) (jobId : UUID) (s : ReaperState) :
    ∃ after, giveUpLadder now jobId s = .ok after ∧ LaddersOnly s after ∧
      LadderSettled after jobId := by
  obtain ⟨row, hwrite⟩ := markLadderUnavailable_ok now (s.table.lookup jobId)
  refine ⟨{ s with table := s.table.put jobId row }, by simp only [giveUpLadder, hwrite], ?_⟩
  cases row with
  | none =>
      refine ⟨LaddersOnly.refl s, ?_⟩
      intro job hjob hpending
      rw [show s.table.lookup jobId = some job from hjob] at hwrite
      exact absurd hpending (settleLadder_none hwrite)
  | some written =>
      obtain ⟨before, hbefore, hdone, hpending, hcolumns⟩ := settleLadder_some hwrite
      have hwritten : written.status = .done ∧ written.hlsStatus = .unavailable := by
        rw [hcolumns]
        exact ⟨hdone, rfl⟩
      have hnotPending : ¬ LadderPending written := fun hpending => by
        simp [LadderPending, hwritten.2] at hpending
      have hsettled : ∀ other, LadderSettled s other ∨ other = jobId →
          LadderSettled { s with table := s.table.put jobId (some written) } other := by
        intro other hother job hjob hwaits
        rcases JobTable.lookup_put_some hjob with ⟨-, rfl⟩ | ⟨hne, hold⟩
        · exact absurd hwaits hnotPending
        · exact hother.resolve_right hne job hold hwaits
      refine ⟨⟨rfl, ?_, ?_, fun other hother => hsettled other (Or.inl hother)⟩,
        hsettled jobId (Or.inr rfl)⟩
      · intro other job hjob hne
        have hother : other ≠ jobId := by
          rintro rfl
          obtain rfl := Option.some.inj (hbefore.symm.trans hjob)
          exact hne hdone
        rwa [JobTable.lookup_put_of_ne _ _ hother]
      · intro other job hjob hopen
        rcases JobTable.lookup_put_some hjob with ⟨-, rfl⟩ | ⟨-, hold⟩
        · simp [hwritten] at hopen
        · exact hold

/-- One turn on a row always succeeds, and settles its ladder. -/
theorem settleOne_spec (now : Timestamp) (jobId : UUID) (s : ReaperState) :
    ∃ after, settleOne now jobId s = .ok after ∧ LaddersOnly s after ∧
      LadderSettled after jobId := by
  cases hentry : s.rq.ladders jobId with
  | none =>
      have hdelivers : WillDeliver ((s.enqueueLadder jobId).rq.ladders jobId) :=
        ⟨⟨.queued, false⟩, by simp [enqueueLadder], rfl, by simp⟩
      refine ⟨s.enqueueLadder jobId, by simp only [settleOne, hentry], ?_, fun _ _ _ => hdelivers⟩
      refine ⟨rfl, fun _ _ h _ => h, fun _ _ h _ => h, ?_⟩
      intro other hother job hjob hwaits
      by_cases hsame : other = jobId
      · subst hsame
        exact hdelivers
      · simpa [enqueueLadder, Function.update_of_ne hsame] using hother job hjob hwaits
  | some entry =>
      simp only [settleOne, hentry]
      by_cases hdied : entry.status = .started ∧ heartbeatAlive (some entry) = false
      · rw [if_pos hdied]
        exact giveUpLadder_spec now jobId s
      · rw [if_neg hdied]
        by_cases hcoming : ladderStillComing entry.status = true
        · rw [if_pos hcoming]
          refine ⟨s, rfl, LaddersOnly.refl s, fun job _ _ => ⟨entry, hentry, hcoming, ?_⟩⟩
          intro hstarted
          by_contra halive
          exact hdied ⟨hstarted, by simpa [heartbeatAlive] using halive⟩
        · rw [if_neg hcoming]
          exact giveUpLadder_spec now jobId s

/-- The third loop always succeeds, and settles every ladder it was given. -/
theorem settleStaleLadders_spec (now : Timestamp) (rows : List (UUID × Job)) (s : ReaperState) :
    ∃ after, settleStaleLadders now rows s = .ok after ∧ LaddersOnly s after ∧
      ∀ jobId ∈ rows.map (·.1), LadderSettled after jobId := by
  induction rows generalizing s with
  | nil => exact ⟨s, rfl, LaddersOnly.refl s, by simp⟩
  | cons row rest ih =>
      obtain ⟨mid, hmid, honly, hsettled⟩ := settleOne_spec now row.1 s
      obtain ⟨after, hafter, honly', hrest⟩ := ih mid
      refine ⟨after, by simp only [settleStaleLadders, hmid, hafter], honly.trans honly', ?_⟩
      intro jobId hjobId
      rcases List.mem_cons.mp hjobId with rfl | hmem
      · exact honly'.settled _ hsettled
      · exact hrest jobId hmem

/-! ## The pass -/

/-- A pass that gets through its first loop ends, with every ladder settled, every entry
of the main queue still there, and every lost one made again. -/
theorem runOnce_of_reaped {settings : ReaperSettings} {now dbNow : Timestamp}
    {reaped : ReaperState}
    (hreaped : failAbandoned (now - settings.lease) dbNow
      (s.table.listStale .processing (now - settings.abandoned)) s = .ok reaped) :
    ∃ after, runOnce settings now dbNow s = .ok after ∧
      (∀ jobId job, job.status = .queued →
        (after.table.lookup jobId = some job ↔ s.table.lookup jobId = some job)) ∧
      (∀ jobId entry, s.rq.jobs jobId = some entry → after.rq.jobs jobId = some entry) ∧
      (∀ jobId job, s.rq.jobs jobId = none → s.table.lookup jobId = some job →
        job.status = .queued → job.updatedAt < now - settings.orphanGrace →
        after.rq.jobs jobId = some ⟨.queued, false⟩) ∧
      ∀ jobId job, after.table.lookup jobId = some job → LadderPending job →
        job.updatedAt < now - settings.abandoned → WillDeliver (after.rq.ladders jobId) := by
  have honlyFailed := failAbandoned_onlyFailed hreaped
  obtain ⟨requeued, hrequeued⟩ : ∃ requeued, requeued =
    requeueLost (reaped.table.listStale .queued (now - settings.orphanGrace)) reaped := ⟨_, rfl⟩
  have htable : requeued.table = reaped.table := by rw [hrequeued, requeueLost_table]
  obtain ⟨after, hafter, honlyLadders, hsettled⟩ := settleStaleLadders_spec dbNow
    (requeued.table.listStaleLadders (now - settings.abandoned)) requeued
  refine ⟨after, ?_, ?_, ?_, ?_, ?_⟩
  · simp only [runOnce, hreaped, ← hrequeued, hafter]
  · intro jobId job hqueued
    constructor
    · intro hjob
      have hrow := honlyLadders.old jobId job hjob (Or.inl (by simp [hqueued]))
      rw [htable] at hrow
      exact honlyFailed.old jobId job hrow (by simp [hqueued])
    · intro hjob
      have hrow := honlyFailed.kept jobId job hjob (by simp [hqueued])
      rw [← htable] at hrow
      exact honlyLadders.kept jobId job hrow (by simp [hqueued])
  · intro jobId entry hentry
    rw [honlyLadders.jobs, hrequeued]
    exact requeueLost_jobs_of_some (by rw [honlyFailed.rq, hentry])
  · intro jobId job hnone hjob hqueued hold
    rw [honlyLadders.jobs, hrequeued]
    apply requeueLost_jobs_of_none (by rw [honlyFailed.rq, hnone])
    have hrow := honlyFailed.kept jobId job hjob (by simp [hqueued])
    exact List.mem_map.mpr ⟨(jobId, job), JobTable.mem_listStale.mpr ⟨hrow, hqueued, hold⟩, rfl⟩
  · intro jobId job hjob hpending hold
    have hrow := honlyLadders.old jobId job hjob (Or.inr hpending.2)
    apply hsettled jobId _ job hjob hpending
    exact List.mem_map.mpr ⟨(jobId, job),
      JobTable.mem_listStaleLadders.mpr ⟨hrow, hpending.1, hpending.2, hold⟩, rfl⟩

/-- **After one undisturbed pass nothing is stuck**, exactly when the entries of the jobs
queued past the grace time were still coming before it. -/
theorem nothing_stuck_iff (settings : ReaperSettings) (now dbNow : Timestamp) (s : ReaperState) :
    (∃ after, runOnce settings now dbNow s = .ok after ∧ NothingStuck settings now after) ↔
      EntriesComing settings now s := by
  have hfirst : (∃ reaped, failAbandoned (now - settings.lease) dbNow
        (s.table.listStale .processing (now - settings.abandoned)) s = .ok reaped) ↔
      ∀ row ∈ s.table.listStale .processing (now - settings.abandoned),
        keptAlive (now - settings.lease) s.rq row.1 row.2 = false → row.2.hlsKey = none := by
    refine failAbandoned_ok_iff (JobTable.nodup_select _ _ _) ?_
    rintro ⟨jobId, job⟩ hrow
    obtain ⟨hjob, hprocessing, -⟩ := JobTable.mem_listStale.mp hrow
    exact ⟨hjob, hprocessing⟩
  constructor
  · rintro ⟨after, hafter, hnothing⟩
    have hreaped : ∃ reaped, failAbandoned (now - settings.lease) dbNow
        (s.table.listStale .processing (now - settings.abandoned)) s = .ok reaped := by
      cases hfailed : failAbandoned (now - settings.lease) dbNow
          (s.table.listStale .processing (now - settings.abandoned)) s with
      | error e => simp [runOnce, hfailed] at hafter
      | ok reaped => exact ⟨reaped, rfl⟩
    obtain ⟨reaped, hok⟩ := hreaped
    obtain ⟨after', hafter', hrows, hentries, -⟩ := runOnce_of_reaped hok
    obtain rfl := Except.ok.inj (hafter.symm.trans hafter')
    constructor
    · intro jobId job hjob hqueued hold entry hentry
      rw [← hentries jobId entry hentry]
      exact hnothing.queued jobId job ((hrows jobId job hqueued).mpr hjob) hqueued hold
    · intro jobId job hjob hprocessing hold
      exact hfirst.mp ⟨reaped, hok⟩ (jobId, job)
        (JobTable.mem_listStale.mpr ⟨hjob, hprocessing, hold⟩)
  · intro hcoming
    have hreaped := hfirst.mpr fun row hrow => by
      obtain ⟨hjob, hprocessing, hold⟩ := JobTable.mem_listStale.mp hrow
      exact hcoming.processing row.1 row.2 hjob hprocessing hold
    obtain ⟨reaped, hok⟩ := hreaped
    obtain ⟨after, hafter, hrows, hentries, hmade, hladders⟩ := runOnce_of_reaped hok
    refine ⟨after, hafter, ⟨?_, hladders⟩⟩
    intro jobId job hjob hqueued hold
    have hrow := (hrows jobId job hqueued).mp hjob
    cases hentry : s.rq.jobs jobId with
    | none =>
        rw [hmade jobId job hentry hrow hqueued hold]
        exact ⟨⟨.queued, false⟩, rfl, rfl, by simp⟩
    | some entry =>
        rw [hentries jobId entry hentry]
        exact hcoming.queued jobId job hrow hqueued hold entry hentry

/-- A job has been queued for a day, and the claim of its entry failed in the database:
the entry is there, so the job is left to wait. -/
theorem failed_entry_stuck :
    ¬ ∀ s : ReaperState, ∃ after, runOnce {} 86400000000 86400000000 s = .ok after ∧
      NothingStuck {} 86400000000 after := by
  intro hnothing
  obtain ⟨s, hstate⟩ : ∃ s : ReaperState, s =
      ⟨(∅ : JobTable).insert 7 StaleState.queuedJob,
        ⟨fun _ => some ⟨.failed, false⟩, fun _ => none⟩⟩ := ⟨_, rfl⟩
  have hpass : (match runOnce {} 86400000000 86400000000 s with
      | .ok after => (after.table.lookup 7).any (fun job : Job =>
          decide (job.status = .queued) && decide (job.updatedAt = 0)) &&
            after.rq.jobs 7 == some ⟨.failed, false⟩
      | .error _ => false) = true := by
    rw [hstate]
    decide
  obtain ⟨after, hafter, hstuck⟩ := hnothing s
  simp only [hafter, Bool.and_eq_true, beq_iff_eq, Option.any_eq_true, decide_eq_true_eq] at hpass
  obtain ⟨⟨job, hjob, hqueued, hupdated⟩, hentry⟩ := hpass
  obtain ⟨entry, hsome, hcoming, -⟩ := hstuck.queued 7 job hjob hqueued (by
    rw [hupdated]
    decide)
  rw [hentry] at hsome
  obtain rfl := Option.some.inj hsome
  exact absurd hcoming (by decide)

end ReaperState

end Worker
end MediaPlayer
