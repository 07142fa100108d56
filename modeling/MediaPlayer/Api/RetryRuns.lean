import MediaPlayer.Api.JobsRetry

/-!
# The retry protocol is safe

* `Stepped` — what each action can do, read off the step function once.
* `Coherent` — a request that holds the lock finds the row as its `UPDATE` did, and what
  was put on the queue for it is still there or with a worker that waits.
* `retry_runs_safe` — each failed state is retried once, and no committed retry is left
  without a delivery.
-/

namespace MediaPlayer
namespace Api

open Library Models Repositories

namespace RetryRuns

variable {jobId : UUID} {s t : RetryRuns}

/-- What the request that holds the lock relies on: the row is still the failed one its
`UPDATE` found. -/
structure Holds (s : RetryRuns) (request : ℕ) (retry : OpenRetry) : Prop where
  lock : s.lock = some request
  row : s.row = some retry.found
  failed : retry.found.status = .failed
  failure : retry.failure = s.failures
  claimable : Claimable retry.pending

theorem Holds.of_eq {request : ℕ} {retry : OpenRetry} (hheld : s.Holds request retry)
    (hlock : t.lock = s.lock) (hrow : t.row = s.row) (hfailures : t.failures = s.failures) :
    t.Holds request retry :=
  ⟨hlock.trans hheld.lock, hrow.trans hheld.row, hheld.failed,
    hheld.failure.trans hfailures.symm, hheld.claimable⟩

/-- A delivery is on the queue, or with a worker that waits for the row. -/
def Delivery (s : RetryRuns) : Prop :=
  0 < s.queue ∨ ∃ worker, s.workers.lookup worker = some .waiting

structure Coherent (s : RetryRuns) : Prop where
  holder : ∀ request phase, s.requests.lookup request = some phase →
    ∀ retry, phase.open? = some retry → s.Holds request retry
  delivered : ∀ request phase, s.requests.lookup request = some phase →
    ∀ retry, phase = .enqueued retry → s.Delivery
  claimed : s.unclaimed = true → s.Delivery ∧ ∃ job, s.row = some job ∧ Claimable job
  nodup : (s.turned.map (·.1)).Nodup
  past : ∀ failure ∈ s.turned.map (·.1), failure ≤ s.failures ∧
    (failure = s.failures → ∀ job, s.row = some job → job.status ≠ .failed)

/-! ## One step -/

/-- What each action can do, with what it has found. -/
inductive Stepped (jobId : UUID) (s : RetryRuns) : RetryAction → RetryRuns → Prop
  | prepared {request : ℕ} {ownerId : UUID} {now : Timestamp} {found pending : Job}
      (hnew : s.requests.lookup request = none) (hrow : s.row = some found)
      (hprepare : prepareRetry jobId ownerId now s.row = .ok pending) (hlock : s.lock = none) :
      Stepped jobId s (.prepare request ownerId now)
        { s.setRequest request (.prepared ⟨pending, found, s.failures⟩) with lock := some request }
  | refused {request : ℕ} {ownerId : UUID} {now : Timestamp} {e : JobError}
      (hnew : s.requests.lookup request = none)
      (hprepare : prepareRetry jobId ownerId now s.row = .error e) :
      Stepped jobId s (.prepare request ownerId now)
        (s.setRequest request (.answered (retryRefused e)))
  | enqueued {request : ℕ} {retry : OpenRetry}
      (hrequest : s.requests.lookup request = some (.prepared retry)) :
      Stepped jobId s (.enqueue request .returned) (s.push.setRequest request (.enqueued retry))
  | enqueueRaised {request : ℕ} {retry : OpenRetry} {out : CallOutcome}
      (hrequest : s.requests.lookup request = some (.prepared retry)) (hout : out ≠ .returned) :
      Stepped jobId s (.enqueue request out)
        ((out.effect push s).release request retryUnconfirmed)
  | committed {request : ℕ} {retry : OpenRetry} {out : CallOutcome}
      (hrequest : s.requests.lookup request = some (.enqueued retry))
      (hout : out ≠ .raisedBefore) :
      Stepped jobId s (.commit request out)
        ((s.commitRetry request retry).release request
          (out.next (.accepted jobId) retryUnconfirmed))
  | notCommitted {request : ℕ} {retry : OpenRetry}
      (hrequest : s.requests.lookup request = some (.enqueued retry)) :
      Stepped jobId s (.commit request .raisedBefore) (s.release request retryUnconfirmed)
  | died {request : ℕ} {phase : RetryPhase} {retry : OpenRetry}
      (hrequest : s.requests.lookup request = some phase) (hopen : phase.open? = some retry) :
      Stepped jobId s (.dies request) (s.release request .raised)
  | delivered {worker queue : ℕ} (hnew : s.workers.lookup worker = none)
      (hqueue : s.queue = queue + 1) :
      Stepped jobId s (.deliver worker) ({ s with queue := queue }.setWorker worker .waiting)
  | claimed {worker : ℕ} {now : Timestamp} {job : Job}
      (hworker : s.workers.lookup worker = some .waiting) (hlock : s.lock = none)
      (hok : markProcessing jobId now s.row = .ok job) :
      Stepped jobId s (.claim worker now)
        ({ s.written job with unclaimed := false }.setWorker worker .running)
  | notClaimed {worker : ℕ} {now : Timestamp} {e : JobError}
      (hworker : s.workers.lookup worker = some .waiting) (hlock : s.lock = none)
      (herror : markProcessing jobId now s.row = .error e) :
      Stepped jobId s (.claim worker now) (s.setWorker worker .finished)
  | recorded {worker : ℕ} {outcome : OutcomeWrite} {now : Timestamp} {job : Job}
      (hworker : s.workers.lookup worker = some .running) (hlock : s.lock = none)
      (hok : outcome.apply jobId now s.row = .ok job) :
      Stepped jobId s (.outcome worker outcome now) ((s.written job).setWorker worker .finished)
  | notRecorded {worker : ℕ} {outcome : OutcomeWrite} {now : Timestamp} {e : JobError}
      (hworker : s.workers.lookup worker = some .running)
      (herror : outcome.apply jobId now s.row = .error e) :
      Stepped jobId s (.outcome worker outcome now) (s.setWorker worker .finished)
  | reaped {now : Timestamp} {job : Job} (hlock : s.lock = none)
      (hok : Repositories.markStaleFailed now s.row = .ok (some job)) :
      Stepped jobId s (.markStaleFailed now) (s.written job)
  | notReaped {now : Timestamp}
      (hnot : ∀ job, Repositories.markStaleFailed now s.row ≠ .ok (some job)) :
      Stepped jobId s (.markStaleFailed now) s
  | redelivered : Stepped jobId s .redeliver s.push

theorem stepped_of_step {a : RetryAction} (hstep : step jobId s a = some t) :
    Stepped jobId s a t := by
  cases a with
  | prepare request ownerId now =>
      simp only [step] at hstep
      split at hstep
      · rename_i found pending hnew hrow hprepare hlock
        obtain rfl := Option.some.inj hstep
        exact .prepared hnew hrow hprepare hlock
      · simp at hstep
      · simp at hstep
      · rename_i hnew hprepare _
        obtain rfl := Option.some.inj hstep
        exact .refused hnew hprepare
      · simp at hstep
  | enqueue request out =>
      simp only [step] at hstep
      split at hstep
      · rename_i retry hrequest
        obtain rfl := Option.some.inj hstep
        cases out with
        | returned => exact .enqueued hrequest
        | raisedBefore => exact .enqueueRaised hrequest (by decide)
        | raisedAfter => exact .enqueueRaised hrequest (by decide)
      · simp at hstep
  | commit request out =>
      simp only [step] at hstep
      split at hstep
      · rename_i retry hrequest
        obtain rfl := Option.some.inj hstep
        cases out with
        | returned => exact .committed hrequest (by decide)
        | raisedBefore => exact .notCommitted hrequest
        | raisedAfter => exact .committed hrequest (by decide)
      · simp at hstep
  | dies request =>
      simp only [step] at hstep
      split at hstep
      · rename_i retry hrequest
        obtain rfl := Option.some.inj hstep
        exact .died hrequest rfl
      · rename_i retry hrequest
        obtain rfl := Option.some.inj hstep
        exact .died hrequest rfl
      · simp at hstep
  | deliver worker =>
      simp only [step] at hstep
      split at hstep
      · rename_i queue hnew hqueue
        obtain rfl := Option.some.inj hstep
        exact .delivered hnew hqueue
      · simp at hstep
  | claim worker now =>
      simp only [step] at hstep
      split at hstep
      · rename_i hworker hlock
        split at hstep
        · rename_i job hok
          obtain rfl := Option.some.inj hstep
          exact .claimed hworker hlock hok
        · rename_i e herror
          obtain rfl := Option.some.inj hstep
          exact .notClaimed hworker hlock herror
      · simp at hstep
  | outcome worker outcome now =>
      simp only [step] at hstep
      split at hstep
      · rename_i job hworker hok hlock
        obtain rfl := Option.some.inj hstep
        exact .recorded hworker hlock hok
      · simp at hstep
      · rename_i e hworker herror
        obtain rfl := Option.some.inj hstep
        exact .notRecorded hworker herror
      · simp at hstep
  | markStaleFailed now =>
      simp only [step] at hstep
      split at hstep
      · rename_i job hok hlock
        obtain rfl := Option.some.inj hstep
        exact .reaped hlock hok
      · simp at hstep
      · rename_i hnone
        obtain rfl := Option.some.inj hstep
        exact .notReaped (by simp [hnone])
      · rename_i e herror
        obtain rfl := Option.some.inj hstep
        exact .notReaped (by simp [herror])
  | redeliver =>
      obtain rfl := Option.some.inj hstep
      exact .redelivered

/-! ## Requests -/

/-- Nobody else has a transaction open. -/
theorem Coherent.no_other (hs : Coherent s) {request other : ℕ} (hlock : s.lock = some request)
    (hne : other ≠ request) {phase : RetryPhase} (hother : s.requests.lookup other = some phase)
    {retry : OpenRetry} (hopen : phase.open? = some retry) : False := by
  have hheld := (hs.holder other phase hother retry hopen).lock
  rw [hlock] at hheld
  exact hne (Option.some.inj hheld).symm

theorem Coherent.no_holder (hs : Coherent s) (hlock : s.lock = none) {request : ℕ}
    {phase : RetryPhase} (hrequest : s.requests.lookup request = some phase) {retry : OpenRetry}
    (hopen : phase.open? = some retry) : False := by
  have hheld := (hs.holder request phase hrequest retry hopen).lock
  rw [hlock] at hheld
  exact absurd hheld (by simp)

/-- A request that is answered without having changed anything. -/
theorem Coherent.answered (hs : Coherent s) (request : ℕ) (answer : RetryAnswer) :
    Coherent (s.setRequest request (.answered answer)) where
  holder := by
    refine Parties.forall_insert (fun other phase _ hother retry hopen => ?_) ?_
    · exact (hs.holder other phase hother retry hopen).of_eq rfl rfl rfl
    · exact fun retry hopen => by simp [RetryPhase.open?] at hopen
  delivered := by
    refine Parties.forall_insert (fun other phase _ hother retry henqueued => ?_) ?_
    · exact hs.delivered other phase hother retry henqueued
    · exact fun retry henqueued => by simp at henqueued
  claimed := hs.claimed
  nodup := hs.nodup
  past := hs.past

/-- The `UPDATE` of a retry takes the free lock. -/
theorem Coherent.prepare (hs : Coherent s) (hlock : s.lock = none) {request : ℕ} {ownerId : UUID}
    {now : Timestamp} {found pending : Job} (hrow : s.row = some found)
    (hprepare : prepareRetry jobId ownerId now s.row = .ok pending) :
    Coherent { s.setRequest request (.prepared ⟨pending, found, s.failures⟩) with
      lock := some request } where
  holder := by
    refine Parties.forall_insert (fun other phase _ hother retry hopen => ?_) ?_
    · exact (hs.no_holder hlock hother hopen).elim
    · intro retry hopen
      obtain rfl := Option.some.inj hopen
      obtain ⟨before, hbefore, hfailed, -⟩ := prepareRetry_ok hprepare
      obtain rfl := Option.some.inj (hrow.symm.trans hbefore)
      exact ⟨rfl, hrow, hfailed, rfl, prepareRetry_claimable hprepare⟩
  delivered := by
    refine Parties.forall_insert (fun other phase _ hother retry henqueued => ?_) ?_
    · exact hs.delivered other phase hother retry henqueued
    · exact fun retry henqueued => by simp at henqueued
  claimed := hs.claimed
  nodup := hs.nodup
  past := hs.past

/-- A transaction that is rolled back. -/
theorem Coherent.release (hs : Coherent s) {request : ℕ} (hlock : s.lock = some request)
    (answer : RetryAnswer) : Coherent (s.release request answer) where
  holder := by
    refine Parties.forall_insert (fun other phase hne hother retry hopen => ?_) ?_
    · exact (hs.no_other hlock hne hother hopen).elim
    · exact fun retry hopen => by simp [RetryPhase.open?] at hopen
  delivered := (hs.answered request answer).delivered
  claimed := hs.claimed
  nodup := hs.nodup
  past := hs.past

theorem Coherent.push (hs : Coherent s) : Coherent s.push where
  holder request phase hrequest retry hopen :=
    (hs.holder request phase hrequest retry hopen).of_eq rfl rfl rfl
  delivered _ _ _ _ _ := Or.inl (Nat.succ_pos _)
  claimed hunclaimed := ⟨Or.inl (Nat.succ_pos _), (hs.claimed hunclaimed).2⟩
  nodup := hs.nodup
  past := hs.past

/-- The commit of a retry that was put on the queue. -/
theorem Coherent.commitRetry (hs : Coherent s) {request : ℕ} {retry : OpenRetry}
    (hrequest : s.requests.lookup request = some (.enqueued retry)) (answer : RetryAnswer) :
    Coherent ((s.commitRetry request retry).release request answer) := by
  have hheld := hs.holder request _ hrequest retry rfl
  have hdelivery := hs.delivered request _ hrequest retry rfl
  have hqueued : retry.pending.status ≠ .failed := by
    rw [hheld.claimable.1]
    decide
  -- The failed state its `UPDATE` found is the current one, which nobody has turned yet.
  have hfresh : retry.failure ∉ s.turned.map (·.1) := fun hmem =>
    (hs.past retry.failure hmem).2 hheld.failure retry.found hheld.row hheld.failed
  refine ⟨?_, ?_, fun _ => ⟨hdelivery, retry.pending, rfl, hheld.claimable⟩, ?_, ?_⟩
  · refine Parties.forall_insert (fun other phase hne hother retry hopen => ?_) ?_
    · exact (hs.no_other hheld.lock hne hother hopen).elim
    · exact fun retry hopen => by simp [RetryPhase.open?] at hopen
  · refine Parties.forall_insert (fun other phase hne hother retry henqueued => ?_) ?_
    · exact hs.delivered other phase hother retry henqueued
    · exact fun retry henqueued => by simp at henqueued
  · change ((s.turned ++ [(retry.failure, request)]).map (·.1)).Nodup
    rw [List.map_append]
    exact List.Nodup.append hs.nodup (List.nodup_singleton _) (by simpa using hfresh)
  · intro failure hfailure
    change failure ∈ (s.turned ++ [(retry.failure, request)]).map (·.1) at hfailure
    refine ⟨?_, fun _ job hjob => ?_⟩
    · rw [List.map_append, List.mem_append] at hfailure
      rcases hfailure with hold | hnew
      · exact (hs.past failure hold).1
      · obtain rfl : failure = retry.failure := by simpa using hnew
        exact hheld.failure.le
    · obtain rfl := Option.some.inj hjob
      exact hqueued

/-- The enqueue of a retry has returned. -/
theorem Coherent.enqueued (hs : Coherent s) {request : ℕ} {retry : OpenRetry}
    (hrequest : s.requests.lookup request = some (.prepared retry)) (hdelivery : s.Delivery) :
    Coherent (s.setRequest request (.enqueued retry)) where
  holder := by
    refine Parties.forall_insert (fun other phase _ hother retry hopen => ?_) ?_
    · exact (hs.holder other phase hother retry hopen).of_eq rfl rfl rfl
    · intro held hopen
      obtain rfl : retry = held := Option.some.inj hopen
      exact (hs.holder request _ hrequest retry rfl).of_eq rfl rfl rfl
  delivered _ _ _ _ _ := hdelivery
  claimed := hs.claimed
  nodup := hs.nodup
  past := hs.past

/-! ## Workers -/

/-- A worker moves, and no delivery that is owed is lost. -/
theorem Coherent.setWorker (hs : Coherent s) {worker : ℕ} {phase : DeliveryPhase}
    (hlocked : s.lock ≠ none → s.Delivery → (s.setWorker worker phase).Delivery)
    (hclaimed : s.unclaimed = true → s.Delivery → (s.setWorker worker phase).Delivery) :
    Coherent (s.setWorker worker phase) where
  holder request phase hrequest retry hopen :=
    (hs.holder request phase hrequest retry hopen).of_eq rfl rfl rfl
  delivered request phase hrequest retry henqueued := by
    subst henqueued
    refine hlocked ?_ (hs.delivered request _ hrequest retry rfl)
    rw [(hs.holder request _ hrequest retry rfl).lock]
    simp
  claimed hunclaimed :=
    ⟨hclaimed hunclaimed (hs.claimed hunclaimed).1, (hs.claimed hunclaimed).2⟩
  nodup := hs.nodup
  past := hs.past

/-- A worker that was not waiting takes no delivery away. -/
theorem Delivery.setWorker {worker : ℕ} {phase : DeliveryPhase} (hdelivery : s.Delivery)
    (hworker : s.workers.lookup worker ≠ some .waiting) :
    (s.setWorker worker phase).Delivery := by
  refine hdelivery.imp_right ?_
  rintro ⟨other, hother⟩
  have hne : other ≠ worker := by
    rintro rfl
    exact hworker hother
  exact ⟨other, (AList.lookup_insert_ne hne).trans hother⟩

/-- A committed write while nobody holds the lock and no retry is unclaimed. -/
theorem Coherent.written (hs : Coherent s) (hlock : s.lock = none)
    (hclaimed : s.unclaimed ≠ true) (job : Job) : Coherent (s.written job) where
  holder _ _ hrequest _ hopen := (hs.no_holder hlock hrequest hopen).elim
  delivered request phase hrequest retry henqueued := by
    subst henqueued
    exact (hs.no_holder hlock hrequest rfl).elim
  claimed hunclaimed := absurd hunclaimed hclaimed
  nodup := hs.nodup
  past failure hfailure := by
    have hle := (hs.past failure hfailure).1
    by_cases hfailed : job.status = .failed
    · simp only [RetryRuns.written, if_pos hfailed]
      exact ⟨by omega, fun h => by omega⟩
    · simp only [RetryRuns.written, if_neg hfailed]
      refine ⟨hle, fun _ stored hstored => ?_⟩
      obtain rfl := Option.some.inj hstored
      exact hfailed

/-- While a retry is unclaimed the row is not processing. -/
theorem Coherent.not_unclaimed (hs : Coherent s) {job : Job} (hrow : s.row = some job)
    (hprocessing : job.status = .processing) : s.unclaimed ≠ true := by
  intro hunclaimed
  obtain ⟨-, stored, hstored, hclaimable⟩ := hs.claimed hunclaimed
  obtain rfl := Option.some.inj (hrow.symm.trans hstored)
  exact absurd (hprocessing.symm.trans hclaimable.1) (by decide)

theorem outcome_ok {outcome : OutcomeWrite} {now : Timestamp} {row : Option Job} {after : Job}
    (hok : outcome.apply jobId now row = .ok after) :
    ∃ before, row = some before ∧ before.status = .processing := by
  cases outcome with
  | done values =>
      obtain ⟨before, hrow, hbefore, -⟩ := markDone_ok hok
      exact ⟨before, hrow, hbefore⟩
  | failed error =>
      obtain ⟨before, hrow, hbefore, -⟩ := markFailed_ok hok
      exact ⟨before, hrow, hbefore⟩
  | interrupted =>
      obtain ⟨before, hrow, hbefore, -⟩ := markInterrupted_ok hok
      exact ⟨before, hrow, hbefore⟩

/-- A claim takes the delivery an unclaimed retry was owed. -/
theorem Coherent.claimed_by (hs : Coherent s) (hlock : s.lock = none) (worker : ℕ) (job : Job) :
    Coherent ({ s.written job with unclaimed := false }.setWorker worker .running) := by
  have hforgotten : Coherent { s with unclaimed := false } :=
    ⟨fun request phase hrequest retry hopen =>
        (hs.holder request phase hrequest retry hopen).of_eq rfl rfl rfl,
      hs.delivered, by simp, hs.nodup, hs.past⟩
  refine (hforgotten.written hlock (by simp) job).setWorker ?_ ?_
  · exact fun hlocked => absurd hlock hlocked
  · exact fun hunclaimed => by simp [RetryRuns.written] at hunclaimed

/-- A delivery that finds nothing to claim was not owed: the row of an unclaimed retry can
be claimed. -/
theorem Coherent.skipped (hs : Coherent s) (hlock : s.lock = none) {now : Timestamp} {e : JobError}
    (herror : markProcessing jobId now s.row = .error e) (worker : ℕ) :
    Coherent (s.setWorker worker .finished) := by
  refine hs.setWorker (fun hlocked => absurd hlock hlocked) fun hunclaimed => ?_
  obtain ⟨-, job, hrow, hclaimable⟩ := hs.claimed hunclaimed
  obtain ⟨after, hafter⟩ := markProcessing_of_claimable hclaimable jobId now
  rw [hrow, hafter] at herror
  exact absurd herror (by simp)

/-- A delivery goes from the queue to a worker. -/
theorem Coherent.deliver (hs : Coherent s) (worker queue : ℕ) :
    Coherent ({ s with queue := queue }.setWorker worker .waiting) := by
  have hwaiting : ({ s with queue := queue }.setWorker worker .waiting).Delivery :=
    Or.inr ⟨worker, AList.lookup_insert _⟩
  exact
    { holder := fun request phase hrequest retry hopen =>
        (hs.holder request phase hrequest retry hopen).of_eq rfl rfl rfl
      delivered := fun _ _ _ _ _ => hwaiting
      claimed := fun hunclaimed => ⟨hwaiting, (hs.claimed hunclaimed).2⟩
      nodup := hs.nodup
      past := hs.past }

/-- One step keeps the state coherent. -/
theorem Coherent.step {a : RetryAction} (hs : Coherent s)
    (hstep : RetryRuns.step jobId s a = some t) : Coherent t := by
  cases stepped_of_step hstep with
  | prepared hnew hrow hprepare hlock => exact hs.prepare hlock hrow hprepare
  | refused => exact hs.answered _ _
  | enqueued hrequest => exact hs.push.enqueued hrequest (Or.inl (Nat.succ_pos _))
  | @enqueueRaised request retry out hrequest hout =>
      have hlock := (hs.holder _ _ hrequest _ rfl).lock
      cases out with
      | returned => exact absurd rfl hout
      | raisedBefore => exact hs.release hlock _
      | raisedAfter => exact hs.push.release hlock _
  | committed hrequest => exact hs.commitRetry hrequest _
  | notCommitted hrequest => exact hs.release (hs.holder _ _ hrequest _ rfl).lock _
  | died hrequest hopen => exact hs.release (hs.holder _ _ hrequest _ hopen).lock _
  | delivered => exact hs.deliver _ _
  | claimed hworker hlock hok => exact hs.claimed_by hlock _ _
  | notClaimed hworker hlock herror => exact hs.skipped hlock herror _
  | recorded hworker hlock hok =>
      obtain ⟨before, hrow, hprocessing⟩ := outcome_ok hok
      have hwritten := hs.written hlock (hs.not_unclaimed hrow hprocessing)
      refine (hwritten _).setWorker ?_ ?_
      all_goals exact fun _ hdelivery => hdelivery.setWorker (by
        simp [RetryRuns.written, hworker])
  | notRecorded hworker herror =>
      refine hs.setWorker ?_ ?_
      all_goals exact fun _ hdelivery => hdelivery.setWorker (by simp [hworker])
  | reaped hlock hok =>
      obtain ⟨before, hrow, hprocessing, -⟩ := markStaleFailed_some hok
      exact hs.written hlock (hs.not_unclaimed hrow hprocessing) _
  | notReaped => exact hs
  | redelivered => exact hs.push

theorem coherent_of_reachable (hs : (retrySystem jobId).Reachable s) : Coherent s := by
  refine hs.invariant Coherent ?_ fun s a t _ hcoherent _ hstep => hcoherent.step hstep
  rintro s ⟨hlock, hrequests, hworkers, hturned, hunclaimed⟩
  exact ⟨by simp [hrequests], by simp [hrequests], by simp [hunclaimed], by simp [hturned],
    by simp [hturned]⟩

/-! ## A request over a run -/

/-- A step moves at most one request, and only a new one to a prepared retry. -/
theorem step_requests {a : RetryAction} (hstep : step jobId s a = some t) :
    t.requests = s.requests ∨ ∃ request phase, t.requests = s.requests.insert request phase ∧
      ∀ retry, phase = .prepared retry → s.requests.lookup request = none := by
  cases stepped_of_step hstep with
  | prepared hnew hrow hprepare hlock => exact Or.inr ⟨_, _, rfl, fun _ _ => hnew⟩
  | @enqueueRaised request retry out hrequest hout =>
      cases out <;> exact Or.inr ⟨request, _, rfl, by simp⟩
  | refused | enqueued | committed | notCommitted | died =>
      exact Or.inr ⟨_, _, rfl, by simp⟩
  | delivered | claimed | notClaimed | recorded | notRecorded | reaped | notReaped
  | redelivered => exact Or.inl rfl

/-- A request that has prepared its retry later on had prepared it before, or had not come
yet. -/
structure RequestsKeep (s t : RetryRuns) : Prop where
  kept : ∀ request, t.requests.lookup request = none → s.requests.lookup request = none
  prepared : ∀ request retry, t.requests.lookup request = some (.prepared retry) →
    s.requests.lookup request = some (.prepared retry) ∨ s.requests.lookup request = none

theorem RequestsKeep.refl (s : RetryRuns) : RequestsKeep s s :=
  ⟨fun _ h => h, fun _ _ h => Or.inl h⟩

theorem RequestsKeep.trans {u : RetryRuns} (h : RequestsKeep s t) (h' : RequestsKeep t u) :
    RequestsKeep s u where
  kept request hnone := h.kept request (h'.kept request hnone)
  prepared request retry hprepared := by
    rcases h'.prepared request retry hprepared with hsome | hnone
    · exact h.prepared request retry hsome
    · exact Or.inr (h.kept request hnone)

theorem RequestsKeep.of_step {a : RetryAction} (hstep : step jobId s a = some t) :
    RequestsKeep s t := by
  rcases step_requests hstep with hsame | ⟨request, phase, hinsert, hnew⟩
  · exact ⟨fun other => by rw [hsame]; exact id, fun other retry => by rw [hsame]; exact Or.inl⟩
  · constructor
    · intro other hnone
      by_cases hother : other = request
      · rw [hinsert, hother, AList.lookup_insert] at hnone
        exact absurd hnone (by simp)
      · rwa [hinsert, AList.lookup_insert_ne hother] at hnone
    · intro other retry hprepared
      by_cases hother : other = request
      · rw [hinsert, hother, AList.lookup_insert] at hprepared
        rw [hother]
        exact Or.inr (hnew retry (Option.some.inj hprepared))
      · rw [hinsert, AList.lookup_insert_ne hother] at hprepared
        exact Or.inl hprepared

theorem RequestsKeep.of_run (hs : (retrySystem jobId).Reachable s) {as : List RetryAction}
    (hrun : (retrySystem jobId).run s as = some t) : RequestsKeep s t :=
  hs.relation_of_run RequestsKeep.refl (fun _ _ _ => RequestsKeep.trans)
    (fun _ _ _ _ hstep => RequestsKeep.of_step hstep) hrun

/-- An enqueue that raises leaves the committed row, and finds the one its request's
`UPDATE` found. -/
theorem Coherent.enqueue_raised (hs : Coherent s) {request : ℕ} {out : CallOutcome}
    (hstep : RetryRuns.step jobId s (.enqueue request out) = some t)
    (hraised : out ≠ .returned) :
    ∃ retry, s.requests.lookup request = some (.prepared retry) ∧ t.row = some retry.found := by
  cases stepped_of_step hstep with
  | enqueued => exact absurd rfl hraised
  | @enqueueRaised _ retry _ hrequest hout =>
      have hrow := (hs.holder request _ hrequest retry rfl).row
      refine ⟨retry, hrequest, ?_⟩
      cases out <;> exact hrow

/-- A request whose `UPDATE` has run is there, and has noted the row it found if it
matched. -/
theorem prepare_found {request : ℕ} {ownerId : UUID} {now : Timestamp}
    (hstep : step jobId s (.prepare request ownerId now) = some t) :
    ∃ phase, t.requests.lookup request = some phase ∧
      ∀ retry, phase = .prepared retry → s.row = some retry.found := by
  cases stepped_of_step hstep with
  | prepared hnew hrow hprepare hlock =>
      refine ⟨_, AList.lookup_insert _, fun retry hretry => ?_⟩
      obtain rfl := RetryPhase.prepared.inj hretry
      exact hrow
  | refused => exact ⟨_, AList.lookup_insert _, by simp⟩

/-! ## Safety -/

/-- The retry protocol is safe: what holds in a state, and of what goes on from it. -/
structure RetrySafe (jobId : UUID) (s : RetryRuns) : Prop where
  /-- Each failed state is turned to queued by at most one request. -/
  once : (s.turned.map (·.1)).Nodup
  /-- A request whose enqueue raises leaves the row as its `UPDATE` found it. -/
  unchanged : ∀ request ownerId now s₁ as s₂ out t,
    step jobId s (.prepare request ownerId now) = some s₁ →
    (retrySystem jobId).run s₁ as = some s₂ → out ≠ .returned →
    step jobId s₂ (.enqueue request out) = some t → t.row = s.row
  /-- A committed retry that nobody has claimed has a delivery. -/
  delivery : s.unclaimed = true → (∃ job, s.row = some job ∧ job.status = .queued) ∧
    (0 < s.queue ∨ ∃ worker, s.workers.lookup worker = some .waiting)
  /-- No delivery claims a failed row. -/
  leftover : ∀ job, s.row = some job → job.status = .failed → ∀ worker now t,
    step jobId s (.claim worker now) = some t →
      t.row = s.row ∧ t.workers.lookup worker = some .finished

theorem claim_failed {worker : ℕ} {now : Timestamp} {job : Job} (hrow : s.row = some job)
    (hfailed : job.status = .failed) (hstep : step jobId s (.claim worker now) = some t) :
    t.row = s.row ∧ t.workers.lookup worker = some .finished := by
  cases stepped_of_step hstep with
  | claimed hworker hlock hok =>
      obtain ⟨before, hbefore, hqueued, -⟩ := markProcessing_ok hok
      obtain rfl := Option.some.inj (hrow.symm.trans hbefore)
      exact absurd (hfailed.symm.trans hqueued) (by decide)
  | notClaimed => exact ⟨rfl, AList.lookup_insert _⟩

/-- **The retry protocol**: in every state any run reaches, each failed state has been
retried once at most, a retry that could not be put on the queue has left no trace, and a
committed one is not lost. -/
theorem retry_runs_safe (hs : (retrySystem jobId).Reachable s) : RetrySafe jobId s := by
  have hcoherent := coherent_of_reachable hs
  refine ⟨hcoherent.nodup, ?_, ?_, fun job hrow hfailed worker now t => claim_failed hrow hfailed⟩
  · intro request ownerId now s₁ as s₂ out t hprepare hrun hraised henqueue
    have hfirst : (retrySystem jobId).step s (.prepare request ownerId now) = some s₁ := hprepare
    have hs₁ := hs.next hfirst
    have hs₂ := hs₁.of_run hrun
    obtain ⟨retry, hretry, hrow⟩ :=
      (coherent_of_reachable hs₂).enqueue_raised henqueue hraised
    obtain ⟨phase, hphase, hfound⟩ := prepare_found hprepare
    rcases (RequestsKeep.of_run hs₁ hrun).prepared request retry hretry with hbefore | hnone
    · rw [hrow, hfound retry (Option.some.inj (hphase.symm.trans hbefore))]
    · rw [hphase] at hnone
      exact absurd hnone (by simp)
  · intro hunclaimed
    obtain ⟨hdelivery, job, hrow, hclaimable⟩ := hcoherent.claimed hunclaimed
    exact ⟨⟨job, hrow, hclaimable.1⟩, hdelivery⟩

/-- A job that has failed. -/
def failedJob : Job where
  ownerId := 1
  filename := "clip.mp4"
  status := .failed
  sourceKey := "uploads/7/clip.mp4"
  hlsStatus := .unavailable
  error := some "unsupported codec"
  createdAt := 0
  updatedAt := 1
  checks := by decide

/-- The first enqueue is told to have failed, although it took effect, and a worker
already waits with its delivery; the second retry commits. -/
theorem retry_runs_safe_leftoverDelivery :
    ∃ s : RetryRuns, s.unclaimed = true ∧ s.turned = [(0, 2)] ∧
      s.workers.lookup 5 = some .waiting ∧ RetrySafe 7 s := by
  have hinit : (retrySystem 7).Reachable { row := some failedJob } :=
    .init ⟨rfl, rfl, rfl, rfl, rfl⟩
  obtain ⟨s, hs, hstate⟩ := hinit.exists_of_run
    [.prepare 1 1 10, .enqueue 1 .raisedAfter, .deliver 5, .prepare 2 1 11, .enqueue 2 .returned,
      .commit 2 .returned]
    (fun s => s.unclaimed && s.turned == [(0, 2)] && s.workers.lookup 5 == some .waiting)
    (by decide)
  rw [Bool.and_eq_true, Bool.and_eq_true, beq_iff_eq, beq_iff_eq] at hstate
  exact ⟨s, hstate.1.1, hstate.1.2, hstate.2, retry_runs_safe hs⟩

end RetryRuns

end Api
end MediaPlayer
