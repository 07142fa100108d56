import MediaPlayer.Api.UploadSpans

/-!
# The life of an upload session

One session, any number of requests on it, any number of cleanup passes, and browsers
that put parts into the store at any time.  A step is one span: atomic under the row
locks, with calls outside that may raise before or after they took effect, and a commit
that may do so too.

* `UploadRuns.Evolves` — what holds between an earlier and a later state of a run.
* `UploadRuns.Consistent` — there is a job exactly when the session is settled, its
  object was measured and recognised, and a request that discards finds the session
  given up.
* `upload_runs_safe` — one job for one merged upload, and no way back.
-/

namespace MediaPlayer
namespace Api

open Library Models Repositories Schemas Services

/-- Who may take the next step. -/
inductive UploadParty
  | request (phase : RequestPhase)
  /-- A cleanup pass that has selected the session. -/
  | cleaning (ownerId : UUID)
  | cleaned
  deriving DecidableEq

structure UploadRuns where
  session : Option UploadSession := none
  /-- Every job that was ever created for the session. -/
  jobs : List (UUID × Job) := []
  bucket : Bucket := {}
  queue : List UUID := []
  /-- The storage calls made so far; nobody reads them. -/
  calls : List StorageCall := []
  parties : Parties ℕ UploadParty := ∅

inductive UploadAction
  /-- A new request. -/
  | call (party : ℕ) (user : UUID) (request : ApiCall) (c : Circumstances)
  /-- A cleanup pass selects the expired sessions. -/
  | select (party : ℕ) (now : Timestamp)
  /-- A party goes on. -/
  | proceed (party : ℕ) (c : Circumstances)
  /-- A browser uses a signed URL. -/
  | uploadPart (uploadId : String) (part : StoredPart)

namespace UploadRuns

/-- What a party reaches outside the database, with the outcomes it will meet. -/
def outside (s : UploadRuns) (outcomes : List CallOutcome) : Outside :=
  ⟨s.bucket, s.queue, s.calls, outcomes⟩

/-- What the calls of a span have left outside. -/
def reached (s : UploadRuns) (w : Outside) : UploadRuns :=
  { s with bucket := w.bucket, queue := w.queue, calls := w.calls }

/-- A party has moved. -/
def move (s : UploadRuns) (party : ℕ) (next : UploadParty) : UploadRuns :=
  { s with parties := s.parties.insert party next }

/-- What a commit writes. -/
def commit (s : UploadRuns) (upload : UploadSession) (job : Option (UUID × Job)) : UploadRuns :=
  { s with session := some upload, jobs := s.jobs ++ job.toList }

/-- One span of a party: `next` says where it goes on, `raised` where an exception
takes it. -/
def runSpan {ρ : Type} (s : UploadRuns) (party : ℕ) (c : Circumstances) (span : Span (SpanEnd ρ))
    (next : ρ → UploadParty) (raised : RequestError → UploadParty) : UploadRuns :=
  match span (s.outside c.outcomes) with
  | .error e w => (s.reached w).move party (raised e)
  | .ok (.rollback phase) w => (s.reached w).move party (next phase)
  | .ok (.commit upload job phase) w =>
      (c.commit.effect (fun s => s.commit upload job) (s.reached w)).move party
        (c.commit.next (next phase) (raised .connectionError))

/-- A span of a request; what it raises is answered. -/
def runRequest (s : UploadRuns) (party : ℕ) (c : Circumstances) (span : RequestSpan) :
    UploadRuns :=
  s.runSpan party c span .request fun e => .request (.answered (errorResponse e))

/-- The id of a session that is started is fresh. -/
def possible : ApiCall → Option UploadSession → Bool
  | .start _ _, some _ => false
  | _, _ => true

/-- One atomic step. -/
def step (maxUploadBytes : ℤ) (s : UploadRuns) : UploadAction → Option UploadRuns
  | .call party user request c =>
      if (s.parties.lookup party).isNone ∧ possible request s.session = true then
        some (s.runRequest party c (begin maxUploadBytes c s.session user request))
      else none
  | .select party now =>
      match s.parties.lookup party, s.session with
      | none, some upload =>
          if expired now upload then some (s.move party (.cleaning upload.ownerId)) else none
      | _, _ => none
  | .proceed party c =>
      match s.parties.lookup party with
      | some (.request phase) =>
          (proceed c s.session phase).map fun span => s.runRequest party c span
      | some (.cleaning ownerId) =>
          some (s.runSpan party c (cleanOne c.accountExists s.session ownerId)
            (fun _ => .cleaned) fun _ => .cleaned)
      | some .cleaned | none => none
  | .uploadPart uploadId part => some { s with bucket := s.bucket.uploadPart uploadId part }

end UploadRuns

/-- The session's system: nobody has asked for anything, and the key is free. -/
def uploadSystem (maxUploadBytes : ℤ) : StepSystem UploadRuns UploadAction where
  init s := s = {}
  step := UploadRuns.step maxUploadBytes

namespace UploadRuns

variable {maxUploadBytes : ℤ} {s t u : UploadRuns}

/-- The state of the session, if there is one. -/
def state (s : UploadRuns) : Option UploadState := s.session.map (·.state)

/-- The manifest of the session. -/
def manifest (s : UploadRuns) : Option (List UploadedPart) := s.session.bind (·.manifest)

/-- The calls so far that took something away. -/
def removals (s : UploadRuns) : List StorageCall := s.calls.filter StorageCall.destructive

/-- A party that relies on the session being given up. -/
def cancels : UploadParty → Prop
  | .request phase => phase.cancels
  | .cleaning _ | .cleaned => False

/-- The session has created its job. -/
def Settled (s : UploadRuns) : Prop := ∃ upload, s.session = some upload ∧ upload.state.Settled

/-! ## One span -/

/-- What a span of a party comes to: it has reached outside, and it may have committed. -/
inductive Moved (s : UploadRuns) (party : ℕ) : UploadRuns → Prop
  | answered {w : Outside} {p : UploadParty}
      (hstore : s.Settled → Undisturbed (s.outside []) w) (hp : ¬ cancels p) :
      Moved s party ((s.reached w).move party p)
  | committed {w : Outside} {p : UploadParty} {after : UploadSession} {job : Option (UUID × Job)}
      (hstore : s.Settled → Undisturbed (s.outside []) w)
      (hadvance : ∀ upload, s.session = some upload → Advance upload w.bucket after job)
      (hfirst : s.session = none → after.state = .open ∧ job = none)
      (hp : cancels p → after.state.Cancelled) :
      Moved s party (((s.reached w).commit after job).move party p)

theorem moved_runSpan {ρ : Type} {cancelling : ρ → Prop} {party : ℕ} {c : Circumstances}
    {span : Span (SpanEnd ρ)} {next : ρ → UploadParty} {raised : RequestError → UploadParty}
    (hsafe : SpanSafe cancelling s.session span) (hnext : ∀ r, cancels (next r) → cancelling r)
    (hraised : ∀ e, ¬ cancels (raised e)) :
    Moved s party (s.runSpan party c span next raised) := by
  have hspan := hsafe (s.outside c.outcomes)
  have hstart : ∀ upload, s.session = some upload → upload.state.Settled →
      Undisturbed (s.outside c.outcomes) (s.outside c.outcomes) := fun _ _ _ => Undisturbed.refl _
  have hstore : ∀ w, (∀ upload, s.session = some upload → upload.state.Settled →
      Undisturbed (s.outside c.outcomes) w) → s.Settled → Undisturbed (s.outside []) w := by
    rintro w hw ⟨upload, hupload, hsettled⟩
    exact ⟨(hw upload hupload hsettled).object, (hw upload hupload hsettled).calls⟩
  unfold runSpan
  cases hrun : span (s.outside c.outcomes) with
  | error e w => exact .answered (hstore w (hspan.error hstart hrun)) (hraised e)
  | ok r w =>
      obtain ⟨hundisturbed, hallowed⟩ := hspan.ok hstart hrun
      cases r with
      | rollback phase =>
          exact .answered (hstore w hundisturbed) fun h => hallowed (hnext phase h)
      | commit after job phase =>
          obtain ⟨hadvance, hfirst, hcancels⟩ := hallowed
          cases c.commit with
          | returned =>
              exact .committed (hstore w hundisturbed) hadvance hfirst
                fun h => hcancels (hnext phase h)
          | raisedBefore => exact .answered (hstore w hundisturbed) (hraised _)
          | raisedAfter =>
              exact .committed (hstore w hundisturbed) hadvance hfirst
                fun h => absurd h (hraised _)

/-! ## The invariant -/

/-- A party that discards finds the session given up. -/
def Discards (s : UploadRuns) : Prop :=
  ∀ party p, s.parties.lookup party = some p → cancels p →
    ∃ upload, s.session = some upload ∧ upload.state.Cancelled

theorem Discards.move (hs : Discards s) {party : ℕ} {p : UploadParty}
    (hp : cancels p → ∃ upload, s.session = some upload ∧ upload.state.Cancelled) :
    Discards (s.move party p) :=
  Parties.forall_insert (fun other p' _ => hs other p') hp

/-- What is given up stays so. -/
theorem Discards.commit (hs : Discards s) {bucket : Bucket} {after : UploadSession}
    {job : Option (UUID × Job)}
    (hadvance : ∀ upload, s.session = some upload → Advance upload bucket after job) :
    Discards (s.commit after job) := by
  intro party p hp hcancels
  obtain ⟨before, hsession, hcancelled⟩ := hs party p hp hcancels
  exact ⟨after, rfl, (hadvance before hsession).cancelled hcancelled⟩

theorem Discards.moved (hs : Discards s) {party : ℕ} (hmoved : Moved s party t) :
    Discards t := by
  cases hmoved with
  | @answered w p hstore hp =>
      exact Discards.move (s := s.reached w) hs fun h => absurd h hp
  | @committed w p after job hstore hadvance hfirst hp =>
      have hcommit : Discards ((s.reached w).commit after job) :=
        Discards.commit (s := s.reached w) hs hadvance
      exact hcommit.move fun h => ⟨_, rfl, hp h⟩

/-- There is one job for a merged object when the session is settled, none otherwise, and
a party that discards finds the session given up. -/
structure Consistent (s : UploadRuns) : Prop where
  job : ∀ upload, s.session = some upload → upload.state.Settled →
    s.jobs.length = 1 ∧ Merged upload s.bucket
  noJob : ¬ s.Settled → s.jobs = []
  discarding : ∀ party p, s.parties.lookup party = some p → cancels p →
    ∃ upload, s.session = some upload ∧ upload.state.Cancelled

theorem Consistent.move (hs : Consistent s) {party : ℕ} {p : UploadParty}
    (hp : cancels p → ∃ upload, s.session = some upload ∧ upload.state.Cancelled) :
    Consistent (s.move party p) :=
  ⟨hs.job, hs.noJob, Discards.move hs.discarding hp⟩

/-- Reaching outside keeps the object of a settled session. -/
theorem Consistent.reached (hs : Consistent s) {w : Outside}
    (hstore : s.Settled → w.bucket.object = s.bucket.object) : Consistent (s.reached w) := by
  refine ⟨?_, hs.noJob, hs.discarding⟩
  intro upload hupload hsettled
  obtain ⟨hjobs, bytes, hobject, hmerged⟩ := hs.job upload hupload hsettled
  exact ⟨hjobs, bytes, (hstore ⟨upload, hupload, hsettled⟩).trans hobject, hmerged⟩

/-- A commit over the row a span has read. -/
theorem Consistent.commit (hs : Consistent s) {after : UploadSession} {job : Option (UUID × Job)}
    (hadvance : ∀ upload, s.session = some upload → Advance upload s.bucket after job)
    (hfirst : s.session = none → after.state = .open ∧ job = none) :
    Consistent (s.commit after job) := by
  constructor
  · intro upload hupload hsettled
    obtain rfl := Option.some.inj hupload
    cases hsession : s.session with
    | none =>
        rw [(hfirst hsession).1] at hsettled
        exact hsettled.elim
    | some before =>
        have hstep := hadvance before hsession
        by_cases hbefore : before.state.Settled
        · obtain ⟨hjobs, bytes, hobject, hsize, hvideo⟩ := hs.job before hsession hbefore
          have hnone := (hstep.settled hbefore).2
          refine ⟨by simpa [UploadRuns.commit, hnone] using hjobs, bytes, hobject, ?_, hvideo⟩
          rw [hstep.size, hsize]
        · have hjob : job ≠ none := fun hnone => hstep.unsettled hbefore hnone hsettled
          obtain ⟨created, rfl⟩ := Option.ne_none_iff_exists'.mp hjob
          have hnone : s.jobs = [] := hs.noJob fun ⟨upload, hupload, h⟩ => by
            obtain rfl := Option.some.inj (hsession.symm.trans hupload)
            exact hbefore h
          exact ⟨by simp [UploadRuns.commit, hnone], (hstep.created hjob).2⟩
  · intro hunsettled
    have hafter : ¬ after.state.Settled := fun h => hunsettled ⟨after, rfl, h⟩
    have hjob : job = none := by
      cases hsession : s.session with
      | none => exact (hfirst hsession).2
      | some before =>
          by_contra hjob
          rw [((hadvance before hsession).created hjob).1] at hafter
          exact hafter trivial
    have hbefore : ¬ s.Settled := fun ⟨before, hsession, h⟩ =>
      hafter ((hadvance before hsession).settled h).1
    simp [UploadRuns.commit, hjob, hs.noJob hbefore]
  · exact Discards.commit hs.discarding hadvance

theorem Consistent.moved (hs : Consistent s) {party : ℕ} (hmoved : Moved s party t) :
    Consistent t := by
  cases hmoved with
  | answered hstore hp =>
      exact (hs.reached fun h => (hstore h).object).move fun h => absurd h hp
  | committed hstore hadvance hfirst hp =>
      refine ((hs.reached fun h => (hstore h).object).commit hadvance hfirst).move ?_
      exact fun h => ⟨_, rfl, hp h⟩

/-- A step is a span of a party, or a browser's part. -/
theorem step_cases {a : UploadAction} (hs : Discards s)
    (hstep : step maxUploadBytes s a = some t) :
    (∃ party, Moved s party t) ∨ ∃ uploadId part,
      t = { s with bucket := s.bucket.uploadPart uploadId part } := by
  cases a with
  | call party user request c =>
      simp only [step] at hstep
      split at hstep
      · rename_i hpossible
        obtain rfl := Option.some.inj hstep
        refine Or.inl ⟨party, moved_runSpan (begin_safe _ c s.session user request ?_)
          (fun _ => id) fun _ => id⟩
        rintro jobId start rfl
        cases hsession : s.session with
        | none => rfl
        | some upload => simp [possible, hsession] at hpossible
      · simp at hstep
  | select party now =>
      simp only [step] at hstep
      split at hstep
      · split at hstep
        · obtain rfl := Option.some.inj hstep
          exact Or.inl ⟨party, Moved.answered (w := s.outside [])
            (fun _ => Undisturbed.refl _) id⟩
        · simp at hstep
      · simp at hstep
  | proceed party c =>
      simp only [step] at hstep
      split at hstep
      · rename_i phase hphase
        obtain ⟨span, hspan, rfl⟩ := Option.map_eq_some_iff.mp hstep
        exact Or.inl ⟨party, moved_runSpan
          (proceed_safe hspan fun h => hs party _ hphase h) (fun _ => id) fun _ => id⟩
      · obtain rfl := Option.some.inj hstep
        exact Or.inl ⟨party, moved_runSpan (cleanOne_safe _ _ _) (fun _ => id) fun _ => id⟩
      · simp at hstep
      · simp at hstep
  | uploadPart uploadId part => exact Or.inr ⟨uploadId, part, (Option.some.inj hstep).symm⟩

theorem Consistent.step {a : UploadAction} (hs : Consistent s)
    (hstep : UploadRuns.step maxUploadBytes s a = some t) : Consistent t := by
  rcases step_cases hs.discarding hstep with ⟨party, hmoved⟩ | ⟨uploadId, part, rfl⟩
  · exact hs.moved hmoved
  · refine ⟨?_, hs.noJob, hs.discarding⟩
    intro upload hupload hsettled
    obtain ⟨hjobs, bytes, hobject, hmerged⟩ := hs.job upload hupload hsettled
    exact ⟨hjobs, bytes, by rw [Bucket.uploadPart_object, hobject], hmerged⟩

theorem consistent_of_reachable (hs : (uploadSystem maxUploadBytes).Reachable s) :
    Consistent s := by
  refine hs.invariant Consistent ?_ fun s a t _ hconsistent _ hstep => hconsistent.step hstep
  rintro s rfl
  exact ⟨by simp, fun _ => rfl, by simp⟩

/-! ## Earlier and later -/

/-- What holds between a row and the same row later. -/
structure Follows (before after : UploadSession) : Prop where
  size : after.size = before.size
  frozen : before.state ≠ .open → after.state ≠ .open ∧ after.manifest = before.manifest
  cancelled : before.state.Cancelled → after.state.Cancelled
  settled : before.state.Settled → after.state.Settled

/-- What holds between an earlier and a later state of a run. -/
structure Evolves (s t : UploadRuns) : Prop where
  row : ∀ before, s.session = some before → ∃ after, t.session = some after ∧ Follows before after
  store : s.Settled → t.bucket.object = s.bucket.object ∧ t.removals = s.removals

theorem Follows.refl (before : UploadSession) : Follows before before :=
  ⟨rfl, fun h => ⟨h, rfl⟩, id, id⟩

theorem Follows.trans {before mid after : UploadSession} (h : Follows before mid)
    (h' : Follows mid after) : Follows before after where
  size := h'.size.trans h.size
  frozen hopen :=
    ⟨(h'.frozen (h.frozen hopen).1).1,
      (h'.frozen (h.frozen hopen).1).2.trans (h.frozen hopen).2⟩
  cancelled hcancelled := h'.cancelled (h.cancelled hcancelled)
  settled hsettled := h'.settled (h.settled hsettled)

theorem Evolves.refl (s : UploadRuns) : Evolves s s :=
  ⟨fun before h => ⟨before, h, Follows.refl before⟩, fun _ => ⟨rfl, rfl⟩⟩

theorem Evolves.settled (h : Evolves s t) (hsettled : s.Settled) : t.Settled := by
  obtain ⟨before, hbefore, hstate⟩ := hsettled
  obtain ⟨after, hafter, hfollows⟩ := h.row before hbefore
  exact ⟨after, hafter, hfollows.settled hstate⟩

theorem Evolves.trans (h : Evolves s t) (h' : Evolves t u) : Evolves s u where
  row before hbefore := by
    obtain ⟨mid, hmid, hfollows⟩ := h.row before hbefore
    obtain ⟨after, hafter, hfollows'⟩ := h'.row mid hmid
    exact ⟨after, hafter, hfollows.trans hfollows'⟩
  store hsettled :=
    ⟨(h'.store (h.settled hsettled)).1.trans (h.store hsettled).1,
      (h'.store (h.settled hsettled)).2.trans (h.store hsettled).2⟩

theorem Moved.evolves {party : ℕ} (hmoved : Moved s party t) : Evolves s t := by
  cases hmoved with
  | answered hstore hp =>
      exact ⟨fun before h => ⟨before, h, Follows.refl before⟩,
        fun h => ⟨(hstore h).object, (hstore h).calls⟩⟩
  | committed hstore hadvance hfirst hp =>
      refine ⟨fun before h => ⟨_, rfl, ?_⟩, fun h => ⟨(hstore h).object, (hstore h).calls⟩⟩
      have hstep := hadvance before h
      exact ⟨hstep.size, hstep.frozen, hstep.cancelled, fun h => (hstep.settled h).1⟩

theorem Evolves.of_step {a : UploadAction} (hs : Consistent s)
    (hstep : UploadRuns.step maxUploadBytes s a = some t) : Evolves s t := by
  rcases step_cases hs.discarding hstep with ⟨party, hmoved⟩ | ⟨uploadId, part, rfl⟩
  · exact hmoved.evolves
  · exact ⟨fun before h => ⟨before, h, Follows.refl before⟩,
      fun _ => ⟨Bucket.uploadPart_object .., rfl⟩⟩

theorem Evolves.of_run (hs : (uploadSystem maxUploadBytes).Reachable s)
    {as : List UploadAction} (hrun : (uploadSystem maxUploadBytes).run s as = some t) :
    Evolves s t :=
  hs.relation_of_run Evolves.refl (fun _ _ _ => Evolves.trans)
    (fun _ _ _ hs hstep => Evolves.of_step (consistent_of_reachable hs) hstep) hrun

/-- A span creates a job exactly when it makes the session ready. -/
theorem Moved.jobs_iff {party : ℕ} (hmoved : Moved s party t) :
    t.jobs ≠ s.jobs ↔ s.state ≠ some .ready ∧ t.state = some .ready := by
  cases hmoved with
  | answered hstore hp => exact ⟨fun h => absurd rfl h, fun h => absurd h.2 h.1⟩
  | @committed w p after job hstore hadvance hfirst hp =>
      change s.jobs ++ job.toList ≠ s.jobs ↔ s.state ≠ some .ready ∧ some after.state = some .ready
      cases job with
      | none =>
          suffices ¬ (s.state ≠ some .ready ∧ some after.state = some .ready) by simpa using this
          rintro ⟨hbefore, hready⟩
          replace hready := Option.some.inj hready
          cases hsession : s.session with
          | none => simp [(hfirst hsession).1] at hready
          | some before =>
              have hstep := hadvance before hsession
              by_cases hsettled : before.state.Settled
              · -- A settled session that is not ready is completed, and stays so.
                have hcompleted : before.state = .completed := by
                  cases hstate : before.state <;>
                    simp_all [UploadState.Settled, UploadRuns.state]
                rw [hstep.completed hcompleted] at hready
                exact absurd hready (by decide)
              · exact hstep.unsettled hsettled rfl (by rw [hready]; trivial)
      | some created =>
          suffices s.state ≠ some .ready ∧ after.state = .ready by simpa using this
          cases hsession : s.session with
          | none => exact absurd (hfirst hsession).2 (by simp)
          | some before =>
              have hstep := hadvance before hsession
              refine ⟨?_, (hstep.created (by simp)).1⟩
              intro hready
              have hbefore : before.state = .ready := by
                simpa [UploadRuns.state, hsession] using hready
              have hsettled : before.state.Settled := by rw [hbefore]; trivial
              exact absurd (hstep.settled hsettled).2 (by simp)

theorem jobs_iff_of_step {a : UploadAction} (hs : Consistent s)
    (hstep : UploadRuns.step maxUploadBytes s a = some t) :
    t.jobs ≠ s.jobs ↔ s.state ≠ some .ready ∧ t.state = some .ready := by
  rcases step_cases hs.discarding hstep with ⟨party, hmoved⟩ | ⟨uploadId, part, rfl⟩
  · exact hmoved.jobs_iff
  · exact ⟨fun h => absurd rfl h, fun h => absurd h.2 h.1⟩

/-! ## Safety -/

/-- An upload becomes one job, once: what holds in a state, of the next step, and of
every state a run reaches from it. -/
structure UploadSafe (maxUploadBytes : ℤ) (s : UploadRuns) : Prop where
  oneJob : s.jobs.length ≤ 1
  created : ∀ a t, UploadRuns.step maxUploadBytes s a = some t →
    (t.jobs ≠ s.jobs ↔ s.state ≠ some .ready ∧ t.state = some .ready)
  merged : s.jobs ≠ [] → ∃ upload, s.session = some upload ∧ Merged upload s.bucket
  declared : ∀ upload, s.session = some upload → ∀ as t,
    (uploadSystem maxUploadBytes).run s as = some t →
      ∃ later, t.session = some later ∧ later.size = upload.size
  kept : s.state = some .ready ∨ s.state = some .completed → ∀ as t,
    (uploadSystem maxUploadBytes).run s as = some t →
      t.bucket.object = s.bucket.object ∧ t.removals = s.removals
  cancelled : s.state = some .aborting ∨ s.state = some .aborted → ∀ as t,
    (uploadSystem maxUploadBytes).run s as = some t →
      t.state ≠ some .ready ∧ t.state ≠ some .completed
  manifest : s.session ≠ none → s.state ≠ some .open → ∀ as t,
    (uploadSystem maxUploadBytes).run s as = some t → t.manifest = s.manifest

theorem settled_of_state (hstate : s.state = some .ready ∨ s.state = some .completed) :
    s.Settled := by
  rcases hstate with hstate | hstate <;>
    obtain ⟨upload, hupload, hvalue⟩ := Option.map_eq_some_iff.mp hstate
  · exact ⟨upload, hupload, by rw [hvalue]; trivial⟩
  · exact ⟨upload, hupload, by rw [hvalue]; trivial⟩

theorem Consistent.oneJob (hs : Consistent s) : s.jobs.length ≤ 1 := by
  by_cases hsettled : s.Settled
  · obtain ⟨upload, hupload, hstate⟩ := hsettled
    rw [(hs.job upload hupload hstate).1]
  · simp [hs.noJob hsettled]

theorem Evolves.cancelled (h : Evolves s t)
    (hstate : s.state = some .aborting ∨ s.state = some .aborted) :
    t.state ≠ some .ready ∧ t.state ≠ some .completed := by
  obtain ⟨before, hbefore, hcancelled⟩ : ∃ before, s.session = some before ∧
      before.state.Cancelled := by
    rcases hstate with hstate | hstate <;>
      obtain ⟨upload, hupload, hvalue⟩ := Option.map_eq_some_iff.mp hstate
    · exact ⟨upload, hupload, by rw [hvalue]; trivial⟩
    · exact ⟨upload, hupload, by rw [hvalue]; trivial⟩
  obtain ⟨after, hafter, hfollows⟩ := h.row before hbefore
  have hlater := hfollows.cancelled hcancelled
  constructor
  · intro hready
    simp only [state, hafter, Option.map_some, Option.some.injEq] at hready
    rw [hready] at hlater
    exact hlater
  · intro hcompleted
    simp only [state, hafter, Option.map_some, Option.some.injEq] at hcompleted
    rw [hcompleted] at hlater
    exact hlater

theorem Evolves.manifest (h : Evolves s t) (hsession : s.session ≠ none)
    (hstate : s.state ≠ some .open) : t.manifest = s.manifest := by
  obtain ⟨before, hbefore⟩ := Option.ne_none_iff_exists'.mp hsession
  obtain ⟨after, hafter, hfollows⟩ := h.row before hbefore
  have hopen : before.state ≠ .open := by simpa [state, hbefore] using hstate
  simp [UploadRuns.manifest, hbefore, hafter, (hfollows.frozen hopen).2]

/-- **An upload becomes one job, once**, in every state any run reaches. -/
theorem upload_runs_safe (hs : (uploadSystem maxUploadBytes).Reachable s) :
    UploadSafe maxUploadBytes s := by
  have hconsistent := consistent_of_reachable hs
  refine
    { oneJob := hconsistent.oneJob
      created := fun _ _ hstep => jobs_iff_of_step hconsistent hstep
      merged := ?_
      declared := ?_
      kept := fun hstate _ _ hrun => (Evolves.of_run hs hrun).store (settled_of_state hstate)
      cancelled := fun hstate _ _ hrun => (Evolves.of_run hs hrun).cancelled hstate
      manifest := fun hsession hopen _ _ hrun =>
        (Evolves.of_run hs hrun).manifest hsession hopen }
  · intro hjobs
    by_contra hnone
    refine hjobs (hconsistent.noJob ?_)
    rintro ⟨upload, hupload, hsettled⟩
    exact hnone ⟨upload, hupload, (hconsistent.job upload hupload hsettled).2⟩
  · intro upload hupload as t hrun
    obtain ⟨later, hlater, hfollows⟩ := (Evolves.of_run hs hrun).row upload hupload
    exact ⟨later, hlater, hfollows.size⟩

/-- A video of twelve bytes. -/
def smallVideo : List UInt8 := [0, 0, 0, 0x18] ++ ascii "ftypisom"

def startSmall : StartUpload where
  filename := "clip.mp4"
  size := 12
  filenameLength := by decide
  sizeBounds := by decide
  maxFpsLiteral := by decide

def completeSmall : CompleteUpload where
  parts := [⟨1, "etag"⟩]
  valid := by decide
  length := by decide
  contiguousParts := by decide

/-- A session is started, its part arrives, and it is completed twice at once: the first
merge is told to have failed, although it took effect. -/
theorem upload_runs_safe_completedTwice :
    ∃ s : UploadRuns, s.state = some .completed ∧ s.jobs.length = 1 ∧ UploadSafe 1000 s := by
  have hinit : (uploadSystem 1000).Reachable {} := .init rfl
  obtain ⟨s, hs, hstate⟩ := hinit.exists_of_run
    [.call 0 1 (.start 7 startSmall) { now := 0 }, .proceed 0 { now := 0 },
      .uploadPart "upload" ⟨1, "etag", smallVideo⟩,
      .call 1 1 (.complete completeSmall) { now := 1 },
      .proceed 1 { now := 1, outcomes := [.returned, .raisedAfter] },
      .call 2 1 (.complete completeSmall) { now := 2 },
      .call 3 1 (.complete completeSmall) { now := 3 },
      .proceed 2 { now := 4 }]
    (fun s => s.state == some .completed && s.jobs.length == 1) (by decide)
  rw [Bool.and_eq_true, beq_iff_eq, beq_iff_eq] at hstate
  exact ⟨s, hstate.1, hstate.2, upload_runs_safe hs⟩

end UploadRuns

end Api
end MediaPlayer
