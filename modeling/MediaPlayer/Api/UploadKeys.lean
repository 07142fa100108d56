import MediaPlayer.Api.RowsKept
import MediaPlayer.Api.SpanWrites
import MediaPlayer.Api.UploadRuns

/-!
# The key of an upload session

A session keeps the source key it was started with, and the job it creates gets it.  Without a
row no request reaches the store.

* `step_continues` — what a step leaves of a session: `Continues`.
* `step_of_none` — what a step does where there is no session yet.
-/

namespace MediaPlayer
namespace Api

open Library Models Repositories Schemas Services

/-- The rows that are committed over a row have its key and its id. -/
structure SameKey (before after : UploadSession) (job : Option (UUID × Job)) : Prop where
  sourceKey : after.sourceKey = before.sourceKey
  jobId : after.jobId = before.jobId
  created : ∀ row ∈ job, row.1 = before.jobId ∧ row.2.sourceKey = before.sourceKey ∧
    row.2.operations = none ∧ row.2.outputKey = none

theorem SameKey.refl (upload : UploadSession) : SameKey upload upload none :=
  ⟨rfl, rfl, by simp⟩

/-- A span on the row commits nothing under another key. -/
def SpanKeyed {ρ : Type} (upload : UploadSession) (span : Span (SpanEnd ρ)) : Prop :=
  Ensures (fun _ => True) span
    (fun r _ => ∀ after job next, r = .commit after job next → SameKey upload after job)
    fun _ _ => True

theorem SpanWrite.sameKey {upload after : UploadSession} {job : Option (UUID × Job)}
    (hwrite : SpanWrite upload after job) : SameKey upload after job := by
  cases hwrite with
  | created now hcompleting =>
      refine ⟨rfl, rfl, fun row hrow => ?_⟩
      obtain rfl := Option.some.inj hrow
      exact ⟨rfl, rfl, rfl, rfl⟩
  | started | frozen | completed | discarded => exact ⟨rfl, rfl, by simp⟩

namespace SpanKeyed

variable {ρ : Type} {upload : UploadSession} {span : Span (SpanEnd ρ)}

theorem of_writes (hspan : WritesOnly (SpanWrite upload) span) : SpanKeyed upload span :=
  hspan.mono fun _ _ => SpanWrite.sameKey

/-- After `owned` the span works on the row there is. -/
theorem owned_bind {c : Circumstances} {ownerId : UUID} {f : UploadSession → Span (SpanEnd ρ)}
    (hf : SpanKeyed upload (f upload)) :
    SpanKeyed upload (owned c (some upload) ownerId >>= f) := by
  unfold owned
  cases hfound : getUpload c.accountExists (some upload) ownerId with
  | none => exact WritesOnly.throw _
  | some found =>
      obtain ⟨hsome, -⟩ := getUpload_some hfound
      obtain rfl := Option.some.inj hsome
      exact hf

theorem owned_writes {c : Circumstances} {ownerId : UUID} {f : UploadSession → Span (SpanEnd ρ)}
    (hf : WritesOnly (SpanWrite upload) (f upload)) :
    SpanKeyed upload (owned c (some upload) ownerId >>= f) :=
  owned_bind (of_writes hf)

end SpanKeyed

section Spans

variable (c : Circumstances) (user : UUID) (upload : UploadSession)

theorem discardStorage_keyed (response : Response) :
    SpanKeyed upload (discardStorage upload response) :=
  WritesOnly.bind fun _ => WritesOnly.commit ⟨rfl, rfl, by simp⟩

theorem cleanOne_keyed (accountExists : Bool) (ownerId : UUID) :
    SpanKeyed upload (cleanOne accountExists (some upload) ownerId) := by
  unfold cleanOne
  cases hfound : getUpload accountExists (some upload) ownerId with
  | none => exact WritesOnly.rollback _
  | some found =>
      obtain ⟨hsome, -⟩ := getUpload_some hfound
      obtain rfl := Option.some.inj hsome
      dsimp only
      split
      · exact WritesOnly.rollback _
      · exact WritesOnly.bind fun _ => WritesOnly.commit ⟨rfl, rfl, by simp⟩

/-- The first span of a request on a session there is. -/
theorem begin_keyed (maxUploadBytes : ℤ) {call : ApiCall}
    (hpossible : UploadRuns.possible call (some upload) = true) :
    SpanKeyed upload (begin maxUploadBytes c (some upload) user call) := by
  cases call with
  | start jobId request => simp [UploadRuns.possible] at hpossible
  | signParts request => exact SpanKeyed.owned_writes (signParts_writes c upload request)
  | complete request => exact SpanKeyed.owned_writes (complete_writes c user upload request)
  | resume => exact SpanKeyed.owned_writes (resume_writes c upload)
  | abort => exact SpanKeyed.owned_writes (abort_writes upload)

theorem proceed_keyed {phase : RequestPhase} {span : RequestSpan}
    (hspan : proceed c (some upload) phase = some span) : SpanKeyed upload span := by
  cases phase with
  | starting user =>
      obtain rfl := Option.some.inj hspan
      exact SpanKeyed.owned_writes (startStorage_writes c upload)
  | frozen user manifest =>
      obtain rfl := Option.some.inj hspan
      exact SpanKeyed.owned_writes (completeMerging_writes c user upload manifest)
  | created user =>
      obtain rfl := Option.some.inj hspan
      exact SpanKeyed.owned_writes (completeReady_writes upload)
  | discarding ownerId response =>
      obtain rfl := Option.some.inj hspan
      exact SpanKeyed.owned_bind (discardStorage_keyed upload response)
  | answered response => simp [proceed] at hspan

end Spans

namespace UploadRuns

variable {maxUploadBytes : ℤ} {s t : UploadRuns} {upload : UploadSession} {a : UploadAction}

/-- What a step leaves of a session: under the same key, with a job if and only if it is
settled now. -/
structure Continues (before after : UploadSession) (job : Option (UUID × Job)) : Prop
    extends SameKey before after job where
  cancelled : before.state.Cancelled → after.state.Cancelled
  settled : after.state.Settled ↔ before.state.Settled ∨ job ≠ none
  fresh : job ≠ none → ¬ before.state.Settled ∧ ¬ before.state.Cancelled

theorem runSpan_sameKey {ρ : Type} {party : ℕ} {c : Circumstances} {span : Span (SpanEnd ρ)}
    {next : ρ → UploadParty} {raised : RequestError → UploadParty}
    (hspan : SpanKeyed upload span) (hsession : s.session = some upload) :
    ∃ after job, (s.runSpan party c span next raised).session = some after ∧
      (s.runSpan party c span next raised).jobs = s.jobs ++ job.toList ∧
      SameKey upload after job := by
  unfold runSpan
  cases hrun : span (s.outside c.outcomes) with
  | error e w => exact ⟨upload, none, hsession, (List.append_nil _).symm, .refl upload⟩
  | ok r w =>
      have hkey := hspan.ok trivial hrun
      cases r with
      | rollback phase => exact ⟨upload, none, hsession, (List.append_nil _).symm, .refl upload⟩
      | commit after job phase =>
          cases c.commit with
          | raisedBefore => exact ⟨upload, none, hsession, (List.append_nil _).symm, .refl upload⟩
          | returned | raisedAfter => exact ⟨after, job, rfl, rfl, hkey after job phase rfl⟩

/-- A step leaves the session its key. -/
theorem step_sameKey (hsession : s.session = some upload)
    (hstep : step maxUploadBytes s a = some t) :
    ∃ after job, t.session = some after ∧ t.jobs = s.jobs ++ job.toList ∧
      SameKey upload after job := by
  cases a with
  | call party user request c =>
      simp only [step, hsession] at hstep
      split at hstep
      · rename_i hpossible
        obtain rfl := Option.some.inj hstep
        exact runSpan_sameKey (begin_keyed c user upload maxUploadBytes hpossible.2) hsession
      · simp at hstep
  | select party now =>
      simp only [step] at hstep
      split at hstep
      · split at hstep
        · obtain rfl := Option.some.inj hstep
          exact ⟨upload, none, hsession, (List.append_nil _).symm, .refl upload⟩
        · simp at hstep
      · simp at hstep
  | proceed party c =>
      simp only [step, hsession] at hstep
      split at hstep
      · obtain ⟨span, hspan, rfl⟩ := Option.map_eq_some_iff.mp hstep
        exact runSpan_sameKey (proceed_keyed c upload hspan) hsession
      · obtain rfl := Option.some.inj hstep
        exact runSpan_sameKey (cleanOne_keyed upload _ _) hsession
      · simp at hstep
      · simp at hstep
  | uploadPart uploadId part =>
      obtain rfl := Option.some.inj hstep
      exact ⟨upload, none, hsession, (List.append_nil _).symm, .refl upload⟩

/-- The states before and after what a party did. -/
theorem Moved.states {party : ℕ} (hmoved : Moved s party t) (hsession : s.session = some upload)
    {after : UploadSession} {job : Option (UUID × Job)} (hafter : t.session = some after)
    (hjobs : t.jobs = s.jobs ++ job.toList) :
    (upload.state.Cancelled → after.state.Cancelled) ∧
      (after.state.Settled ↔ upload.state.Settled ∨ job ≠ none) ∧
      (job ≠ none → ¬ upload.state.Settled ∧ ¬ upload.state.Cancelled) := by
  cases hmoved with
  | answered hstore hp =>
      obtain rfl : upload = after := Option.some.inj (hsession.symm.trans hafter)
      have hnone : job = none := by
        have hlength := congrArg List.length hjobs
        cases job with
        | none => rfl
        | some row => simp [UploadRuns.move, UploadRuns.reached] at hlength
      exact ⟨id, by simp [hnone], fun hjob => absurd hnone hjob⟩
  | @committed w p other created hstore hadvance hfirst hp =>
      obtain rfl : other = after := Option.some.inj hafter
      have hcreated : created.toList = job.toList := List.append_cancel_left hjobs
      obtain rfl : created = job := by
        cases created <;> cases job <;> simp_all
      have hadvanced := hadvance upload hsession
      refine ⟨hadvanced.cancelled, ⟨fun hsettled => ?_, ?_⟩, fun hjob =>
        ⟨fun hsettled => hjob (hadvanced.settled hsettled).2, fun hcancelled => ?_⟩⟩
      · by_contra hnot
        obtain ⟨hunsettled, hnone⟩ := not_or.mp hnot
        exact hadvanced.unsettled hunsettled (not_not.mp hnone) hsettled
      · rintro (hsettled | hjob)
        · exact (hadvanced.settled hsettled).1
        · rw [(hadvanced.created hjob).1]
          trivial
      · have hready := (hadvanced.created hjob).1
        have hgiven := hadvanced.cancelled hcancelled
        rw [hready] at hgiven
        exact hgiven

/-- What a step leaves of a session. -/
theorem step_continues (hs : Discards s) (hsession : s.session = some upload)
    (hstep : step maxUploadBytes s a = some t) :
    ∃ after job, t.session = some after ∧ t.jobs = s.jobs ++ job.toList ∧
      Continues upload after job := by
  obtain ⟨after, job, hafter, hjobs, hkey⟩ := step_sameKey hsession hstep
  refine ⟨after, job, hafter, hjobs, ?_⟩
  rcases step_cases hs hstep with ⟨party, hmoved⟩ | ⟨uploadId, part, rfl⟩
  · obtain ⟨hcancelled, hsettled, hfresh⟩ := hmoved.states hsession hafter hjobs
    exact ⟨hkey, hcancelled, hsettled, hfresh⟩
  · obtain rfl : upload = after := Option.some.inj (hsession.symm.trans hafter)
    have hnone : job = none := by
      have hlength := congrArg List.length hjobs
      cases job with
      | none => rfl
      | some row => simp at hlength
    exact ⟨hkey, id, by simp [hnone], fun hjob => absurd hnone hjob⟩

theorem Discards.step (hs : Discards s) (hstep : UploadRuns.step maxUploadBytes s a = some t) :
    Discards t := by
  rcases step_cases hs hstep with ⟨party, hmoved⟩ | ⟨uploadId, part, rfl⟩
  · exact hs.moved hmoved
  · exact hs

/-! ## Before there is a session -/

/-- What a step does where there is no session yet. -/
structure Begins (s t : UploadRuns) (a : UploadAction) : Prop where
  bucket : t.bucket = s.bucket
  jobs : t.jobs = s.jobs
  started : t.session = none ∨ ∃ party user jobId request c,
    a = .call party user (.start jobId request) c ∧
      t.session = some (newUpload user jobId request c.now)

theorem getUpload_none (accountExists : Bool) (ownerId : UUID) :
    getUpload accountExists none ownerId = none := by
  unfold getUpload
  split <;> rfl

/-- Without a row a request on it is refused at once. -/
theorem runSpan_owned_none {ρ : Type} {party : ℕ} {c : Circumstances} {ownerId : UUID}
    {f : UploadSession → Span (SpanEnd ρ)} {next : ρ → UploadParty}
    {raised : RequestError → UploadParty} :
    s.runSpan party c (owned c none ownerId >>= f) next raised =
      s.move party (raised (.notFound "not found")) := by
  unfold runSpan owned
  rw [getUpload_none]
  rfl

theorem begins_refused (hsession : s.session = none) (party : ℕ) (p : UploadParty)
    (a : UploadAction) : Begins s (s.move party p) a :=
  ⟨rfl, rfl, Or.inl hsession⟩

theorem begins_start (hsession : s.session = none) (party : ℕ) (user jobId : UUID)
    (request : StartUpload) (c : Circumstances) :
    Begins s (s.runRequest party c (start maxUploadBytes c user jobId request))
      (.call party user (.start jobId request) c) := by
  unfold runRequest start
  split
  · exact begins_refused hsession party _ _
  · split
    · exact begins_refused hsession party _ _
    · exact begins_refused hsession party _ _
    · cases hcommit : c.commit with
      | raisedBefore =>
          simp only [runSpan, hcommit]
          exact begins_refused hsession party _ _
      | returned | raisedAfter =>
          have hrun : ∀ phase, Begins s
              ((s.commit (newUpload user jobId request c.now) none).move party phase)
              (.call party user (.start jobId request) c) := fun phase =>
            ⟨rfl, List.append_nil _, Or.inr ⟨party, user, jobId, request, c, rfl, rfl⟩⟩
          simp only [runSpan, hcommit]
          exact hrun _

/-- Without a session a step reaches no store, and adds the row of a start at most. -/
theorem step_of_none (hsession : s.session = none) (hempty : s.bucket.uploads = ∅)
    (hstep : step maxUploadBytes s a = some t) : Begins s t a := by
  cases a with
  | call party user request c =>
      simp only [step, hsession] at hstep
      split at hstep
      · obtain rfl := Option.some.inj hstep
        cases request with
        | start jobId request => exact begins_start hsession party user jobId request c
        | signParts | complete | resume | abort =>
            rw [runRequest, begin, runSpan_owned_none]
            exact begins_refused hsession party _ _
      · simp at hstep
  | select party now => simp [step, hsession] at hstep
  | proceed party c =>
      simp only [step, hsession] at hstep
      split at hstep
      · rename_i phase hphase
        obtain ⟨span, hspan, rfl⟩ := Option.map_eq_some_iff.mp hstep
        cases phase with
        | starting | frozen | created | discarding =>
            obtain rfl := Option.some.inj hspan
            rw [runRequest, runSpan_owned_none]
            exact begins_refused hsession party _ _
        | answered response => simp [Api.proceed] at hspan
      · obtain rfl := Option.some.inj hstep
        rw [cleanOne, getUpload_none]
        exact begins_refused hsession party _ _
      · simp at hstep
      · simp at hstep
  | uploadPart uploadId part =>
      obtain rfl := Option.some.inj hstep
      refine ⟨?_, rfl, Or.inl hsession⟩
      simp [Bucket.uploadPart, hempty, AList.lookup_empty]

end UploadRuns

end Api
end MediaPlayer
