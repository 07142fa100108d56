import MediaPlayer.Api.SpanWrites
import MediaPlayer.Api.UploadSlots

/-!
# The slots of an owner

* `Updates`, `Inserts` — what a transaction may commit: over a row it read, nothing that takes a
  slot the row did not hold; a new row only below the limit.
* `SlotInvariant` — a party past its lock has the owner's row locked, and what it has read of the
  owner is still so.
* `upload_slots_bounded` — no owner ever holds more than `MAX_OPEN_UPLOADS` slots, and a start is
  refused for them only when that many are held.
-/

namespace MediaPlayer
namespace Api

open Library Models Repositories Schemas Services

/-! ## What a span commits -/

/-- A commit writes a row that meets `P`. -/
def SpanEnd.Commits {ρ : Type} (P : UploadSession → Prop) : SpanEnd ρ → Prop
  | .rollback _ => True
  | .commit upload _ _ => P upload

/-- Every commit the span may end with meets `P`. -/
def Commits {ρ : Type} (P : UploadSession → Prop) (span : Span (SpanEnd ρ)) : Prop :=
  Ensures (fun _ => True) span (fun r _ => SpanEnd.Commits P r) fun _ _ => True

namespace Commits

variable {ρ α : Type} {P Q : UploadSession → Prop} {span : Span (SpanEnd ρ)}

theorem throw (e : RequestError) : Commits P (MonadExcept.throw e : Span (SpanEnd ρ)) :=
  Ensures.throw e fun _ _ => trivial

theorem rollback (next : ρ) : Commits P (Pure.pure (.rollback next) : Span (SpanEnd ρ)) :=
  Ensures.pure _ fun _ _ => trivial

theorem commit {upload : UploadSession} {job : Option (UUID × Job)} {next : ρ} (hP : P upload) :
    Commits P (Pure.pure (.commit upload job next) : Span (SpanEnd ρ)) :=
  Ensures.pure _ fun _ _ => hP

/-- Whatever the calls before come to. -/
theorem bind (x : Span α) {f : α → Span (SpanEnd ρ)} (hf : ∀ a, Commits P (f a)) :
    Commits P (x >>= f) :=
  (Ensures.any x).bind hf

theorem mono (hspan : Commits P span) (hPQ : ∀ upload, P upload → Q upload) :
    Commits Q span := by
  refine hspan.conseq (fun _ h => h) (fun r _ hr => ?_) fun _ _ h => h
  cases r with
  | rollback next => trivial
  | commit upload job next => exact hPQ upload hr

theorem ok (hspan : Commits P span) {w w' : Outside} {upload : UploadSession}
    {job : Option (UUID × Job)} {next : ρ} (hrun : span w = .ok (.commit upload job next) w') :
    P upload :=
  Ensures.ok (a := SpanEnd.commit upload job next) hspan trivial hrun

end Commits

/-- A commit over a row that takes no slot. -/
structure Keeps (before after : UploadSession) : Prop where
  owner : after.ownerId = before.ownerId
  slot : after.state ∈ reservedStates → before.state ∈ reservedStates

section Spans

variable {c : Circumstances} {upload : UploadSession} {row : Option UploadSession}

theorem Keeps.of_state {state : UploadState} (hslot : state ∈ reservedStates →
    upload.state ∈ reservedStates) : Keeps upload { upload with state := state } :=
  ⟨rfl, hslot⟩

/-- A commit keeps the slot until the parts are gone, and gives it up for a job. -/
theorem SpanWrite.keeps {after : UploadSession} {job : Option (UUID × Job)}
    (hwrite : SpanWrite upload after job) : Keeps upload after := by
  cases hwrite with
  | started storageId => exact ⟨rfl, id⟩
  | frozen manifest hopen =>
      refine ⟨rfl, fun _ => ?_⟩
      rw [hopen]
      decide
  | created | completed => exact Keeps.of_state fun h => absurd h (by decide)
  | discarded hheld => exact Keeps.of_state fun _ => hheld

theorem Commits.of_writes {ρ : Type} {span : Span (SpanEnd ρ)}
    (hspan : WritesOnly (SpanWrite upload) span) : Commits (Keeps upload) span := by
  refine hspan.conseq (fun _ h => h) (fun r _ hr => ?_) fun _ _ h => h
  cases r with
  | rollback next => trivial
  | commit after job next => exact (hr after job next rfl).keeps

theorem discardStorage_commits (upload : UploadSession) (response : Response) :
    Commits (Keeps upload) (discardStorage upload response) :=
  Commits.bind _ fun _ => Commits.commit (Keeps.of_state fun h => absurd h (by decide))

/-- What a transaction of the owner may commit over the row it read. -/
structure Updates (c : Circumstances) (row : Option UploadSession) (ownerId : UUID)
    (after : UploadSession) : Prop where
  found : c.accountExists = true
  written : ∃ before, row = some before ∧ before.ownerId = ownerId ∧ Keeps before after

/-- What `start` may commit. -/
structure Inserts (c : Circumstances) (ownerId : UUID) (after : UploadSession) : Prop where
  found : c.accountExists = true
  owner : after.ownerId = ownerId
  room : c.reserved < maxOpenUploads

/-- After `owned` the span is about the owner's row. -/
theorem owned_commits {ρ : Type} {ownerId : UUID} {f : UploadSession → Span (SpanEnd ρ)}
    (hf : ∀ upload, Commits (Keeps upload) (f upload)) :
    Commits (Updates c row ownerId) (owned c row ownerId >>= f) := by
  unfold owned
  cases hfound : getUpload c.accountExists row ownerId with
  | none => exact Commits.throw _
  | some upload =>
      obtain ⟨hrow, howner⟩ := getUpload_some hfound
      have hexists : c.accountExists = true := by
        cases haccount : c.accountExists with
        | true => rfl
        | false =>
            rw [haccount] at hfound
            exact absurd hfound nofun
      show Commits (Updates c row ownerId) (f upload)
      exact (hf upload).mono fun after hkeeps => ⟨hexists, upload, hrow, howner, hkeeps⟩

theorem owned_writes {ρ : Type} {ownerId : UUID} {f : UploadSession → Span (SpanEnd ρ)}
    (hf : ∀ upload, WritesOnly (SpanWrite upload) (f upload)) :
    Commits (Updates c row ownerId) (owned c row ownerId >>= f) :=
  owned_commits fun upload => Commits.of_writes (hf upload)

theorem addUpload_ok {accountExists : Bool} {reserved : ℕ}
    (hok : addUpload accountExists reserved = .ok ()) :
    accountExists = true ∧ reserved < maxOpenUploads := by
  unfold addUpload at hok
  split at hok
  · exact absurd hok nofun
  · rename_i hexists
    split at hok
    · exact absurd hok nofun
    · rename_i hlimit
      exact ⟨Bool.eq_true_of_not_eq_false hexists, Nat.lt_of_not_le hlimit⟩

theorem addUpload_limit {accountExists : Bool} {reserved : ℕ}
    (hlimit : addUpload accountExists reserved = .error .uploadLimitReached) :
    accountExists = true ∧ maxOpenUploads ≤ reserved := by
  unfold addUpload at hlimit
  split at hlimit
  · exact absurd hlimit nofun
  · rename_i hexists
    split at hlimit
    · rename_i hheld
      exact ⟨Bool.eq_true_of_not_eq_false hexists, hheld⟩
    · exact absurd hlimit nofun

theorem start_commits (maxUploadBytes : ℤ) (c : Circumstances) (user jobId : UUID)
    (request : StartUpload) :
    Commits (Inserts c user) (start maxUploadBytes c user jobId request) := by
  unfold start
  split
  · exact Commits.throw _
  · split
    · exact Commits.throw _
    · exact Commits.throw _
    · rename_i hadded
      exact Commits.commit ⟨(addUpload_ok hadded).1, rfl, (addUpload_ok hadded).2⟩

theorem proceed_commits {phase : RequestPhase} {ownerId : UUID} {span : RequestSpan}
    (howner : phase.owner = some ownerId) (hspan : proceed c row phase = some span) :
    Commits (Updates c row ownerId) span := by
  cases phase with
  | starting user =>
      obtain rfl := Option.some.inj howner
      obtain rfl := Option.some.inj hspan
      exact owned_writes fun upload => startStorage_writes c upload
  | frozen user manifest =>
      obtain rfl := Option.some.inj howner
      obtain rfl := Option.some.inj hspan
      exact owned_writes fun upload => completeMerging_writes c user upload manifest
  | created user =>
      obtain rfl := Option.some.inj howner
      obtain rfl := Option.some.inj hspan
      exact owned_writes fun upload => completeReady_writes upload
  | discarding ownerId response =>
      obtain rfl := Option.some.inj howner
      obtain rfl := Option.some.inj hspan
      exact owned_commits fun upload => discardStorage_commits upload response
  | answered response => exact absurd hspan nofun

theorem cleanOne_commits (c : Circumstances) (row : Option UploadSession) (ownerId : UUID) :
    Commits (Updates c row ownerId) (cleanOne c.accountExists row ownerId) := by
  have howned : Commits (Updates c row ownerId) (owned c row ownerId >>= fun upload =>
      (if cleanable upload.state = false then pure (.rollback ())
      else do
        MultipartStorage.abort { upload with state := .aborting }
        pure (.commit { upload with state := .aborted } none ()) : Span (SpanEnd Unit))) := by
    refine owned_commits fun upload => ?_
    split
    · exact Commits.rollback _
    · exact Commits.bind _ fun _ => Commits.commit (Keeps.of_state fun h => absurd h (by decide))
  unfold cleanOne
  unfold owned at howned
  cases hfound : getUpload c.accountExists row ownerId with
  | none => exact Commits.rollback _
  | some upload =>
      rw [hfound] at howned
      exact howned

end Spans

/-! ## The end of a transaction -/

/-- The answer of a start that found every slot held. -/
def limitReached : Response :=
  .error 429 s!"at most {maxOpenUploads} unfinished uploads are allowed"

/-- `start` answers so for one reason. -/
theorem start_limitReached {maxUploadBytes : ℤ} {c : Circumstances} {user jobId : UUID}
    {request : StartUpload} {w w' : Outside} {e : RequestError}
    (hrun : start maxUploadBytes c user jobId request w = .error e w')
    (hrefused : errorResponse e = limitReached) :
    c.accountExists = true ∧ maxOpenUploads ≤ c.reserved := by
  unfold start at hrun
  -- The size is checked behind the lock, and answered with another code.
  split at hrun
  · cases hrun
    exact absurd hrefused nofun
  · cases hadd : addUpload c.accountExists c.reserved with
    | ok added =>
        simp only [hadd] at hrun
        exact absurd hrun nofun
    | error refusal =>
        simp only [hadd] at hrun
        cases refusal with
        | notFound =>
            cases hrun
            exact absurd hrefused nofun
        | uploadLimitReached => exact addUpload_limit hadd

/-- A start that returns has added its row. -/
theorem start_ok {maxUploadBytes : ℤ} {c : Circumstances} {user jobId : UUID}
    {request : StartUpload} {w w' : Outside} {r : SpanEnd RequestPhase}
    (hrun : start maxUploadBytes c user jobId request w = .ok r w') :
    r = .commit (newUpload user jobId request c.now) none (.starting user) := by
  unfold start at hrun
  split at hrun
  · exact absurd hrun nofun
  · cases hadd : addUpload c.accountExists c.reserved with
    | ok added =>
        simp only [hadd] at hrun
        cases hrun
        rfl
    | error refusal =>
        simp only [hadd] at hrun
        cases refusal <;> exact absurd hrun nofun

namespace UploadSlots

variable {maxUploadBytes : ℤ} {s t : UploadSlots} {party : ℕ}

/-- What a transaction of the owner may write: over the owner's row, taking no slot, or a new
row below the limit. -/
structure Written (s : UploadSlots) (id ownerId : UUID) (found : Bool)
    (row : Option UploadSession) (reserved : ℕ) (after : UploadSession) : Prop where
  found : found = true
  owner : after.ownerId = ownerId
  slot : (∃ before, row = some before ∧ before.ownerId = ownerId ∧
      (after.state ∈ reservedStates → before.state ∈ reservedStates)) ∨
    s.sessions.lookup id = none ∧ reserved < maxOpenUploads

/-- A transaction ends with its party past it; it has written what it may, or nothing. -/
inductive Ended (s : UploadSlots) (party : ℕ) (id : UUID) (P : UploadSession → Prop) :
    UploadSlots → Prop
  | rolledBack {q : SlotParty} (hq : ¬q.stage.Holds) :
      Ended s party id P ((s.unlock party).move party q)
  | committed {q : SlotParty} {after : UploadSession} (hq : ¬q.stage.Holds) (hafter : P after) :
      Ended s party id P (((s.write id after).unlock party).move party q)

theorem Ended.mono {id : UUID} {P Q : UploadSession → Prop} (hended : Ended s party id P t)
    (hPQ : ∀ after, P after → Q after) : Ended s party id Q t := by
  cases hended with
  | rolledBack hq => exact .rolledBack hq
  | committed hq hafter => exact .committed hq (hPQ _ hafter)

theorem ended_endSpan {ρ : Type} {id : UUID} {outcome : CallOutcome} {outside : Outside}
    {span : Span (SpanEnd ρ)} {next : ρ → SlotParty} {raised : RequestError → SlotParty}
    {P : UploadSession → Prop} (hspan : Commits P span) (hnext : ∀ r, ¬(next r).stage.Holds)
    (hraised : ∀ e, ¬(raised e).stage.Holds) :
    Ended s party id (fun after => P after ∧ outcome ≠ .raisedBefore)
      (s.endSpan party id outcome outside span next raised) := by
  unfold endSpan
  cases hrun : span outside with
  | error e w => exact .rolledBack (hraised e)
  | ok r w =>
      cases r with
      | rollback phase => exact .rolledBack (hnext phase)
      | commit after job phase =>
          have hafter := hspan.ok hrun
          cases outcome with
          | returned => exact .committed (hnext phase) ⟨hafter, nofun⟩
          | raisedBefore => exact .rolledBack (hraised _)
          -- The row is there, whatever the client was told.
          | raisedAfter => exact .committed (hraised _) ⟨hafter, nofun⟩

theorem not_holds_next (p : SlotParty) (phase : RequestPhase) : ¬(p.next phase).stage.Holds := by
  cases phase <;> exact id

theorem insertOutcome_ne {id : UUID} {outcome : CallOutcome}
    (hne : s.insertOutcome id outcome ≠ .raisedBefore) : s.sessions.lookup id = none := by
  unfold insertOutcome at hne
  split at hne
  · exact absurd rfl hne
  · rename_i hnone
    simpa using hnone

/-- The end of a transaction of the owner. -/
theorem ended_finish {p : SlotParty} {c : Circumstances} {outside : Outside}
    {row : Option UploadSession} {ownerId : UUID} (howner : p.task.owner = some ownerId)
    (hfinish : s.finish maxUploadBytes party p c outside row = some t) :
    Ended s party p.id (Written s p.id ownerId c.accountExists row c.reserved) t := by
  have hupdated : ∀ after, Updates c row ownerId after →
      Written s p.id ownerId c.accountExists row c.reserved after := by
    rintro after ⟨hfound, before, hrow, hbefore, hkeeps⟩
    exact ⟨hfound, hkeeps.owner.trans hbefore, .inl ⟨before, hrow, hbefore, hkeeps.slot⟩⟩
  unfold finish at hfinish
  cases htask : p.task with
  | call user request =>
      rw [htask] at howner hfinish
      obtain rfl := Option.some.inj howner
      obtain rfl := Option.some.inj hfinish
      cases request with
      | start jobId request =>
          refine (ended_endSpan (start_commits maxUploadBytes c user jobId request)
            (not_holds_next p) fun _ => id).mono ?_
          rintro after ⟨⟨hfound, howner, hroom⟩, hinserted⟩
          exact ⟨hfound, howner, .inr ⟨insertOutcome_ne hinserted, hroom⟩⟩
      | signParts request =>
          exact (ended_endSpan (owned_writes fun upload => signParts_writes c upload request)
            (not_holds_next p) fun _ => id).mono fun after h => hupdated after h.1
      | complete request =>
          exact (ended_endSpan (owned_writes fun upload => complete_writes c user upload request)
            (not_holds_next p) fun _ => id).mono fun after h => hupdated after h.1
      | resume =>
          exact (ended_endSpan (owned_writes fun upload => resume_writes c upload)
            (not_holds_next p) fun _ => id).mono fun after h => hupdated after h.1
      | abort =>
          exact (ended_endSpan (owned_writes fun upload => abort_writes upload)
            (not_holds_next p) fun _ => id).mono fun after h => hupdated after h.1
  | goOn phase =>
      rw [htask] at howner hfinish
      obtain ⟨span, hspan, rfl⟩ := Option.map_eq_some_iff.mp hfinish
      exact (ended_endSpan (proceed_commits howner hspan) (not_holds_next p)
        fun _ => id).mono fun after h => hupdated after h.1
  | cleaning ownerId =>
      rw [htask] at howner hfinish
      obtain rfl := Option.some.inj howner
      obtain rfl := Option.some.inj hfinish
      exact (ended_endSpan (cleanOne_commits c row ownerId) (fun _ => id)
        fun _ => id).mono fun after h => hupdated after h.1

/-! ## The invariant -/

/-- What a party has read under the lock of an owner is still so. -/
structure Current (sessions : UploadTable) (id ownerId : UUID) (row : Option UploadSession)
    (reserved : ℕ) : Prop where
  count : reserved = reservedUploads sessions ownerId
  row : ∀ upload, row = some upload → upload.ownerId = ownerId →
    sessions.lookup id = some upload

structure SlotInvariant (s : UploadSlots) : Prop where
  bounded : ∀ ownerId, reservedUploads s.sessions ownerId ≤ maxOpenUploads
  holder : ∀ party p, s.parties.lookup party = some p → ∀ ownerId,
    p.task.owner = some ownerId → p.stage.Holds → s.locks ownerId = some party
  current : ∀ party p, s.parties.lookup party = some p → ∀ ownerId row reserved,
    p.task.owner = some ownerId → p.stage = .read true row reserved →
      Current s.sessions p.id ownerId row reserved

namespace SlotInvariant

/-- A party that holds no lock has come or moved. -/
theorem move (hs : s.SlotInvariant) {p : SlotParty} (hp : ¬p.stage.Holds) :
    (s.move party p).SlotInvariant where
  bounded := hs.bounded
  holder := by
    refine Parties.forall_insert (fun other q _ => hs.holder other q) ?_
    exact fun ownerId _ hholds => absurd hholds hp
  current := by
    refine Parties.forall_insert (fun other q _ => hs.current other q) ?_
    intro ownerId row reserved _ hstage
    rw [hstage] at hp
    exact absurd rfl hp

/-- The party has got the lock. -/
theorem lock (hs : s.SlotInvariant) {ownerId : UUID} {p : SlotParty}
    (hfree : s.locks ownerId = none) (howner : p.task.owner = some ownerId)
    (hp : p.stage = .locked true) :
    ({ s with locks := Function.update s.locks ownerId (some party) }.move party p).SlotInvariant
    where
  bounded := hs.bounded
  holder := by
    refine Parties.forall_insert ?_ ?_
    · intro other q _ hq otherId hother hholds
      have hlocked := hs.holder other q hq otherId hother hholds
      -- The lock was free, so that none of the others held it.
      have hne : otherId ≠ ownerId := by
        rintro rfl
        rw [hfree] at hlocked
        exact absurd hlocked nofun
      exact (Function.update_of_ne hne _ s.locks).trans hlocked
    · intro otherId hother _
      obtain rfl := Option.some.inj (howner.symm.trans hother)
      exact Function.update_self ownerId _ s.locks
  current := by
    refine Parties.forall_insert (fun other q _ => hs.current other q) ?_
    intro otherId row reserved _ hstage
    rw [hp] at hstage
    exact absurd hstage nofun

/-- The party reads what there is. -/
theorem read (hs : s.SlotInvariant) {id ownerId : UUID} {task : SlotTask} {found : Bool}
    (hparty : s.parties.lookup party = some ⟨id, task, .locked found⟩)
    (howner : task.owner = some ownerId) :
    (s.move party ⟨id, task, .read found (s.sessions.lookup id)
      (reservedUploads s.sessions ownerId)⟩).SlotInvariant where
  bounded := hs.bounded
  holder := by
    refine Parties.forall_insert (fun other q _ => hs.holder other q) ?_
    exact fun otherId hother hholds => hs.holder party _ hparty otherId hother hholds
  current := by
    refine Parties.forall_insert (fun other q _ => hs.current other q) ?_
    intro otherId row reserved hother hstage
    obtain rfl := Option.some.inj (howner.symm.trans hother)
    obtain ⟨-, rfl, rfl⟩ := SlotStage.read.inj hstage
    exact ⟨rfl, fun upload hrow _ => hrow⟩

/-- The transaction of the party ends; nobody else's lock goes with it. -/
theorem unlock (hs : s.SlotInvariant) {p : SlotParty} (hp : ¬p.stage.Holds) :
    ((s.unlock party).move party p).SlotInvariant where
  bounded := hs.bounded
  holder := by
    refine Parties.forall_insert ?_ fun ownerId _ hholds => absurd hholds hp
    intro other q hne hq ownerId howner hholds
    have hlocked := hs.holder other q hq ownerId howner hholds
    exact Option.filter_eq_some_iff.mpr ⟨hlocked, decide_eq_true hne⟩
  current := by
    refine Parties.forall_insert (fun other q _ => hs.current other q) ?_
    intro ownerId row reserved _ hstage
    rw [hstage] at hp
    exact absurd rfl hp

end SlotInvariant

section Written

variable {id ownerId : UUID} {found : Bool} {row : Option UploadSession} {reserved : ℕ}
  {after : UploadSession}

/-- No write takes a slot beyond the limit. -/
theorem Written.bounded (hs : s.SlotInvariant)
    (hcurrent : Current s.sessions id ownerId row reserved)
    (hwritten : Written s id ownerId found row reserved after) :
    reservedUploads (s.write id after).sessions ownerId ≤ maxOpenUploads := by
  obtain ⟨before, hrow, hbefore, hslot⟩ | ⟨hnone, hroom⟩ := hwritten.slot
  -- Over the row that was read: if it takes a slot now, it took one before.
  · have hlookup := hcurrent.row before hrow hbefore
    refine Nat.le_trans (Parties.count_insert_le_of_lookup hlookup fun hafter => ?_)
      (hs.bounded ownerId)
    exact decide_eq_true ⟨hbefore, hslot (of_decide_eq_true hafter).2⟩
  -- A new row: under the lock the count it was let in by is still the count.
  · have hcount := hcurrent.count
    have hone : reservedUploads (s.write id after).sessions ownerId ≤
        reservedUploads s.sessions ownerId + 1 := Parties.count_insert_le hnone
    omega

/-- A write leaves the slots of other owners as they are. -/
theorem Written.others (hcurrent : Current s.sessions id ownerId row reserved)
    (hwritten : Written s id ownerId found row reserved after) {other : UUID}
    (hne : other ≠ ownerId) :
    reservedUploads (s.write id after).sessions other = reservedUploads s.sessions other := by
  have hafter : decide (after.ownerId = other ∧ after.state ∈ reservedStates) = false :=
    decide_eq_false fun h => hne (h.1.symm.trans hwritten.owner)
  obtain ⟨before, hrow, hbefore, -⟩ | ⟨hnone, -⟩ := hwritten.slot
  · refine Parties.count_insert_eq_of_lookup (hcurrent.row before hrow hbefore) ?_
    rw [hafter]
    exact (decide_eq_false fun h => hne (h.1.symm.trans hbefore)).symm
  · exact Parties.count_insert_eq_of_none hnone hafter

/-- What another party has read under another owner's lock stays so. -/
theorem Written.current (hcurrent : Current s.sessions id ownerId row reserved)
    (hwritten : Written s id ownerId found row reserved after) {other : UUID}
    (hne : other ≠ ownerId) {otherId : UUID} {otherRow : Option UploadSession}
    {otherReserved : ℕ} (hother : Current s.sessions otherId other otherRow otherReserved) :
    Current (s.write id after).sessions otherId other otherRow otherReserved := by
  refine ⟨hother.count.trans (hwritten.others hcurrent hne).symm, ?_⟩
  intro upload hrow howner
  have hlookup := hother.row upload hrow howner
  refine (AList.lookup_insert_ne ?_).trans hlookup
  -- The row that is written is of the other owner, or there was none.
  rintro rfl
  obtain ⟨before, hmine, hbefore, -⟩ | ⟨hnone, -⟩ := hwritten.slot
  · obtain rfl := Option.some.inj (hlookup.symm.trans (hcurrent.row before hmine hbefore))
    exact hne (howner.symm.trans hbefore)
  · rw [hnone] at hlookup
    exact absurd hlookup nofun

end Written

/-- A transaction that ends keeps the invariant: only one of the owner is past the lock. -/
theorem SlotInvariant.ended (hs : s.SlotInvariant) {p : SlotParty} {found : Bool}
    {row : Option UploadSession} {reserved : ℕ} {ownerId : UUID}
    (hparty : s.parties.lookup party = some p) (hstage : p.stage = .read found row reserved)
    (howner : p.task.owner = some ownerId)
    (hended : Ended s party p.id (Written s p.id ownerId found row reserved) t) :
    t.SlotInvariant := by
  cases hended with
  | rolledBack hq => exact hs.unlock hq
  | @committed q after hq hwritten =>
      obtain rfl := hwritten.found
      have hcurrent := hs.current party p hparty ownerId row reserved howner hstage
      have hlocked := hs.holder party p hparty ownerId howner (by rw [hstage]; rfl)
      refine ⟨?_, (hs.unlock hq).holder, ?_⟩
      · intro other
        by_cases hother : other = ownerId
        · subst hother
          exact hwritten.bounded hs hcurrent
        · exact (hwritten.others hcurrent hother).trans_le (hs.bounded other)
      · refine Parties.forall_insert ?_ ?_
        · intro other r hne hr otherOwner otherRow otherReserved hotherOwner hotherStage
          have hotherLocked := hs.holder other r hr otherOwner hotherOwner
            (by rw [hotherStage]; rfl)
          -- The lock of this owner is held by the party that ends.
          have hapart : otherOwner ≠ ownerId := by
            rintro rfl
            exact hne (Option.some.inj (hotherLocked.symm.trans hlocked))
          exact hwritten.current hcurrent hapart
            (hs.current other r hr otherOwner otherRow otherReserved hotherOwner hotherStage)
        · intro otherOwner otherRow otherReserved _ hotherStage
          rw [hotherStage] at hq
          exact absurd rfl hq

theorem SlotInvariant.step (hs : s.SlotInvariant) {a : SlotAction}
    (hstep : UploadSlots.step maxUploadBytes s a = some t) : t.SlotInvariant := by
  cases a with
  | call party id user request =>
      obtain ⟨-, hsome⟩ := Option.ite_none_right_eq_some.mp hstep
      obtain rfl := Option.some.inj hsome
      exact hs.move fun hholds => hholds
  | select party id now =>
      simp only [UploadSlots.step] at hstep
      split at hstep
      · obtain ⟨-, hsome⟩ := Option.ite_none_right_eq_some.mp hstep
        obtain rfl := Option.some.inj hsome
        exact hs.move fun hholds => hholds
      · exact absurd hstep nofun
  | lock party found =>
      simp only [UploadSlots.step] at hstep
      split at hstep
      · rename_i id task hparty
        split at hstep
        · split at hstep
          · exact absurd hstep nofun
          · rename_i ownerId howner
            obtain ⟨hfree, hsome⟩ := Option.ite_none_right_eq_some.mp hstep
            obtain rfl := Option.some.inj hsome
            exact hs.lock hfree howner rfl
        · obtain rfl := Option.some.inj hstep
          exact hs.move nofun
      · exact absurd hstep nofun
  | read party =>
      simp only [UploadSlots.step] at hstep
      split at hstep
      · rename_i id task found hparty
        split at hstep
        · exact absurd hstep nofun
        · rename_i ownerId howner
          obtain rfl := Option.some.inj hstep
          exact hs.read hparty howner
      · exact absurd hstep nofun
  | finish party c outside =>
      simp only [UploadSlots.step] at hstep
      split at hstep
      · rename_i id task found row reserved hparty
        cases howner : task.owner with
        | some ownerId => exact hs.ended hparty rfl howner (ended_finish howner hstep)
        | none =>
            -- A request that was answered has no transaction left.
            cases task with
            | call user request => exact absurd howner nofun
            | goOn phase =>
                cases phase with
                | answered response => exact absurd hstep nofun
                | starting user | frozen user manifest | created user | discarding user response =>
                    exact absurd howner nofun
            | cleaning ownerId => exact absurd howner nofun
      · exact absurd hstep nofun

theorem slotInvariant_of_reachable (hreach : (slotSystem maxUploadBytes).Reachable s) :
    s.SlotInvariant := by
  refine hreach.invariant SlotInvariant ?_ fun _ _ _ _ hs _ hstep => hs.step hstep
  rintro s rfl
  refine ⟨fun _ => Nat.zero_le _, ?_, ?_⟩
  · intro party p hparty
    exact absurd hparty nofun
  · intro party p hparty
    exact absurd hparty nofun

/-! ## Refusals -/

/-- The start of the party was refused for the limit. -/
def Refused (s : UploadSlots) (party : ℕ) (user : UUID) : Prop :=
  ∃ id jobId request, s.parties.lookup party =
    some ⟨id, .call user (.start jobId request), .answered (some limitReached)⟩

/-- A party that moves to anything but an answer is not refused by it. -/
theorem Refused.of_move {other : ℕ} {user : UUID} {p : SlotParty}
    (hrefused : (s.move other p).Refused party user)
    (hp : ∀ response, p.stage ≠ .answered response) : s.Refused party user := by
  obtain ⟨id, jobId, request, hlookup⟩ := hrefused
  by_cases hother : party = other
  · subst hother
    obtain rfl := Option.some.inj ((AList.lookup_insert _).symm.trans hlookup)
    exact absurd rfl (hp _)
  · exact ⟨id, jobId, request, (AList.lookup_insert_ne hother).symm.trans hlookup⟩

/-- At the end of a transaction its own party moves only; a request goes on with its task, or
with what it had to do after a commit. -/
theorem endSpan_parties {ρ : Type} {id : UUID} {outcome : CallOutcome} {outside : Outside}
    {span : Span (SpanEnd ρ)} {next : ρ → SlotParty} {raised : RequestError → SlotParty}
    {P : SlotParty → Prop} (hnext : ∀ r, P (next r)) (hraised : ∀ e, P (raised e)) :
    ∃ q, P q ∧ (s.endSpan party id outcome outside span next raised).parties =
      s.parties.insert party q := by
  unfold endSpan
  cases span outside with
  | error e w => exact ⟨_, hraised e, rfl⟩
  | ok r w =>
      cases r with
      | rollback phase => exact ⟨_, hnext phase, rfl⟩
      | commit after job phase =>
          cases outcome with
          | returned => exact ⟨_, hnext phase, rfl⟩
          | raisedBefore | raisedAfter => exact ⟨_, hraised _, rfl⟩

theorem finish_parties {p : SlotParty} {c : Circumstances} {outside : Outside}
    {row : Option UploadSession}
    (hfinish : s.finish maxUploadBytes party p c outside row = some t) :
    ∃ q, (q.task = p.task ∨ ∃ phase, q.task = .goOn phase) ∧
      t.parties = s.parties.insert party q := by
  have hnext : ∀ phase, (p.next phase).task = p.task ∨
      ∃ later, (p.next phase).task = .goOn later := by
    intro phase
    cases phase with
    | answered response => exact .inl rfl
    | starting user | frozen user manifest | created user | discarding user response =>
        exact .inr ⟨_, rfl⟩
  unfold finish at hfinish
  split at hfinish
  · obtain rfl := Option.some.inj hfinish
    exact endSpan_parties hnext fun _ => .inl rfl
  · obtain ⟨span, -, rfl⟩ := Option.map_eq_some_iff.mp hfinish
    exact endSpan_parties hnext fun _ => .inl rfl
  · obtain rfl := Option.some.inj hfinish
    exact endSpan_parties (fun _ => .inl rfl) fun _ => .inl rfl

/-- The end of a start that is refused now. -/
theorem refused_endSpan {id user jobId : UUID} {request : StartUpload} {c : Circumstances}
    {outcome : CallOutcome} {outside : Outside} {p q : SlotParty}
    (hq : q.stage = .answered (some limitReached))
    (hend : (s.endSpan party id outcome outside (start maxUploadBytes c user jobId request) p.next
      p.raised).parties.lookup party = some q) :
    c.accountExists = true ∧ maxOpenUploads ≤ c.reserved ∧
      (s.endSpan party id outcome outside (start maxUploadBytes c user jobId request) p.next
        p.raised).sessions = s.sessions := by
  unfold endSpan at hend ⊢
  cases hrun : start maxUploadBytes c user jobId request outside with
  | error e w =>
      simp only [hrun] at hend
      obtain rfl := Option.some.inj ((AList.lookup_insert _).symm.trans hend)
      have hanswer : errorResponse e = limitReached :=
        Option.some.inj (SlotStage.answered.inj hq)
      obtain ⟨hfound, hheld⟩ := start_limitReached hrun hanswer
      exact ⟨hfound, hheld, rfl⟩
  | ok r w =>
      obtain rfl := start_ok hrun
      simp only [hrun] at hend
      obtain rfl := Option.some.inj ((AList.lookup_insert _).symm.trans hend)
      cases outcome with
      | returned => exact absurd hq nofun
      | raisedBefore | raisedAfter => exact absurd hq nofun

/-- A start is only refused for the limit while that many slots are held. -/
theorem held_of_refused (hs : s.SlotInvariant) {a : SlotAction} {user : UUID}
    (hstep : step maxUploadBytes s a = some t) (hrefused : t.Refused party user) :
    s.Refused party user ∨
      (reservedUploads s.sessions user = maxOpenUploads ∧
        reservedUploads t.sessions user = maxOpenUploads) := by
  cases a with
  | call other id otherUser request =>
      obtain ⟨-, hsome⟩ := Option.ite_none_right_eq_some.mp hstep
      obtain rfl := Option.some.inj hsome
      exact .inl (hrefused.of_move nofun)
  | select other id now =>
      simp only [step] at hstep
      split at hstep
      · obtain ⟨-, hsome⟩ := Option.ite_none_right_eq_some.mp hstep
        obtain rfl := Option.some.inj hsome
        exact .inl (hrefused.of_move nofun)
      · exact absurd hstep nofun
  | lock other found =>
      simp only [step] at hstep
      split at hstep
      · split at hstep
        · split at hstep
          · exact absurd hstep nofun
          · obtain ⟨-, hsome⟩ := Option.ite_none_right_eq_some.mp hstep
            obtain rfl := Option.some.inj hsome
            exact .inl (Refused.of_move (s := { s with locks := _ }) hrefused nofun)
        · obtain rfl := Option.some.inj hstep
          exact .inl (hrefused.of_move nofun)
      · exact absurd hstep nofun
  | read other =>
      simp only [step] at hstep
      split at hstep
      · split at hstep
        · exact absurd hstep nofun
        · obtain rfl := Option.some.inj hstep
          exact .inl (hrefused.of_move nofun)
      · exact absurd hstep nofun
  | finish other c outside =>
      simp only [step] at hstep
      split at hstep
      · rename_i id task found row reserved hparty
        obtain ⟨q, htask, hparties⟩ := finish_parties hstep
        obtain ⟨refusedId, jobId, request, hlookup⟩ := hrefused
        rw [hparties] at hlookup
        by_cases hother : party = other
        · subst hother
          obtain rfl := Option.some.inj ((AList.lookup_insert _).symm.trans hlookup)
          obtain htask | ⟨phase, htask⟩ := htask
          · -- This is the transaction that counted.
            dsimp only at htask
            subst htask
            obtain rfl := Option.some.inj hstep
            obtain ⟨rfl, hheld, hsessions⟩ := refused_endSpan rfl
              ((congrArg (AList.lookup party) hparties).trans hlookup)
            have hcurrent := hs.current party _ hparty user row reserved rfl rfl
            have hbounded := hs.bounded user
            have hcount := hcurrent.count
            replace hheld : maxOpenUploads ≤ reserved := hheld
            have hfull : reservedUploads s.sessions user = maxOpenUploads := by omega
            exact .inr ⟨hfull, (congrArg (reservedUploads · user) hsessions).trans hfull⟩
          · exact absurd htask nofun
        · exact .inl ⟨refusedId, jobId, request,
            (AList.lookup_insert_ne hother).symm.trans hlookup⟩
      · exact absurd hstep nofun

/-- No owner ever holds more slots than the limit, however the transactions of any number of
starts, completions, aborts and cleanups meet at the lock, and when a start is refused for the
limit that many are held. -/
theorem upload_slots_bounded (maxUploadBytes : ℤ) (s : UploadSlots)
    (hreach : (slotSystem maxUploadBytes).Reachable s) :
    (∀ ownerId, reservedUploads s.sessions ownerId ≤ maxOpenUploads) ∧
    ∀ a t party user, step maxUploadBytes s a = some t → ¬s.Refused party user →
      t.Refused party user →
        reservedUploads s.sessions user = maxOpenUploads ∧
          reservedUploads t.sessions user = maxOpenUploads := by
  have hs := slotInvariant_of_reachable hreach
  refine ⟨hs.bounded, ?_⟩
  intro a t party user hstep hbefore hrefused
  exact (held_of_refused hs hstep hrefused).resolve_left hbefore

/-- A start of a small file. -/
def smallStart : StartUpload where
  filename := "film.mp4"
  size := 24
  filenameLength := by decide
  sizeBounds := by decide
  maxFpsLiteral := defaultMaxFps_literal

/-- The first transaction of a start of the user `1`. -/
def startActions (party : ℕ) : List SlotAction :=
  [.call party party 1 (.start (100 + party) smallStart), .lock party true, .read party,
    .finish party { now := 0 } ⟨{}, [], [], []⟩]

/-- Five starts go through; a sixth has counted. -/
def sixStarts : List SlotAction :=
  (List.range 5).flatMap startActions ++ (startActions 5).take 3

theorem upload_slots_bounded_six : ∃ s t, (slotSystem 100).Reachable s ∧
    step 100 s (.finish 5 { now := 0 } ⟨{}, [], [], []⟩) = some t ∧ t.Refused 5 1 ∧
    reservedUploads t.sessions 1 = maxOpenUploads := by
  have hcounted : ((slotSystem 100).run {} sixStarts).bind (fun s => s.parties.lookup 5) =
      some ⟨5, .call 1 (.start 105 smallStart), .read true none 5⟩ := rfl
  have hanswered : (((slotSystem 100).run {} sixStarts).bind fun s =>
      step 100 s (.finish 5 { now := 0 } ⟨{}, [], [], []⟩)).bind (fun t => t.parties.lookup 5) =
      some ⟨5, .call 1 (.start 105 smallStart), .answered (some limitReached)⟩ := rfl
  obtain ⟨t, ht, hlookup⟩ := Option.bind_eq_some_iff.mp hanswered
  obtain ⟨s, hrun, hstep⟩ := Option.bind_eq_some_iff.mp ht
  have hreach : (slotSystem 100).Reachable s :=
    StepSystem.Reachable.of_run (M := slotSystem 100) (.init rfl) hrun
  have hbefore : ¬s.Refused 5 1 := by
    rintro ⟨id, jobId, request, hrefused⟩
    rw [hrun, Option.bind_some, hrefused] at hcounted
    exact absurd hcounted nofun
  have hrefused : t.Refused 5 1 := ⟨5, 105, smallStart, hlookup⟩
  exact ⟨s, t, hreach, hstep, hrefused,
    ((upload_slots_bounded 100 s hreach).2 _ t 5 1 hstep hbefore hrefused).2⟩

end UploadSlots

end Api
end MediaPlayer
