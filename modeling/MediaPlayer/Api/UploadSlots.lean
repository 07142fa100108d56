import MediaPlayer.Api.UploadSpans

/-!
# Requests on the sessions of many owners

Every transaction on an upload session begins with `lock_owner`, whose row it keeps locked
until it ends, then reads what it needs, and commits or rolls back in the end.  These three are
actions of their own here, so that transactions of one owner meet at the lock only, and those of
different owners not at all.  The lock on the session itself is only asked for under the owner's.
A span is what a transaction does between its read and its end.

* `SlotParty` — a request or a cleanup, and how far its transaction is.
* `slotSystem` — any number of parties on any number of sessions.
-/

namespace MediaPlayer
namespace Api

open Library Models Repositories Schemas Services

/-- What a transaction is for. -/
inductive SlotTask
  /-- The first transaction of a request. -/
  | call (user : UUID) (request : ApiCall)
  /-- A request goes on after a commit. -/
  | goOn (phase : RequestPhase)
  /-- `cleanup_expired` on one candidate. -/
  | cleaning (ownerId : UUID)

/-- The owner whose row `lock_owner` asks for. -/
def RequestPhase.owner : RequestPhase → Option UUID
  | .starting user | .frozen user _ | .created user => some user
  | .discarding ownerId _ => some ownerId
  | .answered _ => none

def SlotTask.owner : SlotTask → Option UUID
  | .call user _ => some user
  | .goOn phase => phase.owner
  | .cleaning ownerId => some ownerId

/-- How far a transaction is. -/
inductive SlotStage
  /-- Before the lock. -/
  | waiting
  /-- `lock_owner` has returned an account, whose row is locked, or nothing. -/
  | locked (found : Bool)
  /-- The row of the session, and the count of `add_upload`. -/
  | read (found : Bool) (row : Option UploadSession) (reserved : ℕ)
  /-- The party is done; a request with its answer. -/
  | answered (response : Option Response)

/-- The transaction has the owner's row locked. -/
def SlotStage.Holds : SlotStage → Prop
  | .locked found | .read found _ _ => found = true
  | .waiting | .answered _ => False

structure SlotParty where
  /-- The id of the session. -/
  id : UUID
  task : SlotTask
  stage : SlotStage := .waiting

/-- Where a request goes on. -/
def SlotParty.next (p : SlotParty) : RequestPhase → SlotParty
  | .answered response => { p with stage := .answered (some response) }
  | phase => { p with task := .goOn phase, stage := .waiting }

/-- What a request raises is answered. -/
def SlotParty.raised (p : SlotParty) (e : RequestError) : SlotParty :=
  { p with stage := .answered (some (errorResponse e)) }

/-- A cleanup is done with its candidate, whether or not it raised. -/
def SlotParty.cleaned (p : SlotParty) : SlotParty := { p with stage := .answered none }

structure UploadSlots where
  sessions : UploadTable := ∅
  /-- The party whose transaction has the row of an owner locked. -/
  locks : UUID → Option ℕ := fun _ => none
  parties : Parties ℕ SlotParty := ∅

inductive SlotAction
  /-- A new request, on the session with this id. -/
  | call (party : ℕ) (id user : UUID) (request : ApiCall)
  /-- A cleanup pass selects an expired session. -/
  | select (party : ℕ) (id : UUID) (now : Timestamp)
  /-- `lock_owner` returns. -/
  | lock (party : ℕ) (found : Bool)
  /-- The select of a transaction. -/
  | read (party : ℕ)
  /-- The rest of a transaction, which may meet anything in the store. -/
  | finish (party : ℕ) (c : Circumstances) (outside : Outside)

namespace UploadSlots

/-- A party has moved. -/
def move (s : UploadSlots) (party : ℕ) (p : SlotParty) : UploadSlots :=
  { s with parties := s.parties.insert party p }

/-- The transaction of a party has ended. -/
def unlock (s : UploadSlots) (party : ℕ) : UploadSlots :=
  { s with locks := fun ownerId => (s.locks ownerId).filter (· ≠ party) }

/-- The row is written. -/
def write (s : UploadSlots) (id : UUID) (upload : UploadSession) : UploadSlots :=
  { s with sessions := s.sessions.insert id upload }

/-- How the commit of a new row ends: an id that is taken violates the primary key. -/
def insertOutcome (s : UploadSlots) (id : UUID) (outcome : CallOutcome) : CallOutcome :=
  if (s.sessions.lookup id).isSome then .raisedBefore else outcome

/-- The end of a transaction. -/
def endSpan {ρ : Type} (s : UploadSlots) (party : ℕ) (id : UUID) (outcome : CallOutcome)
    (outside : Outside) (span : Span (SpanEnd ρ)) (next : ρ → SlotParty)
    (raised : RequestError → SlotParty) : UploadSlots :=
  match span outside with
  | .error e _ => (s.unlock party).move party (raised e)
  | .ok (.rollback phase) _ => (s.unlock party).move party (next phase)
  | .ok (.commit upload _ phase) _ =>
      ((outcome.effect (fun s => s.write id upload) s).unlock party).move party
        (outcome.next (next phase) (raised .connectionError))

/-- The rest of a transaction after its read. -/
def finish (maxUploadBytes : ℤ) (s : UploadSlots) (party : ℕ) (p : SlotParty)
    (c : Circumstances) (outside : Outside) (row : Option UploadSession) : Option UploadSlots :=
  match p.task with
  | .call user request =>
      -- Only `start` inserts a row.
      let outcome := match request with
        | .start _ _ => s.insertOutcome p.id c.commit
        | .signParts _ | .complete _ | .resume | .abort => c.commit
      some (s.endSpan party p.id outcome outside (begin maxUploadBytes c row user request)
        p.next p.raised)
  | .goOn phase =>
      (proceed c row phase).map fun span =>
        s.endSpan party p.id c.commit outside span p.next p.raised
  | .cleaning ownerId =>
      some (s.endSpan party p.id c.commit outside (cleanOne c.accountExists row ownerId)
        (fun _ => p.cleaned) fun _ => p.cleaned)

/-- One atomic step. -/
def step (maxUploadBytes : ℤ) (s : UploadSlots) : SlotAction → Option UploadSlots
  | .call party id user request =>
      if (s.parties.lookup party).isNone then
        some (s.move party { id := id, task := .call user request })
      else none
  | .select party id now =>
      match s.parties.lookup party, s.sessions.lookup id with
      | none, some upload =>
          if expired now upload then
            some (s.move party { id := id, task := .cleaning upload.ownerId })
          else none
      | _, _ => none
  | .lock party found =>
      match s.parties.lookup party with
      | some ⟨id, task, .waiting⟩ =>
          if found then
            match task.owner with
            | none => none
            | some ownerId =>
                if s.locks ownerId = none then
                  some ({ s with locks := Function.update s.locks ownerId (some party) }.move party
                    ⟨id, task, .locked true⟩)
                else none
          else some (s.move party ⟨id, task, .locked false⟩)
      | _ => none
  | .read party =>
      match s.parties.lookup party with
      | some ⟨id, task, .locked found⟩ =>
          match task.owner with
          | none => none
          | some ownerId =>
              some (s.move party ⟨id, task, .read found (s.sessions.lookup id)
                (reservedUploads s.sessions ownerId)⟩)
      | _ => none
  | .finish party c outside =>
      match s.parties.lookup party with
      | some ⟨id, task, .read found row reserved⟩ =>
          s.finish maxUploadBytes party ⟨id, task, .read found row reserved⟩
            -- What was read under the lock is what the checks see.
            { c with accountExists := found, reserved := reserved } outside row
      | _ => none

end UploadSlots

/-- Nobody has asked for anything, and there are no sessions. -/
def slotSystem (maxUploadBytes : ℤ) : StepSystem UploadSlots SlotAction where
  init s := s = {}
  step := UploadSlots.step maxUploadBytes

end Api
end MediaPlayer
