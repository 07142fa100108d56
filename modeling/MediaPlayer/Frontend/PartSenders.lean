import MediaPlayer.Library.StepSystem

/-!
# The senders of an upload

`sendParts` of `frontend/app.js` with the functions it awaits, and the Cancel slot around it:
up to three loops share a cursor into the parts that are missing and the array of ETags.
Between two awaits a loop runs undisturbed, so that an action of `sendSystem` is what one loop
does from one await to the next, with the answer it waited for.

* `transferStep` — the loops, the settling of `Promise.all` and `cancelUpload`.
* `SendState.startPut` — a fetch whose signal is aborted sends nothing.
-/

namespace MediaPlayer
namespace Frontend

open Library

/-! ## One part -/

/-- What `POST /uploads/{id}/parts` comes back with. -/
inductive SignAnswer
  | unreachable (message : String)
  | refused (status : ℕ) (error : Option String)
  /-- `data.urls`, by the part's number as it is printed. -/
  | signed (urls : String → Option String)

/-- What storage answers to a part. -/
structure PutResponse where
  status : ℕ
  /-- The header, when the bucket's CORS rules expose it. -/
  etag : Option String
  deriving DecidableEq

/-- `res.ok`. -/
def PutResponse.ok (response : PutResponse) : Bool :=
  200 ≤ response.status ∧ response.status < 300

/-- Why a loop ends before its parts do. -/
inductive SendError
  | uploadCancelled
  /-- An `Error` with its message. -/
  | failed (message : String)
  deriving DecidableEq

/-- `signPart`. -/
def signPart (number : ℕ) : SignAnswer → Except SendError String
  | .unreachable message => .error (.failed message)
  | .refused status error => .error (.failed (error.getD s!"HTTP {status}"))
  | .signed urls =>
      match (urls (toString number)).filter (· ≠ "") with
      | none => .error (.failed s!"the API did not sign part {number}")
      | some url => .ok url

/-- `PART_ATTEMPTS`. -/
def partAttempts : ℕ := 3

def isWorthRetrying (status : ℕ) : Bool := 500 ≤ status ∨ status = 408 ∨ status = 429

/-- `putPart`, from the response on. -/
def putPart (response : PutResponse) : Except SendError String :=
  if ¬response.ok then .error (.failed s!"storage rejected a part (HTTP {response.status})")
  else
    match response.etag.filter (· ≠ "") with
    | none => .error (.failed ("storage did not expose the part\u0027s ETag " ++
        "(the bucket\u0027s CORS must list it)"))
    | some etag => .ok etag

/-! ## The transfer -/

/-- What `sendParts` is called with. -/
structure Transfer where
  partSize : ℕ
  partCount : ℕ
  fileSize : ℕ
  /-- `held.get`. -/
  held : ℕ → Option String

/-- `PARTS_IN_FLIGHT`. -/
def partsInFlight : ℕ := 3

namespace Transfer

/-- `todo`. -/
def todo (transfer : Transfer) : List ℕ :=
  (List.range' 1 transfer.partCount).filter fun n => (transfer.held n).isNone

/-- `sends`. -/
def sends (transfer : Transfer) : ℕ := min partsInFlight transfer.todo.length

end Transfer

/-- A PUT that has begun: its part, where it goes and the slice of the file it carries. -/
structure PartPut where
  number : ℕ
  url : String
  start : ℕ
  stop : ℕ
  deriving DecidableEq

/-- Where a loop stands. -/
inductive SendPhase
  /-- About to look for the next part. -/
  | looping
  /-- Waiting for the URL of a part. -/
  | signing (number : ℕ)
  /-- Waiting for storage. -/
  | putting (number attempt : ℕ) (url : String)
  /-- Waiting for a fetch whose signal was aborted before it began. -/
  | refused (number attempt : ℕ) (url : String)
  | pausing (number attempt : ℕ) (url : String)
  /-- `putPartWithRetries` has returned. -/
  | answered (number : ℕ) (response : PutResponse)
  /-- `putPart` has returned. -/
  | tagged (number : ℕ) (etag : String)
  | finished
  | failed (error : SendError)
  deriving DecidableEq

/-- One entry of the manifest. -/
structure ManifestPart where
  n : ℕ
  etag : Option String
  deriving DecidableEq

/-- `sendParts` in flight, and the Cancel slot. -/
structure SendState where
  next : ℕ
  etags : ℕ → Option String
  phase : ℕ → SendPhase
  /-- `control.cancelled`; the signal is aborted at the same moment. -/
  cancelled : Bool := false
  /-- `activeUpload` is this transfer's control. -/
  active : Bool := true
  /-- How `sendParts` has ended. -/
  settled : Option (Except SendError (List ManifestPart)) := none
  /-- The parts a URL was asked for, the PUTs that began, and what storage answered. -/
  signs : List ℕ := []
  puts : List PartPut := []
  answers : List (ℕ × PutResponse) := []

namespace SendState

variable (transfer : Transfer)

/-- Loop `i` gets to this phase. -/
def move (s : SendState) (i : ℕ) (phase : SendPhase) : SendState :=
  { s with phase := Function.update s.phase i phase }

/-- The `fetch` of `putPartWithRetries`, with the slice that `sendOne` cut. -/
def startPut (s : SendState) (i number attempt : ℕ) (url : String) : SendState :=
  if s.cancelled then s.move i (.refused number attempt url)
  else
    let start := (number - 1) * transfer.partSize
    { s.move i (.putting number attempt url) with
      puts := s.puts ++
        [⟨number, url, start, min (start + transfer.partSize) transfer.fileSize⟩] }

/-- The head of the loop of `sendOne`. -/
def loop (s : SendState) (i : ℕ) : SendState :=
  match transfer.todo[s.next]? with
  | none => s.move i .finished
  | some number =>
      if s.cancelled then s.move i (.failed .uploadCancelled)
      else { s.move i (.signing number) with next := s.next + 1, signs := s.signs ++ [number] }

/-- What `sendParts` returns. -/
def manifest (s : SendState) : List ManifestPart :=
  (List.range transfer.partCount).map fun index => ⟨index + 1, s.etags index⟩

end SendState

inductive SendAction
  /-- A loop goes on with what it has. -/
  | go (i : ℕ)
  | sign (i : ℕ) (answer : SignAnswer)
  | respond (i : ℕ) (response : PutResponse)
  /-- A PUT is rejected: the connection dropped, or the signal was aborted. -/
  | drop (i : ℕ) (message : String)
  /-- The pause before another attempt is over. -/
  | wake (i : ℕ)
  /-- `Promise.all` resolves. -/
  | resolve
  /-- `Promise.all` rejects with the error of a loop. -/
  | reject (i : ℕ)
  /-- `cancelUpload`. -/
  | cancel

open SendState in
/-- One action.  When `sendParts` settles, `transferParts` clears the slot. -/
def transferStep (transfer : Transfer) (s : SendState) : SendAction → Option SendState
  | .go i =>
      match s.phase i with
      | .looping => some (s.loop transfer i)
      | .answered number response =>
          match putPart response with
          | .error error => some (s.move i (.failed error))
          | .ok etag => some (s.move i (.tagged number etag))
      | .tagged number etag => some
          { s.move i .looping with etags := Function.update s.etags (number - 1) (some etag) }
      | _ => none
  | .sign i answer =>
      match s.phase i with
      | .signing number =>
          match signPart number answer with
          | .error error => some (s.move i (.failed error))
          | .ok url => some (s.startPut transfer i number 1 url)
      | _ => none
  | .respond i response =>
      match s.phase i with
      | .putting number attempt url =>
          let s := { s with answers := s.answers ++ [(number, response)] }
          if response.ok ∨ attempt = partAttempts ∨ ¬isWorthRetrying response.status then
            some (s.move i (.answered number response))
          else some (s.move i (.pausing number attempt url))
      | _ => none
  | .drop i message =>
      match s.phase i with
      | .putting number attempt url | .refused number attempt url =>
          if s.cancelled then some (s.move i (.failed .uploadCancelled))
          else if attempt = partAttempts then
            some (s.move i (.failed
              (.failed s!"the connection dropped while sending a part ({message})")))
          else some (s.move i (.pausing number attempt url))
      | _ => none
  | .wake i =>
      match s.phase i with
      | .pausing number attempt url => some (s.startPut transfer i number (attempt + 1) url)
      | _ => none
  | .resolve =>
      if s.settled = none ∧ ∀ i < transfer.sends, s.phase i = .finished then
        some { s with settled := some (.ok (s.manifest transfer)), active := false }
      else none
  | .reject i =>
      match s.settled, s.phase i with
      | none, .failed error =>
          some { s with settled := some (.error error), active := false }
      | _, _ => none
  | .cancel =>
      if ¬s.active ∨ s.cancelled then some s else some { s with cancelled := true }

/-- The held ETags are in their places, and no loop has begun. -/
def openTransfer (transfer : Transfer) : SendState where
  next := 0
  etags index := if index < transfer.partCount then transfer.held (index + 1) else none
  phase i := if i < transfer.sends then .looping else .finished

/-- The call of `sendParts`, which returns when each loop has come to its first await. -/
def startTransfer (transfer : Transfer) : SendState :=
  (List.range transfer.sends).foldl (fun s i => s.loop transfer i) (openTransfer transfer)

def sendSystem (transfer : Transfer) : StepSystem SendState SendAction where
  init s := s = startTransfer transfer
  step := transferStep transfer

end Frontend
end MediaPlayer
