import MediaPlayer.Api.UploadParts
import MediaPlayer.Frontend.TransferEnds

/-!
# The slices of an upload

The browser cuts the file by the part size the server told it, and the server computes the sizes
it expects from the same two numbers.

* `PutsCut` — a PUT carries the slice of its part, and nothing is answered that was not sent.
* `upload_parts_cover` — the slices are the parts `validate_parts` asks for, and they cover the
  file.
-/

namespace MediaPlayer
namespace Frontend

open Library Models Schemas Services Api

/-- What `transferParts` hands to `sendParts` for a session and the file it was declared for:
`runDirectUpload`, where the server holds nothing, or a resumed upload. -/
def transferOf (upload : UploadSession) (held : ℕ → Option String) : Transfer where
  partSize := upload.partSize.toNat
  partCount := upload.partCount.toNat
  fileSize := upload.size.toNat
  held := held

namespace SendState

variable {transfer : Transfer} {s t : SendState} {i : ℕ}

/-- What has been sent so far are slices of the file. -/
structure PutsCut (transfer : Transfer) (s : SendState) : Prop where
  cut : ∀ put ∈ s.puts,
    (put.start, put.stop) = cut transfer.partSize transfer.fileSize (put.number - 1)
  begun : ∀ i number attempt url, s.phase i = .putting number attempt url →
    ∃ put ∈ s.puts, put.number = number
  answered : ∀ answer ∈ s.answers, ∃ put ∈ s.puts, put.number = answer.1

namespace PutsCut

/-- A loop moves and sends nothing. -/
theorem moved (hs : s.PutsCut transfer) (i : ℕ) (phase : SendPhase)
    (hphase : t.phase = Function.update s.phase i phase)
    (hsilent : ∀ number attempt url, phase ≠ .putting number attempt url)
    (hputs : t.puts = s.puts)
    (hanswers : ∀ answer ∈ t.answers, answer ∈ s.answers ∨ ∃ put ∈ s.puts, put.number = answer.1) :
    t.PutsCut transfer := by
  refine ⟨?_, ?_, ?_⟩
  · rw [hputs]
    exact hs.cut
  · intro j number attempt url hj
    rw [hphase] at hj
    rw [hputs]
    by_cases hji : j = i
    · subst hji
      rw [Function.update_self] at hj
      exact absurd hj (hsilent number attempt url)
    · rw [Function.update_of_ne hji] at hj
      exact hs.begun j number attempt url hj
  · intro answer hanswer
    rw [hputs]
    exact (hanswers answer hanswer).elim (hs.answered answer) id

theorem move (hs : s.PutsCut transfer) (i : ℕ) {phase : SendPhase}
    (hsilent : ∀ number attempt url, phase ≠ .putting number attempt url) :
    (s.move i phase).PutsCut transfer :=
  hs.moved i phase rfl hsilent rfl fun _ hanswer => .inl hanswer

theorem startPut (hs : s.PutsCut transfer) (i number attempt : ℕ) (url : String) :
    (s.startPut transfer i number attempt url).PutsCut transfer := by
  unfold SendState.startPut
  split
  · exact hs.move i nofun
  · refine ⟨?_, ?_, ?_⟩
    · intro put hput
      obtain hold | hnew := List.mem_append.mp hput
      · exact hs.cut put hold
      · obtain rfl := List.mem_singleton.mp hnew
        rfl
    · intro j other otherAttempt otherUrl hj
      by_cases hji : j = i
      · subst hji
        replace hj := (Function.update_self j _ s.phase).symm.trans hj
        obtain ⟨rfl, rfl, rfl⟩ := SendPhase.putting.inj hj
        exact ⟨_, List.mem_append_right _ (List.mem_singleton_self _), rfl⟩
      · replace hj := (Function.update_of_ne hji _ s.phase).symm.trans hj
        obtain ⟨put, hput, hnumber⟩ := hs.begun j other otherAttempt otherUrl hj
        exact ⟨put, List.mem_append_left _ hput, hnumber⟩
    · intro answer hanswer
      obtain ⟨put, hput, hnumber⟩ := hs.answered answer hanswer
      exact ⟨put, List.mem_append_left _ hput, hnumber⟩

theorem loop (hs : s.PutsCut transfer) (i : ℕ) : (s.loop transfer i).PutsCut transfer := by
  unfold SendState.loop
  split
  · exact hs.move i nofun
  · rename_i number _
    split
    · exact hs.move i nofun
    · exact hs.moved i (.signing number) rfl nofun rfl fun _ hanswer => .inl hanswer

theorem step (hs : s.PutsCut transfer) {action : SendAction}
    (hstep : transferStep transfer s action = some t) : t.PutsCut transfer := by
  cases action with
  | go i =>
      simp only [transferStep] at hstep
      split at hstep
      · obtain rfl := Option.some.inj hstep
        exact hs.loop i
      · split at hstep
        · obtain rfl := Option.some.inj hstep
          exact hs.move i (by simp)
        · obtain rfl := Option.some.inj hstep
          exact hs.move i (by simp)
      · obtain rfl := Option.some.inj hstep
        exact hs.moved i .looping rfl (by simp) rfl fun _ hanswer => .inl hanswer
      · cases hstep
  | sign i answer =>
      simp only [transferStep] at hstep
      split at hstep
      · split at hstep
        · obtain rfl := Option.some.inj hstep
          exact hs.move i (by simp)
        · obtain rfl := Option.some.inj hstep
          exact hs.startPut i _ _ _
      · cases hstep
  | respond i response =>
      simp only [transferStep] at hstep
      split at hstep
      · rename_i number attempt url hphase
        -- The answer is to the PUT the loop waits for.
        have hanswers : ∀ answer ∈ s.answers ++ [(number, response)],
            answer ∈ s.answers ∨ ∃ put ∈ s.puts, put.number = answer.1 := by
          intro answer hanswer
          refine (List.mem_append.mp hanswer).imp_right fun hnew => ?_
          rw [List.mem_singleton.mp hnew]
          exact hs.begun i number attempt url hphase
        split at hstep
        · obtain rfl := Option.some.inj hstep
          exact hs.moved i (.answered number response) rfl (by simp) rfl hanswers
        · obtain rfl := Option.some.inj hstep
          exact hs.moved i (.pausing number attempt url) rfl (by simp) rfl hanswers
      · cases hstep
  | drop i message =>
      obtain ⟨phase, rfl, hsilent⟩ := drop_cases hstep
      exact hs.move i hsilent
  | wake i =>
      simp only [transferStep] at hstep
      split at hstep
      · obtain rfl := Option.some.inj hstep
        exact hs.startPut i _ _ _
      · cases hstep
  | resolve =>
      obtain ⟨-, hsome⟩ := Option.ite_none_right_eq_some.mp hstep
      obtain rfl := Option.some.inj hsome
      exact ⟨hs.cut, hs.begun, hs.answered⟩
  | reject i =>
      simp only [transferStep] at hstep
      split at hstep
      · obtain rfl := Option.some.inj hstep
        exact ⟨hs.cut, hs.begun, hs.answered⟩
      · cases hstep
  | cancel =>
      simp only [transferStep] at hstep
      split at hstep
      · obtain rfl := Option.some.inj hstep
        exact hs
      · obtain rfl := Option.some.inj hstep
        exact ⟨hs.cut, hs.begun, hs.answered⟩

theorem of_reachable (hreach : (sendSystem transfer).Reachable s) : s.PutsCut transfer := by
  refine hreach.invariant (PutsCut transfer) ?_ fun _ _ _ _ hs _ hstep => hs.step hstep
  rintro s rfl
  have hopen : (openTransfer transfer).PutsCut transfer := by
    refine ⟨nofun, ?_, nofun⟩
    intro i number attempt url hi
    unfold openTransfer at hi
    dsimp only at hi
    split at hi
    · exact absurd hi nofun
    · exact absurd hi nofun
  show (startTransfer transfer).PutsCut transfer
  unfold startTransfer
  -- The loops come to their first await one after another.
  generalize List.range transfer.sends = loops
  generalize openTransfer transfer = s at hopen
  induction loops generalizing s with
  | nil => exact hopen
  | cons i loops ih => exact ih _ (hopen.loop i)

end PutsCut

/-- A part that is kept was sent. -/
theorem PutsCut.put_of_kept (hs : s.PutsCut transfer) {number : ℕ} (hkept : s.Kept number) :
    ∃ put ∈ s.puts, put.number = number := by
  obtain ⟨response, etag, hsucceeded, -⟩ := hkept
  have hmem : response ∈ s.succeeded number := by
    rw [hsucceeded]
    exact List.mem_singleton_self _
  obtain ⟨answer, hanswer, -⟩ := List.mem_map.mp hmem
  obtain ⟨hanswer, hnumber⟩ := List.mem_filter.mp hanswer
  obtain ⟨put, hput, hsame⟩ := hs.answered answer hanswer
  exact ⟨put, hput, hsame.trans (of_decide_eq_true hnumber).1⟩

end SendState

/-- The slices of a transfer are the parts the session asks for: in every run a PUT carries the
slice of its part, a run that resolves has sent every slice the server did not hold, and the
slices follow one another over the whole file, each as wide as its part must be. -/
structure SlicesExact (upload : UploadSession) (transfer : Transfer) : Prop where
  sent : ∀ s, (sendSystem transfer).Reachable s → ∀ put ∈ s.puts,
    1 ≤ put.number ∧ put.number ≤ transfer.partCount ∧
      (put.start, put.stop) = cut transfer.partSize transfer.fileSize (put.number - 1)
  every : ∀ s, (sendSystem transfer).Reachable s → ∀ parts, s.settled = some (.ok parts) →
    ∀ number, 1 ≤ number → number ≤ transfer.partCount → transfer.held number = none →
      ∃ put ∈ s.puts, put.number = number
  tiles : Tiles 0 ((List.range transfer.partCount).map (cut transfer.partSize transfer.fileSize))
    transfer.fileSize
  nonempty : ∀ i < transfer.partCount,
    (cut transfer.partSize transfer.fileSize i).1 < (cut transfer.partSize transfer.fileSize i).2
  once : ∀ offset < transfer.fileSize,
    ((List.range transfer.partCount).map (cut transfer.partSize transfer.fileSize)).countP
      (fun slice => slice.1 ≤ offset ∧ offset < slice.2) = 1
  due : ∀ i < transfer.partCount,
    (((cut transfer.partSize transfer.fileSize i).2 -
      (cut transfer.partSize transfer.fileSize i).1 : ℕ) : ℤ) = expectedPartSize upload (i + 1)

theorem slicesExact_transferOf (upload : UploadSession) (held : ℕ → Option String) :
    SlicesExact upload (transferOf upload held) := by
  have htiles := tiles_cuts (partSize_toNat_pos upload) upload.size.toNat
  unfold cuts at htiles
  rw [← partCount_eq] at htiles
  refine ⟨?_, ?_, htiles, ?_, ?_, fun i hi => (expectedPartSize_eq hi).symm⟩
  · intro s hreach put hput
    -- A part is only PUT if it was to do.
    have htodo := (SendState.Consistent.of_reachable hreach).puts put hput
    obtain ⟨hone, hcount, -⟩ := SendState.mem_todo.mp (List.mem_of_mem_take htodo)
    exact ⟨hone, hcount, (SendState.PutsCut.of_reachable hreach).cut put hput⟩
  · intro s hreach parts hsettled number hone hcount hmissing
    -- Every part to do is kept in the end, and what is kept was sent.
    refine (SendState.PutsCut.of_reachable hreach).put_of_kept ?_
    exact (SendState.Consistent.of_reachable hreach).kept_of_settled hsettled
      (SendState.mem_todo.mpr ⟨hone, hcount, hmissing⟩)
  · intro i hi
    exact htiles.nonempty (List.mem_map_of_mem (List.mem_range.mpr hi))
  · intro offset hoffset
    exact htiles.countP_eq_one (Nat.zero_le offset) hoffset

/-- With the server's part size no size the schema admits needs more than `MAX_PARTS`. -/
theorem newUpload_partCount_le (user jobId : UUID) (request : StartUpload) (now : Timestamp) :
    (newUpload user jobId request now).partCount ≤ maxParts := by
  have hsize := request.sizeBounds.2
  show (request.size + partSize - 1) / partSize ≤ maxParts
  refine Int.lt_add_one_iff.mp (Int.ediv_lt_of_lt_mul (by decide) ?_)
  unfold partSize maxParts at *
  omega

/-- `validate_parts` accepts exactly the parts that are all there under the ETags of the
manifest and have their sizes, which add up to the declared one; the slices the browser cuts for
the session are these parts; and a session of the API has at most `MAX_PARTS` of them. -/
theorem upload_parts_cover (upload : UploadSession) (request : CompleteUpload)
    (actual : List StoredPart) (held : ℕ → Option String) :
    (validateParts { upload with manifest := some request.manifest } actual = pure () ↔
      PartsExact upload request.parts actual) ∧
    (PartsExact upload request.parts actual → (actual.map (·.size)).sum = upload.size) ∧
    SlicesExact upload (transferOf upload held) ∧
    ∀ (user jobId : UUID) (start : StartUpload) (now : Timestamp),
      (newUpload user jobId start now).partCount ≤ maxParts :=
  ⟨validateParts_eq_pure_iff request, fun hexact => hexact.sum_sizes,
    slicesExact_transferOf upload held, newUpload_partCount_le⟩

/-- Twelve bytes in parts of eight. -/
def twoParts : UploadSession where
  ownerId := 1
  filename := "clip.mp4"
  sourceKey := "uploads/2/clip.mp4"
  size := 12
  partSize := 8
  jobId := 2
  createdAt := 0
  expiresAt := 86400000000
  ckUploadSize := by decide
  ckUploadMaxFps := defaultMaxFps_literal

/-- The manifest of a client whose second part came back first. -/
def twoPartsManifest : CompleteUpload where
  parts := [⟨2, "9f0b"⟩, ⟨1, "7c4a"⟩]
  valid := by decide
  length := by decide
  contiguousParts := by decide

theorem upload_parts_cover_two :
    validateParts { twoParts with manifest := some twoPartsManifest.manifest }
      [⟨2, "9f0b", List.replicate 4 0⟩, ⟨1, "7c4a", List.replicate 8 0⟩] = pure () ∧
    (([⟨2, "9f0b", List.replicate 4 0⟩, ⟨1, "7c4a", List.replicate 8 0⟩] : List StoredPart).map
      (·.size)).sum = twoParts.size := by
  obtain ⟨haccepts, hsum, -⟩ := upload_parts_cover twoParts twoPartsManifest
    [⟨2, "9f0b", List.replicate 4 0⟩, ⟨1, "7c4a", List.replicate 8 0⟩] fun _ => none
  have hexact : PartsExact twoParts twoPartsManifest.parts
      [⟨2, "9f0b", List.replicate 4 0⟩, ⟨1, "7c4a", List.replicate 8 0⟩] := by
    refine ⟨by decide, by decide, by decide, by decide⟩
  exact ⟨haccepts.mpr hexact, hsum hexact⟩

end Frontend
end MediaPlayer
