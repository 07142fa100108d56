import MediaPlayer.Frontend.SendingRuns

/-!
# The file that is uploaded

Both ends of an upload together: pages that send a file's slices, the store that takes them,
and the API that has them merged.

* `uploaded_object_is_file` — an object under the key is a beginning of the file, and that of a
  session with a job is all of it, whatever pages, requests and cleanup passes do meanwhile.
* `deliver` — what a page and the store do by themselves they do in a run of the session too.
* `transfer_completes` — when a transfer resolves, the `complete` it calls for is accepted, and
  the merged object is the file.
-/

namespace MediaPlayer
namespace Frontend

open Library Models Schemas Services Api

/-! ## The object of a session -/

/-- A session is started for the size of the file, and a browser puts what a page that sends the
file has sent. -/
def SendsFile (file : List UInt8) (s : UploadRuns) : UploadAction → Prop
  | .call _ _ (.start _ request) _ => request.size = file.length
  | .uploadPart _ part => ∃ upload, s.session = some upload ∧ SendsPart file upload part
  | _ => True

theorem holdsFile_of_reachable {maxUploadBytes : ℤ} {file : List UInt8} {s : UploadRuns}
    (hs : (uploadSystem maxUploadBytes).ReachableUnder (SendsFile file) s) : s.HoldsFile file := by
  refine hs.invariant (UploadRuns.HoldsFile file) ?_ ?_
  · rintro s rfl
    exact ⟨fun _ hupload => absurd hupload (by simp), Bucket.holdsFile_empty file⟩
  · intro s a t _ hholds ha hstep
    refine hholds.step ?_ hstep
    cases a with
    | call party user request c =>
        cases request with
        | start jobId request => exact ha
        | signParts | complete | resume | abort => trivial
    | select | proceed => trivial
    | uploadPart uploadId part =>
        obtain ⟨upload, hupload, hsends⟩ := ha
        exact (hsends.slice (hholds.row upload hupload)).2.2

/-- Whatever is under the key at any time is the beginning of the file that the pages send, and
once the session has its job it is the whole file, byte for byte. -/
theorem uploaded_object_is_file (maxUploadBytes : ℤ) (file : List UInt8) (s : UploadRuns)
    (hs : (uploadSystem maxUploadBytes).ReachableUnder (SendsFile file) s) :
    (∀ bytes, s.bucket.object = some bytes → bytes <+: file) ∧
    (s.jobs ≠ [] → s.bucket.object = some file) := by
  have hholds := holdsFile_of_reachable hs
  exact ⟨hholds.store.object,
    hholds.object_eq (UploadRuns.consistent_of_reachable hs.reachable)⟩

/-- The session that `start` has made for a file, once it has its multipart upload. -/
def startedUpload (user jobId : UUID) (start : StartUpload) (now : Timestamp)
    (storageId : String) : UploadSession :=
  { newUpload user jobId start now with storageId := some storageId }

/-! ## A page in a run of the session -/

namespace SendingRuns

variable {etagOf : List UInt8 → String} {upload : UploadSession} {file : List UInt8}
  {held : ℕ → Option String} {s t : SendingRuns} {maxUploadBytes : ℤ} {runs : UploadRuns}

/-- A step of the page leaves the session alone, or is a part that reaches it. -/
theorem deliver_step (hsession : runs.session = some upload) (hs : Sound etagOf upload file held s)
    {a : SendingAction} (ha : Truthful etagOf upload file s a)
    (hstep : step etagOf upload file held s a = some t)
    (hruns : (uploadSystem maxUploadBytes).ReachableUnder (SendsFile file)
      { runs with bucket := s.bucket }) :
    (uploadSystem maxUploadBytes).ReachableUnder (SendsFile file)
      { runs with bucket := t.bucket } := by
  cases a with
  | page action =>
      obtain ⟨page, -, rfl⟩ := Option.map_eq_some_iff.mp hstep
      exact hruns
  | land put =>
      obtain ⟨hput, hsome⟩ := Option.ite_none_right_eq_some.mp hstep
      obtain rfl := Option.some.inj hsome
      exact .step (a := .uploadPart _ (storedPut etagOf file put)) hruns
        ⟨upload, hsession, held, s.page, put, hs.page, hput, rfl, rfl⟩ rfl
  | elsewhere part =>
      obtain rfl := Option.some.inj hstep
      exact .step (a := .uploadPart _ part) hruns ⟨upload, hsession, ha.1⟩ rfl

/-- What the page brings into the store in a run it brings there in a run of the session. -/
theorem deliver (hrow : RowFor file upload) (hsession : runs.session = some upload)
    (hs : Sound etagOf upload file held s) {as : List SendingAction}
    (hmeets : (system etagOf upload file held).MeetsAll (Truthful etagOf upload file) s as)
    (hrun : (system etagOf upload file held).run s as = some t)
    (hruns : (uploadSystem maxUploadBytes).ReachableUnder (SendsFile file)
      { runs with bucket := s.bucket }) :
    (uploadSystem maxUploadBytes).ReachableUnder (SendsFile file)
      { runs with bucket := t.bucket } := by
  induction as generalizing s with
  | nil =>
      obtain rfl : s = t := by simpa using hrun
      exact hruns
  | cons a as ih =>
      obtain ⟨u, hu, hrest⟩ := Option.bind_eq_some_iff.mp hrun
      exact ih (hs.step hrow hmeets.1 hu) (hmeets.2 u hu) hrest
        (deliver_step hsession hs hmeets.1 hu hruns)

end SendingRuns

/-! ## A video of two parts -/

/-- A video twelve bytes longer than a part. -/
def longVideo : List UInt8 := UploadRuns.smallVideo ++ List.replicate partSize.toNat 0

theorem longVideo_length : longVideo.length = 16777228 := by
  unfold longVideo
  rw [List.length_append, List.length_replicate]
  rfl

def startLong : StartUpload where
  filename := "lecture.mp4"
  size := 16777228
  filenameLength := by decide
  sizeBounds := by decide
  maxFpsLiteral := defaultMaxFps_literal

def longUpload : UploadSession := startedUpload 1 2 startLong 0 "upload"

theorem longUpload_row : RowFor longVideo longUpload :=
  ⟨by rw [longVideo_length]; rfl, rfl, fun _ hmanifest => absurd hmanifest nofun⟩

/-- The ETag the store shows for either part. -/
def longEtag (number : ℤ) : String := if number = 1 then "7c4a" else "9f0b"

/-- The store tells the parts apart by their bytes. -/
def etagOfLong (bytes : List UInt8) : String := if bytes.length = 12 then "9f0b" else "7c4a"

theorem etagOfLong_partSlice {number : ℤ} (hone : 1 ≤ number) (htwo : number ≤ 2) :
    etagOfLong (partSlice longVideo number) = longEtag number := by
  have hlength := SendingRuns.length_partSlice longUpload_row hone htwo
  unfold etagOfLong longEtag
  obtain rfl | rfl : number = 1 ∨ number = 2 := by omega
  · have hwhole : expectedPartSize longUpload 1 = 16777216 := by decide
    rw [if_neg (by omega), if_pos rfl]
  · have hrest : expectedPartSize longUpload 2 = 12 := by decide
    rw [if_pos (by omega), if_neg (by decide)]

/-- The store once the upload has been opened. -/
def longStore : Bucket := { uploads := (∅ : Parties String (List StoredPart)).insert "upload" [] }

open SendingRuns in
/-- Whether the store has a part when it says so, and nobody else sends. -/
def longAnswers (s : SendingRuns) : SendingAction → Bool
  | .page (.respond i response) =>
      match s.page.phase i with
      | .putting number _ _ => response.etag = some (longEtag number) ∧
          (s.bucket.uploads.lookup "upload").any fun parts => parts.any (·.n = number)
      | _ => true
  | .elsewhere _ => false
  | _ => true

namespace SendingRuns

theorem longAnswers_truthful {s : SendingRuns} {a : SendingAction}
    (hs : Sound etagOfLong longUpload longVideo (fun _ => none) s) (ha : longAnswers s a = true) :
    Truthful etagOfLong longUpload longVideo s a := by
  cases a with
  | page action =>
      cases action with
      | respond i response =>
          intro _ number attempt url hputting
          simp only [longAnswers, hputting] at ha
          obtain ⟨hetag, hstored⟩ := of_decide_eq_true ha
          obtain ⟨parts, hlookup, hany⟩ := (Option.any_eq_true _ _).mp hstored
          obtain ⟨part, hpart, hnumber⟩ := List.any_eq_true.mp hany
          replace hnumber : part.n = number := of_decide_eq_true hnumber
          obtain ⟨others, hothers, hslices⟩ := hs.stored
          obtain rfl := Option.some.inj (hlookup.symm.trans hothers)
          obtain ⟨hone, hcount, hslice⟩ := hslices.slices part hpart
          rw [hnumber] at hone hcount
          refine ⟨_, ⟨parts, hlookup, part, hpart, hnumber, rfl⟩, fun shown hshown => ?_⟩
          rw [hslice, hnumber]
          exact (Option.some.inj (hshown.symm.trans hetag)).trans
            (etagOfLong_partSlice hone hcount).symm
      | go | sign | drop | wake | resolve | reject | cancel => trivial
  | land put => trivial
  | elsewhere part => exact absurd ha Bool.false_ne_true

/-- A page sends both parts, and the second comes first. -/
theorem exists_longTransfer : ∃ (s₀ s : SendingRuns) (as : List SendingAction),
    Begun etagOfLong longUpload longVideo (fun _ => none) s₀ ∧ s₀.bucket = longStore ∧
    (system etagOfLong longUpload longVideo fun _ => none).MeetsAll
      (Truthful etagOfLong longUpload longVideo) s₀ as ∧
    (system etagOfLong longUpload longVideo fun _ => none).run s₀ as = some s ∧
    s.page.settled = some (.ok [⟨1, some "7c4a"⟩, ⟨2, some "9f0b"⟩]) := by
  have hbegun : Begun etagOfLong longUpload longVideo (fun _ => none)
      ⟨startTransfer (transferOf longUpload fun _ => none), longStore⟩ :=
    ⟨rfl, rfl, ⟨[], AList.lookup_insert _, fun _ hpart => absurd hpart List.not_mem_nil,
      List.nodup_nil⟩, fun _ _ _ _ hheld => absurd hheld (by simp)⟩
  have hruns : ((system etagOfLong longUpload longVideo fun _ => none).runUnder
      (fun s a => longAnswers s a = true)
      ⟨startTransfer (transferOf longUpload fun _ => none), longStore⟩
      [.page (.sign 0 (.signed fun _ => some "parts/1")),
        .page (.sign 1 (.signed fun _ => some "parts/2")),
        .land ⟨2, "parts/2", 16777216, 16777228⟩, .land ⟨1, "parts/1", 0, 16777216⟩,
        .page (.respond 1 ⟨200, some "9f0b"⟩), .page (.respond 0 ⟨200, some "7c4a"⟩),
        .page (.go 1), .page (.go 1), .page (.go 1), .page (.go 0), .page (.go 0), .page (.go 0),
        .page .resolve]).any (fun s => s.page.settled.any fun result =>
          result.toOption == some [⟨1, some "7c4a"⟩, ⟨2, some "9f0b"⟩]) = true := by
    decide +kernel
  obtain ⟨s, hrun, hend⟩ := (Option.any_eq_true _ _).mp hruns
  obtain ⟨hmeets, hrun⟩ := StepSystem.meetsAll_of_runUnder hrun
  refine ⟨_, s, _, hbegun, rfl, ?_, hrun, ?_⟩
  · have hkept : ∀ s a t, Sound etagOfLong longUpload longVideo (fun _ => none) s →
        Truthful etagOfLong longUpload longVideo s a →
        step etagOfLong longUpload longVideo (fun _ => none) s a = some t →
        Sound etagOfLong longUpload longVideo (fun _ => none) t :=
      fun _ _ _ hs ha hstep => hs.step longUpload_row ha hstep
    have hchecked : ∀ s a, Sound etagOfLong longUpload longVideo (fun _ => none) s →
        longAnswers s a = true → Truthful etagOfLong longUpload longVideo s a :=
      fun _ _ => longAnswers_truthful
    exact hmeets.imp_of_invariant hkept hchecked (Sound.of_begun hbegun)
  · obtain ⟨result, hresult, hok⟩ := (Option.any_eq_true _ _).mp hend
    cases result with
    | error error => exact absurd hok nofun
    | ok parts =>
        have hparts : some parts = some [⟨1, some "7c4a"⟩, ⟨2, some "9f0b"⟩] := by
          simpa [Except.toOption] using hok
        rw [hresult, Option.some.inj hparts]

end SendingRuns

open SendingRuns in
theorem uploaded_object_is_file_twoParts : ∃ s : UploadRuns, s.jobs.length = 1 ∧
    s.bucket.object = some longVideo := by
  obtain ⟨s₀, s, as, hbegun, hstore, hmeets, hrun, hsettled⟩ := exists_longTransfer
  have hreach := StepSystem.ReachableUnder.of_run (.init hbegun) hrun hmeets
  obtain ⟨request, -, hcompletes⟩ := (sound_of_reachable longUpload_row hreach).completes
    longUpload_row (fun bytes => by unfold etagOfLong; split <;> decide) (by decide) rfl (by decide)
    hsettled
  -- The session is started, and the page sends what it has sent.
  obtain ⟨runs, hstart, hsession, hbucket, hjobs, hparty⟩ : ∃ runs,
      (uploadSystem 1073741824).run {} [.call 0 1 (.start 2 startLong) { now := 0 },
        .proceed 0 { now := 0 }] = some runs ∧ runs.session = some longUpload ∧
      runs.bucket = longStore ∧ runs.jobs = [] ∧ runs.parties.lookup 1 = none :=
    ⟨_, rfl, rfl, rfl, rfl, rfl⟩
  have hstarted : (uploadSystem 1073741824).ReachableUnder (SendsFile longVideo)
      { runs with bucket := s₀.bucket } := by
    rw [hstore, ← hbucket]
    exact .of_run (.init rfl) hstart ⟨by rw [SendsFile, longVideo_length]; rfl,
      fun _ _ => ⟨trivial, fun _ _ => trivial⟩⟩
  have hdelivered := deliver longUpload_row hsession (Sound.of_begun hbegun) hmeets hrun hstarted
  obtain ⟨t, ht, hdone⟩ := hcompletes 1073741824 { runs with bucket := s.bucket } 1 { now := 1 }
    { now := 1 } { now := 1 } hsession rfl hparty (by decide) ⟨rfl, rfl, rfl⟩ ⟨rfl, rfl, rfl⟩
    ⟨rfl, rfl, rfl⟩
  have hfile := hdelivered.of_run ht
    ⟨trivial, fun _ _ => ⟨trivial, fun _ _ => ⟨trivial, fun _ _ => trivial⟩⟩⟩
  obtain ⟨-, -, ⟨now, hadded⟩, -⟩ := hdone.job (by decide +kernel)
  have hone : t.jobs.length = 1 := by
    rw [hadded, hjobs]
    rfl
  refine ⟨t, hone, (uploaded_object_is_file 1073741824 longVideo t hfile).2 fun hnone => ?_⟩
  rw [hnone] at hone
  exact absurd hone (by decide)

/-! ## A transfer that resolves -/

open SendingRuns in
/-- When a transfer resolves, its manifest is a request that the API accepts: run where no call
raises, before the session expires, the `complete` it calls for leaves the file under the key and
one job on the queue if the file is a video, and nothing of the upload if it is not. -/
theorem transfer_completes (etagOf : List UInt8 → String)
    (hetag : ∀ bytes, 1 ≤ (etagOf bytes).length ∧ (etagOf bytes).length ≤ 128)
    (user jobId : UUID) (start : StartUpload) (now : Timestamp) (storageId : String)
    (hstorage : storageId ≠ "") (file : List UInt8) (hfile : start.size = file.length)
    (held : ℕ → Option String) (s : SendingRuns)
    (hs : (system etagOf (startedUpload user jobId start now storageId) file held).ReachableUnder
      (Truthful etagOf (startedUpload user jobId start now storageId) file) s)
    (parts : List ManifestPart) (hsettled : s.page.settled = some (.ok parts)) :
    ∃ request : CompleteUpload, request.parts = requestParts parts ∧
      ∀ (maxUploadBytes : ℤ) (runs : UploadRuns) (party : ℕ) (first second third : Circumstances),
        runs.session = some (startedUpload user jobId start now storageId) →
        runs.bucket = s.bucket → runs.parties.lookup party = none →
        first.now < now + 24 * 3600 * 1000000 → first.Calm → second.Calm → third.Calm →
        ∃ t, (uploadSystem maxUploadBytes).run runs [.call party user (.complete request) first,
            .proceed party second, .proceed party third] = some t ∧
          UploadRuns.Completes runs t party (startedUpload user jobId start now storageId)
            file := by
  have hrow : RowFor file (startedUpload user jobId start now storageId) :=
    ⟨hfile, rfl, fun _ hmanifest => absurd hmanifest (by simp [startedUpload, newUpload])⟩
  have hinitialized : (startedUpload user jobId start now storageId).initialized = true := by
    show (some storageId).any (· != "") = true
    simpa using hstorage
  exact (sound_of_reachable hrow hs).completes hrow hetag
    (newUpload_partCount_le user jobId start now) rfl hinitialized hsettled

open SendingRuns in
theorem transfer_completes_twoParts : ∃ (request : CompleteUpload) (runs t : UploadRuns),
    request.parts = [⟨1, "7c4a"⟩, ⟨2, "9f0b"⟩] ∧
    (uploadSystem 1073741824).run runs [.call 0 1 (.complete request) { now := 0 },
      .proceed 0 { now := 0 }, .proceed 0 { now := 0 }] = some t ∧
    t.state = some .completed ∧ t.bucket.object = some longVideo := by
  obtain ⟨s₀, s, as, hbegun, -, hmeets, hrun, hsettled⟩ := exists_longTransfer
  obtain ⟨request, hrequest, hcompletes⟩ := transfer_completes etagOfLong
    (fun bytes => by unfold etagOfLong; split <;> decide) 1 2 startLong 0 "upload" (by decide)
    longVideo longUpload_row.size (fun _ => none) s (.of_run (.init hbegun) hrun hmeets) _ hsettled
  obtain ⟨t, ht, hdone⟩ := hcompletes 1073741824 { session := some longUpload, bucket := s.bucket }
    0 { now := 0 } { now := 0 } { now := 0 } rfl rfl rfl (by decide) ⟨rfl, rfl, rfl⟩
    ⟨rfl, rfl, rfl⟩ ⟨rfl, rfl, rfl⟩
  obtain ⟨hstate, hobject, -⟩ := hdone.job (by decide +kernel)
  exact ⟨request, _, t, hrequest, ht, hstate, hobject⟩

end Frontend
end MediaPlayer
