import MediaPlayer.Api.CompletedUploads
import MediaPlayer.Api.UploadedFiles
import MediaPlayer.Frontend.UploadSlices

/-!
# A page and the store

One page's transfer and the store it sends to, while other pages with the same file may send to
it too.

* `SendsPart` — what any page of the session puts is a slice of the file.
* `SendingRuns.Sound` — the store has what it has said to have taken.
* `Sound.completes` — the manifest of a transfer that resolves is a request that the API accepts.
-/

namespace MediaPlayer
namespace Frontend

open Library Models Schemas Services Api

/-- Some page's transfer of the session, in whatever state, has sent the part out of the file. -/
def SendsPart (file : List UInt8) (upload : UploadSession) (part : StoredPart) : Prop :=
  ∃ (held : ℕ → Option String) (s : SendState) (put : PartPut),
    (sendSystem (transferOf upload held)).Reachable s ∧ put ∈ s.puts ∧
      part.n = put.number ∧ part.data = piece file (put.start, put.stop)

/-- The part is the slice its number names. -/
theorem SendsPart.slice {file : List UInt8} {upload : UploadSession} {part : StoredPart}
    (hsends : SendsPart file upload part) (hrow : RowFor file upload) :
    1 ≤ part.n ∧ part.n ≤ upload.partCount ∧ part.data = partSlice file part.n := by
  obtain ⟨held, s, put, hreach, hput, hnumber, hdata⟩ := hsends
  obtain ⟨hone, hcount, hcut⟩ := (slicesExact_transferOf upload held).sent s hreach put hput
  have hlength : upload.size.toNat = file.length := by
    rw [hrow.size, Int.toNat_natCast]
  have hpart : upload.partSize.toNat = partSize.toNat := by rw [hrow.partSize]
  refine ⟨by omega, ?_, ?_⟩
  · have htotal := partCount_toNat upload
    have hle : put.number ≤ upload.partCount.toNat := hcount
    omega
  · unfold partSlice
    rw [hdata, hcut, hnumber, Int.toNat_natCast, ← hpart, ← hlength]
    rfl

/-! ## A page and the store -/

/-- `sendParts` of one page, and the store. -/
structure SendingRuns where
  page : SendState
  bucket : Bucket

inductive SendingAction
  /-- The page goes on, or is answered. -/
  | page (action : SendAction)
  /-- A PUT of the page reaches the store, at once or late. -/
  | land (put : PartPut)
  /-- A PUT of another page reaches it. -/
  | elsewhere (part : StoredPart)

namespace SendingRuns

section System

variable (etagOf : List UInt8 → String) (upload : UploadSession) (file : List UInt8)
  (held : ℕ → Option String)

/-- What the store keeps of a PUT: it tells the ETag of a part by its bytes. -/
def storedPut (put : PartPut) : StoredPart :=
  let data := piece file (put.start, put.stop)
  ⟨put.number, etagOf data, data⟩

/-- The part of the number as the store keeps it. -/
def storedSlice (number : ℤ) : StoredPart :=
  ⟨number, etagOf (partSlice file number), partSlice file number⟩

def step (s : SendingRuns) : SendingAction → Option SendingRuns
  | .page action =>
      (transferStep (transferOf upload held) s.page action).map fun page => { s with page := page }
  | .land put =>
      if put ∈ s.page.puts then
        some { s with
          bucket := s.bucket.uploadPart (upload.storageId.getD "") (storedPut etagOf file put) }
      else none
  | .elsewhere part =>
      some { s with bucket := s.bucket.uploadPart (upload.storageId.getD "") part }

/-- The parts the store has are slices of the file, no number twice. -/
structure StoredSlices (parts : List StoredPart) : Prop where
  slices : ∀ part ∈ parts, 1 ≤ part.n ∧ part.n ≤ upload.partCount ∧
    part = storedSlice etagOf file part.n
  nodup : (parts.map (·.n)).Nodup

/-- The store has the part, under the ETag its bytes have. -/
def Stored (s : SendingRuns) (number : ℕ) (etag : String) : Prop :=
  ∃ parts, s.bucket.uploads.lookup (upload.storageId.getD "") = some parts ∧
    ∃ part ∈ parts, part.n = number ∧ part.etag = etag

/-- The page begins with what `resume` has listed. -/
structure Begun (s : SendingRuns) : Prop where
  page : s.page = startTransfer (transferOf upload held)
  object : s.bucket.object = none
  stored : ∃ parts, s.bucket.uploads.lookup (upload.storageId.getD "") = some parts ∧
    StoredSlices etagOf upload file parts
  held : ∀ number, 1 ≤ number → number ≤ (transferOf upload held).partCount → ∀ etag,
    held number = some etag → Stored upload s number etag

/-- The store says that it took a part when it has it, and shows no ETag but the part's; other
pages send the same file. -/
def Truthful (s : SendingRuns) : SendingAction → Prop
  | .page (.respond i response) => response.ok = true → ∀ number attempt url,
      s.page.phase i = .putting number attempt url →
        ∃ etag, Stored upload s number etag ∧
          ∀ shown, response.etag = some shown → shown = etag
  | .elsewhere part => SendsPart file upload part ∧ part.etag = etagOf part.data
  | _ => True

def system : StepSystem SendingRuns SendingAction where
  init := Begun etagOf upload file held
  step := step etagOf upload file held

end System

variable {etagOf : List UInt8 → String} {upload : UploadSession} {file : List UInt8}
  {held : ℕ → Option String} {s t : SendingRuns}

/-! ## What the store has -/

/-- A part that the store gets is one it may have. -/
def OfFile (etagOf : List UInt8 → String) (upload : UploadSession) (file : List UInt8)
    (part : StoredPart) : Prop :=
  1 ≤ part.n ∧ part.n ≤ upload.partCount ∧ part = storedSlice etagOf file part.n

theorem StoredSlices.uploadPart {parts : List StoredPart}
    (hparts : StoredSlices etagOf upload file parts) {part : StoredPart}
    (hpart : OfFile etagOf upload file part) :
    StoredSlices etagOf upload file (part :: parts.filter (·.n ≠ part.n)) := by
  refine ⟨fun other hother => ?_, ?_⟩
  · obtain rfl | hother := List.mem_cons.mp hother
    · exact hpart
    · exact hparts.slices other (List.mem_of_mem_filter hother)
  · rw [List.map_cons, List.nodup_cons]
    refine ⟨fun hmem => ?_, ?_⟩
    · obtain ⟨other, hother, hnumber⟩ := List.mem_map.mp hmem
      exact absurd hnumber (of_decide_eq_true (List.mem_filter.mp hother).2)
    · exact hparts.nodup.sublist (List.filter_sublist.map _)

/-- The ETag under which a number is stored. -/
theorem Stored.etag {parts : List StoredPart}
    (hlookup : s.bucket.uploads.lookup (upload.storageId.getD "") = some parts)
    (hparts : StoredSlices etagOf upload file parts) {number : ℕ} {etag : String}
    (hstored : Stored upload s number etag) : etag = etagOf (partSlice file number) := by
  obtain ⟨others, hothers, part, hpart, hnumber, rfl⟩ := hstored
  obtain rfl := Option.some.inj (hlookup.symm.trans hothers)
  rw [(hparts.slices part hpart).2.2, hnumber]
  rfl

/-- What the store has it keeps: a part that comes again is the same. -/
theorem Stored.uploadPart {parts : List StoredPart}
    (hlookup : s.bucket.uploads.lookup (upload.storageId.getD "") = some parts)
    (hparts : StoredSlices etagOf upload file parts) {part : StoredPart}
    (hpart : OfFile etagOf upload file part) {number : ℕ} {etag : String}
    (hstored : Stored upload s number etag) :
    Stored upload { s with bucket := s.bucket.uploadPart (upload.storageId.getD "") part }
      number etag := by
  have hetag := hstored.etag hlookup hparts
  obtain ⟨others, hothers, other, hother, hnumber, hsame⟩ := hstored
  obtain rfl := Option.some.inj (hlookup.symm.trans hothers)
  refine ⟨part :: parts.filter (·.n ≠ part.n), ?_, ?_⟩
  · unfold Bucket.uploadPart
    rw [hlookup]
    exact AList.lookup_insert _
  · by_cases hreplaced : part.n = number
    · refine ⟨part, List.mem_cons_self, hreplaced, ?_⟩
      rw [hetag, hpart.2.2, hreplaced]
      rfl
    · refine ⟨other, List.mem_cons_of_mem _ (List.mem_filter.mpr ⟨hother, ?_⟩), hnumber, hsame⟩
      exact decide_eq_true fun heq => hreplaced (heq.symm.trans hnumber)

/-! ## The invariant -/

/-- The page is in a run of `sendParts`; the store has slices of the file, among them what the
server told of and what it has said to have taken. -/
structure Sound (etagOf : List UInt8 → String) (upload : UploadSession) (file : List UInt8)
    (held : ℕ → Option String) (s : SendingRuns) : Prop where
  page : (sendSystem (transferOf upload held)).Reachable s.page
  object : s.bucket.object = none
  stored : ∃ parts, s.bucket.uploads.lookup (upload.storageId.getD "") = some parts ∧
    StoredSlices etagOf upload file parts
  held : ∀ number, 1 ≤ number → number ≤ (transferOf upload held).partCount → ∀ etag,
    held number = some etag → Stored upload s number etag
  answered : ∀ answer ∈ s.page.answers, answer.2.ok = true → ∃ etag,
    Stored upload s answer.1 etag ∧ ∀ shown, answer.2.etag = some shown → shown = etag

theorem loop_answers (transfer : Transfer) (s : SendState) (i : ℕ) :
    (s.loop transfer i).answers = s.answers := by
  unfold SendState.loop
  split
  · rfl
  · split <;> rfl

theorem startPut_answers {transfer : Transfer} (s : SendState) (i number attempt : ℕ)
    (url : String) : (s.startPut transfer i number attempt url).answers = s.answers := by
  unfold SendState.startPut
  split <;> rfl

theorem startTransfer_answers (transfer : Transfer) : (startTransfer transfer).answers = [] := by
  unfold startTransfer
  have hopen : (openTransfer transfer).answers = [] := rfl
  generalize List.range transfer.sends = loops
  generalize openTransfer transfer = s at hopen
  induction loops generalizing s with
  | nil => exact hopen
  | cons i loops ih => exact ih _ ((loop_answers transfer s i).trans hopen)

/-- Only an answer of the store is added to the answers. -/
theorem answers_step {transfer : Transfer} {s t : SendState} {action : SendAction}
    (hstep : transferStep transfer s action = some t) :
    t.answers = s.answers ∨ ∃ i response number attempt url, action = .respond i response ∧
      s.phase i = .putting number attempt url ∧
      t.answers = s.answers ++ [(number, response)] := by
  cases action with
  | respond i response =>
      simp only [transferStep] at hstep
      split at hstep
      · rename_i number attempt url hphase
        refine .inr ⟨i, response, number, attempt, url, rfl, hphase, ?_⟩
        split at hstep
        · obtain rfl := Option.some.inj hstep
          rfl
        · obtain rfl := Option.some.inj hstep
          rfl
      · cases hstep
  | go i =>
      refine .inl ?_
      simp only [transferStep] at hstep
      split at hstep
      · obtain rfl := Option.some.inj hstep
        exact loop_answers transfer s i
      · split at hstep
        · obtain rfl := Option.some.inj hstep
          rfl
        · obtain rfl := Option.some.inj hstep
          rfl
      · obtain rfl := Option.some.inj hstep
        rfl
      · cases hstep
  | sign i answer =>
      refine .inl ?_
      simp only [transferStep] at hstep
      split at hstep
      · split at hstep
        · obtain rfl := Option.some.inj hstep
          rfl
        · obtain rfl := Option.some.inj hstep
          exact startPut_answers _ _ _ _ _
      · cases hstep
  | wake i =>
      refine .inl ?_
      simp only [transferStep] at hstep
      split at hstep
      · obtain rfl := Option.some.inj hstep
        exact startPut_answers _ _ _ _ _
      · cases hstep
  | drop i message =>
      obtain ⟨phase, rfl, -⟩ := SendState.drop_cases hstep
      exact .inl rfl
  | resolve =>
      obtain ⟨-, hsome⟩ := Option.ite_none_right_eq_some.mp hstep
      obtain rfl := Option.some.inj hsome
      exact .inl rfl
  | reject i =>
      refine .inl ?_
      simp only [transferStep] at hstep
      split at hstep
      · obtain rfl := Option.some.inj hstep
        rfl
      · cases hstep
  | cancel =>
      refine .inl ?_
      simp only [transferStep] at hstep
      split at hstep
      · obtain rfl := Option.some.inj hstep
        rfl
      · obtain rfl := Option.some.inj hstep
        rfl

theorem Sound.of_begun (hs : Begun etagOf upload file held s) :
    Sound etagOf upload file held s := by
  refine ⟨.init hs.page, hs.object, hs.stored, hs.held, fun answer hanswer => ?_⟩
  rw [hs.page, startTransfer_answers] at hanswer
  exact absurd hanswer List.not_mem_nil

/-- Another part of the file in the store. -/
theorem Sound.uploadPart (hs : Sound etagOf upload file held s) {part : StoredPart}
    (hpart : OfFile etagOf upload file part) : Sound etagOf upload file held
      { s with bucket := s.bucket.uploadPart (upload.storageId.getD "") part } := by
  obtain ⟨parts, hlookup, hparts⟩ := hs.stored
  have hkept : ∀ {number : ℕ} {etag : String}, Stored upload s number etag →
      Stored upload { s with bucket := s.bucket.uploadPart (upload.storageId.getD "") part }
        number etag := fun hstored => hstored.uploadPart hlookup hparts hpart
  refine ⟨hs.page, ?_, ⟨_, ?_, hparts.uploadPart hpart⟩, ?_, ?_⟩
  · exact (Bucket.uploadPart_object _ part s.bucket).trans hs.object
  · show AList.lookup _ (Bucket.uploadPart _ part s.bucket).uploads = _
    unfold Bucket.uploadPart
    rw [hlookup]
    exact AList.lookup_insert _
  · intro number hone hcount etag hheld
    exact hkept (hs.held number hone hcount etag hheld)
  · intro answer hanswer hok
    obtain ⟨etag, hstored, hshown⟩ := hs.answered answer hanswer hok
    exact ⟨etag, hkept hstored, hshown⟩

/-- What a page sends is a part of the file. -/
theorem ofFile_of_sends (hrow : RowFor file upload) {part : StoredPart}
    (hsends : SendsPart file upload part) (hetag : part.etag = etagOf part.data) :
    OfFile etagOf upload file part := by
  obtain ⟨hone, hcount, hdata⟩ := hsends.slice hrow
  refine ⟨hone, hcount, ?_⟩
  unfold storedSlice
  rw [← hdata, ← hetag]

theorem Sound.step (hrow : RowFor file upload) (hs : Sound etagOf upload file held s)
    {a : SendingAction} (ha : Truthful etagOf upload file s a)
    (hstep : SendingRuns.step etagOf upload file held s a = some t) :
    Sound etagOf upload file held t := by
  cases a with
  | page action =>
      obtain ⟨page, hpage, rfl⟩ := Option.map_eq_some_iff.mp hstep
      refine ⟨hs.page.next hpage, hs.object, hs.stored, hs.held, ?_⟩
      obtain hsame | ⟨i, response, number, attempt, url, rfl, hphase, hanswers⟩ :=
        answers_step hpage
      · rw [hsame]
        exact hs.answered
      · intro answer hanswer hok
        rw [hanswers] at hanswer
        obtain hold | hnew := List.mem_append.mp hanswer
        · exact hs.answered answer hold hok
        · obtain rfl := List.mem_singleton.mp hnew
          exact ha hok number attempt url hphase
  | land put =>
      obtain ⟨hput, hsome⟩ := Option.ite_none_right_eq_some.mp hstep
      obtain rfl := Option.some.inj hsome
      exact hs.uploadPart (ofFile_of_sends hrow ⟨held, s.page, put, hs.page, hput, rfl, rfl⟩ rfl)
  | elsewhere part =>
      obtain rfl := Option.some.inj hstep
      exact hs.uploadPart (ofFile_of_sends hrow ha.1 ha.2)

theorem sound_of_reachable (hrow : RowFor file upload)
    (hs : (system etagOf upload file held).ReachableUnder (Truthful etagOf upload file) s) :
    Sound etagOf upload file held s :=
  hs.invariant (Sound etagOf upload file held) (fun _ => Sound.of_begun)
    fun _ _ _ _ hs ha hstep => hs.step hrow ha hstep

/-! ## A transfer that resolves -/

/-- Every entry of the manifest names a part the store has. -/
theorem Sound.manifest_stored (hs : Sound etagOf upload file held s) {parts : List ManifestPart}
    (hsettled : s.page.settled = some (.ok parts)) {part : ManifestPart} (hpart : part ∈ parts) :
    part.etag = some (etagOf (partSlice file part.n)) ∧
      Stored upload s part.n (etagOf (partSlice file part.n)) := by
  obtain ⟨stored, hlookup, hstored⟩ := hs.stored
  have hconsistent := SendState.Consistent.of_reachable hs.page
  rw [(hconsistent.settled parts hsettled).2] at hpart
  obtain ⟨index, hindex, rfl⟩ := List.mem_map.mp hpart
  rw [List.mem_range] at hindex
  dsimp only
  suffices h : ∃ etag, s.page.etags index = some etag ∧ Stored upload s (index + 1) etag by
    obtain ⟨etag, hplace, hetag⟩ := h
    have hown := hetag.etag hlookup hstored
    rw [← hown]
    exact ⟨hplace, hetag⟩
  cases hheld : held (index + 1) with
  | some already =>
      exact ⟨already, hconsistent.held index hindex already hheld,
        hs.held (index + 1) (Nat.le_add_left 1 index) hindex already hheld⟩
  | none =>
      obtain ⟨response, etag, hsucceeded, hshown, hplace⟩ := hconsistent.kept_of_settled hsettled
        (SendState.mem_todo.mpr ⟨Nat.le_add_left 1 index, hindex, hheld⟩)
      have hresponse : response ∈ s.page.succeeded (index + 1) := by
        rw [hsucceeded]
        exact List.mem_singleton_self response
      obtain ⟨answer, hanswer, rfl⟩ := List.mem_map.mp hresponse
      obtain ⟨hanswer, htaken⟩ := List.mem_filter.mp hanswer
      obtain ⟨hnumber, hok⟩ := of_decide_eq_true htaken
      obtain ⟨stored, hin, hsame⟩ := hs.answered answer hanswer hok
      refine ⟨etag, hplace, ?_⟩
      rw [hsame etag hshown, ← hnumber]
      exact hin

theorem mem_partNumbersUpTo {n : ℤ} {count : ℕ} :
    n ∈ partNumbersUpTo count ↔ 1 ≤ n ∧ n ≤ count := by
  rw [partNumbersUpTo_eq, List.mem_map]
  constructor
  · rintro ⟨i, hi, rfl⟩
    have hlt := List.mem_range.mp hi
    omega
  · rintro ⟨hone, hle⟩
    exact ⟨n.toNat - 1, List.mem_range.mpr (by omega), by omega⟩

/-- The store has every part once. -/
theorem Sound.numbers_perm (hs : Sound etagOf upload file held s) {parts : List ManifestPart}
    (hsettled : s.page.settled = some (.ok parts)) {stored : List StoredPart}
    (hlookup : s.bucket.uploads.lookup (upload.storageId.getD "") = some stored)
    (hstored : StoredSlices etagOf upload file stored) :
    (stored.map (·.n)).Perm (partNumbersUpTo upload.partCount.toNat) := by
  have htotal := partCount_toNat upload
  refine (List.perm_ext_iff_of_nodup hstored.nodup
    ((partNumbersUpTo_pairwise _).imp fun hlt => Int.ne_of_lt hlt)).mpr fun n => ?_
  rw [mem_partNumbersUpTo]
  constructor
  · intro hn
    obtain ⟨part, hpart, rfl⟩ := List.mem_map.mp hn
    obtain ⟨hone, hcount, -⟩ := hstored.slices part hpart
    exact ⟨hone, by omega⟩
  · rintro ⟨hone, hcount⟩
    -- The manifest has an entry for the number, and what it names is stored.
    have hentry : (⟨n.toNat - 1 + 1, s.page.etags (n.toNat - 1)⟩ : ManifestPart) ∈ parts := by
      rw [((SendState.Consistent.of_reachable hs.page).settled parts hsettled).2]
      exact List.mem_map.mpr ⟨n.toNat - 1, List.mem_range.mpr (by
        show n.toNat - 1 < upload.partCount.toNat
        omega), rfl⟩
    obtain ⟨-, others, hothers, part, hpart, hnumber, -⟩ := hs.manifest_stored hsettled hentry
    obtain rfl := Option.some.inj (hlookup.symm.trans hothers)
    refine List.mem_map.mpr ⟨part, hpart, hnumber.trans ?_⟩
    show ((n.toNat - 1 + 1 : ℕ) : ℤ) = n
    omega

/-- The body of the `complete` request: the manifest as it is sent. -/
def requestParts (parts : List ManifestPart) : List UploadedPart :=
  parts.map fun part => ⟨part.n, part.etag.getD ""⟩

theorem requestParts_numbers {parts : List ManifestPart}
    (hparts : parts = s.page.manifest (transferOf upload held)) :
    (requestParts parts).map (·.n) = partNumbersUpTo upload.partCount.toNat := by
  rw [hparts, partNumbersUpTo_eq]
  unfold requestParts SendState.manifest
  rw [List.map_map, List.map_map]
  exact List.map_congr_left fun i _ => Nat.cast_succ i

/-- The entries of the request carry the ETags of the slices. -/
theorem Sound.requestParts_etag (hs : Sound etagOf upload file held s)
    {parts : List ManifestPart} (hsettled : s.page.settled = some (.ok parts))
    {part : UploadedPart} (hpart : part ∈ requestParts parts) :
    part.etag = etagOf (partSlice file part.n) := by
  obtain ⟨entry, hentry, rfl⟩ := List.mem_map.mp hpart
  show entry.etag.getD "" = etagOf (partSlice file entry.n)
  rw [(hs.manifest_stored hsettled hentry).1, Option.getD_some]

/-- The schema lets the manifest through. -/
theorem Sound.request (hs : Sound etagOf upload file held s)
    (hetag : ∀ bytes, 1 ≤ (etagOf bytes).length ∧ (etagOf bytes).length ≤ 128)
    (hmost : upload.partCount ≤ maxParts) {parts : List ManifestPart}
    (hsettled : s.page.settled = some (.ok parts)) :
    ∃ request : CompleteUpload, request.parts = requestParts parts := by
  have hnumbers := requestParts_numbers
    ((SendState.Consistent.of_reachable hs.page).settled parts hsettled).2
  have htotal := partCount_toNat upload
  have hlength : (requestParts parts).length = upload.partCount.toNat := by
    rw [← List.length_map (·.n), hnumbers, partNumbersUpTo_length]
  have hfirst : 0 < upload.partCount.toNat := by
    rw [partCount_eq, lt_cutCount_iff (partSize_toNat_pos upload), Nat.zero_mul]
    have hsize := upload.ckUploadSize.1
    omega
  refine ⟨⟨requestParts parts, fun part hpart => ⟨?_, ?_⟩, ⟨?_, ?_⟩, ?_⟩, rfl⟩
  · have hmem : part.n ∈ (requestParts parts).map (·.n) := List.mem_map_of_mem hpart
    rw [hnumbers, mem_partNumbersUpTo] at hmem
    exact ⟨hmem.1, by omega⟩
  · rw [hs.requestParts_etag hsettled hpart]
    exact hetag _
  · omega
  · omega
  · rw [hnumbers, hlength]
    exact insertionSort_eq_partNumbersUpTo_iff.mpr (List.Perm.refl _)

theorem length_partSlice (hrow : RowFor file upload) {n : ℤ} (hone : 1 ≤ n)
    (hcount : n ≤ upload.partCount) :
    ((partSlice file n).length : ℤ) = expectedPartSize upload n := by
  have htotal := partCount_toNat upload
  have hdue := @expectedPartSize_eq upload (n.toNat - 1) (by omega)
  have hlength : upload.size.toNat = file.length := by
    rw [hrow.size, Int.toNat_natCast]
  rw [show ((n.toNat - 1 : ℕ) : ℤ) + 1 = n by omega, hrow.partSize, hlength] at hdue
  rw [hdue]
  unfold partSlice
  rw [length_piece_cut]

/-- The store has exactly the parts of the request. -/
theorem Sound.partsExact (hrow : RowFor file upload) (hs : Sound etagOf upload file held s)
    {parts : List ManifestPart} (hsettled : s.page.settled = some (.ok parts))
    {stored : List StoredPart}
    (hlookup : s.bucket.uploads.lookup (upload.storageId.getD "") = some stored)
    (hstored : StoredSlices etagOf upload file stored) :
    PartsExact upload (requestParts parts) stored where
  named := by
    rw [requestParts_numbers ((SendState.Consistent.of_reachable hs.page).settled parts hsettled).2]
  stored := hs.numbers_perm hsettled hlookup hstored
  etags supplied hsupplied part hpart hnumber := by
    rw [hs.requestParts_etag hsettled hsupplied, hnumber, (hstored.slices part hpart).2.2]
    rfl
  sizes part hpart := by
    obtain ⟨hone, hcount, hpart⟩ := hstored.slices part hpart
    rw [← length_partSlice hrow hone hcount]
    unfold StoredPart.size
    conv_lhs => rw [hpart]
    rfl

/-- All slices together are the file. -/
theorem flatMap_partSlice_eq (hrow : RowFor file upload) :
    (partNumbersUpTo upload.partCount.toNat).flatMap (partSlice file) = file := by
  have hlength : upload.size.toNat = file.length := by
    rw [hrow.size, Int.toNat_natCast]
  rw [Bucket.flatMap_partSlice file, ← hrow.partSize, partCount_eq, hlength]
  refine List.take_of_length_le (Nat.le_of_not_lt fun hlt => ?_)
  exact absurd ((lt_cutCount_iff (partSize_toNat_pos upload)).mpr hlt) (Nat.lt_irrefl _)

/-- The parts of the request are merged into the file. -/
theorem Sound.merge (hrow : RowFor file upload) (hs : Sound etagOf upload file held s)
    {parts : List ManifestPart} (hsettled : s.page.settled = some (.ok parts))
    {request : CompleteUpload} (hrequest : request.parts = requestParts parts) :
    s.bucket.completeMultipartUpload (upload.storageId.getD "") request.manifest =
      .ok ((), { s.bucket with
        object := some file
        uploads := s.bucket.uploads.erase (upload.storageId.getD "") }) := by
  obtain ⟨stored, hlookup, hstored⟩ := hs.stored
  have hslices : ∀ part ∈ stored, part.data = partSlice file part.n := fun part hpart => by
    conv_lhs => rw [(hstored.slices part hpart).2.2]
    rfl
  -- Every entry of the manifest finds its part.
  have hfound : ∀ named ∈ request.manifest, (Bucket.partFor stored named).isSome := by
    intro named hnamed
    have hsupplied : named ∈ requestParts parts := by
      rw [← hrequest]
      exact (sortedParts_perm request.parts).mem_iff.mp hnamed
    obtain ⟨entry, hentry, rfl⟩ := List.mem_map.mp hsupplied
    obtain ⟨hetag, others, hothers, part, hpart, hnumber, hsame⟩ :=
      hs.manifest_stored hsettled hentry
    obtain rfl := Option.some.inj (hlookup.symm.trans hothers)
    refine List.find?_isSome.mpr ⟨part, hpart, decide_eq_true ⟨hnumber, ?_⟩⟩
    show part.etag = entry.etag.getD ""
    rw [hetag, hsame]
    rfl
  obtain ⟨merged, hmerged⟩ := Bucket.exists_mapM hfound
  have hnumbers : request.manifest.map (·.n) = partNumbersUpTo upload.partCount.toNat := by
    have hlength : request.manifest.length = upload.partCount.toNat := by
      show (sortedParts request.parts).length = upload.partCount.toNat
      rw [(sortedParts_perm request.parts).length_eq, hrequest, ← List.length_map (·.n),
        requestParts_numbers
          ((SendState.Consistent.of_reachable hs.page).settled parts hsettled).2,
        partNumbersUpTo_length]
    rw [request.manifest_numbers, hlength]
  unfold Bucket.completeMultipartUpload
  rw [hlookup]
  dsimp only
  rw [hmerged]
  dsimp only
  rw [Bucket.flatMap_data_of_mapM hslices hmerged, hnumbers, flatMap_partSlice_eq hrow]

/-- The manifest is a request that the API accepts: run where no call raises, before the session
expires, the `complete` it calls for ends as `Completes` says. -/
theorem Sound.completes (hrow : RowFor file upload) (hs : Sound etagOf upload file held s)
    (hetag : ∀ bytes, 1 ≤ (etagOf bytes).length ∧ (etagOf bytes).length ≤ 128)
    (hmost : upload.partCount ≤ maxParts) (hopen : upload.state = .open)
    (hinitialized : upload.initialized = true) {parts : List ManifestPart}
    (hsettled : s.page.settled = some (.ok parts)) :
    ∃ request : CompleteUpload, request.parts = requestParts parts ∧
      ∀ (maxUploadBytes : ℤ) (runs : UploadRuns) (party : ℕ) (first second third : Circumstances),
        runs.session = some upload → runs.bucket = s.bucket →
        runs.parties.lookup party = none → first.now < upload.expiresAt →
        first.Calm → second.Calm → third.Calm →
        ∃ t, (uploadSystem maxUploadBytes).run runs
            [.call party upload.ownerId (.complete request) first, .proceed party second,
              .proceed party third] = some t ∧
          UploadRuns.Completes runs t party upload file := by
  obtain ⟨request, hrequest⟩ := hs.request hetag hmost hsettled
  refine ⟨request, hrequest, ?_⟩
  intro maxUploadBytes runs party first second third hsession hbucket hparty hlive hfirst hsecond
    hthird
  obtain ⟨stored, hlookup, hstored⟩ := hs.stored
  have hexact := hs.partsExact hrow hsettled hlookup hstored
  rw [← hrequest] at hexact
  have hmerge := hs.merge hrow hsettled hrequest
  rw [← hbucket] at hlookup hmerge
  refine UploadRuns.completes_run maxUploadBytes rfl hparty hsession hopen hinitialized hlive ?_
    hlookup ((validateParts_eq_pure_iff request).mpr hexact) hmerge rfl hrow.size.symm
    (AList.lookup_erase _ _) hfirst hsecond hthird
  rw [hbucket]
  exact hs.object

end SendingRuns

end Frontend
end MediaPlayer
