import MediaPlayer.Library.CheckedFold
import MediaPlayer.Worker.ProcessingSteps

/-!
# What a processing run leaves

`FfmpegProcessor.run` and `EditProcessor.run` in every world: whatever the calls on the store and
the tools come to, and wherever the process dies.

* `UploaderMessage` — the messages that are written for the uploader.
* `Reads` — a part of a run that leaves storage alone, with a rule for each construct.
* `Destination` — where a run's files go, and the three states storage can be in: `Kept`,
  `Uploaded`, `Illustrated`.
* `processing_run` — what a run that returns has done, and what one that raises may leave.
-/

namespace MediaPlayer
namespace Worker

open Library Models Schemas Services Api

/-! ## What the uploader is told -/

/-- The messages that are fixed texts. -/
def fixedMessages : List String :=
  ["storage could not be reached; please try again",
    "the processed video could not be saved; please try again",
    "the uploaded file could not be read back; please try again",
    unprocessableVideo, noVideoStream,
    "the uploaded file is no longer in storage; please upload it again",
    "the source video is no longer in storage; choose another video",
    "processing took too long; try a shorter or smaller video",
    "the edit took too long; try a shorter or smaller video",
    invalidEdit,
    "edits that change the picture cannot be combined with MP3 conversion"]

/-- The messages that are written for the uploader. -/
inductive UploaderMessage : String → Prop
  | fixed {message : String} (hfixed : message ∈ fixedMessages) : UploaderMessage message
  | stopped (minutes : ℕ) : UploaderMessage
      (s!"processing took too long and was stopped after about {minutes} minutes; " ++
        "try a shorter or smaller video")
  | source {message : String} {durationSeconds : ℚ} {maxDurationSeconds : ℕ}
      (hrefused : checkSourceDuration durationSeconds maxDurationSeconds = .error message) :
      UploaderMessage message
  | clip {message : String} {start finish : ℚ} {durationSeconds : Option ℚ}
      (hrefused : validateClip start finish durationSeconds = .error message) :
      UploaderMessage message
  | crop {message : String} {x y w h : ℤ} {width height : Option ℤ}
      (hrefused : validateCrop x y w h width height = .error message) : UploaderMessage message
  | rules {message : String} {operations : List EditOperation} {height width : Option ℤ}
      (hrefused : checkEditOperations operations height width = .error message) :
      UploaderMessage message

theorem UploaderMessage.of_probe {message : String} (hmessage : ProbeMessage message) :
    UploaderMessage message :=
  .fixed (by rcases hmessage with rfl | rfl <;> simp [fixedMessages])

/-! ## Programs that leave storage alone -/

/-- The program leaves storage as it is, and what it raises is worded for the uploader. -/
def Reads {α : Type} (x : Step α) (q : α → Prop) : Prop :=
  ∀ before, Ensures (· = before) x (fun a after => after = before ∧ q a)
    fun e after => after = before ∧ e.Says UploaderMessage

namespace Reads

variable {α β : Type} {x : Step α} {q : α → Prop}

/-- So whatever held of storage before holds after it. -/
theorem ensures (hx : Reads x q) (p : Objects → Prop) :
    Ensures p x (fun a after => p after ∧ q a) fun e after => p after ∧ e.Says UploaderMessage := by
  intro before hbefore
  have hend := hx before before rfl
  cases hrun : x before with
  | ok a after =>
      rw [hrun] at hend
      obtain ⟨rfl, ha⟩ := hend
      exact ⟨hbefore, ha⟩
  | error e after =>
      rw [hrun] at hend
      obtain ⟨rfl, he⟩ := hend
      exact ⟨hbefore, he⟩

theorem mono {q' : α → Prop} (hx : Reads x q) (hq : ∀ a, q a → q' a) : Reads x q' :=
  fun before => (hx before).conseq (fun _ h => h) (fun a _ h => ⟨h.1, hq a h.2⟩) fun _ _ h => h

theorem pure {a : α} (ha : q a) : Reads (Pure.pure a) q :=
  fun _ => Ensures.pure a fun _ hs => ⟨hs, ha⟩

theorem throw {e : StepError} (he : e.Says UploaderMessage) : Reads (throw e : Step α) q :=
  fun _ => Ensures.throw e fun _ hs => ⟨hs, he⟩

theorem bind {m : β → Prop} {y : Step β} {f : β → Step α} (hy : Reads y m)
    (hf : ∀ b, m b → Reads (f b) q) : Reads (y >>= f) q := by
  intro before
  refine (hy before).bind fun b => ?_
  rintro after ⟨rfl, hb⟩
  exact hf b hb after after rfl

theorem map {m : β → Prop} {y : Step β} (f : β → α) (hy : Reads y m)
    (hf : ∀ b, m b → q (f b)) : Reads (f <$> y) q :=
  fun before => (hy before).map f fun b _ h => ⟨h.1, hf b h.2⟩

theorem liftExcept {result : Except StepError α} (hok : ∀ a, result = .ok a → q a)
    (herror : ∀ e, result = .error e → e.Says UploaderMessage) :
    Reads (Worker.liftExcept result) q := by
  cases result with
  | ok a => exact .pure (hok a rfl)
  | error e => exact .throw (herror e rfl)

theorem catchException {handler : Step α} (hx : Reads x q) (hhandler : Reads handler q) :
    Reads (Worker.catchException x handler) q := by
  intro before
  refine (hx before).tryCatch fun e => ?_
  rintro after ⟨rfl, he⟩
  cases e with
  | died => exact Reads.throw (q := q) (e := .died) trivial after after rfl
  | objectStore _ _ | other _ => exact hhandler after after rfl

theorem ite {c : Prop} [Decidable c] {y : Step α} (hx : c → Reads x q) (hy : ¬c → Reads y q) :
    Reads (if c then x else y) q :=
  fun before => .ite (fun hc => hx hc before) fun hc => hy hc before

end Reads

/-! ## The calls on the store -/

section Store

variable {α : Type} {w : StepWorld} {p r : Objects → Prop} {q : α → Objects → Prop}

/-- A call of the client ends before or after what it does. -/
theorem call_ensures {storeCall : StoreCall} {act : Objects → Except String (α × Objects)}
    (hact : ∀ objects a after, p objects → act objects = .ok (a, after) → q a after ∧ r after)
    (hr : ∀ objects, p objects → r objects) :
    Ensures p (w.call storeCall act) q fun _ => r := by
  intro objects hp
  unfold StepWorld.call
  dsimp only
  cases (w.store storeCall).outcome with
  | raisedBefore => exact hr objects hp
  | returned =>
      cases hdone : act objects with
      | error code => exact hr objects hp
      | ok done => exact (hact objects done.1 done.2 hp hdone).1
  | raisedAfter =>
      cases hdone : act objects with
      | error code => exact hr objects hp
      | ok done => exact (hact objects done.1 done.2 hp hdone).2

/-- An exception of the client becomes one for the uploader. -/
theorem refusing_ensures {diagnostic : String → String} {userMessage : String}
    {x : EStateM ClientRaise Objects α} (hx : Ensures p x q fun _ => r)
    (hmessage : userMessage ∈ fixedMessages) :
    Ensures p (StepWorld.refusing diagnostic userMessage x) q
      fun e after => r after ∧ e.Says UploaderMessage := by
  intro objects hp
  have hend := hx objects hp
  unfold StepWorld.refusing EStateM.adaptExcept
  cases hrun : x objects with
  | ok a after =>
      rw [hrun] at hend
      exact hend
  | error raised after =>
      rw [hrun] at hend
      refine ⟨hend, ?_⟩
      cases raised with
      | s3Error code => exact .fixed hmessage
      | other text => trivial
      | died => trivial

theorem objectExists_reads (w : StepWorld) (key : String) :
    Reads (w.objectExists key) fun _ => True := by
  intro before
  refine (refusing_ensures (r := (· = before)) ?_ (by simp [fixedMessages])).conseq
    (fun _ h => h) (fun _ _ h => ⟨h, trivial⟩) fun _ _ h => h
  refine Ensures.tryCatch (m := fun _ after => after = before) ?_ fun raised => ?_
  · refine (call_ensures (q := fun _ after => after = before) ?_ fun _ h => h).bind
      fun _ => Ensures.pure true fun _ h => h
    rintro objects _ after rfl hdone
    cases hkey : objects key with
    | none => simp [hkey] at hdone
    | some file =>
        simp only [hkey, Except.ok.injEq, Prod.mk.injEq, true_and] at hdone
        exact ⟨hdone.symm, hdone.symm⟩
  · cases raised with
    | s3Error code =>
        exact .ite (fun _ => .pure false fun _ h => h) fun _ => .throw _ fun _ h => h
    | other text => exact .throw _ fun _ h => h
    | died => exact .throw _ fun _ h => h

theorem downloadFile_reads (w : StepWorld) (key : String) :
    Reads (w.downloadFile key) fun _ => True := by
  intro before
  refine (refusing_ensures (r := (· = before)) ?_ (by simp [fixedMessages])).conseq
    (fun _ h => h) (fun _ _ h => ⟨h, trivial⟩) fun _ _ h => h
  refine call_ensures (q := fun _ after => after = before) ?_ fun _ h => h
  rintro objects _ after rfl hdone
  cases hkey : objects key with
  | none => simp [hkey] at hdone
  | some file =>
      simp only [hkey, Except.ok.injEq, Prod.mk.injEq, true_and] at hdone
      exact ⟨hdone.symm, hdone.symm⟩

/-- An upload that raises may have stored the file. -/
theorem uploadFile_ensures {key contentType : String} {content : List UInt8}
    {q : Objects → Prop}
    (hq : ∀ objects, p objects → q (Function.update objects key (some ⟨contentType, content⟩))) :
    Ensures p (w.uploadFile key contentType content) (fun _ => q)
      fun e after => (p after ∨ q after) ∧ e.Says UploaderMessage := by
  refine refusing_ensures (r := fun after => p after ∨ q after) ?_ (by simp [fixedMessages])
  refine call_ensures ?_ fun _ h => Or.inl h
  intro objects _ after hp hdone
  obtain ⟨-, rfl⟩ := Prod.mk.inj (Except.ok.inj hdone)
  exact ⟨hq objects hp, Or.inr (hq objects hp)⟩

end Store

/-! ## What the parts of a run come to -/

/-- A file that a command wrote in a run that succeeded. -/
def StepWorld.Wrote (w : StepWorld) (command : List String) (content : List UInt8) : Prop :=
  ∃ stdout stderr, w.tool command = .exited 0 stdout stderr (some content)

theorem probe_tells {w : StepWorld} {prober : Prober} {path : String} {e : StepError}
    (hprobe : prober.probe w path = .error e) : e.Says UploaderMessage := by
  have htells := probeSource_error hprobe
  cases e with
  | objectStore diagnostic userMessage => exact .of_probe htells
  | other text => trivial
  | died => trivial

theorem extract_error {thumbnailer : Thumbnailer} {w : StepWorld} {source output : String}
    {probe : ProbedSource} {e : StepError}
    (hextract : thumbnailer.extract w source output probe = .error e) :
    e.Says UploaderMessage := by
  unfold Thumbnailer.extract at hextract
  split at hextract
  · obtain rfl := Except.error.inj hextract
    trivial
  · obtain rfl := Except.error.inj hextract
    trivial
  · obtain rfl := Except.error.inj hextract
    trivial
  · split at hextract
    · obtain rfl := Except.error.inj hextract
      trivial
    · split at hextract
      · obtain rfl := Except.error.inj hextract
        trivial
      · exact absurd hextract (by simp)

/-- A poster frame is not empty. -/
theorem extract_ne_nil {thumbnailer : Thumbnailer} {w : StepWorld} {source output : String}
    {probe : ProbedSource} {picture : List UInt8}
    (hextract : thumbnailer.extract w source output probe = .ok picture) : picture ≠ [] := by
  unfold Thumbnailer.extract at hextract
  split at hextract
  case h_4 =>
    split at hextract
    · exact absurd hextract (by simp)
    · split at hextract
      · exact absurd hextract (by simp)
      · rename_i hwritten
        obtain rfl := Except.ok.inj hextract
        simpa using (Option.filter_eq_some_iff.mp hwritten).2
  all_goals exact absurd hextract (by simp)

namespace FfmpegProcessor

variable (p : FfmpegProcessor) (w : StepWorld)

theorem probe_reads : Reads (p.probe w) fun _ => True := by
  unfold FfmpegProcessor.probe
  cases p.prober with
  | none => exact .pure trivial
  | some prober =>
      have hprobe : Reads (liftExcept (prober.probe w w.sourcePath)) fun _ => True :=
        .liftExcept (fun _ _ => trivial) fun _ => probe_tells
      cases p.sourceCheck with
      | none => exact .catchException (hprobe.map some fun _ _ => trivial) (.pure trivial)
      | some maxDurationSeconds =>
          refine hprobe.bind fun probe _ => ?_
          cases hcheck : checkSourceDuration probe.durationSeconds maxDurationSeconds with
          | ok _ => exact .pure trivial
          | error message => exact .throw (.source hcheck)

theorem takeThumbnail_reads (probe : Option ProbedSource) :
    Reads (p.takeThumbnail w probe) fun taken => ∀ picture ∈ taken, picture ≠ [] := by
  unfold FfmpegProcessor.takeThumbnail
  cases p.thumbnailer with
  | none => exact .pure (by simp)
  | some thumbnailer =>
      cases probe with
      | none => exact .pure (by simp)
      | some probe =>
          refine .catchException (.map some
            (.liftExcept (fun _ => extract_ne_nil) fun _ => extract_error) ?_) (.pure (by simp))
          rintro picture hpicture other ⟨⟩
          exact hpicture

theorem encodeOnce_reads (output : String) (maxFps : ℕ) (probe : Option ProbedSource) :
    Reads (p.encodeOnce w output maxFps probe) fun written => ∀ content ∈ written,
      ∃ hdr watching, w.Wrote (p.encodeCommand w output maxFps hdr watching) content := by
  unfold FfmpegProcessor.encodeOnce
  dsimp only
  split
  · exact .throw trivial
  · exact .throw trivial
  · exact .throw (.stopped _)
  · rename_i returncode stdout stderr written hran
    refine .ite (fun _ => .throw (.fixed (by simp [fixedMessages]))) fun hzero => .pure ?_
    rintro content rfl
    rw [not_not] at hzero
    subst hzero
    exact ⟨_, _, _, _, hran⟩

end FfmpegProcessor

/-- A filter that cannot be built is a `KeyError`. -/
theorem buildStep_tells {operation : EditOperation} {frame : Services.Frame} {e : EditError}
    (hbuilt : buildStep EditOps.filters operation frame = .error e) :
    e.stepError.Says UploaderMessage := by
  cases operation with
  | clip | convert | crop | downscale | upscale | speed | flip =>
      exact absurd hbuilt (by simp [buildStep, EditOps.filters, EditOps.crop, EditOps.downscale,
        EditOps.upscale, EditOps.speed, EditOps.flip])
  | adjust =>
      simp only [buildStep, EditOps.filters, EditOps.adjust] at hbuilt
      split at hbuilt <;> exact absurd hbuilt (by simp)
  | preset name =>
      simp only [buildStep, EditOps.filters, EditOps.preset] at hbuilt
      split at hbuilt
      · obtain rfl := Except.error.inj hbuilt
        trivial
      · exact absurd hbuilt (by simp)
  | rotate degrees =>
      simp only [buildStep, EditOps.filters, EditOps.rotate] at hbuilt
      split at hbuilt
      · obtain rfl := Except.error.inj hbuilt
        trivial
      · exact absurd hbuilt (by simp)

/-- The filters of an edit raise no `ObjectStoreError`. -/
theorem filterChain_tells {operations : List EditOperation} {frame : Services.Frame} {e : EditError}
    (hchain : filterChain EditOps.filters operations frame = .error e) :
    e.stepError.Says UploaderMessage := by
  unfold filterChain at hchain
  cases hfold : (ordered operations).foldlM (chainStep EditOps.filters) ({}, frame) with
  | ok state =>
      rw [hfold] at hchain
      exact absurd hchain (by simp [bind, Except.bind, pure, Except.pure])
  | error raised =>
      rw [hfold] at hchain
      obtain rfl : raised = e := Except.error.inj hchain
      refine foldlM_error (P := fun e => e.stepError.Says UploaderMessage) ?_ hfold
      intro state operation e hstep
      unfold chainStep at hstep
      cases hbuilt : buildStep EditOps.filters operation state.2 with
      | ok step =>
          cases hcheck : checkOperation state.2 operation with
          | ok frame =>
              exact absurd hstep (by
                simp [hbuilt, hcheck, bind, Except.bind, pure, Except.pure, Except.mapError])
          | error message =>
              simp only [hbuilt, hcheck, bind, Except.bind, Except.mapError] at hstep
              obtain rfl := Except.error.inj hstep
              trivial
      | error raised =>
          simp only [hbuilt, bind, Except.bind] at hstep
          obtain rfl := Except.error.inj hstep
          exact buildStep_tells hbuilt

/-- The only exception of a command that is worded for the uploader. -/
theorem buildEditCommand_tells {numbers : NumberTexts} {settings : EditSettings}
    {request : EditRequest} {frame : Option Services.Frame} {e : EditError}
    (hbuilt : buildEditCommand numbers settings request frame = .error e) :
    e.stepError.Says UploaderMessage := by
  unfold buildEditCommand at hbuilt
  cases hchain : filterChain EditOps.filters request.operations (startFrame frame) with
  | error raised =>
      rw [hchain] at hbuilt
      obtain rfl : raised = e := Except.error.inj hbuilt
      exact filterChain_tells hchain
  | ok chain =>
      cases houtput : outputArguments numbers settings request chain with
      | error raised =>
          simp only [hchain, bind, Except.bind, houtput] at hbuilt
          obtain rfl := Except.error.inj hbuilt
          unfold outputArguments at houtput
          split at houtput
          · split at houtput
            · obtain rfl := Except.error.inj houtput
              exact .fixed (by simp [fixedMessages])
            · exact absurd houtput (by simp)
          · split at houtput <;> exact absurd houtput (by simp)
      | ok output =>
          exact absurd hbuilt (by simp [hchain, bind, Except.bind, houtput, pure, Except.pure])

namespace EditProcessor

variable (p : EditProcessor) (w : StepWorld)

theorem request_reads : Reads p.request fun request => request.operations = p.operations := by
  unfold EditProcessor.request
  split
  · exact .pure rfl
  · exact .throw (.fixed (by simp [fixedMessages]))

theorem editRefused_reads {result : Checked Unit}
    (herror : ∀ message, result = .error message → UploaderMessage message) :
    Reads (editRefused result) fun _ => True := by
  cases result with
  | ok _ => exact .pure trivial
  | error message => exact .throw (herror message rfl)

theorem check_reads (request : EditRequest) (probe : ProbedSource) :
    Reads (check request probe) fun _ => True := by
  refine (editRefused_reads fun message hrefused => ?_).bind fun _ _ =>
    (editRefused_reads fun message hrefused => ?_).bind fun _ _ =>
      editRefused_reads fun message => .rules
  · unfold checkClip at hrefused
    split at hrefused
    · exact .clip hrefused
    · exact absurd hrefused (by simp)
  · unfold checkCrop at hrefused
    split at hrefused
    · exact .crop hrefused
    · exact absurd hrefused (by simp)

theorem checked_reads (request : EditRequest) : Reads (p.checked w request) fun _ => True := by
  refine .ite (fun _ => ?_) fun _ => .pure trivial
  refine Reads.bind (m := fun _ => True) (.liftExcept (fun _ _ => trivial) fun _ => probe_tells)
    fun probe _ => ?_
  exact (check_reads request probe).bind fun _ _ => .pure trivial

theorem isHdr_reads (probe : Option ProbedSource) : Reads (p.isHdr w probe) fun _ => True := by
  cases probe with
  | some probe => exact .pure trivial
  | none =>
      refine .catchException (.map (m := fun _ => True) _ ?_ fun _ _ => trivial) (.pure trivial)
      exact .liftExcept (fun _ _ => trivial) fun _ => probe_tells

theorem encode_reads (command : List String) : Reads (p.encode w command) (w.Wrote command) := by
  unfold EditProcessor.encode
  split
  · exact .throw trivial
  · exact .throw trivial
  · exact .throw (.fixed (by simp [fixedMessages]))
  · rename_i returncode stdout stderr written hran
    refine .ite (fun _ => .throw (.fixed (by simp [fixedMessages]))) fun hzero => ?_
    rw [not_not] at hzero
    subst hzero
    cases written with
    | none => exact .throw (.fixed (by simp [fixedMessages]))
    | some edited => exact .pure ⟨stdout, stderr, hran⟩

theorem probeOutput_reads (output : String) : Reads (p.probeOutput w output) fun _ => True := by
  refine .catchException (.map (m := fun _ => True) _ ?_ fun _ _ => trivial) (.pure trivial)
  exact .liftExcept (fun _ _ => trivial) fun _ => probe_tells

end EditProcessor

/-! ## Where the files of a run go -/

/-- Where a run puts its files, and what its output may be. -/
structure Destination where
  piecesPrefix : String
  outputKey : String
  thumbnailKey : String
  contentType : String
  made : List UInt8 → Prop

namespace Destination

variable (d : Destination) (before after : Objects)

/-- Nothing has been uploaded: outside the folder of pieces, storage is as it was. -/
def Kept : Prop := ∀ key, startsWith key d.piecesPrefix = false → after key = before key

/-- A whole output is in storage. -/
def HasOutput : Prop :=
  ∃ content, d.made content ∧ after d.outputKey = some ⟨d.contentType, content⟩

/-- A poster frame is in storage. -/
def HasThumbnail : Prop :=
  ∃ picture, picture ≠ [] ∧ after d.thumbnailKey = some ⟨thumbnailContentType, picture⟩

/-- The output has been uploaded, and nothing else. -/
structure Uploaded : Prop where
  output : d.HasOutput after
  kept : ∀ key, startsWith key d.piecesPrefix = false → key ≠ d.outputKey → after key = before key

/-- The poster frame has been uploaded as well. -/
structure Illustrated : Prop where
  output : d.HasOutput after
  thumbnail : d.HasThumbnail after
  kept : ∀ key, startsWith key d.piecesPrefix = false → key ≠ d.outputKey →
    key ≠ d.thumbnailKey → after key = before key

/-- What a run leaves that raises: its output at most, and the poster frame only where the
process died. -/
def Left (e : StepError) : Prop :=
  (d.Kept before after ∨ d.Uploaded before after ∨ e = .died ∧ d.Illustrated before after) ∧
    e.Says UploaderMessage

variable {d before after}

theorem uploadOutput_ensures {w : StepWorld} {content : List UInt8} (hmade : d.made content) :
    Ensures (d.Kept before) (w.uploadFile d.outputKey d.contentType content)
      (fun _ => d.Uploaded before) fun e after => d.Left before after e := by
  refine (uploadFile_ensures (q := d.Uploaded before) ?_).conseq (fun _ h => h) (fun _ _ h => h)
    fun _ _ h => ⟨h.1.imp_right Or.inl, h.2⟩
  intro objects hkept
  refine ⟨⟨content, hmade, Function.update_self ..⟩, fun key hkey hne => ?_⟩
  rw [Function.update_of_ne hne]
  exact hkept key hkey

/-- A poster frame is stored, or the run goes on without one. -/
theorem uploadThumbnail_ensures (hne : d.outputKey ≠ d.thumbnailKey) {w : StepWorld}
    {taken : Step (List UInt8)} (htaken : Reads taken (· ≠ [])) :
    Ensures (d.Uploaded before)
      (catchException
        (do
          let picture ← taken
          w.uploadFile d.thumbnailKey thumbnailContentType picture
          return some d.thumbnailKey)
        (return none))
      (fun key after => (key = none ∨ key = some d.thumbnailKey ∧ d.HasThumbnail after) ∧
        (d.Uploaded before after ∨ d.Illustrated before after))
      fun e after => d.Left before after e := by
  have hstores : ∀ picture, picture ≠ [] → ∀ objects, d.Uploaded before objects →
      d.Illustrated before
        (Function.update objects d.thumbnailKey (some ⟨thumbnailContentType, picture⟩)) := by
    rintro picture hpicture objects ⟨⟨content, hmade, houtput⟩, hkept⟩
    refine ⟨⟨content, hmade, ?_⟩, ⟨picture, hpicture, Function.update_self ..⟩,
      fun key hkey houtputKey hother => ?_⟩
    · rw [Function.update_of_ne hne]
      exact houtput
    · rw [Function.update_of_ne hother]
      exact hkept key hkey houtputKey
  refine Ensures.tryCatch (m := fun e after =>
      (d.Uploaded before after ∨ d.Illustrated before after) ∧ e.Says UploaderMessage) ?_ ?_
  · refine Ensures.bind (m := fun picture after => d.Uploaded before after ∧ picture ≠ []) ?_
      fun picture => ?_
    · exact (htaken.ensures (d.Uploaded before)).conseq (fun _ h => h) (fun _ _ h => h)
        fun _ _ h => ⟨Or.inl h.1, h.2⟩
    · intro objects huploaded
      refine ((uploadFile_ensures (q := d.Illustrated before)
        (hstores picture huploaded.2)).bind fun _ => ?_) objects huploaded.1
      exact Ensures.pure _ fun after h => ⟨Or.inr ⟨rfl, h.thumbnail⟩, Or.inr h⟩
  · intro e
    cases e with
    | died =>
        refine Ensures.throw _ fun after h => ⟨?_, h.2⟩
        exact h.1.elim (fun h => Or.inr (Or.inl h)) fun h => Or.inr (Or.inr ⟨rfl, h⟩)
    | objectStore _ _ | other _ => exact Ensures.pure _ fun after h => ⟨Or.inl rfl, h.1⟩

/-- A part of a run that leaves storage alone, followed by the rest of it. -/
theorem reads_bind {α β : Type} {x : Step α} {f : α → Step β} {q : α → Prop}
    {p : Objects → Prop} {q' : β → Objects → Prop} (hx : Reads x q)
    (hp : ∀ after, p after → d.Kept before after ∨ d.Uploaded before after)
    (hf : ∀ a, q a → Ensures p (f a) q' fun e after => d.Left before after e) :
    Ensures p (x >>= f) q' fun e after => d.Left before after e := by
  refine Ensures.bind (m := fun a after => p after ∧ q a) ?_ fun a => ?_
  · exact (hx.ensures p).conseq (fun _ h => h) (fun _ _ h => h)
      fun _ _ h => ⟨(hp _ h.1).imp_right Or.inl, h.2⟩
  · exact fun after h => hf a h.2 after h.1

/-- An exception of the run's own, before anything is uploaded. -/
theorem throw_ensures {α : Type} {diagnostic userMessage : String} {q : α → Objects → Prop}
    (hmessage : userMessage ∈ fixedMessages) :
    Ensures (d.Kept before) (throw (.objectStore diagnostic userMessage) : Step α) q
      fun e after => d.Left before after e :=
  .throw _ fun _ h => ⟨Or.inl h, .fixed hmessage⟩

end Destination

/-- The extension of an edit's output; a request for another format is refused. -/
def EditProcessor.extension (p : EditProcessor) : String :=
  match p.operations.find? fun item => operationName item = .convert with
  | some (.convert format) => if format ∈ outputExtensions then format else "mp4"
  | _ => "mp4"

namespace ProcessingStep

def root : ProcessingStep → String
  | ffmpeg p => p.root
  | edit p => p.root

def extension : ProcessingStep → String
  | ffmpeg _ => "mp4"
  | edit p => p.extension

/-- The commands in which a run of the step may encode its source. -/
def Encodes (w : StepWorld) (maxFps : ℕ) (command : List String) : ProcessingStep → Prop
  | ffmpeg p => ∃ hdr watching,
      command = p.encodeCommand w (w.tempDir ++ "/output.mp4") maxFps hdr watching
  | edit p => ∃ request hdr frame, request.operations = p.operations ∧
      buildEditCommand w.numbers
        { ffmpegBinary := p.ffmpegBinary, sourcePath := w.sourcePath,
          outputPath := w.tempDir ++ "/output." ++ p.extension, preset := p.preset, crf := p.crf,
          maxFps, hdr } request frame = .ok command

/-- What the pieced encode of an upload comes to, if the step has one. -/
def Joins (w : StepWorld) (content : List UInt8) : ProcessingStep → Prop
  | ffmpeg p => p.chunked.isSome ∧ w.pieced = .joined (some content)
  | edit _ => False

/-- Where a run of the step puts its files, and what FFmpeg may have made of its source. -/
def destination (step : ProcessingStep) (w : StepWorld) (jobId : UUID) (sourceKey : String)
    (maxFps : ℕ) : Destination where
  piecesPrefix := PieceKind.mp4.folder (jobFolder step.root jobId)
  outputKey := outputKeyAs step.root jobId sourceKey step.extension
  thumbnailKey := thumbnailKeyFor step.root jobId
  contentType := editContentType step.extension
  made content := (∃ command, step.Encodes w maxFps command ∧ w.Wrote command content) ∨
    step.Joins w content

theorem extension_mem (step : ProcessingStep) : step.extension ∈ outputExtensions := by
  cases step with
  | ffmpeg p => simp [extension, outputExtensions]
  | edit p =>
      change p.extension ∈ outputExtensions
      unfold EditProcessor.extension
      split
      · split
        · assumption
        · simp [outputExtensions]
      · simp [outputExtensions]

end ProcessingStep

/-- A name without a slash is outside the folder of pieces. -/
theorem not_startsWith_pieces {root name : String} {jobId : UUID} (hname : '/' ∉ name.toList) :
    startsWith (objectKey root jobId name) (PieceKind.mp4.folder (jobFolder root jobId)) =
      false := by
  by_contra hstarts
  rw [Bool.not_eq_false, startsWith, List.isPrefixOf_iff_prefix] at hstarts
  have hfolder : (PieceKind.mp4.folder (jobFolder root jobId)).toList =
      (root ++ "/" ++ toString jobId ++ "/").toList ++ "pieces/".toList := by
    simp [PieceKind.folder, jobFolder, toString]
  have hkey : (objectKey root jobId name).toList =
      (root ++ "/" ++ toString jobId ++ "/").toList ++ name.toList := String.toList_append
  rw [hfolder, hkey, List.prefix_append_right_inj] at hstarts
  exact hname (hstarts.subset (by decide))

/-- The two files of a run lie outside the folder of pieces, and apart. -/
structure Destination.Apart (d : Destination) : Prop where
  output : startsWith d.outputKey d.piecesPrefix = false
  thumbnail : startsWith d.thumbnailKey d.piecesPrefix = false
  ne : d.outputKey ≠ d.thumbnailKey

theorem ne_thumbnailKeyFor {root sourceKey extension : String} {jobId : UUID}
    (hextension : extension ∈ outputExtensions) :
    outputKeyAs root jobId sourceKey extension ≠ thumbnailKeyFor root jobId := by
  intro hsame
  have hname := congrArg (fun key => key.toList.reverse) hsame
  simp only [outputKeyAs, thumbnailKeyFor, objectKey, thumbnailFilename, String.toList_append,
    List.reverse_append] at hname
  simp only [outputExtensions, List.mem_cons, List.not_mem_nil, or_false] at hextension
  rcases hextension with rfl | rfl | rfl <;> simp at hname

theorem destination_apart (step : ProcessingStep) (w : StepWorld) (jobId : UUID)
    (sourceKey : String) (maxFps : ℕ) : (step.destination w jobId sourceKey maxFps).Apart := by
  obtain ⟨name, hname, -, hkey⟩ :=
    outputKeyAs_named step.root jobId sourceKey step.extension_mem
  refine ⟨?_, not_startsWith_pieces (by decide), ne_thumbnailKeyFor step.extension_mem⟩
  show startsWith (outputKeyAs step.root jobId sourceKey step.extension) _ = false
  rw [hkey]
  exact not_startsWith_pieces hname

/-- What a run has done that returns. -/
structure Returned (step : ProcessingStep) (d : Destination) (jobId : UUID) (before : Objects)
    (result : ProcessingResult) (after : Objects) : Prop where
  facts : ∃ facts : EncodeFacts, facts.Measured ∧ facts.extension = step.extension ∧
    result = facts.result (jobFolder step.root jobId)
  outputKey : result.outputKey = d.outputKey
  output : d.HasOutput after
  thumbnail : result.thumbnailKey = none ∨
    result.thumbnailKey = some d.thumbnailKey ∧ d.HasThumbnail after
  picture : after d.thumbnailKey = before d.thumbnailKey ∨ d.HasThumbnail after
  kept : ∀ key, startsWith key d.piecesPrefix = false → key ≠ d.outputKey →
    key ≠ d.thumbnailKey → after key = before key

/-- The facts of a run, and the result that is made of them. -/
def factsOf (jobId : UUID) (sourceKey extension : String) (ladderPending : Bool)
    (probe : Option ProbedSource) (thumbnailKey : Option String) : EncodeFacts where
  stem := if pathStem sourceKey = "" then toString jobId else pathStem sourceKey
  extension
  ladderPending
  thumbnail := thumbnailKey.isSome
  width := probe.map (·.width)
  height := probe.map (·.height)
  durationSeconds := probe.map (·.durationSeconds)

theorem measured_factsOf (jobId : UUID) (sourceKey extension : String) (ladderPending : Bool)
    (probe : Option ProbedSource) (thumbnailKey : Option String) :
    (factsOf jobId sourceKey extension ladderPending probe thumbnailKey).Measured := by
  cases probe with
  | none => simp [factsOf, EncodeFacts.Measured]
  | some probe =>
      simp only [factsOf, EncodeFacts.Measured, Option.map_some, Option.mem_some_iff,
        forall_eq']
      exact ⟨mod_cast probe.width_pos, mod_cast probe.height_pos, probe.duration_pos⟩

theorem objectKey_eq (root : String) (jobId : UUID) (name : String) :
    objectKey root jobId name = s!"{jobFolder root jobId}/{name}" := by
  simp [objectKey, jobFolder, toString, String.append_assoc]

theorem result_factsOf {root : String} (jobId : UUID) (sourceKey extension : String)
    (ladderPending : Bool) (probe : Option ProbedSource) {thumbnailKey : Option String}
    (hthumbnail : ∀ key ∈ thumbnailKey, key = thumbnailKeyFor root jobId) :
    (factsOf jobId sourceKey extension ladderPending probe thumbnailKey).result
        (jobFolder root jobId) =
      { outputKey := outputKeyAs root jobId sourceKey extension
        ladderPending
        width := probe.map (·.width)
        height := probe.map (·.height)
        durationSeconds := probe.map (·.durationSeconds)
        thumbnailKey } := by
  have hkey : (if thumbnailKey.isSome = true then
      some s!"{jobFolder root jobId}/{thumbnailFilename}" else none) = thumbnailKey := by
    cases thumbnailKey with
    | none => rfl
    | some key =>
        rw [hthumbnail key rfl, thumbnailKeyFor, objectKey_eq]
        rfl
  obtain ⟨stem, hstem⟩ : ∃ stem, stem =
      if pathStem sourceKey = "" then toString jobId else pathStem sourceKey := ⟨_, rfl⟩
  have houtput : outputKeyAs root jobId sourceKey extension =
      s!"{jobFolder root jobId}/{stem}.{extension}" := by
    rw [outputKeyAs, objectKey_eq, ← hstem]
    simp [toString, String.append_assoc]
  simp only [EncodeFacts.result, factsOf, houtput, ← hstem, ProcessingResult.mk.injEq, true_and]
  exact hkey

theorem returned_of (step : ProcessingStep) (w : StepWorld) {jobId : UUID} (sourceKey : String)
    (maxFps : ℕ) {before after : Objects} {thumbnailKey : Option String} :
    let d := step.destination w jobId sourceKey maxFps
    (thumbnailKey = none ∨ thumbnailKey = some d.thumbnailKey ∧ d.HasThumbnail after) →
    (d.Uploaded before after ∨ d.Illustrated before after) →
    ∀ (ladderPending : Bool) (probe : Option ProbedSource),
      Returned step d jobId before
        { outputKey := outputKeyAs step.root jobId sourceKey step.extension
          ladderPending
          width := probe.map (·.width)
          height := probe.map (·.height)
          durationSeconds := probe.map (·.durationSeconds)
          thumbnailKey } after := by
  intro d hkey hend ladderPending probe
  have hthumbnail : ∀ key ∈ thumbnailKey, key = thumbnailKeyFor step.root jobId := by
    rintro key hmem
    rcases hkey with hnone | ⟨hsome, -⟩
    · rw [hnone] at hmem
      exact absurd hmem (by simp)
    · rw [hsome] at hmem
      exact (Option.some.inj hmem).symm
  refine ⟨⟨factsOf jobId sourceKey step.extension ladderPending probe thumbnailKey,
    measured_factsOf .., rfl, (result_factsOf jobId sourceKey _ _ probe hthumbnail).symm⟩, rfl,
    ?_, hkey, ?_, ?_⟩
  · exact hend.elim (·.output) (·.output)
  · have hapart := destination_apart step w jobId sourceKey maxFps
    exact hend.imp (fun h => h.kept _ hapart.thumbnail hapart.ne.symm) (·.thumbnail)
  · intro key hpieces houtput hthumbnailKey
    exact hend.elim (fun h => h.kept key hpieces houtput)
      fun h => h.kept key hpieces houtput hthumbnailKey

theorem requireSource_reads {w : StepWorld} {key userMessage : String}
    (hmessage : userMessage ∈ fixedMessages) :
    Reads (w.requireSource key userMessage) fun _ => True :=
  (objectExists_reads w key).bind fun _ _ =>
    .ite (fun _ => .pure trivial) fun _ => .throw (.fixed hmessage)

theorem pieced_tells (error : PiecedError) (piecesPrefix : String) (timeoutSeconds : ℕ) :
    (error.error piecesPrefix timeoutSeconds).Says UploaderMessage := by
  cases error <;> first | trivial | exact .fixed (by simp [fixedMessages])

/-- A pieced encode writes to the folder of pieces alone. -/
theorem encodePieces_ensures (p : FfmpegProcessor) (w : StepWorld) (jobId : UUID)
    (sourceKey : String) (maxFps : ℕ) (probe : Option ProbedSource) (before : Objects) :
    let d := (ProcessingStep.ffmpeg p).destination w jobId sourceKey maxFps
    Ensures (d.Kept before) (p.encodePieces w jobId probe)
      (fun pieced after => d.Kept before after ∧
        ∀ written ∈ pieced, ∀ content ∈ written, d.made content)
      fun e after => d.Left before after e := by
  intro d
  have hnone : Ensures (d.Kept before) (pure none : Step (Option (Option (List UInt8))))
      (fun pieced after => d.Kept before after ∧
        ∀ written ∈ pieced, ∀ content ∈ written, d.made content)
      fun e after => d.Left before after e := Ensures.pure none fun _ h => ⟨h, by simp⟩
  unfold FfmpegProcessor.encodePieces
  split
  · rename_i hchunked
    refine .ite (fun _ => ?_) fun _ => hnone
    refine Ensures.bind (m := fun _ => d.Kept before) ?_ fun _ => ?_
    · rintro objects hkept key hkey
      have hoff : startsWith key (p.piecesPrefix jobId) = false := hkey
      simp only [hoff, Bool.false_eq_true, if_false]
      exact hkept key hkey
    · cases hpieced : w.pieced with
      | declined => exact hnone
      | joined written =>
          refine Ensures.pure _ fun _ h => ⟨h, ?_⟩
          rintro other ⟨⟩ content rfl
          exact Or.inr ⟨Option.isSome_iff_exists.mpr ⟨_, hchunked⟩, hpieced⟩
      | raised error =>
          exact Ensures.throw _ fun _ h => ⟨Or.inl h, pieced_tells error _ _⟩
  · exact hnone

theorem encode_ensures (p : FfmpegProcessor) (w : StepWorld) (jobId : UUID) (sourceKey : String)
    (maxFps : ℕ) (probe : Option ProbedSource) (before : Objects) :
    let d := (ProcessingStep.ffmpeg p).destination w jobId sourceKey maxFps
    Ensures (d.Kept before) (p.encode w jobId maxFps probe)
      (fun written after => d.Kept before after ∧ ∀ content ∈ written, d.made content)
      fun e after => d.Left before after e := by
  intro d
  have honce : Ensures (d.Kept before) (p.encodeOnce w (w.tempDir ++ "/output.mp4") maxFps probe)
      (fun written after => d.Kept before after ∧ ∀ content ∈ written, d.made content)
      fun e after => d.Left before after e := by
    refine ((p.encodeOnce_reads w _ maxFps probe).ensures (d.Kept before)).conseq (fun _ h => h)
      (fun written _ h => ⟨h.1, fun content hcontent => ?_⟩) fun _ _ h => ⟨Or.inl h.1, h.2⟩
    obtain ⟨hdr, watching, hwrote⟩ := h.2 content hcontent
    exact Or.inl ⟨_, ⟨hdr, watching, rfl⟩, hwrote⟩
  unfold FfmpegProcessor.encode
  refine Ensures.bind (m := fun pieced after => d.Kept before after ∧
    ∀ written ∈ pieced, ∀ content ∈ written, d.made content) ?_ fun pieced => ?_
  · exact encodePieces_ensures p w jobId sourceKey maxFps probe before
  · cases pieced with
    | none => exact honce.pre fun _ h => h.1
    | some written => exact Ensures.pure written fun _ h => ⟨h.1, h.2 written rfl⟩

theorem storeThumbnail_ensures (p : FfmpegProcessor) (w : StepWorld) {jobId : UUID}
    (sourceKey : String) (maxFps : ℕ) (before : Objects) {picture : Option (List UInt8)}
    (hpicture : ∀ content ∈ picture, content ≠ []) :
    let d := (ProcessingStep.ffmpeg p).destination w jobId sourceKey maxFps
    Ensures (d.Uploaded before) (p.storeThumbnail w jobId picture)
      (fun key after => (key = none ∨ key = some d.thumbnailKey ∧ d.HasThumbnail after) ∧
        (d.Uploaded before after ∨ d.Illustrated before after))
      fun e after => d.Left before after e := by
  intro d
  cases picture with
  | none => exact Ensures.pure none fun _ h => ⟨Or.inl rfl, Or.inl h⟩
  | some content =>
      have htaken : Reads (pure content) (· ≠ []) := .pure (hpicture content rfl)
      exact Destination.uploadThumbnail_ensures
        (destination_apart (.ffmpeg p) w jobId sourceKey maxFps).ne htaken

theorem ffmpeg_run (p : FfmpegProcessor) (w : StepWorld) (jobId : UUID) (sourceKey : String)
    (maxFps : ℕ) (before : Objects) :
    Ensures (· = before) (p.run w jobId sourceKey maxFps)
      (fun result after => Returned (.ffmpeg p) ((ProcessingStep.ffmpeg p).destination w jobId
        sourceKey maxFps) jobId before result after)
      fun e after => ((ProcessingStep.ffmpeg p).destination w jobId sourceKey maxFps).Left
        before after e := by
  set d := (ProcessingStep.ffmpeg p).destination w jobId sourceKey maxFps with hd
  refine Ensures.pre (p := d.Kept before) ?_ (by rintro _ rfl _ _; rfl)
  have hne : d.outputKey ≠ d.thumbnailKey :=
    (destination_apart (.ffmpeg p) w jobId sourceKey maxFps).ne
  unfold FfmpegProcessor.run
  refine Destination.reads_bind (requireSource_reads (by simp [fixedMessages])) (fun _ => Or.inl)
    fun _ _ => ?_
  refine Destination.reads_bind (downloadFile_reads w sourceKey) (fun _ => Or.inl) fun _ _ => ?_
  refine Destination.reads_bind (p.probe_reads w) (fun _ => Or.inl) fun probe _ => ?_
  refine Destination.reads_bind (p.takeThumbnail_reads w probe) (fun _ => Or.inl)
    fun picture hpicture => ?_
  refine (encode_ensures p w jobId sourceKey maxFps probe before).bind fun written => ?_
  cases written with
  | none => exact (Destination.throw_ensures (by simp [fixedMessages])).pre fun _ h => h.1
  | some video =>
      intro after hencoded
      refine ((Destination.uploadOutput_ensures (hencoded.2 video rfl)).bind fun _ =>
        (storeThumbnail_ensures p w sourceKey maxFps before hpicture).bind fun key => ?_) after
          hencoded.1
      exact Ensures.pure _ fun after hend =>
        returned_of (.ffmpeg p) w sourceKey maxFps hend.1 hend.2 _ probe

theorem extension_of_request {p : EditProcessor} {request : EditRequest}
    (hrequest : request.operations = p.operations) :
    request.outputExtension = p.extension := by
  unfold EditRequest.outputExtension EditRequest.operation EditProcessor.extension
  rw [← hrequest]
  cases hfound : request.operations.find? fun item => decide (operationName item = .convert) with
  | none => rfl
  | some operation =>
      cases operation with
      | convert format =>
          have hvalid := request.valid _ (List.mem_of_find?_eq_some hfound)
          have hknown : format ∈ outputExtensions := List.mem_cons_of_mem _ hvalid
          exact (if_pos hknown).symm
      | _ => rfl

theorem mapError_ok {ε ε' α : Type} {f : ε → ε'} {result : Except ε α} {a : α}
    (hok : result.mapError f = .ok a) : result = .ok a := by
  cases result with
  | ok b => exact congrArg _ (Except.ok.inj hok)
  | error e => exact absurd hok (by simp [Except.mapError])

theorem mapError_error {ε ε' α : Type} {f : ε → ε'} {result : Except ε α} {e : ε'}
    (herror : result.mapError f = .error e) : ∃ raised, result = .error raised ∧ f raised = e := by
  cases result with
  | ok b => exact absurd herror (by simp [Except.mapError])
  | error raised => exact ⟨raised, rfl, Except.error.inj herror⟩

/-- An edit that has been uploaded is described with what can be found out about it. -/
theorem describe_ensures (p : EditProcessor) (w : StepWorld) {jobId : UUID} (sourceKey : String)
    (maxFps : ℕ) (before : Objects) :
    let d := (ProcessingStep.edit p).destination w jobId sourceKey maxFps
    Ensures (d.Uploaded before)
      (p.describe w jobId d.outputKey p.extension (w.tempDir ++ "/output." ++ p.extension))
      (fun result after => Returned (.edit p) d jobId before result after)
      fun e after => d.Left before after e := by
  intro d
  have hbare : Ensures (d.Uploaded before)
      (pure { outputKey := d.outputKey } : Step ProcessingResult)
      (fun result after => Returned (.edit p) d jobId before result after)
      fun e after => d.Left before after e :=
    Ensures.pure _ fun after h =>
      returned_of (.edit p) w sourceKey maxFps (Or.inl rfl) (Or.inl h) false none
  refine .ite (fun _ => hbare) fun _ => ?_
  refine Destination.reads_bind (p.probeOutput_reads w _) (fun _ => Or.inr) fun produced _ => ?_
  cases produced with
  | none => exact hbare
  | some produced =>
      refine Ensures.bind (m := fun key after =>
        (key = none ∨ key = some d.thumbnailKey ∧ d.HasThumbnail after) ∧
          (d.Uploaded before after ∨ d.Illustrated before after)) ?_ fun key =>
            Ensures.pure _ fun after h =>
              returned_of (.edit p) w sourceKey maxFps h.1 h.2 true (some produced)
      unfold EditProcessor.thumbnail
      cases p.thumbnailer with
      | none => exact Ensures.pure none fun _ h => ⟨Or.inl rfl, Or.inl h⟩
      | some thumbnailer =>
          exact Destination.uploadThumbnail_ensures
            (destination_apart (.edit p) w jobId sourceKey maxFps).ne
            (.liftExcept (fun _ => extract_ne_nil) fun _ => extract_error)

theorem edit_run (p : EditProcessor) (w : StepWorld) (jobId : UUID) (sourceKey : String)
    (maxFps : ℕ) (before : Objects) :
    Ensures (· = before) (p.run w jobId sourceKey maxFps)
      (fun result after => Returned (.edit p) ((ProcessingStep.edit p).destination w jobId
        sourceKey maxFps) jobId before result after)
      fun e after => ((ProcessingStep.edit p).destination w jobId sourceKey maxFps).Left
        before after e := by
  set d := (ProcessingStep.edit p).destination w jobId sourceKey maxFps with hd
  refine Ensures.pre (p := d.Kept before) ?_ (by rintro _ rfl _ _; rfl)
  unfold EditProcessor.run
  refine Destination.reads_bind (requireSource_reads (by simp [fixedMessages])) (fun _ => Or.inl)
    fun _ _ => ?_
  refine Destination.reads_bind p.request_reads (fun _ => Or.inl) fun request hrequest => ?_
  have hextension := extension_of_request hrequest
  refine Destination.reads_bind (downloadFile_reads w sourceKey) (fun _ => Or.inl) fun _ _ => ?_
  refine Destination.reads_bind (p.checked_reads w request) (fun _ => Or.inl) fun probe _ => ?_
  refine Destination.reads_bind (p.isHdr_reads w probe) (fun _ => Or.inl) fun hdr _ => ?_
  rw [hextension]
  refine Destination.reads_bind (.liftExcept
    (q := fun command => (ProcessingStep.edit p).Encodes w maxFps command) ?_ ?_)
    (fun _ => Or.inl) fun command hencodes => ?_
  · intro command hcommand
    exact ⟨request, hdr, _, hrequest, mapError_ok hcommand⟩
  · intro e he
    obtain ⟨raised, hraised, rfl⟩ := mapError_error he
    exact buildEditCommand_tells hraised
  refine Destination.reads_bind (p.encode_reads w command) (fun _ => Or.inl)
    fun edited hedited => ?_
  refine (Destination.uploadOutput_ensures (Or.inl ⟨command, hencodes, hedited⟩)).bind
    fun _ => ?_
  exact describe_ensures p w sourceKey maxFps before

/-- A run that returns has uploaded a whole output, and names what it has uploaded; one that
raises tells the uploader a message that was written for them, and has uploaded its output at most,
unless its process died.  Nothing else in storage is touched, but for the folder of pieces. -/
theorem processing_run (step : ProcessingStep) (w : StepWorld) (jobId : UUID) (sourceKey : String)
    (maxFps : ℕ) (before : Objects) :
    Ensures (· = before) (step.run w jobId sourceKey maxFps)
      (Returned step (step.destination w jobId sourceKey maxFps) jobId before)
      fun e after => (step.destination w jobId sourceKey maxFps).Left before after e := by
  cases step with
  | ffmpeg p => exact ffmpeg_run p w jobId sourceKey maxFps before
  | edit p => exact edit_run p w jobId sourceKey maxFps before

end Worker
end MediaPlayer
