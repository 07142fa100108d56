import MediaPlayer.Worker.ProcessingRuns

/-!
# What a job's error can say

`readable_error` of `app/worker/tasks.py` with the messages the processing steps raise: storage
keys and paths, which the diagnostics are full of, have slashes, and no message has one.

* `UploaderMessage.slashFree` — no message that is written for the uploader has a slash.
* `Told` — what the error of a job can be; `told_of_failure` for what `readable_error` makes of
  a failure.
-/

namespace MediaPlayer
namespace Worker

open Library Models Repositories Services

/-- A text without a slash. -/
def SlashFree (text : String) : Prop := '/' ∉ text.toList

/-- The characters of a text that is written out. -/
theorem slashFree_ofList {chars : List Char} (hchars : '/' ∉ chars) :
    SlashFree (String.ofList chars) := by
  rwa [SlashFree, String.toList_ofList]

theorem slashFree_append {before after : String} :
    SlashFree (before ++ after) ↔ SlashFree before ∧ SlashFree after := by
  simp [SlashFree]

theorem slashFree_nat (n : ℕ) : SlashFree (toString n) := not_mem_repr (by decide) n

theorem slashFree_int (n : ℤ) : SlashFree (toString n) :=
  not_mem_toString_int (by decide) (by decide) n

theorem slashFree_zeroPad (width n : ℕ) : SlashFree (zeroPad width n) := by
  unfold SlashFree zeroPad
  rw [String.toList_ofList, List.leftpad, List.mem_append, not_or]
  refine ⟨fun hpad => absurd (List.eq_of_mem_replicate hpad) (by simp), ?_⟩
  rw [← Nat.toList_repr]
  exact slashFree_nat n

theorem slashFree_intercalate {separator : String} (hseparator : SlashFree separator)
    {texts : List String} (htexts : ∀ text ∈ texts, SlashFree text) :
    SlashFree (separator.intercalate texts) := by
  induction texts with
  | nil =>
      rw [String.intercalate_nil]
      exact slashFree_ofList (by decide)
  | cons text texts ih =>
      have htext := htexts text List.mem_cons_self
      have hrest := fun other hother => htexts other (List.mem_cons_of_mem _ hother)
      cases texts with
      | nil => rwa [String.intercalate_singleton]
      | cons next texts =>
          rw [String.intercalate_cons_cons, slashFree_append, slashFree_append]
          exact ⟨⟨htext, hseparator⟩, ih hrest⟩

/-! ## The messages -/

theorem slashFree_ruleLabel (name : OperationName) : SlashFree (ruleLabel name) := by
  cases name <;> exact slashFree_ofList (by decide)

theorem slashFree_pictureLabels {operations : List EditOperation} :
    ∀ label ∈ pictureLabels operations, SlashFree label := by
  have hfold : ∀ (names : List OperationName) (labels : List String),
      (∀ label ∈ labels, SlashFree label) →
      ∀ label ∈ names.foldl (fun labels name =>
        if ruleLabel name ∈ labels then labels else labels ++ [ruleLabel name]) labels,
        SlashFree label := by
    intro names
    induction names with
    | nil => exact fun labels hlabels => hlabels
    | cons name names ih =>
        intro labels hlabels
        rw [List.foldl_cons]
        refine ih _ fun label hlabel => ?_
        split at hlabel
        · exact hlabels label hlabel
        · rcases List.mem_append.mp hlabel with hold | hnew
          · exact hlabels label hold
          · exact List.mem_singleton.mp hnew ▸ slashFree_ruleLabel name
  exact hfold _ [] (by simp)

theorem slashFree_joinLabels {labels : List String} (hlabels : ∀ label ∈ labels, SlashFree label) :
    SlashFree (joinLabels labels) := by
  unfold joinLabels
  split
  · exact hlabels _ (by simp)
  · rw [slashFree_append, slashFree_append]
    refine ⟨⟨slashFree_intercalate (slashFree_ofList (by decide)) fun label hlabel =>
      hlabels label (List.mem_of_mem_dropLast hlabel), slashFree_ofList (by decide)⟩, ?_⟩
    cases hlast : labels.getLast? with
    | none =>
        rw [List.getLastD_eq_getLast?, hlast]
        exact slashFree_ofList (by decide)
    | some label =>
        rw [List.getLastD_eq_getLast?, hlast]
        exact hlabels label (List.mem_of_getLast? hlast)

theorem slashFree_formatDuration (seconds : ℚ) : SlashFree (formatDuration seconds) := by
  unfold formatDuration
  dsimp only
  split <;> simp only [slashFree_append]
  · exact ⟨⟨⟨⟨slashFree_nat _, slashFree_ofList (by decide)⟩, slashFree_zeroPad _ _⟩,
      slashFree_ofList (by decide)⟩, slashFree_zeroPad _ _⟩
  · exact ⟨⟨slashFree_nat _, slashFree_ofList (by decide)⟩, slashFree_zeroPad _ _⟩

theorem slashFree_describeLimit (seconds : ℕ) : SlashFree (describeLimit seconds) := by
  unfold describeLimit
  split
  · simp only [slashFree_append]
    refine ⟨⟨slashFree_nat _, slashFree_ofList (by decide)⟩, ?_⟩
    split <;> exact slashFree_ofList (by decide)
  · simp only [slashFree_append]
    exact ⟨slashFree_nat _, slashFree_ofList (by decide)⟩

theorem slashFree_of_checkSourceDuration {durationSeconds : ℚ} {maxDurationSeconds : ℕ}
    {message : String}
    (hrefused : checkSourceDuration durationSeconds maxDurationSeconds = .error message) :
    SlashFree message := by
  unfold checkSourceDuration at hrefused
  split_ifs at hrefused
  · obtain rfl := Except.error.inj hrefused
    exact slashFree_ofList (by decide)
  · obtain rfl := Except.error.inj hrefused
    simp only [slashFree_append]
    exact ⟨⟨⟨slashFree_ofList (by decide), slashFree_formatDuration _⟩,
      slashFree_ofList (by decide)⟩, ⟨slashFree_ofList (by decide), slashFree_describeLimit _⟩,
        slashFree_ofList (by decide)⟩

theorem slashFree_of_checkScale {down : Bool} {target : ℕ} {inputHeight : Option ℤ}
    {message : String} (hrefused : checkScale down target inputHeight = .error message) :
    SlashFree message := by
  unfold checkScale at hrefused
  dsimp only at hrefused
  split at hrefused
  · obtain rfl := Except.error.inj hrefused
    simp only [slashFree_append]
    refine ⟨⟨by cases down <;> exact slashFree_ofList (by decide), slashFree_ofList (by decide)⟩,
      slashFree_intercalate (slashFree_ofList (by decide)) ?_⟩
    intro text htext
    obtain ⟨height, -, rfl⟩ := List.mem_map.mp htext
    rw [slashFree_append]
    exact ⟨slashFree_nat height, slashFree_ofList (by decide)⟩
  · split at hrefused
    · exact absurd hrefused (by simp)
    · split_ifs at hrefused <;> obtain rfl := Except.error.inj hrefused <;>
        simp only [slashFree_append]
      · exact ⟨⟨⟨slashFree_ofList (by decide), slashFree_int _⟩, slashFree_ofList (by decide)⟩,
          slashFree_nat _, slashFree_ofList (by decide)⟩
      · exact ⟨⟨⟨slashFree_ofList (by decide), slashFree_int _⟩, slashFree_ofList (by decide)⟩,
          slashFree_nat _, slashFree_ofList (by decide)⟩

theorem slashFree_of_checkOperation {frame : Services.Frame} {operation : EditOperation}
    {message : String} (hrefused : checkOperation frame operation = .error message) :
    SlashFree message := by
  have hscale : ∀ down target, scaleRule down target frame = .error message →
      SlashFree message := by
    intro down target hscale
    cases hcheck : checkScale down target frame.height with
    | ok _ =>
        exact absurd hscale (by simp [scaleRule, hcheck, bind, Except.bind, pure, Except.pure])
    | error said =>
        simp only [scaleRule, hcheck, bind, Except.bind] at hscale
        obtain rfl := Except.error.inj hscale
        exact slashFree_of_checkScale hcheck
  cases operation with
  | downscale height => exact hscale true height hrefused
  | upscale height => exact hscale false height hrefused
  | rotate degrees =>
      simp only [checkOperation] at hrefused
      split_ifs at hrefused
  | clip | crop | flip | speed | convert | preset | adjust =>
      exact absurd hrefused (by simp [checkOperation])

theorem slashFree_of_checkEditOperations {operations : List EditOperation}
    {height width : Option ℤ} {message : String}
    (hrefused : checkEditOperations operations height width = .error message) :
    SlashFree message := by
  unfold checkEditOperations at hrefused
  split at hrefused
  · obtain rfl := Except.error.inj hrefused
    rw [slashFree_append]
    exact ⟨slashFree_joinLabels slashFree_pictureLabels, slashFree_ofList (by decide)⟩
  · cases hfold : (ordered operations).foldlM checkOperation ⟨width, height⟩ with
    | ok after => exact absurd hrefused (by simp [hfold, bind, Except.bind, pure, Except.pure])
    | error said =>
        simp only [hfold, bind, Except.bind] at hrefused
        obtain rfl := Except.error.inj hrefused
        exact foldlM_error (P := SlashFree) (fun _ _ _ => slashFree_of_checkOperation) hfold

theorem slashFree_of_validateCrop {x y w h : ℤ} {width height : Option ℤ} {message : String}
    (hrefused : validateCrop x y w h width height = .error message) : SlashFree message := by
  unfold validateCrop at hrefused
  split_ifs at hrefused
  · obtain rfl := Except.error.inj hrefused
    exact slashFree_ofList (by decide)
  · obtain rfl := Except.error.inj hrefused
    exact slashFree_ofList (by decide)
  · split at hrefused
    · split_ifs at hrefused
      obtain rfl := Except.error.inj hrefused
      exact slashFree_ofList (by decide)
    · obtain rfl := Except.error.inj hrefused
      exact slashFree_ofList (by decide)

theorem slashFree_of_validateClip {start finish : ℚ} {durationSeconds : Option ℚ}
    {message : String} (hrefused : validateClip start finish durationSeconds = .error message) :
    SlashFree message := by
  unfold validateClip at hrefused
  split_ifs at hrefused
  · obtain rfl := Except.error.inj hrefused
    exact slashFree_ofList (by decide)
  · obtain rfl := Except.error.inj hrefused
    exact slashFree_ofList (by decide)
  · split at hrefused
    · obtain rfl := Except.error.inj hrefused
      exact slashFree_ofList (by decide)
    · split_ifs at hrefused
      obtain rfl := Except.error.inj hrefused
      exact slashFree_ofList (by decide)

/-- No message that is written for the uploader has a slash. -/
theorem UploaderMessage.slashFree {message : String} (hmessage : UploaderMessage message) :
    SlashFree message := by
  cases hmessage with
  | fixed hfixed =>
      simp only [fixedMessages, List.mem_cons, List.not_mem_nil, or_false] at hfixed
      rcases hfixed with rfl | rfl | rfl | rfl | rfl | rfl | rfl | rfl | rfl | rfl | rfl <;>
        exact slashFree_ofList (by decide)
  | stopped minutes =>
      simp only [slashFree_append]
      exact ⟨⟨⟨slashFree_ofList (by decide), slashFree_nat minutes⟩,
        slashFree_ofList (by decide)⟩, slashFree_ofList (by decide)⟩
  | source hrefused => exact slashFree_of_checkSourceDuration hrefused
  | clip hrefused => exact slashFree_of_validateClip hrefused
  | crop hrefused => exact slashFree_of_validateCrop hrefused
  | rules hrefused => exact slashFree_of_checkEditOperations hrefused

/-! ## What is recorded -/

/-- The exception of a step, as `readable_error` tells it apart. -/
def StepError.failure : StepError → Option StepFailure
  | objectStore _ userMessage => some (.objectStoreError userMessage)
  | other _ => some .other
  | died => none

/-- A failure whose message, if it has one, was written for the uploader. -/
def Worded : StepFailure → Prop
  | .objectStoreError userMessage => UploaderMessage userMessage
  | .other => True

theorem StepError.Says.worded {e : StepError} (htells : e.Says UploaderMessage)
    {failure : StepFailure} (hfailure : e.failure = some failure) : Worded failure := by
  cases e with
  | objectStore diagnostic userMessage =>
      obtain rfl := Option.some.inj hfailure
      exact htells
  | other text =>
      obtain rfl := Option.some.inj hfailure
      trivial
  | died => exact absurd hfailure (by simp [StepError.failure])

/-- The error of a job: what is recorded of a step that failed, or that its worker was stopped
too often, or is gone. -/
structure Told (error : String) : Prop where
  source : error = stoppedResponding ∨ error = interruptedTooOften ∨
    ∃ failure, Worded failure ∧ error = strip (readableError failure)
  slashFree : SlashFree error
  short : error.length ≤ maxErrorLength

theorem strip_sublist (text : String) : (strip text).toList.Sublist text.toList := by
  rw [strip, String.toList_ofList]
  exact (List.rdropWhile_prefix _ _).sublist.trans (List.dropWhile_sublist _)

theorem rstrip_sublist (text : String) : (rstrip text).toList.Sublist text.toList := by
  rw [rstrip, String.toList_ofList]
  exact (List.rdropWhile_prefix _ _).sublist

theorem SlashFree.sublist {text part : String} (htext : SlashFree text)
    (hpart : part.toList.Sublist text.toList) : SlashFree part :=
  fun hslash => htext (hpart.subset hslash)

theorem slashFree_readableError {failure : StepFailure} (hworded : Worded failure) :
    SlashFree (readableError failure) := by
  have hunexpected : SlashFree unexpectedFailure := slashFree_ofList (by decide)
  have hmessage : SlashFree (failureMessage failure) := by
    unfold failureMessage
    cases failure with
    | other => exact hunexpected
    | objectStoreError userMessage =>
        dsimp only
        split
        · exact hunexpected
        · exact (UploaderMessage.slashFree hworded).sublist (strip_sublist _)
  unfold readableError
  dsimp only
  split
  · rw [slashFree_append]
    refine ⟨hmessage.sublist ?_, slashFree_ofList (by decide)⟩
    refine (rstrip_sublist _).trans ?_
    rw [String.toList_ofList]
    exact List.take_sublist _ _
  · exact hmessage

theorem length_readableError (failure : StepFailure) :
    (readableError failure).length ≤ maxErrorLength := by
  unfold readableError
  dsimp only
  split
  · have hcut := (rstrip_sublist (String.ofList
      ((failureMessage failure).toList.take (maxErrorLength - 3)))).length_le
    rw [String.toList_ofList, List.length_take] at hcut
    rw [String.length_append, ← String.length_toList]
    have hdots : "...".length = 3 := rfl
    have hmax : maxErrorLength = 500 := rfl
    omega
  · omega

theorem told_of_failure {failure : StepFailure} (hworded : Worded failure) :
    Told (strip (readableError failure)) := by
  have hpart := strip_sublist (readableError failure)
  refine ⟨Or.inr (Or.inr ⟨failure, hworded, rfl⟩), (slashFree_readableError hworded).sublist hpart,
    ?_⟩
  have hshorter := hpart.length_le
  rw [String.length_toList, String.length_toList] at hshorter
  exact hshorter.trans (length_readableError failure)

theorem told_stoppedResponding : Told stoppedResponding where
  source := Or.inl rfl
  slashFree := slashFree_ofList (by decide)
  short := by decide

theorem told_interruptedTooOften : Told (strip interruptedTooOften) := by
  have hstrip : strip interruptedTooOften = interruptedTooOften := by
    unfold strip interruptedTooOften
    rw [String.toList_ofList]
    rfl
  rw [hstrip]
  exact ⟨Or.inr (Or.inl rfl), slashFree_ofList (by decide), by decide⟩

end Worker
end MediaPlayer
