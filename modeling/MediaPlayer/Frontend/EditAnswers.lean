import MediaPlayer.Frontend.EditRequests

/-!
# Which edits the API takes

The list of a panel against `EditRequest` and `check_edit_operations`.

* `Takes` — the rules the panel's controls do not carry.  The heights on offer are fixed once
  from the height of the source, while the API judges a scale by what the crop and the turn
  leave; nothing keeps a picture edit away from an MP3; and the scrubber's range is sent as it is.
* `editRequest_iff` — a list of the panel is a request exactly when its box is not empty and its
  range is one.
* `checkEditOperations_iff` — and passes the check exactly when the other rules hold.
-/

namespace MediaPlayer
namespace Frontend

open Library Models Services Schemas Api

variable {panel : EditPanel} {width height : ℕ} {options : ScaleOptions}

/-! ## The box of a crop -/

/-- A side of the box is an even number of pixels, and none at all only of a frame that has
not got two. -/
theorem legal_side_pos (value : ℚ) (side : ℕ) :
    0 < (min (even value) ((side : ℤ) - side % 2)).toNat ↔ 2 ≤ side := by
  have heven : 2 ≤ even value := le_max_left _ _
  omega

theorem legal_pos (ratio : Option ℚ) (box : RequestedBox) (anchor : BoxAnchor) :
    0 < (legal width height ratio box anchor).w ∧ 0 < (legal width height ratio box anchor).h ↔
      2 ≤ width ∧ 2 ≤ height := by
  unfold legal legalBox
  simp only
  rw [legal_side_pos, legal_side_pos]

namespace EditPanel

theorem Sound.box_pos (hsound : panel.Sound width height options) {box : CropSelection}
    (hbox : box ∈ panel.sentBox) : 0 < box.w ∧ 0 < box.h ↔ 2 ≤ width ∧ 2 ≤ height := by
  obtain ⟨-, hselected⟩ := Option.ite_none_right_eq_some.mp hbox
  obtain ⟨ratio, requested, anchor, rfl⟩ := hsound.box box hselected
  exact legal_pos ratio requested anchor

/-! ## The request -/

theorem panelOrder_nodup : panelOrder.Nodup := by decide

/-- The names of a list are a part of the sections, in their order. -/
theorem names_sublist (panel : EditPanel) :
    (panel.editOperations.map operationName).Sublist panelOrder := by
  rw [editOperations_eq]
  induction panelOrder with
  | nil => exact List.Sublist.slnil
  | cons name names ih =>
      rw [filterMap_cons_toList, List.map_append]
      cases hop : panel.sent name with
      | none => exact ih.cons name
      | some op =>
          have hname := operationName_of_sent name op hop
          show List.Sublist (operationName op :: (names.filterMap panel.sent).map operationName)
            (name :: names)
          rw [hname]
          exact ih.cons_cons name

theorem mem_editOperations {op : EditOperation} :
    op ∈ panel.editOperations ↔ ∃ name, panel.sent name = some op := by
  rw [editOperations_eq, List.mem_filterMap]
  constructor
  · rintro ⟨name, -, hop⟩
    exact ⟨name, hop⟩
  · rintro ⟨name, hop⟩
    refine ⟨name, ?_, hop⟩
    cases name <;> decide

/-- At most one of the two scales is sent. -/
theorem oneScale (panel : EditPanel) :
    ¬(.downscale ∈ panel.editOperations.map operationName ∧
      .upscale ∈ panel.editOperations.map operationName) := by
  rintro ⟨hdown, hup⟩
  obtain ⟨down, hdown, hdownName⟩ := List.mem_map.mp hdown
  obtain ⟨up, hup, hupName⟩ := List.mem_map.mp hup
  obtain ⟨name, hdown⟩ := mem_editOperations.mp hdown
  obtain rfl : name = .downscale := (operationName_of_sent name down hdown).symm.trans hdownName
  obtain ⟨name, hup⟩ := mem_editOperations.mp hup
  obtain rfl : name = .upscale := (operationName_of_sent name up hup).symm.trans hupName
  obtain ⟨hticked, -⟩ := Option.ite_none_right_eq_some.mp hdown
  obtain ⟨hunticked, -⟩ := Option.ite_none_left_eq_some.mp hup
  exact hunticked hticked

theorem inRange_moved {values : AdjustSlider → ℚ} {slider : AdjustSlider} {low high : ℚ}
    (hlow : slider.low = low) (hhigh : slider.high = high)
    (hvalues : slider.low ≤ values slider ∧ values slider ≤ slider.high) :
    InRange low high (moved values slider) := by
  intro value hvalue
  obtain ⟨-, hmoved⟩ := Option.ite_none_right_eq_some.mp hvalue
  obtain rfl := Option.some.inj hmoved
  rwa [hlow, hhigh] at hvalues

theorem validParams_adjust {values : AdjustSlider → ℚ} {op : EditOperation}
    (hvalues : ∀ slider : AdjustSlider,
      slider.low ≤ values slider ∧ values slider ≤ slider.high)
    (hop : adjustParams values = some op) : ValidParams op := by
  obtain ⟨hmoved, hsome⟩ := Option.ite_none_left_eq_some.mp hop
  obtain rfl := Option.some.inj hsome
  refine ⟨?_, inRange_moved rfl rfl (hvalues .brightness),
    inRange_moved rfl rfl (hvalues .contrast), inRange_moved rfl rfl (hvalues .saturation),
    inRange_moved rfl rfl (hvalues .gamma)⟩
  simp only [← Option.not_isNone]
  simpa only [not_and_or, Bool.not_eq_true, Bool.not_eq_eq_eq_not, Bool.not_true] using hmoved

/-- Whatever is plugged in is sent with parameters the schema knows. -/
theorem Sound.validParams_plugin (hsound : panel.Sound width height options)
    (plugin : PluginName) {op : EditOperation} (hop : panel.sentPlugin plugin = some op) :
    ValidParams op := by
  obtain ⟨-, hop⟩ := Option.ite_none_right_eq_some.mp hop
  cases plugin with
  | rotate =>
      obtain ⟨degrees, hdegrees, rfl⟩ := Option.map_eq_some_iff.mp hop
      have hchoice : ∀ choice ∈ rotateChoices, ValidParams (.rotate choice) := by decide
      exact hchoice degrees (hsound.degrees degrees hdegrees)
  | flip =>
      obtain ⟨axis, -, rfl⟩ := Option.map_eq_some_iff.mp hop
      trivial
  | speed =>
      obtain ⟨factor, hfactor, rfl⟩ := Option.map_eq_some_iff.mp hop
      have hchoice : ∀ choice ∈ speedFactors, ValidParams (.speed choice) := by
        decide +kernel
      exact hchoice factor (hsound.factor factor hfactor)
  | adjust => exact validParams_adjust hsound.adjusted hop
  | preset =>
      obtain ⟨name, hname, rfl⟩ := Option.map_eq_some_iff.mp hop
      exact hsound.presetName name hname

/-- The heights on offer are rungs. -/
theorem offered_rung {inputHeight : Option ℤ} (hoptions : scaleOptions inputHeight = some options)
    {target : ℕ} (htarget : target ∈ options.downscale ∨ target ∈ options.upscale) :
    target ∈ scaleHeights := by
  cases inputHeight with
  | none => exact absurd hoptions nofun
  | some inputHeight =>
      obtain ⟨-, hsome⟩ := Option.ite_none_left_eq_some.mp hoptions
      obtain rfl := Option.some.inj hsome
      simp only [List.mem_reverse, List.mem_filter] at htarget
      exact htarget.elim And.left And.left

theorem Sound.downscale_rung (hsound : panel.Sound width height options)
    {inputHeight : Option ℤ} (hoptions : scaleOptions inputHeight = some options)
    (hticked : panel.downscaleChecked = true) : panel.downscaleHeight ∈ scaleHeights :=
  offered_rung hoptions (.inl (hsound.downscaleOffered (hsound.downscaleUsable hticked)))

theorem Sound.upscale_rung (hsound : panel.Sound width height options)
    {inputHeight : Option ℤ} (hoptions : scaleOptions inputHeight = some options)
    (hticked : panel.upscaleChecked = true) : panel.upscaleHeight ∈ scaleHeights :=
  offered_rung hoptions (.inr (hsound.upscaleOffered (hsound.upscaleUsable hticked)))

/-- A range of the scrubber as `ClipParams` takes it. -/
def TakesRange (panel : EditPanel) : Prop :=
  ∀ range ∈ panel.sentRange, 0 ≤ range.start ∧ range.start < range.finish

/-- Only the range of a clip and the box of a crop can break their own rules. -/
theorem Sound.validParams_iff (hsound : panel.Sound width height options)
    {inputHeight : Option ℤ} (hoptions : scaleOptions inputHeight = some options) :
    (∀ op ∈ panel.editOperations, ValidParams op) ↔
      panel.TakesRange ∧ (panel.sentBox.isSome → 2 ≤ width ∧ 2 ≤ height) := by
  have hrung : ∀ target ∈ scaleHeights, 0 < target := by decide
  constructor
  · intro hvalid
    constructor
    · intro range hrange
      have hop : panel.sent .clip = some (.clip range.start range.finish) := by
        show panel.sentRange.map _ = _
        rw [hrange]
        rfl
      exact hvalid _ (mem_editOperations.mpr ⟨_, hop⟩)
    · intro hsome
      obtain ⟨box, hbox⟩ := Option.isSome_iff_exists.mp hsome
      have hop : panel.sent .crop = some (.crop box.x box.y box.w box.h) := by
        show panel.sentBox.map _ = _
        rw [hbox]
        rfl
      exact (hsound.box_pos hbox).mp (hvalid _ (mem_editOperations.mpr ⟨_, hop⟩))
  · rintro ⟨hrange, hbox⟩ op hop
    obtain ⟨name, hsent⟩ := mem_editOperations.mp hop
    cases name with
    | clip =>
        obtain ⟨range, hsentRange, rfl⟩ := Option.map_eq_some_iff.mp hsent
        exact hrange range hsentRange
    | crop =>
        obtain ⟨box, hsentBox, rfl⟩ := Option.map_eq_some_iff.mp hsent
        have hsome : panel.sentBox.isSome := Option.isSome_iff_exists.mpr ⟨box, hsentBox⟩
        exact (hsound.box_pos hsentBox).mpr (hbox hsome)
    | downscale =>
        obtain ⟨hticked, hdown⟩ := Option.ite_none_right_eq_some.mp hsent
        obtain rfl := Option.some.inj hdown
        exact hrung _ (hsound.downscale_rung hoptions hticked)
    | upscale =>
        obtain ⟨-, hup⟩ := Option.ite_none_left_eq_some.mp hsent
        obtain ⟨hticked, hup⟩ := Option.ite_none_right_eq_some.mp hup
        obtain rfl := Option.some.inj hup
        exact hrung _ (hsound.upscale_rung hoptions hticked)
    | rotate => exact hsound.validParams_plugin .rotate hsent
    | flip => exact hsound.validParams_plugin .flip hsent
    | speed => exact hsound.validParams_plugin .speed hsent
    | adjust => exact hsound.validParams_plugin .adjust hsent
    | preset => exact hsound.validParams_plugin .preset hsent
    | convert =>
        obtain ⟨-, hconvert⟩ := Option.ite_none_right_eq_some.mp hsent
        obtain rfl := Option.some.inj hconvert
        exact hsound.format

/-- A list the panel sends is a request unless its range is none or its box is empty. -/
theorem Sound.editRequest_iff (hsound : panel.Sound width height options)
    {inputHeight : Option ℤ} (hoptions : scaleOptions inputHeight = some options)
    (hne : panel.editOperations ≠ []) :
    (∃ request : EditRequest, request.operations = panel.editOperations) ↔
      panel.TakesRange ∧ (panel.sentBox.isSome → 2 ≤ width ∧ 2 ≤ height) := by
  rw [← hsound.validParams_iff hoptions]
  constructor
  · rintro ⟨request, hrequest⟩
    rw [← hrequest]
    exact request.valid
  · intro hvalid
    have hlength : panel.editOperations.length ≤ operationOrder.length := by
      have hnames := (names_sublist panel).length_le
      rwa [List.length_map] at hnames
    exact ⟨{
      operations := panel.editOperations
      length := ⟨List.length_pos_iff.mpr hne, hlength⟩
      valid := hvalid
      unambiguous := panelOrder_nodup.sublist (names_sublist panel)
      oneScale := oneScale panel }, rfl⟩

/-! ## The check against the size of the source -/

theorem named_editOperations (panel : EditPanel) (name : OperationName) :
    named panel.editOperations name = panel.sent name := by
  rw [editOperations_eq, named_filterMap operationName_of_sent panelOrder_nodup]
  cases name <;> rfl

theorem ordered_editOperations (panel : EditPanel) :
    ordered panel.editOperations = operationOrder.filterMap panel.sent := by
  unfold ordered
  congr 1
  funext name
  exact named_editOperations panel name

/-- The size the crop leaves of a picture. -/
def croppedSize (panel : EditPanel) (baseWidth baseHeight : ℤ) : ℤ × ℤ :=
  match panel.sentBox with
  | some box => (box.w, box.h)
  | none => (baseWidth, baseHeight)

/-- The degrees the picture is turned by. -/
def sentDegrees (panel : EditPanel) : ℕ :=
  if panel.pluginChecked .rotate then panel.degrees.getD 0 else 0

/-- The height the crop and the turn leave. -/
def turnedHeight (panel : EditPanel) (baseWidth baseHeight : ℤ) : ℤ :=
  if panel.sentDegrees = 90 ∨ panel.sentDegrees = 270 then
    (panel.croppedSize baseWidth baseHeight).1
  else (panel.croppedSize baseWidth baseHeight).2

/-- The rules of the API that the controls of the panel do not carry. -/
structure Takes (panel : EditPanel) (width height : ℕ) (baseWidth baseHeight : ℤ) : Prop where
  picture : panel.convertChecked = true → panel.convertFormat = "mp3" →
    ∀ name, changesPicture name = true → panel.sent name = none
  range : panel.TakesRange
  box : panel.sentBox.isSome → 2 ≤ width ∧ 2 ≤ height
  downscale : panel.downscaleChecked = true →
    (panel.downscaleHeight : ℤ) < panel.turnedHeight baseWidth baseHeight
  upscale : panel.upscaleChecked = true →
    panel.turnedHeight baseWidth baseHeight < panel.upscaleHeight

/-- One operation of the pipeline, when the panel sends it. -/
def checkSent (panel : EditPanel) (frame : Frame) (name : OperationName) : Checked Frame :=
  match panel.sent name with
  | none => .ok frame
  | some op => checkOperation frame op

theorem checkSent_keeps {frame : Frame} {name : OperationName}
    (hkeeps : ∀ op, operationName op = name → checkOperation frame op = .ok frame) :
    panel.checkSent frame name = .ok frame := by
  unfold checkSent
  cases hop : panel.sent name with
  | none => rfl
  | some op => exact hkeeps op (operationName_of_sent name op hop)

theorem checkSent_crop {baseWidth baseHeight : ℤ}
    (hbox : ∀ box ∈ panel.sentBox, 0 < box.w ∧ 0 < box.h) :
    panel.checkSent ⟨some baseWidth, some baseHeight⟩ .crop =
      .ok ⟨some (panel.croppedSize baseWidth baseHeight).1,
        some (panel.croppedSize baseWidth baseHeight).2⟩ := by
  unfold checkSent croppedSize
  simp only [sent]
  cases hsent : panel.sentBox with
  | none => rfl
  | some box =>
      obtain ⟨hw, hh⟩ := hbox box hsent
      simp [checkOperation, known, hw, hh]

theorem checkSent_rotate (panel : EditPanel) (frameWidth frameHeight : ℤ) :
    panel.checkSent ⟨some frameWidth, some frameHeight⟩ .rotate =
      .ok (if panel.sentDegrees = 90 ∨ panel.sentDegrees = 270 then
        ⟨some frameHeight, some frameWidth⟩ else ⟨some frameWidth, some frameHeight⟩) := by
  unfold checkSent sentDegrees
  simp only [sent, sentPlugin, pluginSelection]
  cases panel.pluginChecked .rotate with
  | false => rfl
  | true =>
      cases panel.degrees with
      | none => rfl
      | some degrees =>
          simp only [if_true, Option.map_some, checkOperation, Option.getD_some]
          split <;> rfl

/-- A scale is judged by the height that reaches it, of which no more is asked than of the
source's height when the options were made. -/
theorem scaleRule_ok_iff (down : Bool) {target : ℕ} {frame : Frame} {frameHeight : ℤ}
    (hheight : frame.height = some frameHeight) (hrung : target ∈ scaleHeights) :
    (∃ after, scaleRule down target frame = .ok after) ↔
      if down then (target : ℤ) < frameHeight else frameHeight < target := by
  have hok : (∃ after, scaleRule down target frame = .ok after) ↔
      checkScale down target frame.height = .ok () := by
    unfold scaleRule
    cases hcheck : checkScale down target frame.height with
    | error message =>
        exact ⟨fun ⟨_, hafter⟩ => absurd hafter nofun, fun hafter => absurd hafter nofun⟩
    | ok _ => exact ⟨fun _ => rfl, fun _ => ⟨_, rfl⟩⟩
  rw [hok, hheight]
  cases down with
  | true =>
      by_cases hbelow : (target : ℤ) < frameHeight
      · simp [checkScale, hrung, hbelow]
      · simp [checkScale, hrung, hbelow, not_lt.mp hbelow]
  | false =>
      by_cases habove : frameHeight < (target : ℤ)
      · simp [checkScale, hrung, habove]
      · simp [checkScale, hrung, habove, not_lt.mp habove]

/-- One scale at most is checked, against the frame of the turn. -/
theorem Sound.checkScales_iff (hsound : panel.Sound width height options)
    {inputHeight : Option ℤ} (hoptions : scaleOptions inputHeight = some options)
    {frame : Frame} {frameHeight : ℤ} (hheight : frame.height = some frameHeight) :
    (∃ after, (panel.checkSent frame .downscale >>= fun frame =>
        panel.checkSent frame .upscale) = .ok after) ↔
      (panel.downscaleChecked = true → (panel.downscaleHeight : ℤ) < frameHeight) ∧
        (panel.upscaleChecked = true → frameHeight < panel.upscaleHeight) := by
  cases hdown : panel.downscaleChecked with
  | true =>
      have hup : panel.upscaleChecked = false :=
        Bool.eq_false_of_not_eq_true fun hup => hsound.exclusive ⟨hdown, hup⟩
      have hfirst : panel.checkSent frame .downscale =
          scaleRule true panel.downscaleHeight frame := by
        simp [checkSent, sent, hdown, checkOperation]
      have hsecond : (fun frame => panel.checkSent frame .upscale) = pure := by
        funext frame
        simp [checkSent, sent, hdown]
        rfl
      have hiff := scaleRule_ok_iff true hheight (hsound.downscale_rung hoptions hdown)
      rw [hfirst, hsecond, bind_pure, hiff, hup]
      simp
  | false =>
      have hfirst : panel.checkSent frame .downscale = .ok frame := by
        simp [checkSent, sent, hdown]
      rw [hfirst]
      show (∃ after, panel.checkSent frame .upscale = .ok after) ↔ _
      cases hup : panel.upscaleChecked with
      | true =>
          have hsecond : panel.checkSent frame .upscale =
              scaleRule false panel.upscaleHeight frame := by
            simp [checkSent, sent, hdown, hup, checkOperation]
          have hiff := scaleRule_ok_iff false hheight
            (hsound.upscale_rung hoptions hup)
          rw [hsecond]
          simpa using hiff
      | false =>
          have hsecond : panel.checkSent frame .upscale = .ok frame := by
            simp [checkSent, sent, hdown, hup]
          simp [hsecond]

/-- The pipeline of a panel is its crop, its turn and its scale. -/
theorem checkPipeline (hbox : ∀ box ∈ panel.sentBox, 0 < box.w ∧ 0 < box.h)
    (baseWidth baseHeight : ℤ) :
    ∃ frame : Frame, frame.height = some (panel.turnedHeight baseWidth baseHeight) ∧
      (ordered panel.editOperations).foldlM checkOperation
        ⟨some baseWidth, some baseHeight⟩ =
        (panel.checkSent frame .downscale >>= fun frame => panel.checkSent frame .upscale) := by
  have hkeeps : ∀ frame, ∀ name ∈ [OperationName.clip, .flip, .adjust, .preset, .speed, .convert],
      panel.checkSent frame name = .ok frame := by
    intro frame name hname
    refine checkSent_keeps fun op hop => ?_
    subst hop
    cases op <;> first | rfl | simp [operationName] at hname
  refine ⟨if panel.sentDegrees = 90 ∨ panel.sentDegrees = 270 then
      ⟨some (panel.croppedSize baseWidth baseHeight).2,
        some (panel.croppedSize baseWidth baseHeight).1⟩
    else ⟨some (panel.croppedSize baseWidth baseHeight).1,
      some (panel.croppedSize baseWidth baseHeight).2⟩, ?_, ?_⟩
  · unfold turnedHeight
    split <;> rfl
  · have hfold : (ordered panel.editOperations).foldlM checkOperation
        ⟨some baseWidth, some baseHeight⟩ =
        operationOrder.foldlM panel.checkSent ⟨some baseWidth, some baseHeight⟩ := by
      rw [ordered_editOperations, foldlM_filterMap]
      rfl
    have hbind : ∀ (frame : Frame) (next : Frame → Checked Frame),
        (Except.ok frame : Checked Frame) >>= next = next frame := fun _ _ => rfl
    rw [hfold]
    unfold operationOrder
    simp only [List.foldlM_cons, List.foldlM_nil]
    simp only [hkeeps _ .clip (by decide), hkeeps _ .flip (by decide), hkeeps _ .adjust (by decide),
      hkeeps _ .preset (by decide), hkeeps _ .speed (by decide), hkeeps _ .convert (by decide),
      checkSent_crop hbox, checkSent_rotate, hbind, bind_pure]

/-- The labels an MP3 is refused for are those of the operations that are sent. -/
theorem pictureLabels_eq_nil (panel : EditPanel) : pictureLabels panel.editOperations = [] ↔
    ∀ name, changesPicture name = true → panel.sent name = none := by
  rw [pictureLabels_eq_nil_iff, ordered_editOperations]
  constructor
  · intro hnone name hchanges
    cases hop : panel.sent name with
    | none => rfl
    | some op =>
        have hmem : op ∈ operationOrder.filterMap panel.sent := by
          refine List.mem_filterMap.mpr ⟨name, ?_, hop⟩
          cases name <;> decide
        have hkept := hnone op hmem
        rw [operationName_of_sent name op hop, hchanges] at hkept
        exact absurd hkept nofun
  · intro hnone op hop
    obtain ⟨name, -, hsent⟩ := List.mem_filterMap.mp hop
    rw [operationName_of_sent name op hsent]
    by_contra hchanges
    rw [hnone name (Bool.not_eq_false _ ▸ hchanges)] at hsent
    exact absurd hsent nofun

/-- A list the panel sends passes the check unless one of its rules is broken. -/
theorem Sound.checkEditOperations_iff (hsound : panel.Sound width height options)
    (hbox : ∀ box ∈ panel.sentBox, 0 < box.w ∧ 0 < box.h) {baseWidth baseHeight : ℤ}
    (hoptions : scaleOptions (some baseHeight) = some options) :
    checkEditOperations panel.editOperations (some baseHeight) (some baseWidth) = .ok () ↔
      (panel.convertChecked = true → panel.convertFormat = "mp3" →
        ∀ name, changesPicture name = true → panel.sent name = none) ∧
      (panel.downscaleChecked = true →
        (panel.downscaleHeight : ℤ) < panel.turnedHeight baseWidth baseHeight) ∧
      (panel.upscaleChecked = true →
        panel.turnedHeight baseWidth baseHeight < panel.upscaleHeight) := by
  have hmp3 : named panel.editOperations .convert = some (.convert "mp3") ↔
      panel.convertChecked = true ∧ panel.convertFormat = "mp3" := by
    rw [named_editOperations]
    simp [sent]
  obtain ⟨frame, hheight, hfold⟩ := checkPipeline hbox baseWidth baseHeight
  rw [← hsound.checkScales_iff hoptions hheight, ← hfold]
  unfold checkEditOperations
  by_cases hrefused : named panel.editOperations .convert = some (.convert "mp3") ∧
      pictureLabels panel.editOperations ≠ []
  · rw [if_pos hrefused]
    constructor
    · intro hok
      cases hok
    · intro hok
      obtain ⟨hchecked, hformat⟩ := hmp3.mp hrefused.1
      exact absurd ((pictureLabels_eq_nil panel).mpr (hok.1 hchecked hformat)) hrefused.2
  · rw [if_neg hrefused]
    have hpicture : panel.convertChecked = true → panel.convertFormat = "mp3" →
        ∀ name, changesPicture name = true → panel.sent name = none := by
      intro hchecked hformat
      refine (pictureLabels_eq_nil panel).mp ?_
      by_contra hlabels
      exact hrefused ⟨hmp3.mpr ⟨hchecked, hformat⟩, hlabels⟩
    rw [and_iff_right hpicture]
    cases (ordered panel.editOperations).foldlM checkOperation
        ⟨some baseWidth, some baseHeight⟩ with
    | error message =>
        constructor
        · intro hok
          cases hok
        · rintro ⟨_, hok⟩
          cases hok
    | ok after => exact ⟨fun _ => ⟨after, rfl⟩, fun _ => rfl⟩

/-- `EditRequest` takes the list, and `edit_job_by_id` finds nothing to refuse. -/
def Accepted (settings : JobsSettings) (base : Job) (operations : List EditOperation) : Prop :=
  (∃ request : EditRequest, request.operations = operations) ∧
    checkEditOperations operations (baseHeight settings base) base.width = .ok ()

/-- A list of the panel is taken exactly when the rules the panel does not keep are kept. -/
theorem edit_accepted_iff {settings : JobsSettings} {job base : Job}
    {baseWidth sourceHeight : ℤ} (hwidth : base.width = some baseWidth)
    (hheight : baseHeight settings base = some sourceHeight)
    (hoptions : editOptions settings job base = some options)
    (hreach : (panelSystem width height options).Reachable panel)
    (hne : panel.editOperations ≠ []) :
    Accepted settings base panel.editOperations ↔
      panel.Takes width height baseWidth sourceHeight := by
  have hsound := Sound.of_reachable hreach
  obtain ⟨-, hoffered⟩ := Option.ite_none_left_eq_some.mp hoptions
  have hpos : (panel.sentBox.isSome → 2 ≤ width ∧ 2 ≤ height) →
      ∀ box ∈ panel.sentBox, 0 < box.w ∧ 0 < box.h := fun hbox box hsent =>
    (hsound.box_pos hsent).mpr (hbox (Option.isSome_iff_exists.mpr ⟨box, hsent⟩))
  unfold Accepted
  rw [hsound.editRequest_iff hoffered hne, hwidth, hheight]
  rw [hheight] at hoffered
  constructor
  · rintro ⟨⟨hrange, hbox⟩, hcheck⟩
    obtain ⟨hpicture, hdown, hup⟩ := (hsound.checkEditOperations_iff (hpos hbox) hoffered).mp hcheck
    exact ⟨hpicture, hrange, hbox, hdown, hup⟩
  · intro htakes
    exact ⟨⟨htakes.range, htakes.box⟩, (hsound.checkEditOperations_iff (hpos htakes.box) hoffered).mpr
      ⟨htakes.picture, htakes.downscale, htakes.upscale⟩⟩

/-- A film of 1080 lines. -/
def film : Job where
  ownerId := 1
  filename := "film.mov"
  status := .done
  sourceKey := "uploads/3/film.mov"
  outputKey := some "outputs/3/film.mp4"
  width := some 1920
  height := some 1080
  createdAt := 0
  updatedAt := 5
  checks := by decide

/-- What the API offers for it. -/
def filmOptions : ScaleOptions := ⟨[720, 480, 360, 240], [1440, 2160]⟩

theorem film_options : editOptions {} film film = some filmOptions := by decide

/-- A box of 1280 pixels by so many is drawn, and the film scaled down by a rung. -/
def cropThenScale (lines : ℚ) : List PanelEvent :=
  [.drawBox none ⟨0, 0, 1280, lines⟩ ⟨none, none⟩, .tickCrop true, .chooseDownscale 480,
    .tickDownscale true]

theorem reachable_cropThenScale (lines : ℚ) (operations : List EditOperation)
    (hrun : ((panelSystem 1920 1080 filmOptions).run (openEditor filmOptions)
      (cropThenScale lines)).any (fun panel => panel.editOperations == operations) = true) :
    ∃ panel, (panelSystem 1920 1080 filmOptions).Reachable panel ∧
      panel.editOperations = operations := by
  obtain ⟨panel, hreach, hops⟩ := StepSystem.Reachable.exists_of_run (.init rfl) _ _ hrun
  exact ⟨panel, hreach, by simpa using hops⟩

theorem edit_accepted_iff_crop : ∃ panel, (panelSystem 1920 1080 filmOptions).Reachable panel ∧
    panel.editOperations = [.crop 0 0 1280 600, .downscale 480] ∧
    Accepted {} film panel.editOperations ∧ panel.Takes 1920 1080 1920 1080 := by
  obtain ⟨panel, hreach, hops⟩ := reachable_cropThenScale 600
    [.crop 0 0 1280 600, .downscale 480] (by decide +kernel)
  have haccepted : Accepted {} film panel.editOperations := by
    rw [hops]
    exact ⟨⟨{
      operations := [.crop 0 0 1280 600, .downscale 480]
      length := by decide
      valid := by decide
      unambiguous := by decide
      oneScale := by decide }, rfl⟩, by decide +kernel⟩
  exact ⟨panel, hreach, hops, haccepted, (edit_accepted_iff rfl (by decide) film_options hreach
    (by rw [hops]; nofun)).mp haccepted⟩

/-- The film is cropped to 300 lines and then to be scaled down to the 480 it was offered. -/
theorem edit_refused_crop :
    ¬∀ (settings : JobsSettings) (job base : Job) (baseWidth sourceHeight : ℤ)
      (options : ScaleOptions) (width height : ℕ) (panel : EditPanel),
      base.width = some baseWidth → baseHeight settings base = some sourceHeight →
      editOptions settings job base = some options →
      (panelSystem width height options).Reachable panel → panel.editOperations ≠ [] →
      Accepted settings base panel.editOperations := by
  intro hall
  obtain ⟨panel, hreach, hops⟩ := reachable_cropThenScale 300
    [.crop 0 0 1280 300, .downscale 480] (by decide +kernel)
  have haccepted := hall {} film film 1920 1080 filmOptions 1920 1080 panel rfl (by decide)
    film_options hreach (by rw [hops]; nofun)
  rw [hops] at haccepted
  exact absurd haccepted.2 (by decide +kernel)

end EditPanel

end Frontend
end MediaPlayer
