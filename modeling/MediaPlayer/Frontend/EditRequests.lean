import MediaPlayer.Api.Jobs
import MediaPlayer.Frontend.EditPanel
import Mathlib.Tactic.Linarith
import Mathlib.Tactic.NormNum

/-!
# What the editor sends

* `sent` — the list as a partial function of the operation's name, which is how
  `check_edit_operations` looks at it, whatever order the page stacks its sections in.
* `Sound` — what the controls guarantee in every state they reach: one scale at most, an
  offered height, and of each component only what it reports.
-/

namespace MediaPlayer
namespace Frontend

open Library Models Services Schemas Api

/-! ## Requests keyed by name -/

section Keyed

variable {part : OperationName → Option EditOperation}

theorem filterMap_cons_toList {α β : Type*} (f : α → Option β) (a : α) (as : List α) :
    (a :: as).filterMap f = (f a).toList ++ as.filterMap f := by
  cases hf : f a <;> simp [hf]

/-- A list with one operation for each name is looked up by name. -/
theorem named_filterMap (hpart : ∀ name op, part name = some op → operationName op = name)
    {names : List OperationName} (hnodup : names.Nodup) (name : OperationName) :
    named (names.filterMap part) name = if name ∈ names then part name else none := by
  have hfilter : (names.filterMap part).filter (fun op => operationName op = name) =
      if name ∈ names then (part name).toList else [] := by
    induction names with
    | nil => rfl
    | cons first names ih =>
        obtain ⟨hfirst, hrest⟩ := List.nodup_cons.mp hnodup
        rw [filterMap_cons_toList, List.filter_append, ih hrest]
        by_cases heq : name = first
        · subst heq
          cases hop : part name with
          | none => simp [hfirst]
          | some op => simp [hfirst, hpart name op hop]
        · have hskip : (part first).toList.filter (fun op => operationName op = name) = [] := by
            refine List.filter_eq_nil_iff.mpr fun op hop => ?_
            rw [Option.mem_toList] at hop
            simpa [hpart first op hop] using Ne.symm heq
          simp [hskip, heq]
  unfold named
  rw [hfilter]
  split
  · cases part name <;> rfl
  · rfl

/-- The picture is checked against the operations a request has, one after the other. -/
theorem foldlM_filterMap {names : List OperationName} {frame : Frame} :
    (names.filterMap part).foldlM checkOperation frame =
      names.foldlM (fun frame name =>
        match part name with
        | none => .ok frame
        | some op => checkOperation frame op) frame := by
  induction names generalizing frame with
  | nil => rfl
  | cons name names ih =>
      cases hop : part name with
      | none =>
          simp only [List.filterMap_cons, hop, List.foldlM_cons]
          exact ih
      | some op =>
          simp only [List.filterMap_cons, hop, List.foldlM_cons]
          congr 1
          funext after
          exact ih

end Keyed

/-! ## The list the panel sends -/

namespace EditPanel

/-- The order of the sections. -/
def panelOrder : List OperationName :=
  [.clip, .crop, .downscale, .upscale, .rotate, .flip, .speed, .adjust, .preset, .convert]

/-- A plugged-in operation that is ticked and set up. -/
def sentPlugin (panel : EditPanel) (name : PluginName) : Option EditOperation :=
  if panel.pluginChecked name then panel.pluginSelection name else none

/-- The range that is sent. -/
def sentRange (panel : EditPanel) : Option ClipRange :=
  if panel.clipChecked then panel.clipSelection else none

/-- The crop box that is sent. -/
def sentBox (panel : EditPanel) : Option CropSelection :=
  if panel.cropChecked then panel.cropSelection else none

/-- The operation of each name that is sent. -/
def sent (panel : EditPanel) : OperationName → Option EditOperation
  | .clip => panel.sentRange.map fun range => .clip range.start range.finish
  | .crop => panel.sentBox.map fun box => .crop box.x box.y box.w box.h
  | .downscale => if panel.downscaleChecked then some (.downscale panel.downscaleHeight) else none
  | .upscale =>
      if panel.downscaleChecked then none
      else if panel.upscaleChecked then some (.upscale panel.upscaleHeight) else none
  | .rotate => panel.sentPlugin .rotate
  | .flip => panel.sentPlugin .flip
  | .speed => panel.sentPlugin .speed
  | .adjust => panel.sentPlugin .adjust
  | .preset => panel.sentPlugin .preset
  | .convert => if panel.convertChecked then some (.convert panel.convertFormat) else none

variable {panel : EditPanel}

theorem editOperations_eq (panel : EditPanel) :
    panel.editOperations = panelOrder.filterMap panel.sent := by
  have hpart : ∀ (c : Bool) (op : Option EditOperation),
      (if c then op.toList else []) = (if c then op else none).toList := by
    rintro (- | -) op <;> rfl
  have hscale : (if panel.downscaleChecked then [EditOperation.downscale panel.downscaleHeight]
      else if panel.upscaleChecked then [EditOperation.upscale panel.upscaleHeight] else []) =
      (panel.sent .downscale).toList ++ (panel.sent .upscale).toList := by
    simp only [sent]
    cases panel.downscaleChecked <;> cases panel.upscaleChecked <;> rfl
  have hrange : (if panel.clipChecked then panel.clipSelection.map
      fun range => EditOperation.clip range.start range.finish else none) = panel.sent .clip := by
    simp only [sent, sentRange]
    cases panel.clipChecked <;> rfl
  have hbox : (if panel.cropChecked then panel.cropSelection.map
      fun box => EditOperation.crop box.x box.y box.w box.h else none) = panel.sent .crop := by
    simp only [sent, sentBox]
    cases panel.cropChecked <;> rfl
  have hconvert : (if panel.convertChecked then [EditOperation.convert panel.convertFormat]
      else []) = (panel.sent .convert).toList := by
    simp only [sent]
    cases panel.convertChecked <;> rfl
  unfold editOperations panelOrder pluginOperations
  rw [hpart, hpart, hrange, hbox, hscale, hconvert]
  simp only [filterMap_cons_toList, List.filterMap_nil, List.append_nil, List.append_assoc]
  rfl

/-- An operation is sent under its own name. -/
theorem operationName_of_sent (name : OperationName) (op : EditOperation)
    (hsent : panel.sent name = some op) : operationName op = name := by
  have hplugin : ∀ plugin, panel.sentPlugin plugin = some op →
      panel.pluginSelection plugin = some op := fun plugin hop =>
    (Option.ite_none_right_eq_some.mp hop).2
  cases name with
  | clip =>
      obtain ⟨range, -, rfl⟩ := Option.map_eq_some_iff.mp hsent
      rfl
  | crop =>
      obtain ⟨box, -, rfl⟩ := Option.map_eq_some_iff.mp hsent
      rfl
  | downscale =>
      obtain ⟨-, hop⟩ := Option.ite_none_right_eq_some.mp hsent
      obtain rfl := Option.some.inj hop
      rfl
  | upscale =>
      obtain ⟨-, hop⟩ := Option.ite_none_left_eq_some.mp hsent
      obtain ⟨-, hop⟩ := Option.ite_none_right_eq_some.mp hop
      obtain rfl := Option.some.inj hop
      rfl
  | convert =>
      obtain ⟨-, hop⟩ := Option.ite_none_right_eq_some.mp hsent
      obtain rfl := Option.some.inj hop
      rfl
  | rotate =>
      obtain ⟨degrees, -, rfl⟩ := Option.map_eq_some_iff.mp (hplugin .rotate hsent)
      rfl
  | flip =>
      obtain ⟨axis, -, rfl⟩ := Option.map_eq_some_iff.mp (hplugin .flip hsent)
      rfl
  | speed =>
      obtain ⟨factor, -, rfl⟩ := Option.map_eq_some_iff.mp (hplugin .speed hsent)
      rfl
  | preset =>
      obtain ⟨preset, -, rfl⟩ := Option.map_eq_some_iff.mp (hplugin .preset hsent)
      rfl
  | adjust =>
      obtain ⟨-, hop⟩ := Option.ite_none_left_eq_some.mp (hplugin .adjust hsent)
      obtain rfl := Option.some.inj hop
      rfl

/-! ## What the controls guarantee -/

/-- A height that is sent was offered, one scale is ticked at most, and the components report
only their own choices. -/
structure Sound (width height : ℕ) (options : ScaleOptions) (panel : EditPanel) : Prop where
  exclusive : ¬(panel.downscaleChecked = true ∧ panel.upscaleChecked = true)
  downscaleDisabled : panel.downscaleDisabled = true ↔
    panel.upscaleChecked = true ∨ options.downscale = []
  upscaleDisabled : panel.upscaleDisabled = true ↔
    panel.downscaleChecked = true ∨ options.upscale = []
  downscaleOffered : options.downscale ≠ [] → panel.downscaleHeight ∈ options.downscale
  upscaleOffered : options.upscale ≠ [] → panel.upscaleHeight ∈ options.upscale
  downscaleUsable : panel.downscaleChecked = true → options.downscale ≠ []
  upscaleUsable : panel.upscaleChecked = true → options.upscale ≠ []
  format : panel.convertFormat ∈ convertFormats
  box : ∀ box ∈ panel.cropSelection, ∃ ratio requested anchor,
    box = legal width height ratio requested anchor
  degrees : ∀ degrees ∈ panel.degrees, degrees ∈ rotateChoices
  factor : ∀ factor ∈ panel.factor, factor ∈ speedFactors
  adjusted : ∀ slider, slider.low ≤ panel.adjusted slider ∧ panel.adjusted slider ≤ slider.high
  presetName : ∀ name ∈ panel.presetName, name ∈ presetNames

theorem clamp_mem (value : ℚ) {low high : ℚ} (hle : low ≤ high) :
    low ≤ clamp value low high ∧ clamp value low high ≤ high :=
  ⟨le_min (le_max_right value low) hle, min_le_right _ _⟩

/-- Rounding to hundredths stays between hundredths. -/
theorem round2_mem {value : ℚ} {low high : ℤ} (hlow : (low : ℚ) / 100 ≤ value)
    (hhigh : value ≤ (high : ℚ) / 100) :
    (low : ℚ) / 100 ≤ round2 value ∧ round2 value ≤ (high : ℚ) / 100 := by
  have hfloor : low ≤ ⌊value * 100 + 1 / 2⌋ := Int.le_floor.mpr (by linarith)
  have hceil : ⌊value * 100 + 1 / 2⌋ ≤ high := by
    have hlt : ⌊value * 100 + 1 / 2⌋ < high + 1 := Int.floor_lt.mpr (by push_cast; linarith)
    omega
  unfold round2
  constructor
  · gcongr
  · gcongr

/-- A slider stays within its range. -/
theorem slid_mem (slider : AdjustSlider) (value : ℚ) :
    slider.low ≤ slid slider value ∧ slid slider value ≤ slider.high := by
  have hbounds : ∃ low high : ℤ, slider.low = low / 100 ∧ slider.high = high / 100 ∧
      low ≤ high := by
    cases slider with
    | brightness => exact ⟨-30, 30, by norm_num [AdjustSlider.low],
        by norm_num [AdjustSlider.high], by norm_num⟩
    | contrast => exact ⟨50, 200, by norm_num [AdjustSlider.low],
        by norm_num [AdjustSlider.high], by norm_num⟩
    | saturation => exact ⟨0, 300, by norm_num [AdjustSlider.low],
        by norm_num [AdjustSlider.high], by norm_num⟩
    | gamma => exact ⟨50, 200, by norm_num [AdjustSlider.low],
        by norm_num [AdjustSlider.high], by norm_num⟩
  obtain ⟨low, high, hlow, hhigh, hle⟩ := hbounds
  have hbound : (low : ℚ) / 100 ≤ (high : ℚ) / 100 := by gcongr
  have hclamp := clamp_mem value hbound
  unfold slid
  rw [hlow, hhigh]
  exact round2_mem hclamp.1 hclamp.2

variable {width height : ℕ} {options : ScaleOptions} {after : EditPanel}

theorem headD_mem {heights : List ℕ} (hne : heights ≠ []) : heights.headD 0 ∈ heights := by
  cases heights with
  | nil => exact absurd rfl hne
  | cons first rest => exact List.mem_cons_self

theorem Sound.init (hinit : (panelSystem width height options).init panel) :
    panel.Sound width height options := by
  obtain rfl : panel = openEditor options := hinit
  have hneutral : ∀ slider : AdjustSlider, slider.low ≤ slider.neutral ∧
      slider.neutral ≤ slider.high := by
    intro slider
    cases slider <;> norm_num [AdjustSlider.low, AdjustSlider.neutral, AdjustSlider.high]
  exact {
    exclusive := by simp [openEditor, setScaleMode]
    downscaleDisabled := by simp [openEditor, setScaleMode]
    upscaleDisabled := by simp [openEditor, setScaleMode]
    downscaleOffered := headD_mem
    upscaleOffered := headD_mem
    downscaleUsable := by simp [openEditor, setScaleMode]
    upscaleUsable := by simp [openEditor, setScaleMode]
    format := List.mem_cons_self
    box := by simp [openEditor, setScaleMode]
    degrees := by simp [openEditor, setScaleMode]
    factor := by simp [openEditor, setScaleMode]
    adjusted := hneutral
    presetName := by simp [openEditor, setScaleMode] }

/-- Ticking a scale closes the other, unticking it frees both. -/
theorem Sound.tickDownscale (hsound : panel.Sound width height options) (checked : Bool)
    (henabled : panel.downscaleDisabled = false) :
    (setScaleMode options (if checked then some .downscale else none)
      { panel with downscaleChecked := checked }).Sound width height options := by
  obtain ⟨hup, hne⟩ := not_or.mp (hsound.downscaleDisabled.not.mp (by simp [henabled]))
  exact { hsound with
    exclusive := by cases checked <;> simp [setScaleMode, hup]
    downscaleDisabled := by cases checked <;> simp [setScaleMode, hup, hne]
    upscaleDisabled := by cases checked <;> simp [setScaleMode]
    downscaleUsable := fun _ => hne
    upscaleUsable := by cases checked <;> simp [setScaleMode, hup] }

theorem Sound.tickUpscale (hsound : panel.Sound width height options) (checked : Bool)
    (henabled : panel.upscaleDisabled = false) :
    (setScaleMode options (if checked then some .upscale else none)
      { panel with upscaleChecked := checked }).Sound width height options := by
  obtain ⟨hdown, hne⟩ := not_or.mp (hsound.upscaleDisabled.not.mp (by simp [henabled]))
  exact { hsound with
    exclusive := by cases checked <;> simp [setScaleMode, hdown]
    downscaleDisabled := by cases checked <;> simp [setScaleMode]
    upscaleDisabled := by cases checked <;> simp [setScaleMode, hdown, hne]
    downscaleUsable := by cases checked <;> simp [setScaleMode, hdown]
    upscaleUsable := fun _ => hne }

theorem Sound.step {event : PanelEvent} (hsound : panel.Sound width height options)
    (hstep : (panelSystem width height options).step panel event = some after) :
    after.Sound width height options := by
  cases event with
  | tickClip checked | tickCrop checked | tickConvert checked | tickPlugin name checked
  | selectRange range | mirror axis =>
      obtain rfl := Option.some.inj hstep
      exact { hsound with }
  | tickDownscale checked =>
      obtain ⟨henabled, hafter⟩ := Option.ite_none_left_eq_some.mp hstep
      obtain rfl := Option.some.inj hafter
      exact hsound.tickDownscale checked (Bool.eq_false_of_not_eq_true henabled)
  | tickUpscale checked =>
      obtain ⟨henabled, hafter⟩ := Option.ite_none_left_eq_some.mp hstep
      obtain rfl := Option.some.inj hafter
      exact hsound.tickUpscale checked (Bool.eq_false_of_not_eq_true henabled)
  | chooseDownscale target =>
      obtain ⟨hoffered, hafter⟩ := Option.ite_none_right_eq_some.mp hstep
      obtain rfl := Option.some.inj hafter
      exact { hsound with downscaleOffered := fun _ => hoffered }
  | chooseUpscale target =>
      obtain ⟨hoffered, hafter⟩ := Option.ite_none_right_eq_some.mp hstep
      obtain rfl := Option.some.inj hafter
      exact { hsound with upscaleOffered := fun _ => hoffered }
  | chooseFormat format =>
      obtain ⟨hoffered, hafter⟩ := Option.ite_none_right_eq_some.mp hstep
      obtain rfl := Option.some.inj hafter
      exact { hsound with format := hoffered }
  | drawBox ratio requested anchor =>
      obtain rfl := Option.some.inj hstep
      refine { hsound with box := fun box hbox => ?_ }
      obtain rfl := Option.some.inj hbox
      exact ⟨ratio, requested, anchor, rfl⟩
  | turn degrees =>
      obtain ⟨hoffered, hafter⟩ := Option.ite_none_right_eq_some.mp hstep
      obtain rfl := Option.some.inj hafter
      refine { hsound with degrees := fun chosen hchosen => ?_ }
      obtain rfl := Option.some.inj hchosen
      exact hoffered
  | setSpeed factor =>
      obtain ⟨hoffered, hafter⟩ := Option.ite_none_right_eq_some.mp hstep
      obtain rfl := Option.some.inj hafter
      refine { hsound with factor := fun chosen hchosen => ?_ }
      obtain rfl := Option.some.inj hchosen
      exact hoffered
  | choosePreset name =>
      obtain ⟨hoffered, hafter⟩ := Option.ite_none_right_eq_some.mp hstep
      obtain rfl := Option.some.inj hafter
      exact { hsound with presetName := hoffered }
  | slide slider value =>
      obtain rfl := Option.some.inj hstep
      refine { hsound with adjusted := fun other => ?_ }
      show other.low ≤ Function.update panel.adjusted slider (slid slider value) other ∧
        Function.update panel.adjusted slider (slid slider value) other ≤ other.high
      by_cases hother : other = slider
      · subst hother
        rw [Function.update_self]
        exact slid_mem other value
      · rw [Function.update_of_ne hother]
        exact hsound.adjusted other
  | resetSliders =>
      obtain rfl := Option.some.inj hstep
      have hfresh : (openEditor options).Sound width height options := Sound.init rfl
      exact { hsound with adjusted := hfresh.adjusted }
  | mount =>
      obtain rfl := Option.some.inj hstep
      have hfresh : (openEditor options).Sound width height options := Sound.init rfl
      exact { hsound with
        box := hfresh.box
        degrees := hfresh.degrees
        factor := hfresh.factor
        adjusted := hfresh.adjusted
        presetName := hfresh.presetName }

theorem Sound.of_reachable (hreach : (panelSystem width height options).Reachable panel) :
    panel.Sound width height options :=
  hreach.invariant (Sound width height options) (fun _ => Sound.init)
    fun _ _ _ _ hsound _ => hsound.step

end EditPanel

end Frontend
end MediaPlayer
