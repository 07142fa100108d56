import MediaPlayer.Library.StepSystem
import MediaPlayer.Services.MediaRules
import Mathlib.Algebra.Order.Round

/-!
# The editing panel

The panel of `frontend/app.js` from `openEditor` to `editOperations`, with what the mounted
components report to it: `crop-box.js`, `clip-scrubber.js`, `motion.js`, `adjust.js` and
`preset.js`.  The state holds the checkboxes, the two dropdowns of heights and the last report
of each component; every event of `panelSystem` is one thing the reader does.

* `legal` — whatever box is drawn, typed or moved, the crop box reports what `legal` makes of
  it.
* `ClipRange` — what the scrubber reports.
* `EditPanel.editOperations` — the request's list.
-/

namespace MediaPlayer
namespace Frontend

open Library Models Services

/-! ## The crop box -/

def clamp (value low high : ℚ) : ℚ := min (max value low) high

/-- Down to an even number, never below 2. -/
def even (value : ℚ) : ℤ := max 2 (⌊value / 2⌋ * 2)

def evenOffset (value : ℚ) : ℤ := max 0 (⌊value / 2⌋ * 2)

/-- `MIN_SIZE`. -/
def minSize : ℚ := 32

/-- A box as the pointer, the keyboard or a typed size asks for it. -/
structure RequestedBox where
  x : ℚ
  y : ℚ
  w : ℚ
  h : ℚ

/-- The sides a resize keeps in place. -/
structure BoxAnchor where
  right : Option ℚ
  bottom : Option ℚ

/-- `{ x, y, w, h }` in pixels of the original. -/
structure CropSelection where
  x : ℕ
  y : ℕ
  w : ℕ
  h : ℕ
  deriving DecidableEq

/-- Keep the shape by shrinking whichever side is too long for it. -/
def keepRatio (width height ratio w h : ℚ) : ℚ × ℚ :=
  let (w, h) := if ratio < w / h then (h * ratio, h) else (w, w / ratio)
  let (w, h) := if width < w then (width, width / ratio) else (w, h)
  if height < h then (height * ratio, height) else (w, h)

/-- The box of `legal` as it computes it, before anything is known of its numbers. -/
structure WholeBox where
  x : ℤ
  y : ℤ
  w : ℤ
  h : ℤ

/-- `legal`: the box inside a frame of this size that a request becomes. -/
def legalBox (width height : ℕ) (ratio : Option ℚ) (box : RequestedBox) (anchor : BoxAnchor) :
    WholeBox :=
  let w := clamp box.w (min minSize width) width
  let h := clamp box.h (min minSize height) height
  let (w, h) := match ratio with
    | some ratio => keepRatio width height ratio w h
    | none => (w, h)
  let w := min (even w) (width - width % 2)
  let h := min (even h) (height - height % 2)
  let x := match anchor.right with
    | some right => right - w
    | none => box.x
  let y := match anchor.bottom with
    | some bottom => bottom - h
    | none => box.y
  { x := evenOffset (clamp x 0 (width - w))
    y := evenOffset (clamp y 0 (height - h))
    w := w
    h := h }

/-- What `onChange` is handed: none of the four is negative. -/
def legal (width height : ℕ) (ratio : Option ℚ) (box : RequestedBox) (anchor : BoxAnchor) :
    CropSelection :=
  let next := legalBox width height ratio box anchor
  { x := next.x.toNat
    y := next.y.toNat
    w := next.w.toNat
    h := next.h.toNat }

/-! ## The other components -/

/-- `{ start, end }` of the scrubber, whatever it reports. -/
structure ClipRange where
  start : ℚ
  finish : ℚ
  deriving DecidableEq

/-- The choices of the rotate panel. -/
def rotateChoices : List ℕ := [90, 180, 270]

/-- The options of the speed panel: from a half to two by quarters. -/
def speedFactors : List ℚ := [1 / 2, 3 / 4, 1, 5 / 4, 3 / 2, 7 / 4, 2]

/-- The names in `PRESETS`. -/
def presetNames : List String := ["bw", "warm", "cool", "vintage", "vivid"]

/-- The options of the convert dropdown. -/
def convertFormats : List String := ["mkv", "mp3"]

/-- `SLIDERS` of the colour panel. -/
inductive AdjustSlider
  | brightness
  | contrast
  | saturation
  | gamma
  deriving DecidableEq

namespace AdjustSlider

def low : AdjustSlider → ℚ
  | brightness => -3 / 10
  | contrast => 1 / 2
  | saturation => 0
  | gamma => 1 / 2

def high : AdjustSlider → ℚ
  | brightness => 3 / 10
  | contrast => 2
  | saturation => 3
  | gamma => 2

def neutral : AdjustSlider → ℚ
  | brightness => 0
  | contrast | saturation | gamma => 1

end AdjustSlider

/-- `Math.round(value * 100) / 100`. -/
def round2 (value : ℚ) : ℚ := ⌊value * 100 + 1 / 2⌋ / 100

/-- `onInput`: the value a slider takes. -/
def slid (slider : AdjustSlider) (value : ℚ) : ℚ :=
  round2 (clamp value slider.low slider.high)

/-- The value of a slider that was moved off neutral. -/
def moved (values : AdjustSlider → ℚ) (slider : AdjustSlider) : Option ℚ :=
  if values slider ≠ slider.neutral then some (values slider) else none

/-- `params` of the colour panel: only what was moved is sent. -/
def adjustParams (values : AdjustSlider → ℚ) : Option EditOperation :=
  if (moved values .brightness).isNone ∧ (moved values .contrast).isNone ∧
      (moved values .saturation).isNone ∧ (moved values .gamma).isNone then none
  else some (.adjust (moved values .brightness) (moved values .contrast)
    (moved values .saturation) (moved values .gamma))

/-! ## The panel -/

/-- The operations that plug in, in the order of their sections. -/
inductive PluginName
  | rotate
  | flip
  | speed
  | adjust
  | preset
  deriving DecidableEq

/-- `pluginOperations`. -/
def pluginOperations : List PluginName := [.rotate, .flip, .speed, .adjust, .preset]

/-- The controls of the panel, and what the components last reported. -/
structure EditPanel where
  clipChecked : Bool := false
  cropChecked : Bool := false
  downscaleChecked : Bool := false
  upscaleChecked : Bool := false
  convertChecked : Bool := false
  pluginChecked : PluginName → Bool := fun _ => false
  downscaleDisabled : Bool
  upscaleDisabled : Bool
  downscaleHeight : ℕ
  upscaleHeight : ℕ
  convertFormat : String := "mkv"
  clipSelection : Option ClipRange := none
  cropSelection : Option CropSelection := none
  degrees : Option ℕ := none
  axis : Option FlipAxis := none
  factor : Option ℚ := none
  adjusted : AdjustSlider → ℚ := AdjustSlider.neutral
  presetName : Option String := none

namespace EditPanel

/-- `pluginSelections.get(name)`, as the operation it is sent as. -/
def pluginSelection (panel : EditPanel) : PluginName → Option EditOperation
  | .rotate => panel.degrees.map .rotate
  | .flip => panel.axis.map .flip
  | .speed => panel.factor.map .speed
  | .adjust => adjustParams panel.adjusted
  | .preset => panel.presetName.map .preset

/-- `editOperations`. -/
def editOperations (panel : EditPanel) : List EditOperation :=
  (if panel.clipChecked then
    (panel.clipSelection.map fun range => .clip range.start range.finish).toList else []) ++
  (if panel.cropChecked then
    (panel.cropSelection.map fun box => .crop box.x box.y box.w box.h).toList else []) ++
  (if panel.downscaleChecked then [.downscale panel.downscaleHeight]
    else if panel.upscaleChecked then [.upscale panel.upscaleHeight] else []) ++
  pluginOperations.filterMap (fun name =>
    if panel.pluginChecked name then panel.pluginSelection name else none) ++
  (if panel.convertChecked then [.convert panel.convertFormat] else [])

end EditPanel

/-- Which of the two scales is ticked. -/
inductive ScaleMode
  | downscale
  | upscale
  deriving DecidableEq

/-- `setScaleMode`. -/
def setScaleMode (options : ScaleOptions) (mode : Option ScaleMode) (panel : EditPanel) :
    EditPanel :=
  { panel with
    downscaleDisabled := mode = some .upscale ∨ options.downscale = []
    upscaleDisabled := mode = some .downscale ∨ options.upscale = []
    upscaleChecked := if mode = some .downscale then false else panel.upscaleChecked
    downscaleChecked := if mode = some .upscale then false else panel.downscaleChecked }

/-- `openEditor`: nothing is ticked, and of each dropdown the first height is chosen. -/
def openEditor (options : ScaleOptions) : EditPanel :=
  setScaleMode options none
    { downscaleDisabled := false
      upscaleDisabled := false
      downscaleHeight := options.downscale.headD 0
      upscaleHeight := options.upscale.headD 0 }

/-- What the reader does. -/
inductive PanelEvent
  | tickClip (checked : Bool)
  | tickCrop (checked : Bool)
  | tickConvert (checked : Bool)
  | tickPlugin (name : PluginName) (checked : Bool)
  | tickDownscale (checked : Bool)
  | tickUpscale (checked : Bool)
  | chooseDownscale (height : ℕ)
  | chooseUpscale (height : ℕ)
  | chooseFormat (format : String)
  | selectRange (range : ClipRange)
  | drawBox (ratio : Option ℚ) (box : RequestedBox) (anchor : BoxAnchor)
  | turn (degrees : ℕ)
  | mirror (axis : FlipAxis)
  | setSpeed (factor : ℚ)
  | slide (slider : AdjustSlider) (value : ℚ)
  | resetSliders
  | choosePreset (name : Option String)
  /-- The components are mounted anew, on the original when it arrives. -/
  | mount

/-- One event.  A disabled checkbox cannot be ticked, and what is not offered not chosen. -/
def panelStep (width height : ℕ) (options : ScaleOptions) (panel : EditPanel) :
    PanelEvent → Option EditPanel
  | .tickClip checked => some { panel with clipChecked := checked }
  | .tickCrop checked => some { panel with cropChecked := checked }
  | .tickConvert checked => some { panel with convertChecked := checked }
  | .tickPlugin name checked =>
      some { panel with pluginChecked := Function.update panel.pluginChecked name checked }
  | .tickDownscale checked =>
      if panel.downscaleDisabled then none
      else some (setScaleMode options (if checked then some .downscale else none)
        { panel with downscaleChecked := checked })
  | .tickUpscale checked =>
      if panel.upscaleDisabled then none
      else some (setScaleMode options (if checked then some .upscale else none)
        { panel with upscaleChecked := checked })
  | .chooseDownscale target =>
      if target ∈ options.downscale then some { panel with downscaleHeight := target } else none
  | .chooseUpscale target =>
      if target ∈ options.upscale then some { panel with upscaleHeight := target } else none
  | .chooseFormat format =>
      if format ∈ convertFormats then some { panel with convertFormat := format } else none
  | .selectRange range => some { panel with clipSelection := some range }
  | .drawBox ratio box anchor =>
      some { panel with cropSelection := some (legal width height ratio box anchor) }
  | .turn degrees =>
      if degrees ∈ rotateChoices then some { panel with degrees := some degrees } else none
  | .mirror axis => some { panel with axis := some axis }
  | .setSpeed factor =>
      if factor ∈ speedFactors then some { panel with factor := some factor } else none
  | .slide slider value =>
      some { panel with adjusted := Function.update panel.adjusted slider (slid slider value) }
  | .resetSliders => some { panel with adjusted := AdjustSlider.neutral }
  | .choosePreset name =>
      if ∀ preset ∈ name, preset ∈ presetNames then some { panel with presetName := name }
      else none
  | .mount => some { panel with
      clipSelection := none
      cropSelection := none
      degrees := none
      axis := none
      factor := none
      adjusted := AdjustSlider.neutral
      presetName := none }

/-- The panel on a video whose original has this size, with the heights the API offers. -/
def panelSystem (width height : ℕ) (options : ScaleOptions) :
    StepSystem EditPanel PanelEvent where
  init panel := panel = openEditor options
  step := panelStep width height options

end Frontend
end MediaPlayer
