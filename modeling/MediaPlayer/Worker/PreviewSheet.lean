import Mathlib.Algebra.Order.Floor.Ring
import Mathlib.Data.Int.ConditionallyCompleteOrder
import Mathlib.Data.List.Range
import Mathlib.Data.Rat.Floor
import Mathlib.Data.Set.Prod
import Mathlib.Order.CompletePartialOrder
import Mathlib.Order.Interval.Set.Disjoint
import MediaPlayer.Library.CommandLine
import MediaPlayer.Library.Decimals

/-!
# The sheet of a preview and its index

`plan_sprite`, `build_sprite_command` and `build_vtt` of `app/worker/preview.py`.  Times are
exact here; `build_vtt` rounds them to milliseconds where it prints them.

* `planSprite_fits` — the frames just reach the end of the film, the rows just hold the frames.
* `toldSheet` — the sheet the command asks FFmpeg for, read off its filters.
* `sprite_sheet_agrees` — so the cues cut the film into one interval a tile, and the tiles lie
  side by side on the sheet that FFmpeg is told to make.
-/

namespace MediaPlayer
namespace Worker

open Library

/-- `PreviewError`, as `plan_sprite` raises it. -/
inductive SpriteError
  | nothingToPreview (width height : ℤ) (durationSeconds : ℚ)
  | badSettings (intervalSeconds tileWidth : ℤ)
  deriving DecidableEq

/-- What `plan_sprite` is called with beside the probe. -/
structure SpriteSettings where
  intervalSeconds : ℤ
  tileWidth : ℤ
  columns : ℤ := 10
  maxFrames : ℤ := 200

/-- `SpriteLayout`. -/
structure SpriteLayout where
  intervalSeconds : ℤ
  frames : ℤ
  columns : ℤ
  rows : ℤ
  tileWidth : ℤ
  tileHeight : ℤ
  deriving DecidableEq

/-- `plan_sprite`. -/
def planSprite (width height : ℤ) (durationSeconds : ℚ) (settings : SpriteSettings) :
    Except SpriteError SpriteLayout :=
  if width ≤ 0 ∨ height ≤ 0 ∨ durationSeconds ≤ 0 then
    .error (.nothingToPreview width height durationSeconds)
  else if settings.intervalSeconds ≤ 0 ∨ settings.tileWidth ≤ 0 then
    .error (.badSettings settings.intervalSeconds settings.tileWidth)
  else
    let interval := max settings.intervalSeconds ⌈durationSeconds / settings.maxFrames⌉
    let frames := ⌈durationSeconds / interval⌉
    let columns := min settings.columns frames
    .ok
      { intervalSeconds := interval
        frames
        columns
        rows := ⌈(frames / columns : ℚ)⌉
        tileWidth := settings.tileWidth
        tileHeight := max 2 (roundHalfEven (settings.tileWidth * height / width / 2 : ℚ) * 2) }

/-- The filters of the sheet: one frame an interval, scaled, and laid out. -/
def spriteFilters (layout : SpriteLayout) : String :=
  s!"fps=1/{layout.intervalSeconds}," ++
    s!"scale={layout.tileWidth}:{layout.tileHeight},setsar=1," ++
    s!"tile={layout.columns}x{layout.rows}"

/-- `build_sprite_command`. -/
def buildSpriteCommand (sourcePath outputPath : String) (layout : SpriteLayout)
    (ffmpegBinary : String) : List String :=
  [ffmpegBinary, "-hide_banner", "-loglevel", "error", "-i", sourcePath, "-an", "-sn", "-dn",
    "-vf", spriteFilters layout, "-frames:v", "1", "-q:v", "5", "-y", outputPath]

/-! ## What FFmpeg is told -/

/-- The words of the command that take no value. -/
def spriteFlags : List String := ["-hide_banner", "-an", "-sn", "-dn", "-y"]

/-- A frame every so many seconds, scaled to a size, and laid out in columns and rows. -/
structure ToldSheet where
  intervalSeconds : ℤ
  tileWidth : ℤ
  tileHeight : ℤ
  columns : ℤ
  rows : ℤ

/-- What the chain of filters of a command says: `fps=1/N`, `scale=W:H`, `tile=CxR`. -/
def toldSheet (command : List String) : Option ToldSheet :=
  match valuesOf "-vf" (commandOptions spriteFlags command) with
  | [chain] =>
      let filters := splitText ',' chain
      match filterArguments "fps" '/' filters, filterArguments "scale" ':' filters,
        filterArguments "tile" 'x' filters with
      | some [once, interval], some [width, height], some [columns, rows] =>
          if once = "1" then
            (intOf interval).bind fun interval => (intOf width).bind fun width =>
              (intOf height).bind fun height => (intOf columns).bind fun columns =>
                (intOf rows).map fun rows => ⟨interval, width, height, columns, rows⟩
          else none
      | _, _, _ => none
  | _ => none

/-- The sheet of `columns` by `rows` tiles. -/
def ToldSheet.sheet (told : ToldSheet) : Set (ℤ × ℤ) :=
  Set.Ico 0 (told.columns * told.tileWidth) ×ˢ Set.Ico 0 (told.rows * told.tileHeight)

/-- What a layout says of the sheet. -/
def SpriteLayout.told (layout : SpriteLayout) : ToldSheet :=
  ⟨layout.intervalSeconds, layout.tileWidth, layout.tileHeight, layout.columns, layout.rows⟩

/-- The filters, before they are joined. -/
theorem spriteFilters_eq (layout : SpriteLayout) : spriteFilters layout =
    (String.singleton ',').intercalate
      ["fps" ++ "=" ++ (String.singleton '/').intercalate ["1", toString layout.intervalSeconds],
        "scale" ++ "=" ++ (String.singleton ':').intercalate
          [toString layout.tileWidth, toString layout.tileHeight], "setsar=1",
        "tile" ++ "=" ++ (String.singleton 'x').intercalate
          [toString layout.columns, toString layout.rows]] := by
  rw [← String.toList_inj]
  simp [spriteFilters, String.intercalate_cons_cons]
  rfl

/-- A filter with two arguments is read where it stands. -/
theorem filterArguments_pair {name first second : String} {separator : Char}
    {filters : List String} (hfirst : separator ∉ first.toList)
    (hsecond : separator ∉ second.toList)
    (hfound : filters.find? (startsWith · (name ++ "=")) =
      some (name ++ "=" ++ (String.singleton separator).intercalate [first, second])) :
    filterArguments name separator filters = some [first, second] := by
  have hdrop : (name ++ "=" ++ (String.singleton separator).intercalate [first, second]).toList.drop
      (name.length + 1) = ((String.singleton separator).intercalate [first, second]).toList := by
    have hlength : (name ++ "=").toList.length = name.length + 1 := by
      rw [String.length_toList, String.length_append]
      rfl
    rw [String.toList_append, List.drop_left' hlength]
  rw [filterArguments, hfound, Option.map_some, hdrop, String.ofList_toList,
    splitText_intercalate (by simp)]
  simpa using ⟨hfirst, hsecond⟩

/-- The command asks for the sheet of the layout. -/
theorem toldSheet_buildSpriteCommand (sourcePath outputPath : String) (layout : SpriteLayout)
    (ffmpegBinary : String) :
    toldSheet (buildSpriteCommand sourcePath outputPath layout ffmpegBinary) =
      some layout.told := by
  have hvalues : valuesOf "-vf" (commandOptions spriteFlags
      (buildSpriteCommand sourcePath outputPath layout ffmpegBinary)) =
        [spriteFilters layout] := by
    simp [commandOptions, valuesOf, buildSpriteCommand, readOptions, spriteFlags]
  have hint {c : Char} (hdigit : c.isDigit = false) (hminus : c ≠ '-') (n : ℤ) :
      c ∉ (toString n).toList := not_mem_toString_int hdigit hminus n
  obtain ⟨filters, hfilters⟩ : ∃ filters, filters = splitText ',' (spriteFilters layout) :=
    ⟨_, rfl⟩
  have hsplit := hfilters
  rw [spriteFilters_eq, splitText_intercalate (by simp)] at hsplit
  · have hfps : filterArguments "fps" '/' filters =
        some ["1", toString layout.intervalSeconds] := by
      refine filterArguments_pair (by decide) (hint (by decide) (by decide) _) ?_
      rw [hsplit]
      simp [startsWith]
    have hscale : filterArguments "scale" ':' filters =
        some [toString layout.tileWidth, toString layout.tileHeight] := by
      refine filterArguments_pair (hint (by decide) (by decide) _)
        (hint (by decide) (by decide) _) ?_
      rw [hsplit]
      simp [startsWith]
    have htile : filterArguments "tile" 'x' filters =
        some [toString layout.columns, toString layout.rows] := by
      refine filterArguments_pair (hint (by decide) (by decide) _)
        (hint (by decide) (by decide) _) ?_
      rw [hsplit]
      simp [startsWith]
    unfold toldSheet
    rw [hvalues]
    dsimp only
    rw [← hfilters, hfps, hscale, htile]
    simp only [if_true, intOf_toString, Option.bind_some, Option.map_some]
    rfl
  · have hcomma (n : ℤ) : ',' ∉ n.repr.toList := not_mem_toString_int (by decide) (by decide) n
    simp [String.intercalate_cons_cons, hcomma]

/-! ## The index -/

/-- A rectangle of the sheet. -/
structure Tile where
  x : ℤ
  y : ℤ
  w : ℤ
  h : ℤ
  deriving DecidableEq

/-- The pixels of a rectangle. -/
def Tile.pixels (tile : Tile) : Set (ℤ × ℤ) :=
  Set.Ico tile.x (tile.x + tile.w) ×ˢ Set.Ico tile.y (tile.y + tile.h)

/-- One cue of the index: the time it is shown for, and its rectangle. -/
structure SpriteCue where
  start : ℚ
  finish : ℚ
  tile : Tile
  deriving DecidableEq

/-- The cue of one frame. -/
def spriteCue (layout : SpriteLayout) (durationSeconds : ℚ) (index : ℕ) : SpriteCue where
  start := index * layout.intervalSeconds
  finish := min (index * layout.intervalSeconds + layout.intervalSeconds) durationSeconds
  tile :=
    { x := index % layout.columns * layout.tileWidth
      y := index / layout.columns * layout.tileHeight
      w := layout.tileWidth
      h := layout.tileHeight }

def spriteCues (layout : SpriteLayout) (durationSeconds : ℚ) : List SpriteCue :=
  (List.range layout.frames.toNat).map (spriteCue layout durationSeconds)

/-- `_timestamp`. -/
def timestamp (seconds : ℚ) : String :=
  let millis := (roundHalfEven (seconds * 1000)).toNat
  let hours := millis / 3600000
  let minutes := millis % 3600000 / 60000
  let secs := millis % 60000 / 1000
  s!"{zeroPad 2 hours}:{zeroPad 2 minutes}:{zeroPad 2 secs}.{zeroPad 3 (millis % 1000)}"

/-- `build_vtt`. -/
def buildVtt (layout : SpriteLayout) (durationSeconds : ℚ) (spriteName : String) : String :=
  "\n".intercalate (["WEBVTT", ""] ++ (spriteCues layout durationSeconds).flatMap fun cue =>
    [s!"{timestamp cue.start} --> {timestamp cue.finish}",
      s!"{spriteName}#xywh={cue.tile.x},{cue.tile.y},{cue.tile.w},{cue.tile.h}", ""])

/-! ## The layout -/

/-- The frames just reach the end of the film, and the rows just hold the frames. -/
structure SpriteLayout.Fits (layout : SpriteLayout) (durationSeconds : ℚ) : Prop where
  interval : 0 < layout.intervalSeconds
  columns : 0 < layout.columns
  tileWidth : 0 < layout.tileWidth
  tileHeight : 0 < layout.tileHeight
  reaches : durationSeconds ≤ layout.frames * layout.intervalSeconds
  needs : (layout.frames - 1) * layout.intervalSeconds < durationSeconds
  holds : layout.frames ≤ layout.rows * layout.columns
  fills : (layout.rows - 1) * layout.columns < layout.frames

/-- So many steps just cover a length. -/
theorem ceil_div_bounds {length step : ℚ} (hstep : 0 < step) :
    length ≤ ⌈length / step⌉ * step ∧ (⌈length / step⌉ - 1) * step < length := by
  constructor
  · exact (div_le_iff₀ hstep).mp (Int.le_ceil _)
  · have hlt : (⌈length / step⌉ : ℚ) - 1 < length / step := by
      linarith only [Int.ceil_lt_add_one (length / step)]
    exact (lt_div_iff₀ hstep).mp hlt

section

variable {width height : ℤ} {durationSeconds : ℚ} {settings : SpriteSettings}

/-- A film is planned with at most as many frames as there may be. -/
theorem planSprite_fits (hwidth : 0 < width) (hheight : 0 < height)
    (hduration : 0 < durationSeconds) (hinterval : 0 < settings.intervalSeconds)
    (htileWidth : 0 < settings.tileWidth) (hcolumns : 0 < settings.columns)
    (hmaxFrames : 0 < settings.maxFrames) :
    ∃ layout, planSprite width height durationSeconds settings = .ok layout ∧
      layout.Fits durationSeconds ∧ layout.frames ≤ settings.maxFrames := by
  unfold planSprite
  rw [if_neg (not_or.mpr ⟨not_le.mpr hwidth, not_or.mpr ⟨not_le.mpr hheight,
      not_le.mpr hduration⟩⟩),
    if_neg (not_or.mpr ⟨not_le.mpr hinterval, not_le.mpr htileWidth⟩)]
  -- The interval is stretched until the film fits into the frames there may be.
  obtain ⟨interval, hmax⟩ : ∃ interval, interval =
      max settings.intervalSeconds ⌈durationSeconds / settings.maxFrames⌉ := ⟨_, rfl⟩
  rw [← hmax]
  have hpos : 0 < interval := hmax ▸ lt_max_of_lt_left hinterval
  have hstep : (0 : ℚ) < interval := Int.cast_pos.mpr hpos
  have hframes : 0 < ⌈durationSeconds / interval⌉ := Int.ceil_pos.mpr (div_pos hduration hstep)
  have hrow : 0 < min settings.columns ⌈durationSeconds / interval⌉ := lt_min hcolumns hframes
  obtain ⟨hreaches, hneeds⟩ := @ceil_div_bounds durationSeconds _ hstep
  obtain ⟨hholds, hfills⟩ := @ceil_div_bounds (⌈durationSeconds / interval⌉ : ℤ) _
    (Int.cast_pos.mpr hrow)
  refine ⟨_, rfl, ⟨hpos, hrow, htileWidth, lt_max_of_lt_left (by decide), hreaches, hneeds, ?_, ?_⟩,
    ?_⟩
  · exact_mod_cast hholds
  · exact_mod_cast hfills
  · refine Int.ceil_le.mpr ((div_le_iff₀ hstep).mpr ?_)
    have hlimit : (0 : ℚ) < settings.maxFrames := Int.cast_pos.mpr hmaxFrames
    have hwide : durationSeconds / settings.maxFrames ≤ interval :=
      (Int.le_ceil _).trans (Int.cast_le.mpr (hmax ▸ le_max_right ..))
    calc durationSeconds ≤ interval * settings.maxFrames := (div_le_iff₀ hlimit).mp hwide
      _ = settings.maxFrames * interval := mul_comm ..

end

/-! ## The cues -/

/-- The cues cut a film into intervals, one after the other. -/
structure CutsUp (cues : List SpriteCue) (durationSeconds : ℚ) : Prop where
  first : cues.head?.map (·.start) = some 0
  last : cues.getLast?.map (·.finish) = some durationSeconds
  meets : cues.IsChain fun before after => before.finish = after.start
  nonempty : ∀ cue ∈ cues, cue.start < cue.finish

/-- A cue begins where its frame is taken, its tile is as large as the frame is scaled, the tiles
lie on the sheet side by side, and no row of it is without one. -/
structure OnSheet (told : ToldSheet) (cues : List SpriteCue) : Prop where
  taken : ∀ (index : ℕ) (cue : SpriteCue), cues[index]? = some cue →
    cue.start = index * told.intervalSeconds
  sized : ∀ cue ∈ cues, cue.tile.w = told.tileWidth ∧ cue.tile.h = told.tileHeight
  inside : ∀ cue ∈ cues, cue.tile.pixels ⊆ told.sheet
  apart : cues.Pairwise fun one other => Disjoint one.tile.pixels other.tile.pixels
  noEmptyRow : ∀ row, 0 ≤ row → row < told.rows →
    ∃ cue ∈ cues, cue.tile.y = row * told.tileHeight

namespace SpriteLayout.Fits

variable {layout : SpriteLayout} {durationSeconds : ℚ}

/-- A frame begins before the film ends. -/
theorem start_lt (hfits : layout.Fits durationSeconds) {index : ℕ}
    (hindex : (index : ℤ) < layout.frames) :
    (index * layout.intervalSeconds : ℚ) < durationSeconds := by
  have hinterval : (0 : ℚ) < layout.intervalSeconds := Int.cast_pos.mpr hfits.interval
  have hle : (index : ℚ) ≤ layout.frames - 1 := by exact_mod_cast Int.le_sub_one_of_lt hindex
  calc (index * layout.intervalSeconds : ℚ)
      ≤ (layout.frames - 1) * layout.intervalSeconds := by gcongr
    _ < durationSeconds := hfits.needs

theorem spriteCue_nonempty (hfits : layout.Fits durationSeconds) {index : ℕ}
    (hindex : (index : ℤ) < layout.frames) :
    (spriteCue layout durationSeconds index).start <
      (spriteCue layout durationSeconds index).finish := by
  have hinterval : (0 : ℚ) < layout.intervalSeconds := Int.cast_pos.mpr hfits.interval
  exact lt_min (lt_add_of_pos_right _ hinterval) (hfits.start_lt hindex)

/-- A cue ends where the next begins. -/
theorem spriteCue_meets (hfits : layout.Fits durationSeconds) {index : ℕ}
    (hindex : ((index + 1 : ℕ) : ℤ) < layout.frames) :
    (spriteCue layout durationSeconds index).finish =
      (spriteCue layout durationSeconds (index + 1)).start := by
  have hnext : (index * layout.intervalSeconds + layout.intervalSeconds : ℚ) =
      (index + 1 : ℕ) * layout.intervalSeconds := by
    rw [Nat.cast_succ, add_one_mul]
  show min (index * layout.intervalSeconds + layout.intervalSeconds : ℚ) durationSeconds = _
  rw [hnext]
  exact min_eq_left (hfits.start_lt hindex).le

/-- The last cue ends with the film. -/
theorem spriteCue_last (hfits : layout.Fits durationSeconds) {index : ℕ}
    (hindex : ((index + 1 : ℕ) : ℤ) = layout.frames) :
    (spriteCue layout durationSeconds index).finish = durationSeconds := by
  have hnext : (index * layout.intervalSeconds + layout.intervalSeconds : ℚ) =
      layout.frames * layout.intervalSeconds := by
    rw [← hindex, Int.cast_natCast, Nat.cast_succ, add_one_mul]
  show min (index * layout.intervalSeconds + layout.intervalSeconds : ℚ) durationSeconds = _
  rw [hnext]
  exact min_eq_right hfits.reaches

theorem cutsUp (hfits : layout.Fits durationSeconds) (hframes : 0 < layout.frames) :
    CutsUp (spriteCues layout durationSeconds) durationSeconds := by
  -- There is a last frame, whose cue is cut off by the end of the film.
  obtain ⟨last, hlast⟩ : ∃ last : ℕ, ((last + 1 : ℕ) : ℤ) = layout.frames :=
    ⟨layout.frames.toNat - 1, by omega⟩
  have hcount : layout.frames.toNat = last + 1 := by omega
  unfold spriteCues
  rw [hcount]
  constructor
  · rw [List.range_succ_eq_map]
    simp [spriteCue]
  · rw [List.range_succ, List.map_append, List.map_singleton, List.getLast?_concat, Option.map_some,
      hfits.spriteCue_last hlast]
  · refine List.isChain_map _ |>.mpr ((List.isChain_range _ _).mpr fun index hindex => ?_)
    exact hfits.spriteCue_meets (by omega)
  · intro cue hcue
    obtain ⟨index, hindex, rfl⟩ := List.mem_map.mp hcue
    exact hfits.spriteCue_nonempty (by have := List.mem_range.mp hindex; omega)

/-- Of two frames, the later one is in a later row or further right. -/
theorem apart (hfits : layout.Fits durationSeconds) {one other : ℕ} (hlt : one < other) :
    Disjoint (spriteCue layout durationSeconds one).tile.pixels
      (spriteCue layout durationSeconds other).tile.pixels := by
  have hrows : (one : ℤ) / layout.columns ≤ other / layout.columns :=
    Int.ediv_le_ediv hfits.columns (by omega)
  refine Set.disjoint_prod.mpr ?_
  rcases hrows.lt_or_eq with hrow | hrow
  -- A later row lies below.
  · right
    refine Set.Ico_disjoint_Ico.mpr (min_le_of_left_le (le_max_of_le_right ?_))
    show (one : ℤ) / layout.columns * layout.tileHeight + layout.tileHeight ≤
      other / layout.columns * layout.tileHeight
    rw [← add_one_mul]
    exact mul_le_mul_of_nonneg_right hrow hfits.tileHeight.le
  -- In the same row the remainders decide.
  · left
    have hone := Int.mul_ediv_add_emod one layout.columns
    have hother := Int.mul_ediv_add_emod other layout.columns
    rw [hrow] at hone
    have hcolumn : (one : ℤ) % layout.columns + 1 ≤ other % layout.columns := by omega
    refine Set.Ico_disjoint_Ico.mpr (min_le_of_left_le (le_max_of_le_right ?_))
    show (one : ℤ) % layout.columns * layout.tileWidth + layout.tileWidth ≤
      other % layout.columns * layout.tileWidth
    rw [← add_one_mul]
    exact mul_le_mul_of_nonneg_right hcolumn hfits.tileWidth.le

theorem inside (hfits : layout.Fits durationSeconds) {index : ℕ}
    (hindex : (index : ℤ) < layout.frames) :
    (spriteCue layout durationSeconds index).tile.pixels ⊆ layout.told.sheet := by
  have hcolumn := Int.emod_lt_of_pos index hfits.columns
  have hcolumnNonneg := Int.emod_nonneg index hfits.columns.ne'
  have hrow : (index : ℤ) / layout.columns < layout.rows :=
    Int.ediv_lt_of_lt_mul hfits.columns (hindex.trans_le hfits.holds)
  have hrowNonneg : 0 ≤ (index : ℤ) / layout.columns :=
    Int.ediv_nonneg (Int.natCast_nonneg _) hfits.columns.le
  refine Set.prod_mono (Set.Ico_subset_Ico ?_ ?_) (Set.Ico_subset_Ico ?_ ?_)
  · exact mul_nonneg hcolumnNonneg hfits.tileWidth.le
  · show (index : ℤ) % layout.columns * layout.tileWidth + layout.tileWidth ≤ _
    rw [← add_one_mul]
    exact mul_le_mul_of_nonneg_right hcolumn hfits.tileWidth.le
  · exact mul_nonneg hrowNonneg hfits.tileHeight.le
  · show (index : ℤ) / layout.columns * layout.tileHeight + layout.tileHeight ≤ _
    rw [← add_one_mul]
    exact mul_le_mul_of_nonneg_right hrow hfits.tileHeight.le

theorem onSheet (hfits : layout.Fits durationSeconds) :
    OnSheet layout.told (spriteCues layout durationSeconds) := by
  constructor
  · intro index cue hcue
    rw [spriteCues, List.getElem?_map, Option.map_eq_some_iff] at hcue
    obtain ⟨other, hother, rfl⟩ := hcue
    obtain ⟨hindex, rfl⟩ := List.getElem?_eq_some_iff.mp hother
    rw [List.getElem_range]
    rfl
  · intro cue hcue
    obtain ⟨index, -, rfl⟩ := List.mem_map.mp hcue
    exact ⟨rfl, rfl⟩
  · intro cue hcue
    obtain ⟨index, hindex, rfl⟩ := List.mem_map.mp hcue
    exact hfits.inside (by have := List.mem_range.mp hindex; omega)
  · exact List.pairwise_map.mpr (List.pairwise_lt_range.imp fun hlt => hfits.apart hlt)
  · intro row hnonneg hrow
    -- The row's first frame.
    obtain ⟨index, hindex⟩ : ∃ index : ℕ, (index : ℤ) = row * layout.columns :=
      ⟨(row * layout.columns).toNat, Int.toNat_of_nonneg (mul_nonneg hnonneg hfits.columns.le)⟩
    have hframe : (index : ℤ) < layout.frames := by
      rw [hindex]
      refine lt_of_le_of_lt ?_ hfits.fills
      exact mul_le_mul_of_nonneg_right (Int.le_sub_one_of_lt hrow) hfits.columns.le
    refine ⟨_, List.mem_map_of_mem (List.mem_range.mpr (by omega : index < _)), ?_⟩
    show (index : ℤ) / layout.columns * layout.tileHeight = row * layout.tileHeight
    rw [hindex, Int.mul_ediv_cancel _ hfits.columns.ne']

end SpriteLayout.Fits

/-- For every film and all settings, the sheet has at most `max_frames` tiles, the cues cut the
film into one interval a tile, and the tiles lie side by side on the sheet the command asks for. -/
theorem sprite_sheet_agrees {width height : ℤ} {durationSeconds : ℚ} {settings : SpriteSettings}
    (hwidth : 0 < width) (hheight : 0 < height) (hduration : 0 < durationSeconds)
    (hinterval : 0 < settings.intervalSeconds) (htileWidth : 0 < settings.tileWidth)
    (hcolumns : 0 < settings.columns) (hmaxFrames : 0 < settings.maxFrames) :
    ∃ layout, planSprite width height durationSeconds settings = .ok layout ∧
      layout.frames ≤ settings.maxFrames ∧
      ((spriteCues layout durationSeconds).length : ℤ) = layout.frames ∧
      CutsUp (spriteCues layout durationSeconds) durationSeconds ∧
      ∀ sourcePath outputPath ffmpegBinary, ∃ told,
        toldSheet (buildSpriteCommand sourcePath outputPath layout ffmpegBinary) = some told ∧
          OnSheet told (spriteCues layout durationSeconds) := by
  obtain ⟨layout, hlayout, hfits, hlimit⟩ := planSprite_fits hwidth hheight hduration hinterval
    htileWidth hcolumns hmaxFrames
  have hframes : 0 < layout.frames := by
    have hstep : (0 : ℚ) < layout.intervalSeconds := Int.cast_pos.mpr hfits.interval
    exact_mod_cast (mul_pos_iff_of_pos_right hstep).mp (hduration.trans_le hfits.reaches)
  refine ⟨layout, hlayout, hlimit, ?_, hfits.cutsUp hframes, fun sourcePath outputPath
    ffmpegBinary => ⟨_, toldSheet_buildSpriteCommand .., hfits.onSheet⟩⟩
  rw [spriteCues, List.length_map, List.length_range]
  omega

/-- A film of 1001 s gets a frame every six seconds, the last for five. -/
theorem sprite_sheet_agrees_film :
    ∃ layout, planSprite 1920 1080 1001 ⟨5, 160, 10, 200⟩ = .ok layout ∧
      layout.frames ≤ 200 ∧ ((spriteCues layout 1001).length : ℤ) = layout.frames ∧
      CutsUp (spriteCues layout 1001) 1001 ∧
      ∀ sourcePath outputPath ffmpegBinary, ∃ told,
        toldSheet (buildSpriteCommand sourcePath outputPath layout ffmpegBinary) = some told ∧
          OnSheet told (spriteCues layout 1001) :=
  sprite_sheet_agrees (by decide) (by decide) (by norm_num) (by decide) (by decide) (by decide)
    (by decide)

end Worker
end MediaPlayer
