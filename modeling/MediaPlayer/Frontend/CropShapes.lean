import MediaPlayer.Frontend.CropBoxes

/-!
# The crop box and its shape

`legal` raises each side to the minimum, then shrinks the side that is too long for the chosen
shape, and rounds both down to even numbers at the end.  So the box it answers with may have a
side below the minimum, and need not have the shape exactly; when it is moved the shape is
applied once more.

* `askedSide`, `sideOf` — a side before and after the shape has been applied.
* `moved_size_iff` — a move keeps the size exactly when neither side is still too long.
* `minimum_kept_iff` — the minimum survives exactly when neither side had to shrink below it.
-/

namespace MediaPlayer
namespace Frontend

open Library Models Services Worker

/-! ## The menu -/

/-- `ASPECTS`. -/
def aspects : List (String × Option ℚ) :=
  [("Free", none), ("16:9", some (16 / 9)), ("4:3", some (4 / 3)), ("1:1", some 1),
    ("9:16", some (9 / 16))]

/-- What `onAspectChange` sets `state.ratio` to. -/
def ratioOf (label : String) : Option ℚ :=
  (aspects.find? fun entry => entry.1 == label).bind Prod.snd

theorem ratioOf_pos {label : String} {ratio : ℚ} (hratio : ratioOf label = some ratio) :
    0 < ratio := by
  obtain ⟨entry, hfind, hentry⟩ := Option.bind_eq_some_iff.mp hratio
  have hmem := List.mem_of_find?_eq_some hfind
  simp only [aspects, List.mem_cons, List.not_mem_nil, or_false] at hmem
  rcases hmem with rfl | rfl | rfl | rfl | rfl
  · cases hentry
  all_goals
    obtain rfl := Option.some.inj hentry
    norm_num

/-! ## One side -/

/-- A side as it is asked for, within the minimum and the frame. -/
def askedSide (side : ℕ) (value : ℚ) : ℚ := clamp value (min minSize side) side

/-- A side as it is answered. -/
def sideOf (side : ℕ) (value : ℚ) : ℤ := min (even value) ((side : ℤ) - side % 2)

theorem min_le_askedSide (side : ℕ) (value : ℚ) : min minSize side ≤ askedSide side value :=
  (EditPanel.clamp_mem value (min_le_right minSize (side : ℚ))).1

theorem askedSide_le (side : ℕ) (value : ℚ) : askedSide side value ≤ side :=
  (EditPanel.clamp_mem value (min_le_right minSize (side : ℚ))).2

theorem le_askedSide {side : ℕ} {value : ℚ} (hvalue : value ≤ side) :
    value ≤ askedSide side value :=
  le_min (le_max_left value _) hvalue

theorem askedSide_le_iff {side : ℕ} {value bound : ℚ} (hvalue : value ≤ side) :
    askedSide side value ≤ bound ↔ value ≤ bound ∧ min minSize (side : ℚ) ≤ bound := by
  have hraised : max value (min minSize (side : ℚ)) ≤ side := max_le hvalue (min_le_right _ _)
  unfold askedSide clamp
  rw [min_eq_left hraised, max_le_iff]

theorem askedSide_pos {side : ℕ} (hside : 0 < side) (value : ℚ) : 0 < askedSide side value := by
  have hcast : (0 : ℚ) < side := Nat.cast_pos.mpr hside
  have hmin : (0 : ℚ) < minSize := by norm_num [minSize]
  exact lt_of_lt_of_le (lt_min hmin hcast) (min_le_askedSide side value)

/-- An even length is reached by rounding down exactly when it was there before. -/
theorem le_even_iff {value : ℚ} {length : ℤ} (heven : 2 ∣ length) :
    length ≤ even value ↔ length ≤ 2 ∨ (length : ℚ) ≤ value := by
  obtain ⟨half, rfl⟩ := heven
  have hfloor : 2 * half ≤ ⌊value / 2⌋ * 2 ↔ ((2 * half : ℤ) : ℚ) ≤ value := by
    have hhalf : half ≤ ⌊value / 2⌋ ↔ (half : ℚ) ≤ value / 2 := Int.le_floor
    rw [show 2 * half ≤ ⌊value / 2⌋ * 2 ↔ half ≤ ⌊value / 2⌋ by omega, hhalf]
    push_cast
    constructor <;> intro h <;> linarith
  unfold even
  rw [le_max_iff, hfloor]

theorem le_sideOf_iff {side : ℕ} {value : ℚ} {length : ℤ} (heven : 2 ∣ length) :
    length ≤ sideOf side value ↔ (length ≤ 2 ∨ (length : ℚ) ≤ value) ∧ length ≤ side := by
  unfold sideOf
  rw [le_min_iff, le_even_iff heven]
  refine and_congr_right fun _ => ?_
  omega

theorem two_dvd_sideOf (side : ℕ) (value : ℚ) : 2 ∣ sideOf side value := by
  have heven := two_dvd_even value
  unfold sideOf
  omega

theorem sideOf_le (side : ℕ) (value : ℚ) : sideOf side value ≤ side := by
  unfold sideOf
  omega

theorem two_le_sideOf {side : ℕ} (hside : 2 ≤ side) (value : ℚ) : 2 ≤ sideOf side value := by
  rw [le_sideOf_iff (dvd_refl 2)]
  exact ⟨Or.inl le_rfl, by exact_mod_cast hside⟩

theorem sideOf_le_value {side : ℕ} {value : ℚ} (hvalue : 2 ≤ value) :
    (sideOf side value : ℚ) ≤ value := by
  obtain hsmall | hle := ((le_sideOf_iff (two_dvd_sideOf side value)).mp le_rfl).1
  · exact le_trans (by exact_mod_cast hsmall) hvalue
  · exact hle

/-- Less than two pixels are lost. -/
theorem lt_sideOf_add_two {side : ℕ} {value : ℚ} (hvalue : value ≤ side) :
    value < sideOf side value + 2 := by
  by_contra hge
  have hlost : ((sideOf side value + 2 : ℤ) : ℚ) ≤ value := by
    push_cast
    exact not_lt.mp hge
  have hinside : sideOf side value + 2 ≤ side := by exact_mod_cast hlost.trans hvalue
  have heven : 2 ∣ sideOf side value + 2 := (two_dvd_sideOf side value).add (dvd_refl 2)
  have hnext := (le_sideOf_iff heven).mpr ⟨Or.inr hlost, hinside⟩
  omega

/-- The lengths that round to one answer. -/
theorem sideOf_eq_iff {side : ℕ} {value : ℚ} {length : ℤ} (heven : 2 ∣ length)
    (hpos : 2 ≤ length) (hinside : length ≤ side) (hbelow : value < length + 2) :
    sideOf side value = length ↔ length = 2 ∨ (length : ℚ) ≤ value := by
  have hle : length ≤ sideOf side value ↔ length = 2 ∨ (length : ℚ) ≤ value := by
    rw [le_sideOf_iff heven, and_iff_left hinside]
    refine or_congr_left ?_
    omega
  have hge : sideOf side value ≤ length := by
    by_contra hlt
    have hsides := two_dvd_sideOf side value
    have hnext : length + 2 ≤ sideOf side value := by omega
    obtain hsmall | hvalue := ((le_sideOf_iff (heven.add (dvd_refl 2))).mp hnext).1
    · omega
    · push_cast at hvalue
      exact absurd hbelow (not_lt.mpr hvalue)
  rw [← hle]
  exact ⟨fun h => h.ge, fun h => le_antisymm hge h⟩

/-! ## Two sides and a shape -/

/-- Of two sides that fit in the frame the ratio shrinks one, and the frame is no concern. -/
theorem keepRatio_eq {width height ratio w h : ℚ} (hratio : 0 < ratio) (hpos : 0 < h)
    (hw : w ≤ width) (hh : h ≤ height) :
    keepRatio width height ratio w h = (min w (h * ratio), min h (w * ratio⁻¹)) := by
  have hkept : (if ratio < w / h then (h * ratio, h) else (w, w / ratio)) =
      (min w (h * ratio), min h (w * ratio⁻¹)) := by
    rw [← div_eq_mul_inv]
    split_ifs with hwide
    · rw [lt_div_iff₀ hpos, mul_comm] at hwide
      rw [min_eq_right hwide.le, min_eq_left ((le_div_iff₀ hratio).mpr hwide.le)]
    · rw [lt_div_iff₀ hpos, not_lt, mul_comm] at hwide
      rw [min_eq_left hwide, min_eq_right ((div_le_iff₀ hratio).mpr hwide)]
  unfold keepRatio
  rw [hkept]
  dsimp only
  rw [if_neg (not_lt.mpr ((min_le_left w _).trans hw))]
  dsimp only
  rw [if_neg (not_lt.mpr ((min_le_left h _).trans hh))]

variable {width height : ℕ}

/-- The size of the answer: each side is what is asked of it or what the other leaves it. -/
theorem legalBox_size (width : ℕ) {ratio : ℚ} (hratio : 0 < ratio) (hheight : 0 < height)
    (box : RequestedBox) (anchor : BoxAnchor) :
    (legalBox width height (some ratio) box anchor).w =
        sideOf width (min (askedSide width box.w) (askedSide height box.h * ratio)) ∧
      (legalBox width height (some ratio) box anchor).h =
        sideOf height (min (askedSide height box.h) (askedSide width box.w * ratio⁻¹)) := by
  have hkeep := keepRatio_eq hratio (askedSide_pos hheight box.h) (askedSide_le width box.w)
    (askedSide_le height box.h)
  constructor
  · change sideOf width (keepRatio width height ratio (askedSide width box.w)
      (askedSide height box.h)).1 = _
    rw [hkeep]
  · change sideOf height (keepRatio width height ratio (askedSide width box.w)
      (askedSide height box.h)).2 = _
    rw [hkeep]

/-! ## A box that is moved -/

section Moved

variable {side other : ℕ} {scale : ℚ}

/-- A side that was answered is not asked to grow by two pixels: either it was asked for itself,
or the other side has not grown since. -/
theorem moved_lt (hother : 2 ≤ other) (hscale : 0 < scale) (a c : ℚ) :
    let length := sideOf side (min (askedSide side a) (askedSide other c * scale))
    let breadth := sideOf other (min (askedSide other c) (askedSide side a * scale⁻¹))
    min (askedSide side length) (askedSide other breadth * scale) < length + 2 := by
  intro length breadth
  have hlength : (length : ℚ) ≤ side := by exact_mod_cast sideOf_le side _
  have hbreadth : (breadth : ℚ) ≤ other := by exact_mod_cast sideOf_le other _
  have hrounded : min (askedSide side a) (askedSide other c * scale) < length + 2 :=
    lt_sideOf_add_two ((min_le_left _ _).trans (askedSide_le side a))
  obtain hown | hshape := le_total (askedSide side a) (askedSide other c * scale)
  · rw [min_eq_left hown] at hrounded
    refine lt_of_le_of_lt (min_le_left _ _) ?_
    have hmin : min minSize (side : ℚ) < length + 2 :=
      lt_of_le_of_lt (min_le_askedSide side a) hrounded
    have hraised : askedSide side length ≤ max (length : ℚ) (min minSize side) :=
      min_le_left _ _
    exact lt_of_le_of_lt hraised (max_lt (by linarith) hmin)
  · rw [min_eq_right hshape] at hrounded
    have hsame : min (askedSide other c) (askedSide side a * scale⁻¹) = askedSide other c :=
      min_eq_left ((le_mul_inv_iff₀ hscale).mpr hshape)
    have htwo : (2 : ℚ) ≤ askedSide other c := by
      have hcast : (2 : ℚ) ≤ other := by exact_mod_cast hother
      have hmin : (2 : ℚ) ≤ min minSize (other : ℚ) := le_min (by norm_num [minSize]) hcast
      exact hmin.trans (min_le_askedSide other c)
    have hshrunk : (breadth : ℚ) ≤ askedSide other c := by
      change (sideOf other (min _ _) : ℚ) ≤ _
      rw [hsame]
      exact sideOf_le_value htwo
    have hasked : askedSide other breadth ≤ askedSide other c :=
      (askedSide_le_iff hbreadth).mpr ⟨hshrunk, min_le_askedSide other c⟩
    calc min (askedSide side length) (askedSide other breadth * scale)
        ≤ askedSide other breadth * scale := min_le_right _ _
      _ ≤ askedSide other c * scale := by gcongr
      _ < length + 2 := hrounded

theorem sideOf_moved_iff (hside : 2 ≤ side) (hother : 2 ≤ other) (hscale : 0 < scale)
    (a c : ℚ) :
    let length := sideOf side (min (askedSide side a) (askedSide other c * scale))
    let breadth := sideOf other (min (askedSide other c) (askedSide side a * scale⁻¹))
    sideOf side (min (askedSide side length) (askedSide other breadth * scale)) = length ↔
      length = 2 ∨ (length : ℚ) ≤ askedSide other breadth * scale := by
  intro length breadth
  have hinside : length ≤ side := sideOf_le side _
  have hown : (length : ℚ) ≤ askedSide side length :=
    le_askedSide (by exact_mod_cast hinside)
  rw [sideOf_eq_iff (two_dvd_sideOf side _) (two_le_sideOf hside _) hinside
    (moved_lt hother hscale a c), le_min_iff, and_iff_right hown]

/-- Without a shape there is nothing to shrink for. -/
theorem sideOf_asked_again (hside : 2 ≤ side) (a : ℚ) :
    sideOf side (askedSide side (sideOf side (askedSide side a))) =
      sideOf side (askedSide side a) := by
  have hinside : sideOf side (askedSide side a) ≤ side := sideOf_le side _
  have hcast : (sideOf side (askedSide side a) : ℚ) ≤ side := by exact_mod_cast hinside
  have hrounded := lt_sideOf_add_two (askedSide_le side a)
  have hmin := lt_of_le_of_lt (min_le_askedSide side a) hrounded
  have hraised : askedSide side (sideOf side (askedSide side a)) ≤
      max (sideOf side (askedSide side a) : ℚ) (min minSize (side : ℚ)) := min_le_left _ _
  refine (sideOf_eq_iff (two_dvd_sideOf side _) (two_le_sideOf hside _) hinside ?_).mpr
    (Or.inr (le_askedSide hcast))
  exact lt_of_le_of_lt hraised (max_lt (by linarith) hmin)

end Moved

/-- A box that is wanted somewhere else. -/
def WholeBox.at (box : WholeBox) (x y : ℚ) : RequestedBox := ⟨x, y, box.w, box.h⟩

/-- Neither side is longer than the shape lets it be beside the other one, where a side below the
minimum counts as the minimum and a side of two pixels can shrink no further. -/
def KeepsShape (width height : ℕ) (ratio : Option ℚ) (box : WholeBox) : Prop :=
  ∀ shape ∈ ratio, (box.w = 2 ∨ (box.w : ℚ) ≤ askedSide height box.h * shape) ∧
    (box.h = 2 ∨ box.h * shape ≤ askedSide width box.w)

/-- Of a box with no side below the minimum: it has the shape exactly. -/
theorem keepsShape_iff_of_minSize {ratio : ℚ} {box : WholeBox} (hfits : box.Fits width height)
    (hw : minSize ≤ box.w) (hh : minSize ≤ box.h) :
    KeepsShape width height (some ratio) box ↔ (box.w : ℚ) = box.h * ratio := by
  obtain ⟨hacross, hdown⟩ := hfits
  have hwide : ((box.w : ℤ) : ℚ) ≤ width := by
    have hinside := hacross.inside
    have hoffset := hacross.offset_nonneg
    exact_mod_cast (by omega : box.w ≤ width)
  have htall : ((box.h : ℤ) : ℚ) ≤ height := by
    have hinside := hdown.inside
    have hoffset := hdown.offset_nonneg
    exact_mod_cast (by omega : box.h ≤ height)
  have hasked {side : ℕ} {length : ℤ} (hlength : (length : ℚ) ≤ side)
      (hmin : minSize ≤ (length : ℚ)) : askedSide side length = length :=
    le_antisymm ((askedSide_le_iff hlength).mpr ⟨le_rfl, (min_le_left _ _).trans hmin⟩)
      (le_askedSide hlength)
  have hnotTwo {length : ℤ} (hmin : minSize ≤ (length : ℚ)) : length ≠ 2 := by
    rintro rfl
    norm_num [minSize] at hmin
  simp only [KeepsShape, Option.mem_def, Option.some.injEq, forall_eq', hasked hwide hw,
    hasked htall hh, hnotTwo hw, hnotTwo hh, false_or]
  exact le_antisymm_iff.symm

/-- A box that `legal` answered with under the chosen shape keeps its size wherever it is moved
to, exactly when neither of its sides is too long for the other. -/
theorem moved_size_iff {width height : ℕ} (hwidth : 2 ≤ width) (hheight : 2 ≤ height)
    (label : String) (requested : RequestedBox) (anchor : BoxAnchor) (x y : ℚ) :
    let box := legalBox width height (ratioOf label) requested anchor
    let next := legalBox width height (ratioOf label) (box.at x y) ⟨none, none⟩
    next.w = box.w ∧ next.h = box.h ↔ KeepsShape width height (ratioOf label) box := by
  dsimp only
  cases hratio : ratioOf label with
  | none =>
      have hfree : KeepsShape width height none (legalBox width height none requested anchor) :=
        fun _ hnone => absurd hnone (Option.not_mem_none _)
      refine iff_of_true ⟨?_, ?_⟩ hfree
      · exact sideOf_asked_again hwidth requested.w
      · exact sideOf_asked_again hheight requested.h
  | some ratio =>
      have hpos := ratioOf_pos hratio
      obtain ⟨hbw, hbh⟩ := legalBox_size width hpos (by omega : 0 < height) requested
        anchor
      have hw := sideOf_moved_iff hwidth hheight hpos requested.w requested.h
      have hh := sideOf_moved_iff hheight hwidth (inv_pos.mpr hpos) requested.h requested.w
      dsimp only at hw hh
      rw [← hbw, ← hbh] at hw
      rw [inv_inv, ← hbw, ← hbh, le_mul_inv_iff₀ hpos] at hh
      obtain ⟨hnw, hnh⟩ := legalBox_size width hpos (by omega : 0 < height)
        ((legalBox width height (some ratio) requested anchor).at x y) ⟨none, none⟩
      rw [hnw, hnh]
      simp only [KeepsShape, Option.mem_def, Option.some.injEq, forall_eq']
      exact and_congr hw hh

/-- Full HD, a wide box of a hundred pixels: it is answered four pixels short of the shape, and
the next arrow key takes two of its width. -/
theorem moved_box_shrinks :
    let box := legalBox 1920 1080 (ratioOf "16:9") ⟨0, 0, 100, 100⟩ ⟨none, none⟩
    let next := legalBox 1920 1080 (ratioOf "16:9") (box.at 2 0) ⟨none, none⟩
    (box.w = 100 ∧ box.h = 56) ∧ next.w = 98 ∧ next.h = 56 := by
  decide +kernel

/-- Sixty-four by thirty-six is the shape exactly. -/
theorem moved_size_full_hd :
    let box := legalBox 1920 1080 (ratioOf "16:9") ⟨0, 0, 64, 36⟩ ⟨none, none⟩
    let next := legalBox 1920 1080 (ratioOf "16:9") (box.at 10 7) ⟨none, none⟩
    next.w = box.w ∧ next.h = box.h ↔ KeepsShape 1920 1080 (ratioOf "16:9") box :=
  moved_size_iff (by decide) (by decide) "16:9" ⟨0, 0, 64, 36⟩ ⟨none, none⟩ 10 7

/-- `onAspectChange`: the old box in the new shape, centred on where it was. -/
def aspectChanged (width height : ℕ) (ratio : Option ℚ) (box : WholeBox) : WholeBox :=
  let next := legalBox width height ratio (box.at box.x box.y) ⟨none, none⟩
  legalBox width height ratio
    (next.at (box.x + (box.w - next.w) / 2) (box.y + (box.h - next.h) / 2)) ⟨none, none⟩

/-- The centring is a move like any other. -/
theorem aspectChanged_size_iff (hwidth : 2 ≤ width) (hheight : 2 ≤ height) (label : String)
    (box : WholeBox) :
    let first := legalBox width height (ratioOf label) (box.at box.x box.y) ⟨none, none⟩
    let next := aspectChanged width height (ratioOf label) box
    next.w = first.w ∧ next.h = first.h ↔ KeepsShape width height (ratioOf label) first :=
  moved_size_iff hwidth hheight label _ _ _ _

/-! ## The minimum -/

/-- The smaller of the minimum and the frame's side, to the even pixel. -/
def leastSide (side : ℕ) : ℤ := evenOffset (min minSize side)

theorem leastSide_le (side : ℕ) : (leastSide side : ℚ) ≤ min minSize side := by
  have hmin : (0 : ℚ) ≤ min minSize (side : ℚ) :=
    le_min (by norm_num [minSize]) (Nat.cast_nonneg side)
  have hfloor : (⌊min minSize (side : ℚ) / 2⌋ : ℚ) ≤ min minSize side / 2 := Int.floor_le _
  unfold leastSide evenOffset
  push_cast
  exact max_le hmin (by linarith)

/-- The frame has a box of this shape with no side below the minimum. -/
def HoldsShape (width height : ℕ) (ratio : Option ℚ) : Prop :=
  ∀ shape ∈ ratio, ∃ w h : ℚ, w = h * shape ∧
    min minSize width ≤ w ∧ w ≤ width ∧ min minSize height ≤ h ∧ h ≤ height

/-- What the shape leaves of each side, measured on the other one as it is asked for, is not below
the minimum; two pixels are left of any side. -/
def KeepsMinimum (width height : ℕ) (ratio : Option ℚ) (requested : RequestedBox) : Prop :=
  ∀ shape ∈ ratio,
    (leastSide width ≤ 2 ∨ (leastSide width : ℚ) ≤ askedSide height requested.h * shape) ∧
      (leastSide height ≤ 2 ∨ leastSide height * shape ≤ askedSide width requested.w)

theorem leastSide_le_sideOf_iff (side : ℕ) (a value : ℚ) :
    leastSide side ≤ sideOf side (min (askedSide side a) value) ↔
      leastSide side ≤ 2 ∨ (leastSide side : ℚ) ≤ value := by
  have hleast := leastSide_le side
  have hown : (leastSide side : ℚ) ≤ askedSide side a := hleast.trans (min_le_askedSide side a)
  have hinside : leastSide side ≤ side := by exact_mod_cast hleast.trans (min_le_right _ _)
  have heven : 2 ∣ leastSide side := two_dvd_evenOffset _
  rw [le_sideOf_iff heven, le_min_iff, and_iff_right hown, and_iff_left hinside]

/-- Whatever box is asked for: neither side of the answer is below the minimum, exactly when the
shape did not have to shrink one below it. -/
theorem minimum_kept_iff {width height : ℕ} (hheight : 0 < height) (label : String)
    (requested : RequestedBox) (anchor : BoxAnchor) :
    let next := legalBox width height (ratioOf label) requested anchor
    leastSide width ≤ next.w ∧ leastSide height ≤ next.h ↔
      KeepsMinimum width height (ratioOf label) requested := by
  dsimp only
  cases hratio : ratioOf label with
  | none =>
      have hfree : KeepsMinimum width height none requested :=
        fun _ hnone => absurd hnone (Option.not_mem_none _)
      have hside (side : ℕ) (a : ℚ) : leastSide side ≤ sideOf side (askedSide side a) := by
        have hown := (leastSide_le side).trans (min_le_askedSide side a)
        rw [← min_self (askedSide side a)]
        exact (leastSide_le_sideOf_iff side a _).mpr (Or.inr hown)
      exact iff_of_true ⟨hside width requested.w, hside height requested.h⟩ hfree
  | some ratio =>
      have hpos := ratioOf_pos hratio
      obtain ⟨hw, hh⟩ := legalBox_size width hpos hheight requested anchor
      rw [hw, hh, leastSide_le_sideOf_iff, leastSide_le_sideOf_iff, le_mul_inv_iff₀ hpos]
      simp only [KeepsMinimum, Option.mem_def, Option.some.injEq, forall_eq']

/-- A wide box asked for at the minimum: full HD holds the shape there, and the answer is
eighteen pixels high. -/
theorem wide_box_below_minimum :
    HoldsShape 1920 1080 (ratioOf "16:9") ∧
      let next := legalBox 1920 1080 (ratioOf "16:9") ⟨0, 0, 32, 32⟩ ⟨none, none⟩
      next.w = 32 ∧ next.h = 18 ∧ ¬leastSide 1080 ≤ next.h := by
  refine ⟨?_, by decide +kernel⟩
  intro ratio hratio
  obtain rfl : 16 / 9 = ratio := Option.some.inj hratio
  exact ⟨64, 36, by norm_num [minSize]⟩

theorem minimum_kept_full_hd :
    let next := legalBox 1920 1080 (ratioOf "16:9") ⟨0, 0, 64, 36⟩ ⟨none, none⟩
    leastSide 1920 ≤ next.w ∧ leastSide 1080 ≤ next.h ↔
      KeepsMinimum 1920 1080 (ratioOf "16:9") ⟨0, 0, 64, 36⟩ :=
  minimum_kept_iff (by decide) "16:9" ⟨0, 0, 64, 36⟩ ⟨none, none⟩

end Frontend
end MediaPlayer
