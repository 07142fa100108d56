import MediaPlayer.Frontend.EditAnswers
import MediaPlayer.Worker.EditValidation

/-!
# The crop box is one the worker takes

A side of the box is rounded down to an even length before its corner is placed, and the corner
is clamped to what that length leaves of the frame.  Rounding the corner down afterwards can
only move it towards the edge it is measured from.

* `FitsSide` — one side of a box in one side of the frame.
* `WholeBox.Fits` — both; `legal` fits whatever is asked of it.
* `legal_box_accepted` — and `validate_crop` takes it, of every frame that has two pixels by two.
* `sent_box_accepted_iff` — so of the boxes a panel sends it refuses none but those of a smaller
  frame.
-/

namespace MediaPlayer
namespace Frontend

open Library Models Services Worker

/-! ## Rounding to even numbers -/

theorem two_dvd_even (value : ℚ) : 2 ∣ even value := by
  unfold even
  omega

theorem two_dvd_evenOffset (value : ℚ) : 2 ∣ evenOffset value := by
  unfold evenOffset
  omega

/-- An offset is rounded down, so it stays below what it was clamped to. -/
theorem evenOffset_le {value : ℚ} {high : ℤ} (hhigh : 0 ≤ high) (hvalue : value ≤ high) :
    evenOffset value ≤ high := by
  have hfloor : ⌊value / 2⌋ * 2 ≤ high := by
    have hhalf : (⌊value / 2⌋ : ℚ) ≤ value / 2 := Int.floor_le (value / 2)
    have hcast : ((⌊value / 2⌋ * 2 : ℤ) : ℚ) ≤ high := by
      push_cast
      linarith
    exact Int.cast_le.mp hcast
  exact max_le hhigh hfloor

/-! ## One side -/

/-- A stretch of even pixels inside a side of the frame. -/
structure FitsSide (side offset length : ℤ) : Prop where
  even_offset : Even offset
  even_length : Even length
  offset_nonneg : 0 ≤ offset
  two_le_length : 2 ≤ length
  inside : offset + length ≤ side

/-- The length that is kept of a side. -/
theorem even_min (value : ℚ) {side : ℤ} (hside : 2 ≤ side) :
    2 ∣ min (even value) (side - side % 2) ∧ 2 ≤ min (even value) (side - side % 2) ∧
      min (even value) (side - side % 2) ≤ side := by
  have hdvd := two_dvd_even value
  have hge : 2 ≤ even value := le_max_left 2 _
  omega

theorem fitsSide_placed (offset : ℚ) {side length : ℤ} (heven : 2 ∣ length)
    (hpos : 2 ≤ length) (hle : length ≤ side) :
    FitsSide side (evenOffset (clamp offset 0 (side - length))) length where
  even_offset := even_iff_two_dvd.mpr (two_dvd_evenOffset _)
  even_length := even_iff_two_dvd.mpr heven
  offset_nonneg := le_max_left 0 _
  two_le_length := hpos
  inside := by
    have hroom : (0 : ℚ) ≤ ((side - length : ℤ) : ℚ) := by
      exact_mod_cast sub_nonneg.mpr hle
    have hclamp : clamp offset 0 (side - length) ≤ ((side - length : ℤ) : ℚ) := by
      push_cast at hroom ⊢
      exact (EditPanel.clamp_mem offset hroom).2
    have hplaced := evenOffset_le (sub_nonneg.mpr hle) hclamp
    omega

/-! ## The box -/

/-- An even picture inside the frame. -/
def WholeBox.Fits (width height : ℕ) (box : WholeBox) : Prop :=
  FitsSide width box.x box.w ∧ FitsSide height box.y box.h

variable {width height : ℕ}

/-- Whatever length a shape asks for and wherever a corner is wanted, the side fits. -/
theorem fitsSide_of_request {side : ℕ} (hside : 2 ≤ side) (length offset : ℚ) :
    FitsSide side
      (evenOffset (clamp offset 0
        ((side : ℚ) - ((min (even length) ((side : ℤ) - side % 2) : ℤ) : ℚ))))
      (min (even length) ((side : ℤ) - side % 2)) := by
  have hcast : (2 : ℤ) ≤ side := by exact_mod_cast hside
  obtain ⟨heven, hpos, hle⟩ := even_min length hcast
  have hfits := fitsSide_placed offset heven hpos hle
  rw [Int.cast_natCast] at hfits
  exact hfits

theorem legalBox_fits (hwidth : 2 ≤ width) (hheight : 2 ≤ height) (ratio : Option ℚ)
    (box : RequestedBox) (anchor : BoxAnchor) :
    (legalBox width height ratio box anchor).Fits width height := by
  unfold legalBox
  exact ⟨fitsSide_of_request hwidth _ _, fitsSide_of_request hheight _ _⟩

/-- A box that fits the frame is one that `validate_crop` takes. -/
theorem WholeBox.Fits.validateCrop_ok {box : WholeBox} (hfits : box.Fits width height) :
    validateCrop box.x box.y box.w box.h (some (width : ℤ)) (some (height : ℤ)) = .ok () := by
  obtain ⟨hacross, hdown⟩ := hfits
  refine validateCrop_ok_iff.mpr ⟨⟨hacross.offset_nonneg, hdown.offset_nonneg⟩, ⟨?_, ?_⟩,
    hacross.inside, hdown.inside⟩
  · exact lt_of_lt_of_le two_pos hacross.two_le_length
  · exact lt_of_lt_of_le two_pos hdown.two_le_length

/-- The four numbers as integers. -/
def CropSelection.whole (box : CropSelection) : WholeBox where
  x := box.x
  y := box.y
  w := box.w
  h := box.h

/-- Nothing is lost of a box that fits when it is reported. -/
theorem whole_legal {ratio : Option ℚ} {box : RequestedBox} {anchor : BoxAnchor}
    (hfits : (legalBox width height ratio box anchor).Fits width height) :
    (legal width height ratio box anchor).whole = legalBox width height ratio box anchor := by
  obtain ⟨hacross, hdown⟩ := hfits
  have hw := hacross.two_le_length
  have hh := hdown.two_le_length
  simp only [legal, CropSelection.whole]
  rw [Int.toNat_of_nonneg hacross.offset_nonneg, Int.toNat_of_nonneg hdown.offset_nonneg,
    Int.toNat_of_nonneg (by omega), Int.toNat_of_nonneg (by omega)]

/-- Whatever box is asked of a frame, with whatever shape and whichever corner kept, `legal`
answers with an even picture inside the frame, reports it as it is, and `validate_crop` takes
it. -/
theorem legal_box_accepted {width height : ℕ} (hwidth : 2 ≤ width) (hheight : 2 ≤ height)
    (ratio : Option ℚ) (box : RequestedBox) (anchor : BoxAnchor) :
    let next := legalBox width height ratio box anchor
    next.Fits width height ∧ (legal width height ratio box anchor).whole = next ∧
      validateCrop next.x next.y next.w next.h (some (width : ℤ)) (some (height : ℤ)) = .ok () := by
  have hfits := legalBox_fits hwidth hheight ratio box anchor
  exact ⟨hfits, whole_legal hfits, hfits.validateCrop_ok⟩

/-- A box of five by five of a frame of seven by nine, drawn past the left edge. -/
theorem legal_box_accepted_odd :
    let next := legalBox 7 9 (some 1) ⟨-3, 7, 5, 5⟩ ⟨none, none⟩
    next.Fits 7 9 ∧ (legal 7 9 (some 1) ⟨-3, 7, 5, 5⟩ ⟨none, none⟩).whole = next ∧
      validateCrop next.x next.y next.w next.h (some 7) (some 9) = .ok () :=
  legal_box_accepted (by omega) (by omega) (some 1) ⟨-3, 7, 5, 5⟩ ⟨none, none⟩

/-! ## What a panel sends -/

namespace EditPanel

variable {panel : EditPanel} {options : ScaleOptions}

/-- Of the boxes a panel sends `validate_crop` refuses none but those of a frame that has not
got two pixels by two. -/
theorem sent_box_accepted_iff (hreach : (panelSystem width height options).Reachable panel)
    {box : CropSelection} (hbox : box ∈ panel.sentBox) :
    validateCrop box.x box.y box.w box.h (some (width : ℤ)) (some (height : ℤ)) = .ok () ↔
      2 ≤ width ∧ 2 ≤ height := by
  have hsound := Sound.of_reachable hreach
  constructor
  · intro hok
    obtain ⟨-, ⟨hw, hh⟩, -⟩ := validateCrop_ok_iff.mp hok
    exact (hsound.box_pos hbox).mp ⟨by omega, by omega⟩
  · rintro ⟨hwidth, hheight⟩
    obtain ⟨-, hselected⟩ := Option.ite_none_right_eq_some.mp hbox
    obtain ⟨ratio, requested, anchor, rfl⟩ := hsound.box box hselected
    have hfits := legalBox_fits hwidth hheight ratio requested anchor
    rw [← whole_legal hfits] at hfits
    exact hfits.validateCrop_ok

end EditPanel

end Frontend
end MediaPlayer
