import MediaPlayer.Api.MultipartUploads
import MediaPlayer.Library.Slices
import Mathlib.Algebra.BigOperators.Ring.Finset
import Mathlib.Data.List.Forall2

/-!
# The parts of a complete upload

* `PartsExact` — the manifest and the store have the same parts, each once, none missing, and
  each of the size it must have.
* `validateParts_eq_pure_iff` — `validate_parts` accepts exactly these.
* `expectedPartSize_eq` — the size a part must have is the width of its slice.
-/

namespace MediaPlayer
namespace Api

open Library Models Schemas Services

/-- The client and the store name the parts `1`, …, `part_count`, in whatever order, under the
same ETags, and every stored part has its size. -/
structure PartsExact (upload : UploadSession) (parts : List UploadedPart)
    (actual : List StoredPart) : Prop where
  named : (parts.map (·.n)).Perm (partNumbersUpTo upload.partCount.toNat)
  stored : (actual.map (·.n)).Perm (partNumbersUpTo upload.partCount.toNat)
  etags : ∀ supplied ∈ parts, ∀ part ∈ actual, supplied.n = part.n → supplied.etag = part.etag
  sizes : ∀ part ∈ actual, part.size = expectedPartSize upload part.n

/-! ## Part numbers -/

theorem partNumbersUpTo_eq (length : ℕ) :
    partNumbersUpTo length = (List.range length).map fun i : ℕ => (i : ℤ) + 1 := by
  have hcast : (do let i ← List.range length; pure (i : ℤ)) =
      (List.range length).map fun i : ℕ => (i : ℤ) := List.map_eq_flatMap.symm
  unfold partNumbersUpTo
  rw [hcast, List.map_map]
  rfl

theorem partNumbersUpTo_length (length : ℕ) : (partNumbersUpTo length).length = length := by
  rw [partNumbersUpTo_eq, List.length_map, List.length_range]

theorem partNumbersUpTo_pairwise (length : ℕ) : (partNumbersUpTo length).Pairwise (· < ·) := by
  rw [partNumbersUpTo_eq, List.pairwise_map]
  refine List.pairwise_lt_range.imp fun {i j} hlt => ?_
  omega

/-- Numbers that are all there sort to `1`, `2`, …. -/
theorem insertionSort_eq_partNumbersUpTo_iff {numbers : List ℤ} {length : ℕ} :
    numbers.insertionSort (· ≤ ·) = partNumbersUpTo length ↔
      numbers.Perm (partNumbersUpTo length) := by
  constructor
  · intro hsorted
    rw [← hsorted]
    exact (List.perm_insertionSort _ _).symm
  · intro hperm
    refine List.Perm.eq_of_pairwise' (r := (· ≤ ·)) (List.pairwise_insertionSort _ _) ?_
      ((List.perm_insertionSort _ _).trans hperm)
    exact (partNumbersUpTo_pairwise length).imp fun hlt => Int.le_of_lt hlt

/-- What `validate_parts` runs over on the side of the store. -/
def storedParts (actual : List StoredPart) : List StoredPart :=
  actual.insertionSort fun a b => a.n ≤ b.n

theorem storedParts_perm (actual : List StoredPart) : (storedParts actual).Perm actual :=
  List.perm_insertionSort _ _

theorem storedParts_numbers (actual : List StoredPart) :
    (storedParts actual).map (·.n) = (actual.map (·.n)).insertionSort (· ≤ ·) :=
  List.map_insertionSort (s := (· ≤ ·)) _ _ _ fun _ _ _ _ => Iff.rfl

theorem sortedParts_perm (parts : List UploadedPart) : (sortedParts parts).Perm parts :=
  List.perm_insertionSort _ _

theorem sortedParts_numbers (parts : List UploadedPart) :
    (sortedParts parts).map (·.n) = (parts.map (·.n)).insertionSort (· ≤ ·) :=
  List.map_insertionSort (s := (· ≤ ·)) _ _ _ fun _ _ _ _ => Iff.rfl

/-! ## The check -/

variable {upload : UploadSession} {parts : List UploadedPart} {actual : List StoredPart}

/-- An entry of the manifest and the part it is compared with. -/
structure SamePart (due : ℤ → ℤ) (supplied : UploadedPart) (part : StoredPart) : Prop where
  number : supplied.n = part.n
  etag : supplied.etag = part.etag
  size : part.size = due part.n

theorem SamePart.partner {manifest : List UploadedPart} {stored : List StoredPart}
    {due : ℤ → ℤ}
    (hpairs : List.Forall₂ (SamePart due) manifest stored) {part : StoredPart}
    (hpart : part ∈ stored) : ∃ supplied ∈ manifest, SamePart due supplied part := by
  induction hpairs with
  | nil => exact absurd hpart List.not_mem_nil
  | @cons supplied _ manifest _ hsame _ ih =>
      obtain rfl | hrest := List.mem_cons.mp hpart
      · exact ⟨supplied, List.mem_cons_self, hsame⟩
      · obtain ⟨other, hother, hpartner⟩ := ih hrest
        exact ⟨other, List.mem_cons_of_mem _ hother, hpartner⟩

/-- A complete manifest goes with what the store lists exactly if the two have the same
parts. -/
theorem partsExact_iff_forall₂
    (hnamed : (parts.map (·.n)).Perm (partNumbersUpTo upload.partCount.toNat)) :
    List.Forall₂ (SamePart (expectedPartSize upload)) (sortedParts parts) (storedParts actual) ↔
      PartsExact upload parts actual := by
  have hsupplied : (sortedParts parts).map (·.n) = partNumbersUpTo upload.partCount.toNat := by
    rw [sortedParts_numbers]
    exact insertionSort_eq_partNumbersUpTo_iff.mpr hnamed
  constructor
  · intro hpairs
    have hnumbers : (sortedParts parts).map (·.n) = (storedParts actual).map (·.n) := by
      rw [← List.forall₂_eq_eq_eq, List.forall₂_map_left_iff, List.forall₂_map_right_iff]
      exact hpairs.imp fun _ _ hsame => hsame.number
    have hpartner : ∀ part ∈ actual, ∃ supplied ∈ sortedParts parts,
        SamePart (expectedPartSize upload) supplied part := fun part hpart =>
      SamePart.partner hpairs ((storedParts_perm actual).mem_iff.mpr hpart)
    -- No two entries of the manifest have one number.
    have hnodup : ((sortedParts parts).map (·.n)).Nodup := by
      rw [hsupplied]
      exact (partNumbersUpTo_pairwise _).imp fun hlt => Int.ne_of_lt hlt
    refine ⟨hnamed, ?_, ?_, ?_⟩
    · rw [hsupplied, storedParts_numbers] at hnumbers
      exact insertionSort_eq_partNumbersUpTo_iff.mp hnumbers.symm
    · intro supplied hmem part hpart hnumber
      obtain ⟨other, hother, hsame⟩ := hpartner part hpart
      have hmine := (sortedParts_perm parts).mem_iff.mpr hmem
      rw [List.inj_on_of_nodup_map hnodup hmine hother (hnumber.trans hsame.number.symm)]
      exact hsame.etag
    · intro part hpart
      obtain ⟨_, -, hsame⟩ := hpartner part hpart
      exact hsame.size
  · intro hexact
    have hstored : (storedParts actual).map (·.n) = partNumbersUpTo upload.partCount.toNat := by
      rw [storedParts_numbers]
      exact insertionSort_eq_partNumbersUpTo_iff.mpr hexact.stored
    -- Both sides are sorted by the same numbers, so the pairs agree in them.
    have hnumbers : List.Forall₂ (fun supplied part => supplied.n = part.n) (sortedParts parts)
        (storedParts actual) := by
      have hsame := hsupplied.trans hstored.symm
      rw [← List.forall₂_eq_eq_eq, List.forall₂_map_left_iff, List.forall₂_map_right_iff] at hsame
      exact hsame
    obtain ⟨hlength, hsame⟩ := List.forall₂_iff_zip.mp hnumbers
    refine List.forall₂_iff_zip.mpr ⟨hlength, fun {supplied part} hpair => ?_⟩
    have hmem := List.of_mem_zip hpair
    have hpart := (storedParts_perm actual).mem_iff.mp hmem.2
    have hmine := (sortedParts_perm parts).mem_iff.mp hmem.1
    exact ⟨hsame hpair, hexact.etags supplied hmine part hpart (hsame hpair),
      hexact.sizes part hpart⟩

/-- The comparison of `validate_parts`, with both sides of the right length. -/
theorem partsMatch_iff {manifest : List UploadedPart} (hmanifest : upload.manifest = some manifest)
    (hlength : manifest.length = actual.length) :
    partsMatch upload actual = true ↔
      List.Forall₂ (SamePart (expectedPartSize upload)) manifest (storedParts actual) := by
  have hsorted : manifest.length = (storedParts actual).length := by
    rw [hlength, (storedParts_perm actual).length_eq]
  rw [List.forall₂_iff_zip]
  unfold partsMatch
  rw [hmanifest, Option.getD_some, List.all_eq_true]
  constructor
  · intro hall
    refine ⟨hsorted, fun {supplied part} hpair => ?_⟩
    obtain ⟨hnumber, hetag, hsize⟩ := of_decide_eq_true (hall (supplied, part) hpair)
    exact ⟨hnumber, hetag, hsize⟩
  · rintro ⟨-, hsame⟩ ⟨supplied, part⟩ hpair
    exact decide_eq_true ⟨(hsame hpair).number, (hsame hpair).etag, (hsame hpair).size⟩

theorem throw_ne_pure (error : RequestError) : (throw error : Span Unit) ≠ pure () := by
  intro heq
  exact absurd (congrFun heq ⟨{}, [], [], []⟩) nofun

theorem partCount_toNat (upload : UploadSession) :
    (upload.partCount.toNat : ℤ) = upload.partCount := by
  have hsize := upload.ckUploadSize
  refine Int.toNat_of_nonneg (Int.ediv_nonneg ?_ (Int.le_of_lt hsize.2))
  omega

/-- `validate_parts` accepts a manifest `CompleteUpload` lets through exactly if the store has
the same parts, none missing and each with its size. -/
theorem validateParts_eq_pure_iff (request : CompleteUpload) :
    validateParts { upload with manifest := some request.manifest } actual = pure () ↔
      PartsExact upload request.parts actual := by
  have hcount := partCount_toNat upload
  have hparts : request.manifest.length = request.parts.length :=
    (sortedParts_perm request.parts).length_eq
  have hnumbers := insertionSort_eq_partNumbersUpTo_iff.mp request.contiguousParts
  unfold validateParts
  rw [Option.getD_some]
  split
  · rename_i hlength
    refine iff_of_false (throw_ne_pure _) fun hexact => ?_
    have hnamed := hexact.named.length_eq
    have hstored := hexact.stored.length_eq
    rw [partNumbersUpTo_length, List.length_map] at hnamed hstored
    replace hlength : (actual.length : ℤ) ≠ upload.partCount ∨
      (request.manifest.length : ℤ) ≠ upload.partCount := hlength
    omega
  · rename_i hlength
    replace hlength : ¬((actual.length : ℤ) ≠ upload.partCount ∨
      (request.manifest.length : ℤ) ≠ upload.partCount) := hlength
    have hnamed : (request.parts.map (·.n)).Perm (partNumbersUpTo upload.partCount.toNat) := by
      have hall : request.parts.length = upload.partCount.toNat := by omega
      rwa [hall] at hnumbers
    let frozen : UploadSession := { upload with manifest := some request.manifest }
    have hmanifest : frozen.manifest = some request.manifest := rfl
    have hmatch := partsMatch_iff hmanifest (show request.manifest.length = actual.length by omega)
    -- The sizes do not depend on the manifest.
    refine Iff.trans ?_ (hmatch.trans (partsExact_iff_forall₂ hnamed))
    split
    · rename_i hmatches
      exact iff_of_true rfl hmatches
    · rename_i hdiffers
      exact iff_of_false (throw_ne_pure _) hdiffers

/-! ## Sizes -/

theorem size_toNat (upload : UploadSession) : (upload.size.toNat : ℤ) = upload.size :=
  Int.toNat_of_nonneg (Int.le_of_lt upload.ckUploadSize.1)

theorem partSize_toNat (upload : UploadSession) : (upload.partSize.toNat : ℤ) = upload.partSize :=
  Int.toNat_of_nonneg (Int.le_of_lt upload.ckUploadSize.2)

theorem partSize_toNat_pos (upload : UploadSession) : 0 < upload.partSize.toNat :=
  Int.pos_iff_toNat_pos.mp upload.ckUploadSize.2

/-- `part_count` counts the slices. -/
theorem partCount_eq (upload : UploadSession) :
    upload.partCount.toNat = cutCount upload.partSize.toNat upload.size.toNat := by
  have hpart := partSize_toNat_pos upload
  have hsum : upload.size + upload.partSize - 1 =
      ((upload.size.toNat + upload.partSize.toNat - 1 : ℕ) : ℤ) := by
    have hsize := size_toNat upload
    have hwidth := partSize_toNat upload
    omega
  unfold UploadSession.partCount cutCount
  rw [hsum, ← partSize_toNat upload, Int.toNat_natCast, ← Int.natCast_ediv, Int.toNat_natCast]

/-- The size part `i + 1` must have is the width of its slice. -/
theorem expectedPartSize_eq {i : ℕ} (hi : i < upload.partCount.toNat) :
    expectedPartSize upload (i + 1) =
      ((cut upload.partSize.toNat upload.size.toNat i).2 -
        (cut upload.partSize.toNat upload.size.toNat i).1 : ℕ) := by
  rw [partCount_eq, lt_cutCount_iff (partSize_toNat_pos upload)] at hi
  have hstart : ((i * upload.partSize.toNat : ℕ) : ℤ) = i * upload.partSize := by
    rw [Nat.cast_mul, partSize_toNat]
  have hsize := size_toNat upload
  have hwidth := partSize_toNat upload
  unfold expectedPartSize cut
  rw [Int.add_sub_cancel, ← hstart]
  omega

/-- The sizes of complete parts add up. -/
theorem PartsExact.sum_sizes (hexact : PartsExact upload parts actual) :
    (actual.map (·.size)).sum = upload.size := by
  have hwidths := (tiles_cuts (partSize_toNat_pos upload) upload.size.toNat).sum_widths
  calc (actual.map (·.size)).sum
      = ((actual.map (·.n)).map (expectedPartSize upload)).sum := by
        rw [List.map_map]
        exact congrArg List.sum (List.map_congr_left hexact.sizes)
    _ = ((partNumbersUpTo upload.partCount.toNat).map (expectedPartSize upload)).sum :=
        (hexact.stored.map _).sum_eq
    _ = (((cuts upload.partSize.toNat upload.size.toNat).map fun slice =>
          slice.2 - slice.1).map fun width : ℕ => (width : ℤ)).sum := by
        unfold cuts
        rw [partNumbersUpTo_eq, ← partCount_eq, List.map_map, List.map_map, List.map_map]
        refine congrArg List.sum (List.map_congr_left fun i hi => ?_)
        exact expectedPartSize_eq (List.mem_range.mp hi)
    _ = (upload.size.toNat : ℤ) := by
        rw [← Nat.cast_list_sum]
        omega
    _ = upload.size := size_toNat upload

end Api
end MediaPlayer
