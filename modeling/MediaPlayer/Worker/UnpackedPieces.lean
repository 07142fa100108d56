import MediaPlayer.Worker.JoinSteps

/-!
# The pieces unpacked

The first half of `encode`: after the coordinator's own pieces are packed and every piece is
unpacked, each piece lies below its own directory and no archive is left.

* `encodeAll_archive`, `encodeAll_sources` — what the coordinator's pieces leave.
* `unpackPieces_eq` — what the loop over all pieces leaves.
-/

namespace MediaPlayer
namespace Worker

open Library

/-! ## The coordinator's own pieces -/

theorem pack_extract {work : WorkTree} {directory : List String}
    (hempty : ∀ path, work (directory ++ path) = none) (files : FileTree String) :
    pack (work.extract directory (asWorkFiles files)) directory = files := by
  funext path
  unfold pack readText
  rw [FileTree.extract_append, hempty path, Option.or_none, asWorkFiles]
  cases files path <;> rfl

/-- A piece is packed with what FFmpeg wrote of it, whatever was there. -/
theorem encodePiece_archive (encoded : ℕ → FileTree String) (work : WorkTree) (index : ℕ) :
    encodePiece encoded work index (archivePath index) = some (.archive (encoded index)) := by
  have hpack : pack ((work.removeTree (encodeDir index)).extract (encodeDir index)
      (asWorkFiles (encoded index))) (encodeDir index) = encoded index :=
    pack_extract (fun path => FileTree.removeTree_below (List.prefix_append ..)) _
  unfold encodePiece
  rw [FileTree.removeTree_of_not_below (not_encodeDir_prefix_archivePath index index),
    FileTree.write_self, hpack]

theorem encodePiece_below {encoded : ℕ → FileTree String} {work : WorkTree} {index : ℕ}
    {path : List String} (hbelow : encodeDir index <+: path) :
    encodePiece encoded work index path = none :=
  FileTree.removeTree_below hbelow

theorem encodePiece_of_ne {encoded : ℕ → FileTree String} {work : WorkTree} {index : ℕ}
    {path : List String} (harchive : path ≠ archivePath index)
    (hbelow : ¬encodeDir index <+: path) : encodePiece encoded work index path = work path := by
  unfold encodePiece
  rw [FileTree.removeTree_of_not_below hbelow, FileTree.write_of_ne harchive,
    FileTree.extract_of_not_below hbelow, FileTree.removeTree_of_not_below hbelow]

section EncodeAll

variable {encoded : ℕ → FileTree String} {mine : List ℕ} {work : WorkTree}

theorem encodeAll_archive {index : ℕ} (hindex : index ∈ mine) :
    mine.foldl (encodePiece encoded) work (archivePath index) =
      some (.archive (encoded index)) := by
  induction mine using List.reverseRecOn with
  | nil => exact absurd hindex (List.not_mem_nil)
  | append_singleton mine last ih =>
      rw [List.foldl_append, List.foldl_cons, List.foldl_nil]
      by_cases hlast : index = last
      · rw [hlast]
        exact encodePiece_archive ..
      · have hmine : index ∈ mine := by simpa [hlast] using hindex
        rw [encodePiece_of_ne (fun heq => hlast (archivePath_inj heq))
          (not_encodeDir_prefix_archivePath last index)]
        exact ih hmine

/-- What is neither an archive nor below a directory that is packed stays. -/
theorem encodeAll_kept {path : List String}
    (hpath : ∀ index, path ≠ archivePath index ∧ ¬encodeDir index <+: path) :
    mine.foldl (encodePiece encoded) work path = work path := by
  induction mine using List.reverseRecOn with
  | nil => rfl
  | append_singleton mine last ih =>
      rw [List.foldl_append, List.foldl_cons, List.foldl_nil,
        encodePiece_of_ne (hpath last).1 (hpath last).2, ih]

/-- Nothing but the archives is left of them. -/
theorem encodeAll_sources {path : List String}
    (hpath : mine.foldl (encodePiece encoded) work path ≠ none) :
    (∃ index ∈ mine, path = archivePath index) ∨ work path ≠ none := by
  induction mine using List.reverseRecOn with
  | nil => exact Or.inr hpath
  | append_singleton mine last ih =>
      rw [List.foldl_append, List.foldl_cons, List.foldl_nil] at hpath
      by_cases hlast : path = archivePath last
      · exact Or.inl ⟨last, by simp, hlast⟩
      · by_cases hbelow : encodeDir last <+: path
        · exact absurd (encodePiece_below hbelow) hpath
        · rw [encodePiece_of_ne hlast hbelow] at hpath
          rcases ih hpath with ⟨index, hindex, heq⟩ | hwork
          · exact Or.inl ⟨index, List.mem_append_left _ hindex, heq⟩
          · exact Or.inr hwork

end EncodeAll

/-! ## Every piece -/

section Unpack

variable {stored : ℕ → Option (FileTree String)} {mine : List ℕ} {files : ℕ → FileTree String}

/-- The archive of a piece is at hand: packed here, or stored. -/
def ArchiveAt (stored : ℕ → Option (FileTree String)) (mine : List ℕ) (work : WorkTree)
    (index : ℕ) (files : FileTree String) : Prop :=
  if index ∈ mine then work (archivePath index) = some (.archive files)
  else stored index = some files

theorem not_pieceDir_prefix_archivePath (i j : ℕ) : ¬pieceDir i <+: archivePath j := by
  intro hprefix
  have hlength := hprefix.length_le
  simp [pieceDir, archivePath] at hlength

theorem fetchArchive_eq {work : WorkTree} {index : ℕ}
    (harchive : ArchiveAt stored mine work index (files index)) :
    ∃ fetched, fetchArchive stored mine work index = some fetched ∧
      fetched (archivePath index) = some (.archive (files index)) ∧
      ∀ path, path ≠ archivePath index → fetched path = work path := by
  unfold ArchiveAt at harchive
  unfold fetchArchive
  split at harchive
  · rename_i hmine
    rw [if_pos hmine]
    exact ⟨work, rfl, harchive, fun _ _ => rfl⟩
  · rename_i hmine
    rw [if_neg hmine, harchive]
    exact ⟨_, rfl, FileTree.write_self _, fun path hpath => FileTree.write_of_ne hpath _⟩

/-- One piece is unpacked below its directory, and its archive is gone. -/
theorem unpackPiece_eq {work : WorkTree} {index : ℕ}
    (harchive : ArchiveAt stored mine work index (files index))
    (hempty : ∀ path, pieceDir index <+: path → work path = none) :
    ∃ unpacked, ((fetchArchive stored mine work index).bind fun fetched =>
        unpackArchive fetched index) = some unpacked ∧
      unpacked (archivePath index) = none ∧
      (∀ rest, unpacked (pieceDir index ++ rest) = asWorkFiles (files index) rest) ∧
      ∀ path, path ≠ archivePath index → ¬pieceDir index <+: path →
        unpacked path = work path := by
  obtain ⟨fetched, hfetched, hat, hkept⟩ := fetchArchive_eq harchive
  refine ⟨(fetched.extract (pieceDir index) (asWorkFiles (files index))).unlink
    (archivePath index), ?_, FileTree.unlink_self, fun rest => ?_, fun path hpath hbelow => ?_⟩
  · rw [hfetched, Option.bind_some, unpackArchive, hat]
  · have hbelow : pieceDir index <+: pieceDir index ++ rest := List.prefix_append ..
    have hne : pieceDir index ++ rest ≠ archivePath index := fun heq =>
      not_pieceDir_prefix_archivePath index index (heq ▸ hbelow)
    rw [FileTree.unlink_of_ne hne, FileTree.extract_append, hkept _ hne, hempty _ hbelow,
      Option.or_none]
  · rw [FileTree.unlink_of_ne hpath, FileTree.extract_of_not_below hbelow, hkept path hpath]

/-- Every piece is unpacked below its own directory, no archive is left, and nothing else is
touched. -/
theorem unpackPieces_eq {indexes : List ℕ} (hnodup : indexes.Nodup) {work : WorkTree}
    (harchive : ∀ index ∈ indexes, ArchiveAt stored mine work index (files index))
    (hempty : ∀ index ∈ indexes, ∀ path, pieceDir index <+: path → work path = none) :
    ∃ after, unpackPieces stored mine work indexes = some after ∧
      (∀ index ∈ indexes, after (archivePath index) = none) ∧
      (∀ index ∈ indexes, ∀ rest,
        after (pieceDir index ++ rest) = asWorkFiles (files index) rest) ∧
      ∀ path, (∀ index ∈ indexes, path ≠ archivePath index ∧ ¬pieceDir index <+: path) →
        after path = work path := by
  induction indexes generalizing work with
  | nil => exact ⟨work, rfl, by simp, by simp, fun _ _ => rfl⟩
  | cons index rest ih =>
      obtain ⟨hnew, hrest⟩ := List.nodup_cons.mp hnodup
      obtain ⟨unpacked, hunpacked, hgone, hbelow, hkept⟩ :=
        unpackPiece_eq (harchive index (List.mem_cons_self ..))
          (hempty index (List.mem_cons_self ..))
      have hother : ∀ other ∈ rest, other ≠ index := fun other hmem heq => hnew (heq ▸ hmem)
      -- The pieces to come are untouched by this one.
      obtain ⟨after, hafter, hnone, hlaid, hsame⟩ := @ih hrest unpacked
        (fun other hmem => by
          have hat := harchive other (List.mem_cons_of_mem _ hmem)
          unfold ArchiveAt at hat ⊢
          rwa [hkept _ (fun heq => hother other hmem (archivePath_inj heq))
            (not_pieceDir_prefix_archivePath index other)])
        (fun other hmem path hpath => by
          have hne : path ≠ archivePath index := fun heq =>
            not_pieceDir_prefix_archivePath other index (heq ▸ hpath)
          rw [hkept path hne fun hprefix => hother other hmem (pieceDir_prefix_inj hpath hprefix)]
          exact hempty other (List.mem_cons_of_mem _ hmem) path hpath)
      refine ⟨after, ?_, fun other hmem => ?_, fun other hmem below => ?_, fun path hpath => ?_⟩
      · obtain ⟨fetched, hfetched, hone⟩ := Option.bind_eq_some_iff.mp hunpacked
        rw [unpackPieces, hfetched, Option.bind_some, hone, Option.bind_some, hafter]
      · rcases List.mem_cons.mp hmem with rfl | hmem
        · rw [hsame _ fun later hlater => ⟨fun heq => hother later hlater (archivePath_inj heq).symm,
            not_pieceDir_prefix_archivePath later _⟩]
          exact hgone
        · exact hnone other hmem
      · rcases List.mem_cons.mp hmem with rfl | hmem
        · rw [hsame _ fun later hlater => ⟨fun heq =>
              not_pieceDir_prefix_archivePath other later (heq ▸ List.prefix_append ..),
            fun hprefix => hother later hlater
              (pieceDir_prefix_inj hprefix (List.prefix_append ..))⟩]
          exact hbelow below
        · exact hlaid other hmem below
      · obtain ⟨hne, hnot⟩ := hpath index (List.mem_cons_self ..)
        rw [hsame path fun later hlater => hpath later (List.mem_cons_of_mem _ hlater),
          hkept path hne hnot]

end Unpack

end Worker
end MediaPlayer
