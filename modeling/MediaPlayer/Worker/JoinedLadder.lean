import MediaPlayer.Worker.RungJoins

/-!
# A ladder joined from its pieces

`encode` from the loop over the pieces to the end, `_join` included: what FFmpeg, the coordinator
and the helpers left becomes a ladder, and nothing of the pieces is left beside it.

* `unpacked_eq` — what the join starts from.
* `fillWorkDir_eq` — what it leaves.
* `ladder_joined` — each rung's playlist lists every segment once, reads back as it was written,
  and names files that hold what the segments hold.
-/

namespace MediaPlayer
namespace Worker

open Library

/-! ## The whole work directory -/

/-- What is there when the loop over the pieces has ended: the audio as FFmpeg wrote it, and of
every piece an archive, packed here or stored by a helper, with a playlist of its segments for
each of the `n` rungs. -/
structure LadderParts (videoFacts : String → Option VideoFacts) (n : ℕ)
    (pieces : List (ℕ → List PieceSegment)) (audio : FileTree String) (files : ℕ → FileTree String)
    (stored : ℕ → Option (FileTree String)) (mine : List ℕ) : Prop where
  here : ∀ index ∈ mine, index < pieces.length
  fetched : ∀ index < pieces.length, index ∉ mine → stored index = some (files index)
  listed : ∀ index piece, pieces[index]? = some piece → ∀ k < n, RungOf (files index) k (piece k)
  sound : ∃ playlist entries, audio [indexName] = some playlist ∧
    segments playlist = some entries ∧ ∀ entry ∈ entries, audio [entry.2] ≠ none
  facts : ∀ piece ∈ pieces, ∀ k < n, ∀ segment ∈ piece k, videoFacts segment.content ≠ none

/-- The segments of rung `k`, piece after piece. -/
def rungSegments (pieces : List (ℕ → List PieceSegment)) (k : ℕ) : List PieceSegment :=
  pieces.flatMap fun piece => piece k

/-- Piece `index`, by rung. -/
def pieceListed (pieces : List (ℕ → List PieceSegment)) (index k : ℕ) : List PieceSegment :=
  (pieces[index]?.getD fun _ => []) k

theorem located_map_snd (pieces : List (ℕ → List PieceSegment)) (k : ℕ) :
    (located (fun index => pieceListed pieces index k) (List.range pieces.length)).map Prod.snd =
      rungSegments pieces k := by
  have hpieces : (List.range pieces.length).map (fun index => pieceListed pieces index k) =
      pieces.map fun piece => piece k := by
    refine List.ext_getElem (by simp) fun index hindex hother => ?_
    have hlt : index < pieces.length := by simpa using hother
    simp [pieceListed, hlt]
  unfold located rungSegments
  rw [List.map_flatMap, List.flatMap_def, List.flatMap_def, ← hpieces]
  simp [Function.comp_def]

/-- A rung as it is served: a playlist that lists every segment once, in order and under names
that differ, and each name holding what that segment holds. -/
structure RungWritten (work : WorkTree) (k : ℕ) (listed : List PieceSegment) : Prop where
  playlist : ∃ playlist, work [rungName k, indexName] = some (.text playlist) ∧
    segments playlist = some (listed.zipIdx.map fun numbered =>
      (numbered.1.duration, segmentName ".ts" numbered.2)) ∧
    ∃ target : ℤ, s!"#EXT-X-TARGETDURATION:{target}" ∈ splitLines playlist ∧
      ∀ segment ∈ listed, segment.duration ≤ target
  names : (listed.zipIdx.map fun numbered => segmentName ".ts" numbered.2).Nodup
  contents : ∀ numbered ∈ listed.zipIdx,
    work [rungName k, segmentName ".ts" numbered.2] = some (.text numbered.1.content)

theorem numberedEntries_eq (segments : List (ℕ × PieceSegment)) :
    numberedEntries segments 0 = (segments.map Prod.snd).zipIdx.map fun numbered =>
      (numbered.1.duration, segmentName ".ts" numbered.2) := by
  rw [List.zipIdx_map, List.map_map]
  rfl

theorem RungJoined.written {work : WorkTree} {k : ℕ} {segments : List (ℕ × PieceSegment)}
    (hjoined : RungJoined work k segments)
    (hdurations : ∀ segment ∈ segments, WholeMicroseconds segment.2.duration) :
    RungWritten work k (segments.map Prod.snd) := by
  have hplain : PlainText ".ts" := by decide
  have hentries : ∀ entry ∈ numberedEntries segments 0, WholeMicroseconds entry.1 ∧
      BreakFree entry.2 ∧ startsWith entry.2 extInf = false := by
    intro entry hentry
    obtain ⟨numbered, hnumbered, rfl⟩ := List.mem_map.mp hentry
    refine ⟨hdurations numbered.1 (List.fst_mem_of_mem_zipIdx hnumbered),
      (plainText_segmentName hplain _).breakFree, ?_⟩
    rw [startsWith, toList_segmentName]
    rfl
  refine ⟨⟨_, hjoined.playlist, ?_, targetDuration (numberedEntries segments 0),
    targetLine_mem fun entry hentry => (hentries entry hentry).2.1, fun segment hsegment => ?_⟩,
    ?_, fun numbered hnumbered => ?_⟩
  · rw [segments_writePlaylist hentries, numberedEntries_eq]
  · obtain ⟨located, hlocated, rfl⟩ := List.mem_map.mp hsegment
    rw [← List.zipIdx_map_fst 0 segments] at hlocated
    obtain ⟨numbered, hnumbered, rfl⟩ := List.mem_map.mp hlocated
    exact le_targetDuration (List.mem_map.mpr ⟨numbered, hnumbered, rfl⟩)
  · have hnames : ((segments.map Prod.snd).zipIdx.map fun numbered =>
        segmentName ".ts" numbered.2) =
        (List.range' 0 (segments.map Prod.snd).length).map (segmentName ".ts") := by
      rw [← List.zipIdx_map_snd, List.map_map]
      rfl
    have hrange : (List.range' 0 (segments.map Prod.snd).length).Nodup := List.nodup_range'
    rw [hnames]
    exact hrange.map fun m n heq => segmentName_inj heq
  · rw [List.zipIdx_map] at hnumbered
    obtain ⟨located, hlocated, rfl⟩ := List.mem_map.mp hnumbered
    exact hjoined.contents located hlocated

section Assembly

variable {videoFacts : String → Option VideoFacts} {n : ℕ}
  {pieces : List (ℕ → List PieceSegment)} {audio : FileTree String} {files : ℕ → FileTree String}
  {stored : ℕ → Option (FileTree String)} {mine : List ℕ}

/-- The new work directory with the audio in it. -/
theorem begun_eq (rest : List String) :
    (FileTree.empty.extract [rungName n] (asWorkFiles audio) : WorkTree) (rungName n :: rest) =
      asWorkFiles audio rest := by
  have hpath := FileTree.empty.extract_append [rungName n] rest (asWorkFiles audio)
  rw [List.singleton_append] at hpath
  rw [hpath]
  exact Option.or_none

theorem begun_sources {path : List String}
    (hpath : (FileTree.empty.extract [rungName n] (asWorkFiles audio) : WorkTree) path ≠ none) :
    ∃ rest, path = rungName n :: rest ∧ audio rest ≠ none := by
  by_cases hbelow : [rungName n] <+: path
  · obtain ⟨rest, rfl⟩ := hbelow
    rw [List.singleton_append, begun_eq] at hpath
    refine ⟨rest, rfl, fun hnone => hpath ?_⟩
    rw [asWorkFiles, hnone]
    rfl
  · exact absurd (FileTree.extract_of_not_below hbelow _) hpath

/-- The audio lies beside the archives, the directories they are packed from and the pieces. -/
theorem rungPath_beside (k index : ℕ) (rest : List String) :
    (rungName k :: rest ≠ archivePath index ∧ ¬encodeDir index <+: rungName k :: rest) ∧
      ¬piecesDir <+: rungName k :: rest := by
  obtain ⟨hdir, harchive⟩ := rungName_ne_pieceName k index
  refine ⟨⟨fun heq => harchive (List.cons.inj heq).1, fun hprefix => ?_⟩, fun hprefix => ?_⟩
  · exact hdir (List.cons_prefix_cons.mp hprefix).1.symm
  · have hne : rungName k ≠ "pieces" := rungName_ne (by decide)
    exact hne (List.cons_prefix_cons.mp hprefix).1.symm

theorem piecesDir_prefix_of_pieceDir {index : ℕ} {path : List String}
    (hpath : pieceDir index <+: path) : piecesDir <+: path :=
  (List.prefix_append ["pieces"] [zeroPad 4 index]).trans hpath

/-- Everything is unpacked, and beside the pieces there is only the audio. -/
theorem unpacked_eq (hparts : LadderParts videoFacts n pieces audio files stored mine) :
    ∃ work, unpackPieces stored mine (mine.foldl (encodePiece files)
        (FileTree.empty.extract [rungName n] (asWorkFiles audio)))
        (List.range pieces.length) = some work ∧
      (∀ index < pieces.length, ∀ rest,
        work (pieceDir index ++ rest) = asWorkFiles (files index) rest) ∧
      (∀ rest, work (rungName n :: rest) = asWorkFiles audio rest) ∧
      ∀ path, work path ≠ none → piecesDir <+: path ∨
        ∃ rest, path = rungName n :: rest ∧ audio rest ≠ none := by
  obtain ⟨packed, hpacked⟩ : ∃ packed, packed = mine.foldl (encodePiece files)
      (FileTree.empty.extract [rungName n] (asWorkFiles audio) : WorkTree) := ⟨_, rfl⟩
  have hsources : ∀ path, packed path ≠ none → (∃ index ∈ mine, path = archivePath index) ∨
      ∃ rest, path = rungName n :: rest ∧ audio rest ≠ none := by
    intro path hpath
    rw [hpacked] at hpath
    exact (encodeAll_sources hpath).imp_right begun_sources
  have harchive : ∀ index ∈ List.range pieces.length,
      ArchiveAt stored mine packed index (files index) := by
    intro index hindex
    unfold ArchiveAt
    split
    · rename_i hmine
      rw [hpacked]
      exact encodeAll_archive hmine
    · rename_i hmine
      exact hparts.fetched index (List.mem_range.mp hindex) hmine
  have hempty : ∀ index ∈ List.range pieces.length, ∀ path, pieceDir index <+: path →
      packed path = none := by
    intro index _ path hpath
    by_contra hsome
    rcases hsources path hsome with ⟨other, -, rfl⟩ | ⟨rest, rfl, -⟩
    · exact not_pieceDir_prefix_archivePath index other hpath
    · exact (rungPath_beside n index rest).2 (piecesDir_prefix_of_pieceDir hpath)
  obtain ⟨work, hwork, hgone, hlaid, hkept⟩ :=
    unpackPieces_eq List.nodup_range harchive hempty
  rw [← hpacked]
  refine ⟨work, hwork, fun index hindex => hlaid index (List.mem_range.mpr hindex),
    fun rest => ?_, fun path hpath => ?_⟩
  · rw [hkept _ fun index _ => ⟨(rungPath_beside n index rest).1.1, fun hprefix =>
      (rungPath_beside n index rest).2 (piecesDir_prefix_of_pieceDir hprefix)⟩, hpacked,
      encodeAll_kept fun index => (rungPath_beside n index rest).1, begun_eq]
  · by_cases hbelow : piecesDir <+: path
    · exact Or.inl hbelow
    · refine Or.inr ?_
      by_cases hgoneAt : ∃ index < pieces.length, path = archivePath index
      · obtain ⟨index, hindex, rfl⟩ := hgoneAt
        exact absurd (hgone index (List.mem_range.mpr hindex)) hpath
      · rw [hkept path fun index hindex => ⟨fun heq =>
            hgoneAt ⟨index, List.mem_range.mp hindex, heq⟩,
          fun hprefix => hbelow (piecesDir_prefix_of_pieceDir hprefix)⟩] at hpath
        rcases hsources path hpath with ⟨index, hmine, rfl⟩ | haudio
        · exact absurd ⟨index, hparts.here index hmine, rfl⟩ hgoneAt
        · exact haudio

/-- The unpacked pieces are ready to be joined. -/
theorem rungsReady (hparts : LadderParts videoFacts n pieces audio files stored mine)
    (hsome : ∀ k < n, rungSegments pieces k ≠ []) {work : WorkTree}
    (hlaid : ∀ index < pieces.length, ∀ rest,
      work (pieceDir index ++ rest) = asWorkFiles (files index) rest)
    (honly : ∀ path, work path ≠ none → piecesDir <+: path ∨
      ∃ rest, path = rungName n :: rest ∧ audio rest ≠ none) :
    RungsReady videoFacts files (pieceListed pieces) pieces.length work (List.range n) := by
  have hlisted : ∀ index < pieces.length, ∃ piece, pieces[index]? = some piece ∧
      ∀ k, pieceListed pieces index k = piece k := by
    intro index hindex
    refine ⟨pieces[index], List.getElem?_eq_getElem hindex, fun k => ?_⟩
    rw [pieceListed, List.getElem?_eq_getElem hindex]
    rfl
  refine ⟨fun k hk index hindex => ⟨fun name => hlaid index hindex _, ?_⟩,
    fun k hk name => ?_, fun k hk hnil => ?_, fun k hk index hindex segment hsegment => ?_⟩
  · obtain ⟨piece, hpiece, heq⟩ := hlisted index hindex
    rw [heq k]
    exact hparts.listed index piece hpiece k (List.mem_range.mp hk)
  · by_contra hfile
    rcases honly _ hfile with hprefix | ⟨rest, heq, -⟩
    · exact (rungPath_beside k 0 [name]).2 hprefix
    · have hlast : k = n := rungName_inj (List.cons.inj heq).1
      exact absurd (List.mem_range.mp hk) (by omega)
  · have hmap := located_map_snd pieces k
    rw [hnil] at hmap
    exact hsome k (List.mem_range.mp hk) hmap.symm
  · obtain ⟨piece, hpiece, heq⟩ := hlisted index hindex
    rw [heq k] at hsegment
    exact hparts.facts piece (List.mem_of_getElem? hpiece) k (List.mem_range.mp hk) segment hsegment

/-- What the join leaves: the files of its rungs, the audio as it was, the master, and nothing
else. -/
theorem fillWorkDir_eq (hparts : LadderParts videoFacts n pieces audio files stored mine)
    (hsome : ∀ k < n, rungSegments pieces k ≠ []) :
    ∃ work rungs sound, fillWorkDir videoFacts n pieces.length audio files stored mine =
        some work ∧
      rungs.length = n ∧
      work [masterPlaylistName] =
        some (.text (writeMaster rungs sound (variantFile n indexName))) ∧
      (∀ rest, work (rungName n :: rest) = asWorkFiles audio rest) ∧
      (∀ k < n, RungJoined work k
        (located (fun index => pieceListed pieces index k) (List.range pieces.length))) ∧
      ∀ path, work path ≠ none → path = [masterPlaylistName] ∨
        (∃ k < n, ∃ name, path = [rungName k, name]) ∨
        ∃ rest, path = rungName n :: rest ∧ audio rest ≠ none := by
  obtain ⟨unpacked, hunpacked, hlaid, haudio, honly⟩ := unpacked_eq hparts
  obtain ⟨joined, rungs, hjoined, hlength, hrungs, hkept⟩ :=
    joinRungs_eq List.nodup_range [] (rungsReady hparts hsome hlaid honly)
  have hsound : ∀ rest, joined (rungName n :: rest) = asWorkFiles audio rest := by
    intro rest
    rw [hkept _ fun k hk htouch => ?_, haudio rest]
    rcases htouch with ⟨name, heq⟩ | ⟨index, name, heq⟩
    · have hlast : n = k := rungName_inj (List.cons.inj heq).1
      exact absurd (List.mem_range.mp hk) (by omega)
    · exact (rungPath_beside n index rest).2 (heq ▸ List.prefix_append ["pieces"] _)
  -- The audio is listed and measured where FFmpeg wrote it.
  obtain ⟨playlist, entries, hplaylist, hlisting, hthere⟩ := hparts.sound
  have hread : readText joined [rungName n, indexName] = some playlist := by
    rw [readText, hsound, asWorkFiles, hplaylist]
    rfl
  obtain ⟨sound, hrates⟩ : ∃ sound, rates joined [rungName n] entries = some sound := by
    refine rates_eq_some fun entry hentry => ?_
    obtain ⟨content, hcontent⟩ := Option.ne_none_iff_exists'.mp (hthere entry hentry)
    rw [List.singleton_append, readText, hsound, asWorkFiles, hcontent]
    exact Option.some_ne_none _
  have hrungBelow : ∀ k rest, ¬piecesDir <+: rungName k :: rest := fun k rest =>
    (rungPath_beside k 0 rest).2
  have hmasterRung : ∀ k rest, rungName k :: rest ≠ [masterPlaylistName] := by
    intro k rest heq
    have hne : rungName k ≠ masterPlaylistName := rungName_ne (by decide)
    exact hne (List.cons.inj heq).1
  have hmasterBelow : ¬piecesDir <+: [masterPlaylistName] := by decide
  have hafter : ∀ k rest, ((joined.write [masterPlaylistName] (.text (writeMaster rungs sound
      (variantFile n indexName)))).removeTree piecesDir) (rungName k :: rest) =
        joined (rungName k :: rest) := by
    intro k rest
    rw [FileTree.removeTree_of_not_below (hrungBelow k rest),
      FileTree.write_of_ne (hmasterRung k rest)]
  refine ⟨_, rungs, sound, ?_, ?_, ?_, fun rest => (hafter n rest).trans (hsound rest),
    fun k hk => (hrungs k (List.mem_range.mpr hk)).congr fun name => hafter k [name],
    fun path hpath => ?_⟩
  · rw [fillWorkDir, hunpacked, Option.bind_some, joinLadder, hjoined, Option.bind_some, hread,
      Option.bind_some, hlisting, Option.bind_some, hrates, Option.map_some]
  · simpa using hlength
  · rw [FileTree.removeTree_of_not_below hmasterBelow, FileTree.write_self]
  · by_cases hmaster : path = [masterPlaylistName]
    · exact Or.inl hmaster
    · have hbelow : ¬piecesDir <+: path := fun hbelow =>
        hpath (FileTree.removeTree_below hbelow)
      rw [FileTree.removeTree_of_not_below hbelow, FileTree.write_of_ne hmaster] at hpath
      refine Or.inr ?_
      by_cases htouch : ∃ k ∈ List.range n, Touches k path
      · obtain ⟨k, hk, htouches⟩ := htouch
        rcases htouches with ⟨name, rfl⟩ | ⟨index, name, rfl⟩
        · exact Or.inl ⟨k, List.mem_range.mp hk, name, rfl⟩
        · exact absurd (List.prefix_append ["pieces"] _) hbelow
      · rw [hkept path fun k hk htouches => htouch ⟨k, hk, htouches⟩] at hpath
        exact Or.inr ((honly path hpath).resolve_left hbelow)

/-- **A ladder is joined from its pieces.**  If every rung has a segment at all, each rung's
playlist lists the segments of every piece once and in order, under names that differ and hold
what the segments hold; it reads back as it was written, and says no less than the longest lasts.
Nothing is left in the work directory but the master, these rungs and the audio. -/
theorem ladder_joined (hparts : LadderParts videoFacts n pieces audio files stored mine)
    (hsome : ∀ k < n, rungSegments pieces k ≠ []) :
    ∃ work, fillWorkDir videoFacts n pieces.length audio files stored mine = some work ∧
      (∀ k < n, RungWritten work k (rungSegments pieces k)) ∧
      (∃ master, work [masterPlaylistName] = some (.text master)) ∧
      (∀ rest, work (rungName n :: rest) = asWorkFiles audio rest) ∧
      ∀ path, work path ≠ none → path = [masterPlaylistName] ∨
        (∃ k < n, path = [rungName k, indexName] ∨
          ∃ numbered ∈ (rungSegments pieces k).zipIdx,
            path = [rungName k, segmentName ".ts" numbered.2]) ∨
        ∃ rest, path = rungName n :: rest ∧ audio rest ≠ none := by
  obtain ⟨work, rungs, sound, hwork, -, hmaster, haudio, hrungs, honly⟩ :=
    fillWorkDir_eq hparts hsome
  refine ⟨work, hwork, fun k hk => ?_, ⟨_, hmaster⟩, haudio, fun path hpath => ?_⟩
  · rw [← located_map_snd]
    refine (hrungs k hk).written fun segment hsegment => ?_
    obtain ⟨hindex, hlisted⟩ := mem_located.mp hsegment
    have hlt := List.mem_range.mp hindex
    obtain ⟨playlist, -, hlisting⟩ := (hparts.listed segment.1 pieces[segment.1]
      (List.getElem?_eq_getElem hlt) k hk).playlist
    rw [pieceListed, List.getElem?_eq_getElem hlt] at hlisted
    exact (hlisting.entries segment.2.entry (List.mem_map_of_mem hlisted)).1
  · rcases honly path hpath with hmasterPath | ⟨k, hk, name, rfl⟩ | hrest
    · exact Or.inl hmasterPath
    · refine Or.inr (Or.inl ⟨k, hk, ?_⟩)
      rcases (hrungs k hk).only name hpath with rfl | ⟨numbered, hnumbered, rfl⟩
      · exact Or.inl rfl
      · refine Or.inr ⟨(numbered.1.2, numbered.2), ?_, rfl⟩
        rw [← located_map_snd, List.zipIdx_map]
        exact List.mem_map.mpr ⟨numbered, hnumbered, rfl⟩
    · exact Or.inr (Or.inr hrest)

/-! ## The files that are uploaded -/

theorem intercalate_rungPath (k : ℕ) (name : String) :
    "/".intercalate [rungName k, name] = variantFile k name := by
  rw [String.intercalate_cons_cons, String.intercalate_singleton]
  simp [rungName, variantFile, String.append_assoc, toString]

/-- The files of a rung are those of the joined rung. -/
theorem mem_joinedRung {work : WorkTree} {k : ℕ} {segments : List (ℕ × PieceSegment)}
    (hjoined : RungJoined work k segments) {rung : PieceRung}
    (hpieces : rung.pieces.flatten =
      segments.map fun segment => (segment.2.duration, segment.2.content))
    (file : String × String) : file ∈ joinedRung k rung ↔
      ∃ name, file.1 = variantFile k name ∧ work [rungName k, name] = some (.text file.2) := by
  have hnumbered : rung.joined = segments.zipIdx.map fun numbered =>
      ((numbered.1.2.duration, numbered.1.2.content), segmentName ".ts" numbered.2) := by
    rw [PieceRung.joined, hpieces, List.zipIdx_map, List.map_map]
    rfl
  have hentries : (rung.joined.map fun segment => (segment.1.1, segment.2)) =
      numberedEntries segments 0 := by
    rw [hnumbered, List.map_map]
    rfl
  rw [joinedRung, hentries, List.mem_append, List.mem_singleton, hnumbered, List.map_map,
    List.mem_map]
  constructor
  · rintro (⟨numbered, hmem, rfl⟩ | rfl)
    · exact ⟨_, rfl, hjoined.contents numbered hmem⟩
    · exact ⟨_, rfl, hjoined.playlist⟩
  · rintro ⟨name, hname, hfile⟩
    rcases hjoined.only name (by rw [hfile]; exact Option.some_ne_none _) with
      rfl | ⟨numbered, hmem, rfl⟩
    · rw [hjoined.playlist] at hfile
      exact Or.inr (Prod.ext hname (WorkFile.text.inj (Option.some.inj hfile)).symm)
    · rw [hjoined.contents numbered hmem] at hfile
      exact Or.inl ⟨numbered, hmem,
        Prod.ext hname.symm (WorkFile.text.inj (Option.some.inj hfile))⟩

/-- The rungs with the segments of their pieces. -/
def withPieces (pieces : List (ℕ → List PieceSegment)) (rungs : List PieceRung) :
    List PieceRung :=
  rungs.zipIdx.map fun rung =>
    { rung.1 with
      pieces := pieces.map fun piece => (piece rung.2).map fun segment =>
        (segment.duration, segment.content) }

/-- The master says nothing of the segments. -/
theorem writeMaster_withPieces (pieces : List (ℕ → List PieceSegment)) (rungs : List PieceRung)
    (audio : ℕ × ℕ) (uri : String) :
    writeMaster (withPieces pieces rungs) audio uri = writeMaster rungs audio uri := by
  have hrungs : (withPieces pieces rungs).zipIdx = rungs.zipIdx.map fun rung =>
      ({ rung.1 with
          pieces := pieces.map fun piece => (piece rung.2).map fun segment =>
            (segment.duration, segment.content) }, rung.2) := by
    refine List.ext_getElem (by simp [withPieces]) fun index hindex hother => ?_
    simp [withPieces]
  unfold writeMaster masterText
  rw [hrungs, List.flatMap_map]
  simp [withPieces, rungLine]

/-- The work directory holds the files of the joined ladder, and nothing else. -/
theorem mem_joinedFiles (hparts : LadderParts videoFacts n pieces audio files stored mine)
    (hsome : ∀ k < n, rungSegments pieces k ≠ []) {sounds : List (String × String)}
    (hsounds : ∀ path content, audio path = some content ↔
      ∃ file ∈ sounds, path = [file.1] ∧ content = file.2) :
    ∃ work rungs sound, fillWorkDir videoFacts n pieces.length audio files stored mine =
        some work ∧ rungs.length = n ∧
      ∀ file, file ∈ joinedFiles (withPieces pieces rungs) sounds sound ↔
        ∃ path, file.1 = "/".intercalate path ∧ work path = some (.text file.2) := by
  obtain ⟨work, rungs, sound, hwork, hlength, hmaster, haudio, hrungs, honly⟩ :=
    fillWorkDir_eq hparts hsome
  refine ⟨work, rungs, sound, hwork, hlength, fun file => ?_⟩
  have hcount : (withPieces pieces rungs).length = n := by simp [withPieces, hlength]
  have hrung : ∀ rung ∈ (withPieces pieces rungs).zipIdx, rung.2 < n ∧
      ∀ file : String × String, file ∈ joinedRung rung.2 rung.1 ↔ ∃ name,
        file.1 = variantFile rung.2 name ∧ work [rungName rung.2, name] = some (.text file.2) := by
    intro rung hmem
    have hlt : rung.2 < n := by simpa [hcount] using List.snd_lt_of_mem_zipIdx hmem
    refine ⟨hlt, fun file => mem_joinedRung (hrungs rung.2 hlt) ?_ file⟩
    have hpieces : rung.1.pieces = pieces.map fun piece => (piece rung.2).map fun segment =>
        (segment.duration, segment.content) := by
      have hget := List.mem_zipIdx_iff_getElem?.mp hmem
      simp only [withPieces, List.getElem?_map, Option.map_eq_some_iff] at hget
      obtain ⟨measured, hmeasured, heq⟩ := hget
      rw [← heq]
      simp only [List.getElem?_zipIdx, Option.map_eq_some_iff] at hmeasured
      obtain ⟨_, -, rfl⟩ := hmeasured
      simp
    have hlocated := congrArg (List.map fun segment : PieceSegment =>
      (segment.duration, segment.content)) (located_map_snd pieces rung.2)
    rw [List.map_map] at hlocated
    rw [hpieces, ← List.flatMap_def, ← List.map_flatMap]
    exact hlocated.symm
  rw [joinedFiles, hcount, writeMaster_withPieces]
  simp only [List.mem_append, List.mem_flatMap, List.mem_map, List.mem_singleton]
  constructor
  · rintro ((⟨rung, hmem, hfile⟩ | ⟨heard, hheard, rfl⟩) | rfl)
    · obtain ⟨name, hname, hfile⟩ := ((hrung rung hmem).2 file).mp hfile
      exact ⟨[rungName rung.2, name], hname.trans (intercalate_rungPath ..).symm, hfile⟩
    · refine ⟨[rungName n, heard.1], (intercalate_rungPath ..).symm, ?_⟩
      rw [haudio, asWorkFiles, (hsounds [heard.1] heard.2).mpr ⟨heard, hheard, rfl, rfl⟩]
      rfl
    · exact ⟨[masterPlaylistName], String.intercalate_singleton.symm, hmaster⟩
  · rintro ⟨path, hname, hfile⟩
    rcases honly path (by rw [hfile]; exact Option.some_ne_none _) with
      rfl | ⟨k, hk, name, rfl⟩ | ⟨rest, rfl, hrest⟩
    · rw [hmaster] at hfile
      rw [String.intercalate_singleton] at hname
      exact Or.inr (Prod.ext hname (WorkFile.text.inj (Option.some.inj hfile)).symm)
    · have hlt : k < (withPieces pieces rungs).length := by omega
      have hmem : ((withPieces pieces rungs)[k], k) ∈ (withPieces pieces rungs).zipIdx := by
        rw [List.mem_zipIdx_iff_getElem?]
        exact List.getElem?_eq_getElem hlt
      rw [intercalate_rungPath] at hname
      exact Or.inl (Or.inl ⟨_, hmem, ((hrung _ hmem).2 file).mpr ⟨name, hname, hfile⟩⟩)
    · obtain ⟨content, hcontent⟩ := Option.ne_none_iff_exists'.mp hrest
      obtain ⟨heard, hheard, rfl, rfl⟩ := (hsounds rest content).mp hcontent
      rw [haudio, asWorkFiles, hcontent] at hfile
      rw [intercalate_rungPath] at hname
      exact Or.inl (Or.inr ⟨heard, hheard,
        Prod.ext hname.symm (WorkFile.text.inj (Option.some.inj hfile))⟩)

end Assembly

/-! ## Two pieces of one rung -/

/-- The files of a piece of one rung. -/
def onePiece (listed : List PieceSegment) : FileTree String := fun path =>
  if path = [rungName 0, indexName] then some (writePlaylist (listed.map PieceSegment.entry))
  else (listed.find? fun segment => path = [rungName 0, segment.name]).map PieceSegment.content

/-- The audio of a ladder, in one segment. -/
def oneSound : FileTree String := fun path =>
  if path = [indexName] then some (writePlaylist [(6, "seg00000.ts")])
  else if path = ["seg00000.ts"] then some "sound"
  else none

def oneRungFacts (_ : String) : Option VideoFacts := some ⟨640, 360, .main, 30⟩

def longSegment : PieceSegment := ⟨4, "seg00000.ts", "first"⟩

def shortSegment : PieceSegment := ⟨5 / 2, "seg00000.ts", "second"⟩

theorem listing_oneSegment {duration : ℚ} (hduration : WholeMicroseconds duration) :
    Listing (writePlaylist [(duration, "seg00000.ts")]) [(duration, "seg00000.ts")] := by
  have hname : BreakFree "seg00000.ts" ∧ startsWith "seg00000.ts" extInf = false := by decide
  refine listing_writePlaylist fun entry hentry => ?_
  obtain rfl := List.mem_singleton.mp hentry
  exact ⟨hduration, hname⟩

theorem rungOf_onePiece {segment : PieceSegment} (hduration : WholeMicroseconds segment.duration)
    (hname : segment.name = "seg00000.ts") : RungOf (onePiece [segment]) 0 [segment] := by
  refine ⟨⟨_, if_pos rfl, ?_⟩, List.nodup_singleton _, fun other hother => ?_⟩
  · rw [List.map_singleton, PieceSegment.entry, hname]
    exact listing_oneSegment hduration
  · obtain rfl := List.mem_singleton.mp hother
    have hne : [rungName 0, other.name] ≠ [rungName 0, indexName] := by
      rw [hname]
      decide
    simp [onePiece, hne]

/-- One piece encoded here, one by a helper: their segments follow each other. -/
theorem ladder_joined_two :
    ∃ work, fillWorkDir oneRungFacts 1 2 oneSound
        (fun index => onePiece [if index = 0 then longSegment else shortSegment])
        (fun _ => some (onePiece [shortSegment])) [0] = some work ∧
      RungWritten work 0 [longSegment, shortSegment] := by
  have hlong : WholeMicroseconds longSegment.duration := ⟨4000000, by norm_num [longSegment]⟩
  have hshort : WholeMicroseconds shortSegment.duration := ⟨2500000, by norm_num [shortSegment]⟩
  have hsix : WholeMicroseconds 6 := ⟨6000000, by norm_num⟩
  have hparts : LadderParts oneRungFacts 1 [fun _ => [longSegment], fun _ => [shortSegment]]
      oneSound (fun index => onePiece [if index = 0 then longSegment else shortSegment])
      (fun _ => some (onePiece [shortSegment])) [0] := by
    refine ⟨by simp, fun index hindex hother => ?_, fun index piece hpiece k hk => ?_,
      ⟨_, _, if_pos rfl, segments_of_listing (listing_oneSegment hsix), fun entry hentry => ?_⟩,
      fun piece _ k _ segment _ => Option.some_ne_none _⟩
    · have hne : index ≠ 0 := by simpa using hother
      rw [if_neg hne]
    · obtain rfl : k = 0 := by omega
      match index, hpiece with
      | 0, hpiece =>
          obtain rfl := Option.some.inj hpiece
          exact rungOf_onePiece hlong rfl
      | 1, hpiece =>
          obtain rfl := Option.some.inj hpiece
          exact rungOf_onePiece hshort rfl
    · obtain rfl := List.mem_singleton.mp hentry
      exact fun hnone => absurd hnone (by decide)
  obtain ⟨work, hwork, hrungs, -⟩ := ladder_joined hparts (by
    intro k hk
    exact List.cons_ne_nil _ _)
  exact ⟨work, hwork, hrungs 0 (by decide)⟩

/-- Any list of segments will do: not so when a rung has none, and the join looks for its first. -/
theorem empty_rung_not_joined :
    LadderParts oneRungFacts 1 [fun _ => [], fun _ => []] oneSound (fun _ => onePiece [])
        (fun _ => some (onePiece [])) [0] ∧
      ¬∃ work, fillWorkDir oneRungFacts 1 2 oneSound (fun _ => onePiece [])
        (fun _ => some (onePiece [])) [0] = some work := by
  have hsix : WholeMicroseconds 6 := ⟨6000000, by norm_num⟩
  have hnone : (fillWorkDir oneRungFacts 1 2 oneSound (fun _ => onePiece [])
      (fun _ => some (onePiece [])) [0]).isNone = true := by decide +kernel
  refine ⟨⟨by simp, fun _ _ _ => rfl, fun index piece hpiece k hk => ?_,
    ⟨_, _, if_pos rfl, segments_of_listing (listing_oneSegment hsix), fun entry hentry => ?_⟩,
    fun piece _ k _ segment _ => Option.some_ne_none _⟩, ?_⟩
  · obtain rfl : k = 0 := by omega
    have hpieces : piece = fun _ => [] := by
      rcases List.mem_pair.mp (List.mem_of_getElem? hpiece) with rfl | rfl <;> rfl
    rw [hpieces]
    refine ⟨⟨_, if_pos rfl, listing_writePlaylist ?_⟩, List.nodup_nil, ?_⟩ <;> simp
  · obtain rfl := List.mem_singleton.mp hentry
    exact fun hnone => absurd hnone (by decide)
  · rintro ⟨work, hwork⟩
    rw [hwork] at hnone
    exact absurd hnone nofun

end Worker
end MediaPlayer
