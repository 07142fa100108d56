import MediaPlayer.Worker.UnpackedPieces

/-!
# The rungs of a ladder joined

The loops of `_join` over the rungs, the pieces and their segments: for each rung the segments of
every piece, in order, under new names, and its playlist.

* `joinPieces_eq` — the loops over the pieces and their segments are a list of moves.
* `joinRung_eq`, `joinRungs_eq` — what a rung leaves, and what it does not touch.
-/

namespace MediaPlayer
namespace Worker

open Library

/-- A segment of a piece: how long it is, its name in the piece, and what it holds. -/
structure PieceSegment where
  duration : ℚ
  name : String
  content : String

/-- How the piece's playlist lists it. -/
def PieceSegment.entry (segment : PieceSegment) : ℚ × String := (segment.duration, segment.name)

/-- One rung of a piece, among its files. -/
structure RungOf (files : FileTree String) (k : ℕ) (listed : List PieceSegment) : Prop where
  playlist : ∃ playlist, files [rungName k, indexName] = some playlist ∧
    Listing playlist (listed.map PieceSegment.entry)
  names : (listed.map PieceSegment.name).Nodup
  contents : ∀ segment ∈ listed, files [rungName k, segment.name] = some segment.content

/-- The files of a rung of a piece, where they are unpacked. -/
def PieceAt (work : WorkTree) (k index : ℕ) (files : FileTree String) : Prop :=
  ∀ name, work (pieceDir index ++ [rungName k, name]) = asWorkFiles files [rungName k, name]

/-! ## The loops of one rung -/

/-- The segments of some pieces, each with the index of its piece. -/
def located (listed : ℕ → List PieceSegment) (indexes : List ℕ) : List (ℕ × PieceSegment) :=
  indexes.flatMap fun index => (listed index).map fun segment => (index, segment)

/-- The moves that number segments from `first` on. -/
def numberedMoves (k : ℕ) (segments : List (ℕ × PieceSegment)) (first : ℕ) :
    List (List String × List String) :=
  (segments.zipIdx first).map fun numbered =>
    (pieceDir numbered.1.1 ++ [rungName k, numbered.1.2.name],
      [rungName k, segmentName ".ts" numbered.2])

/-- The entries they get. -/
def numberedEntries (segments : List (ℕ × PieceSegment)) (first : ℕ) : List (ℚ × String) :=
  (segments.zipIdx first).map fun numbered =>
    (numbered.1.2.duration, segmentName ".ts" numbered.2)

theorem numberedMoves_append (k : ℕ) (segments more : List (ℕ × PieceSegment)) (first : ℕ) :
    numberedMoves k (segments ++ more) first =
      numberedMoves k segments first ++ numberedMoves k more (first + segments.length) := by
  unfold numberedMoves
  rw [List.zipIdx_append, List.map_append]

theorem numberedEntries_append (segments more : List (ℕ × PieceSegment)) (first : ℕ) :
    numberedEntries (segments ++ more) first =
      numberedEntries segments first ++ numberedEntries more (first + segments.length) := by
  unfold numberedEntries
  rw [List.zipIdx_append, List.map_append]

theorem length_numberedEntries (segments : List (ℕ × PieceSegment)) (first : ℕ) :
    (numberedEntries segments first).length = segments.length := by
  simp [numberedEntries]

theorem mem_numberedMoves_source {k first : ℕ} {segments : List (ℕ × PieceSegment)}
    {path : List String} (hpath : path ∈ (numberedMoves k segments first).map Prod.fst) :
    ∃ segment ∈ segments, path = pieceDir segment.1 ++ [rungName k, segment.2.name] := by
  obtain ⟨move, hmove, rfl⟩ := List.mem_map.mp hpath
  obtain ⟨numbered, hnumbered, rfl⟩ := List.mem_map.mp hmove
  exact ⟨numbered.1, List.fst_mem_of_mem_zipIdx hnumbered, rfl⟩

theorem mem_numberedMoves_destination {k first : ℕ} {segments : List (ℕ × PieceSegment)}
    {path : List String} (hpath : path ∈ (numberedMoves k segments first).map Prod.snd) :
    ∃ numbered ∈ segments.zipIdx first, path = [rungName k, segmentName ".ts" numbered.2] := by
  obtain ⟨move, hmove, rfl⟩ := List.mem_map.mp hpath
  obtain ⟨numbered, hnumbered, rfl⟩ := List.mem_map.mp hmove
  exact ⟨numbered, hnumbered, rfl⟩

/-- The loop over the segments of a piece is a list of moves. -/
theorem joinSegments_eq (k index : ℕ) (listed : List PieceSegment) (state : JoinState) :
    joinSegments (pieceDir index ++ [rungName k]) [rungName k] state
        (listed.map PieceSegment.entry) =
      (state.work.moveAll (numberedMoves k (listed.map fun segment => (index, segment))
        state.entries.length)).map fun work =>
          ⟨work, state.entries ++ numberedEntries (listed.map fun segment => (index, segment))
            state.entries.length⟩ := by
  induction listed generalizing state with
  | nil => simp [joinSegments, numberedMoves, numberedEntries, FileTree.moveAll]
  | cons segment listed ih =>
      have hmoves : numberedMoves k ((segment :: listed).map fun segment => (index, segment))
          state.entries.length =
          (pieceDir index ++ [rungName k, segment.name],
            [rungName k, segmentName ".ts" state.entries.length]) ::
            numberedMoves k (listed.map fun segment => (index, segment))
              (state.entries.length + 1) := rfl
      have hentries : numberedEntries ((segment :: listed).map fun segment => (index, segment))
          state.entries.length =
          (segment.duration, segmentName ".ts" state.entries.length) ::
            numberedEntries (listed.map fun segment => (index, segment))
              (state.entries.length + 1) := rfl
      rw [hmoves, hentries, List.map_cons, PieceSegment.entry, joinSegments, FileTree.moveAll]
      have hpath : pieceDir index ++ [rungName k] ++ [segment.name] =
          pieceDir index ++ [rungName k, segment.name] := rfl
      have hrung : [rungName k] ++ [segmentName ".ts" state.entries.length] =
          [rungName k, segmentName ".ts" state.entries.length] := rfl
      rw [hpath, hrung]
      cases state.work.move (pieceDir index ++ [rungName k, segment.name])
          [rungName k, segmentName ".ts" state.entries.length] with
      | none => rfl
      | some work =>
          have hlater := ih ⟨work, state.entries ++
            [(segment.duration, segmentName ".ts" state.entries.length)]⟩
          simp only [List.length_append, List.length_singleton, List.append_assoc,
            List.singleton_append] at hlater
          exact hlater

/-! ## The moves are apart -/

/-- A file of a rung is no file of a piece. -/
theorem rungFile_ne_source (k l index : ℕ) (name other : String) :
    [rungName k, name] ≠ pieceDir index ++ [rungName l, other] := fun heq =>
  absurd (congrArg List.length heq) (by simp [pieceDir])

theorem source_inj {i j k l : ℕ} {name other : String}
    (heq : pieceDir i ++ [rungName k, name] = pieceDir j ++ [rungName l, other]) :
    i = j ∧ k = l ∧ name = other := by
  simp only [pieceDir, List.cons_append, List.nil_append, List.cons.injEq, and_true,
    true_and] at heq
  exact ⟨zeroPad_inj heq.1, rungName_inj heq.2.1, heq.2.2⟩

theorem nodup_located {listed : ℕ → List PieceSegment} {indexes : List ℕ}
    (hindexes : indexes.Nodup)
    (hnames : ∀ index ∈ indexes, ((listed index).map PieceSegment.name).Nodup) :
    ((located listed indexes).map fun segment => (segment.1, segment.2.name)).Nodup := by
  induction indexes with
  | nil => simp [located]
  | cons index rest ih =>
      obtain ⟨hnew, hrest⟩ := List.nodup_cons.mp hindexes
      have hfirst := (hnames index (List.mem_cons_self ..)).map
        (f := fun name => (index, name)) fun _ _ heq => (Prod.mk.inj heq).2
      have hlater := ih hrest fun other hother => hnames other (List.mem_cons_of_mem _ hother)
      rw [located, List.flatMap_cons, List.map_append, List.nodup_append]
      rw [List.map_map] at hfirst
      refine ⟨by rw [List.map_map]; exact hfirst, hlater, ?_⟩
      rintro pair hpair _ hother rfl
      -- The first piece's segments carry its index, the others theirs.
      have hindex : pair.1 = index := by
        simp only [List.map_map, List.mem_map, Function.comp_apply] at hpair
        obtain ⟨segment, -, rfl⟩ := hpair
        rfl
      obtain ⟨segment, hsegment, rfl⟩ := List.mem_map.mp hother
      obtain ⟨other, hmem, hin⟩ := List.mem_flatMap.mp hsegment
      obtain ⟨_, -, rfl⟩ := List.mem_map.mp hin
      exact hnew (hindex ▸ hmem)

theorem apart_numberedMoves {listed : ℕ → List PieceSegment} {indexes : List ℕ}
    (hindexes : indexes.Nodup)
    (hnames : ∀ index ∈ indexes, ((listed index).map PieceSegment.name).Nodup) (k first : ℕ) :
    FileTree.Apart (numberedMoves k (located listed indexes) first) := by
  refine ⟨?_, ?_, fun source hsource hdestination => ?_⟩
  · have hsources : (numberedMoves k (located listed indexes) first).map Prod.fst =
        ((located listed indexes).map fun segment => (segment.1, segment.2.name)).map fun pair =>
          pieceDir pair.1 ++ [rungName k, pair.2] := by
      unfold numberedMoves
      rw [List.map_map, List.map_map]
      conv_rhs => rw [← List.zipIdx_map_fst first (located listed indexes), List.map_map]
      rfl
    rw [hsources]
    refine (nodup_located hindexes hnames).map fun pair other heq => ?_
    obtain ⟨hindex, -, hname⟩ := source_inj heq
    exact Prod.ext hindex hname
  · have hdestinations : (numberedMoves k (located listed indexes) first).map Prod.snd =
        (List.range' first (located listed indexes).length).map fun n =>
          [rungName k, segmentName ".ts" n] := by
      unfold numberedMoves
      rw [List.map_map, ← List.zipIdx_map_snd, List.map_map]
      rfl
    rw [hdestinations]
    have hrange : (List.range' first (located listed indexes).length).Nodup := List.nodup_range'
    refine hrange.map fun m n heq => ?_
    exact segmentName_inj (List.cons.inj (List.cons.inj heq).2).1
  · obtain ⟨segment, -, rfl⟩ := mem_numberedMoves_source hsource
    obtain ⟨numbered, -, heq⟩ := mem_numberedMoves_destination hdestination
    exact rungFile_ne_source k k _ _ _ heq.symm

/-- The segments of laid out pieces are there to be moved. -/
theorem PieceAt.segment {work : WorkTree} {k index : ℕ} {files : FileTree String}
    {listed : List PieceSegment} (hat : PieceAt work k index files) (hrung : RungOf files k listed)
    {segment : PieceSegment} (hsegment : segment ∈ listed) :
    work (pieceDir index ++ [rungName k, segment.name]) = some (.text segment.content) := by
  rw [hat segment.name, asWorkFiles, hrung.contents segment hsegment]
  rfl

theorem mem_located {listed : ℕ → List PieceSegment} {indexes : List ℕ}
    {segment : ℕ × PieceSegment} :
    segment ∈ located listed indexes ↔ segment.1 ∈ indexes ∧ segment.2 ∈ listed segment.1 := by
  simp only [located, List.mem_flatMap, List.mem_map]
  constructor
  · rintro ⟨index, hindex, other, hother, rfl⟩
    exact ⟨hindex, hother⟩
  · rintro ⟨hindex, hlisted⟩
    exact ⟨segment.1, hindex, segment.2, hlisted, rfl⟩

theorem PieceAt.source {work : WorkTree} {k first : ℕ} {files : ℕ → FileTree String}
    {listed : ℕ → List PieceSegment} {indexes : List ℕ}
    (hpieces : ∀ index ∈ indexes, PieceAt work k index (files index) ∧
      RungOf (files index) k (listed index)) :
    ∀ source ∈ (numberedMoves k (located listed indexes) first).map Prod.fst,
      work source ≠ none := by
  intro source hsource
  obtain ⟨segment, hsegment, rfl⟩ := mem_numberedMoves_source hsource
  obtain ⟨hindex, hlisted⟩ := mem_located.mp hsegment
  obtain ⟨hat, hrung⟩ := hpieces segment.1 hindex
  rw [hat.segment hrung hlisted]
  exact Option.some_ne_none _

/-! ## One rung -/

/-- The loops over the pieces of a rung are one list of moves. -/
theorem joinPieces_eq {k : ℕ} {files : ℕ → FileTree String} {listed : ℕ → List PieceSegment}
    {indexes : List ℕ} (hindexes : indexes.Nodup) (state : JoinState)
    (hpieces : ∀ index ∈ indexes, PieceAt state.work k index (files index) ∧
      RungOf (files index) k (listed index)) :
    joinPieces k state indexes =
      (state.work.moveAll (numberedMoves k (located listed indexes) state.entries.length)).map
        fun work =>
          ⟨work, state.entries ++ numberedEntries (located listed indexes) state.entries.length⟩ := by
  induction indexes generalizing state with
  | nil => simp [joinPieces, located, numberedMoves, numberedEntries, FileTree.moveAll]
  | cons index rest ih =>
      obtain ⟨hnew, hrest⟩ := List.nodup_cons.mp hindexes
      obtain ⟨hat, hrung⟩ := hpieces index (List.mem_cons_self ..)
      obtain ⟨playlist, hplaylist, hlisting⟩ := hrung.playlist
      have hread : readText state.work (pieceDir index ++ [rungName k] ++ [indexName]) =
          some playlist := by
        rw [List.append_assoc]
        show (state.work (pieceDir index ++ [rungName k, indexName])).bind WorkFile.text? = _
        rw [hat indexName, asWorkFiles, hplaylist]
        rfl
      have hsplit : located listed (index :: rest) =
          ((listed index).map fun segment => (index, segment)) ++ located listed rest := rfl
      -- The first piece is moved; the others are where they were.
      have hfirst : ((listed index).map fun segment => (index, segment)) =
          located listed [index] := by simp [located]
      have hone : ∀ other ∈ [index], PieceAt state.work k other (files other) ∧
          RungOf (files other) k (listed other) := by
        intro other hother
        obtain rfl := List.mem_singleton.mp hother
        exact ⟨hat, hrung⟩
      obtain ⟨work, hwork, -, hkept⟩ := FileTree.moveAll_eq
        (apart_numberedMoves (List.nodup_singleton index)
          (fun other hother => (hone other hother).2.names) k state.entries.length)
        (PieceAt.source hone)
      rw [← hfirst] at hwork hkept
      have hlater : ∀ other ∈ rest, PieceAt work k other (files other) ∧
          RungOf (files other) k (listed other) := by
        intro other hother
        obtain ⟨hthere, hthat⟩ := hpieces other (List.mem_cons_of_mem _ hother)
        refine ⟨fun name => ?_, hthat⟩
        rw [hkept, hthere name]
        · intro hsource
          obtain ⟨segment, hsegment, heq⟩ := mem_numberedMoves_source hsource
          obtain ⟨_, -, rfl⟩ := List.mem_map.mp hsegment
          obtain rfl : other = index := (source_inj heq).1
          exact hnew hother
        · intro hdestination
          obtain ⟨numbered, -, heq⟩ := mem_numberedMoves_destination hdestination
          exact rungFile_ne_source k k _ _ _ heq.symm
      have hstep := ih hrest ⟨work, state.entries ++ numberedEntries
        ((listed index).map fun segment => (index, segment)) state.entries.length⟩ hlater
      simp only [List.length_append, length_numberedEntries] at hstep
      rw [joinPieces, hread, Option.bind_some, segments_of_listing hlisting, Option.bind_some,
        joinSegments_eq, hwork, Option.map_some, Option.bind_some, hstep, hsplit,
        numberedMoves_append, numberedEntries_append, FileTree.moveAll_append, hwork,
        Option.bind_some, List.append_assoc]

/-- A path that joining rung `k` reads or writes. -/
def Touches (k : ℕ) (path : List String) : Prop :=
  (∃ name, path = [rungName k, name]) ∨ ∃ index name, path = pieceDir index ++ [rungName k, name]

theorem Touches.inj {k l : ℕ} {path : List String} (hk : Touches k path) (hl : Touches l path) :
    k = l := by
  rcases hk with ⟨name, rfl⟩ | ⟨index, name, rfl⟩
  · rcases hl with ⟨other, heq⟩ | ⟨index, other, heq⟩
    · exact rungName_inj (List.cons.inj heq).1
    · exact absurd heq (rungFile_ne_source k l index name other)
  · rcases hl with ⟨other, heq⟩ | ⟨other, name', heq⟩
    · exact absurd heq.symm (rungFile_ne_source l k index other name)
    · exact (source_inj heq).2.1

/-- A rung as the join leaves it. -/
structure RungJoined (work : WorkTree) (k : ℕ) (segments : List (ℕ × PieceSegment)) : Prop where
  playlist : work [rungName k, indexName] =
    some (.text (writePlaylist (numberedEntries segments 0)))
  contents : ∀ numbered ∈ segments.zipIdx,
    work [rungName k, segmentName ".ts" numbered.2] = some (.text numbered.1.2.content)
  only : ∀ name, work [rungName k, name] ≠ none → name = indexName ∨
    ∃ numbered ∈ segments.zipIdx, name = segmentName ".ts" numbered.2

theorem RungJoined.congr {work after : WorkTree} {k : ℕ} {segments : List (ℕ × PieceSegment)}
    (hjoined : RungJoined work k segments)
    (hsame : ∀ name, after [rungName k, name] = work [rungName k, name]) :
    RungJoined after k segments where
  playlist := (hsame _).trans hjoined.playlist
  contents := fun numbered hnumbered => (hsame _).trans (hjoined.contents numbered hnumbered)
  only := fun name hname => hjoined.only name (hsame name ▸ hname)

theorem segmentSizes_ne_none {work : WorkTree} {directory : List String}
    {entries : List (ℚ × String)}
    (hentries : ∀ entry ∈ entries, readText work (directory ++ [entry.2]) ≠ none) :
    segmentSizes work directory entries ≠ none := by
  induction entries with
  | nil => exact Option.some_ne_none _
  | cons entry entries ih =>
      obtain ⟨content, hcontent⟩ := Option.ne_none_iff_exists'.mp
        (hentries entry (List.mem_cons_self ..))
      obtain ⟨sizes, hsizes⟩ := Option.ne_none_iff_exists'.mp
        (ih fun other hother => hentries other (List.mem_cons_of_mem _ hother))
      rw [segmentSizes, hcontent, hsizes]
      exact Option.some_ne_none _

theorem rates_eq_some {work : WorkTree} {directory : List String} {entries : List (ℚ × String)}
    (hentries : ∀ entry ∈ entries, readText work (directory ++ [entry.2]) ≠ none) :
    ∃ rate, rates work directory entries = some rate := by
  obtain ⟨sizes, hsizes⟩ := Option.ne_none_iff_exists'.mp (segmentSizes_ne_none hentries)
  rw [rates, hsizes]
  exact ⟨_, rfl⟩

section Rung

variable {videoFacts : String → Option VideoFacts} {files : ℕ → FileTree String}
  {listed : ℕ → List PieceSegment} {count : ℕ}

/-- The files of rung `k` once its segments are moved and its playlist is written. -/
theorem rungJoined_of_moved {work next : WorkTree} {k : ℕ} {segments : List (ℕ × PieceSegment)}
    (hnone : ∀ name, work [rungName k, name] = none)
    (hsource : ∀ segment ∈ segments,
      work (pieceDir segment.1 ++ [rungName k, segment.2.name]) = some (.text segment.2.content))
    (hmoved : ∀ move ∈ numberedMoves k segments 0, next move.2 = work move.1)
    (hkept : ∀ path, path ∉ (numberedMoves k segments 0).map Prod.fst →
      path ∉ (numberedMoves k segments 0).map Prod.snd → next path = work path) :
    RungJoined (next.write [rungName k, indexName]
      (.text (writePlaylist (numberedEntries segments 0)))) k segments := by
  have hindex : ∀ n, [rungName k, segmentName ".ts" n] ≠ [rungName k, indexName] := fun n heq =>
    segmentName_ne_index ".ts" n (List.cons.inj (List.cons.inj heq).2).1
  refine ⟨FileTree.write_self _, fun numbered hnumbered => ?_, fun name hname => ?_⟩
  · rw [FileTree.write_of_ne (hindex numbered.2),
      hmoved _ (List.mem_map.mpr ⟨numbered, hnumbered, rfl⟩)]
    exact hsource numbered.1 (List.fst_mem_of_mem_zipIdx hnumbered)
  · by_cases hplaylist : name = indexName
    · exact Or.inl hplaylist
    · refine Or.inr (by_contra fun hnot => hname ?_)
      rw [FileTree.write_of_ne fun heq =>
        hplaylist (List.cons.inj (List.cons.inj heq).2).1, hkept, hnone]
      · intro hpath
        obtain ⟨segment, -, heq⟩ := mem_numberedMoves_source hpath
        exact rungFile_ne_source k k _ _ _ heq
      · intro hpath
        obtain ⟨numbered, hnumbered, heq⟩ := mem_numberedMoves_destination hpath
        exact hnot ⟨numbered, hnumbered, (List.cons.inj (List.cons.inj heq).2).1⟩

/-- One rung is joined, and nothing is touched but its own files. -/
theorem joinRung_eq {work : WorkTree} {k : ℕ}
    (hpieces : ∀ index < count, PieceAt work k index (files index) ∧
      RungOf (files index) k (listed index))
    (hnone : ∀ name, work [rungName k, name] = none)
    (hsome : located listed (List.range count) ≠ [])
    (hfacts : ∀ index < count, ∀ segment ∈ listed index, videoFacts segment.content ≠ none) :
    ∃ after rung, joinRung videoFacts count work k = some (after, rung) ∧
      RungJoined after k (located listed (List.range count)) ∧
      ∀ path, ¬Touches k path → after path = work path := by
  obtain ⟨segments, hsegments⟩ : ∃ segments, segments = located listed (List.range count) :=
    ⟨_, rfl⟩
  have hrange : ∀ index ∈ List.range count, PieceAt work k index (files index) ∧
      RungOf (files index) k (listed index) := fun index hindex =>
    hpieces index (List.mem_range.mp hindex)
  have hsource : ∀ segment ∈ segments,
      work (pieceDir segment.1 ++ [rungName k, segment.2.name]) =
        some (.text segment.2.content) := by
    intro segment hsegment
    obtain ⟨hindex, hlisted⟩ := mem_located.mp (hsegments ▸ hsegment)
    exact (hrange segment.1 hindex).1.segment (hrange segment.1 hindex).2 hlisted
  obtain ⟨next, hnext, hmoved, hkept⟩ := FileTree.moveAll_eq
    (apart_numberedMoves List.nodup_range (fun index hindex => (hrange index hindex).2.names) k 0)
    (PieceAt.source hrange)
  have hloops := joinPieces_eq List.nodup_range ⟨work, []⟩ hrange
  rw [List.length_nil, hnext, Option.map_some, List.nil_append] at hloops
  rw [← hsegments] at hmoved hkept hloops hsome ⊢
  have hjoined := rungJoined_of_moved hnone hsource hmoved hkept
  obtain ⟨after, hafter⟩ : ∃ after, after = next.write [rungName k, indexName]
      (.text (writePlaylist (numberedEntries segments 0))) := ⟨_, rfl⟩
  rw [← hafter] at hjoined
  have hread : ∀ numbered ∈ segments.zipIdx,
      readText after [rungName k, segmentName ".ts" numbered.2] =
        some numbered.1.2.content := by
    intro numbered hnumbered
    rw [readText, hjoined.contents numbered hnumbered]
    rfl
  obtain ⟨rate, hrate⟩ : ∃ rate,
      rates after [rungName k] (numberedEntries segments 0) = some rate := by
    refine rates_eq_some fun entry hentry => ?_
    obtain ⟨numbered, hnumbered, rfl⟩ := List.mem_map.mp hentry
    rw [List.singleton_append, hread numbered hnumbered]
    exact Option.some_ne_none _
  -- The first segment is there, and its facts are read.
  obtain ⟨first, rest, hcons⟩ := List.exists_cons_of_ne_nil hsome
  have hfirst : (first, 0) ∈ segments.zipIdx := by simp [hcons]
  have hhead : (numberedEntries segments 0).head? =
      some (first.2.duration, segmentName ".ts" 0) := by simp [numberedEntries, hcons]
  obtain ⟨facts, hfirstFacts⟩ : ∃ facts, videoFacts first.2.content = some facts := by
    have hmem : first ∈ located listed (List.range count) := by simp [← hsegments, hcons]
    obtain ⟨hindex, hlisted⟩ := mem_located.mp hmem
    exact Option.ne_none_iff_exists'.mp
      (hfacts first.1 (List.mem_range.mp hindex) first.2 hlisted)
  refine ⟨after, ⟨[], facts, rate.1, rate.2⟩, ?_, hjoined, fun path hpath => ?_⟩
  · rw [joinRung, hloops, Option.bind_some]
    dsimp only
    rw [← hafter, hhead, Option.bind_some, hread (first, 0) hfirst, Option.bind_some, hfirstFacts,
      Option.bind_some, hrate]
    rfl
  · rw [hafter, FileTree.write_of_ne fun heq => hpath (Or.inl ⟨indexName, heq⟩), hkept]
    · intro hmem
      obtain ⟨segment, -, heq⟩ := mem_numberedMoves_source hmem
      exact hpath (Or.inr ⟨segment.1, segment.2.name, heq⟩)
    · intro hmem
      obtain ⟨numbered, -, heq⟩ := mem_numberedMoves_destination hmem
      exact hpath (Or.inl ⟨segmentName ".ts" numbered.2, heq⟩)

end Rung

/-! ## Every rung -/

section Rungs

variable {videoFacts : String → Option VideoFacts} {files : ℕ → FileTree String}
  {listed : ℕ → ℕ → List PieceSegment} {count : ℕ}

/-- What joining the rungs `ks` needs of the pieces `listed index k`. -/
structure RungsReady (videoFacts : String → Option VideoFacts) (files : ℕ → FileTree String)
    (listed : ℕ → ℕ → List PieceSegment) (count : ℕ) (work : WorkTree) (ks : List ℕ) : Prop where
  pieces : ∀ k ∈ ks, ∀ index < count,
    PieceAt work k index (files index) ∧ RungOf (files index) k (listed index k)
  empty : ∀ k ∈ ks, ∀ name, work [rungName k, name] = none
  segments : ∀ k ∈ ks, located (fun index => listed index k) (List.range count) ≠ []
  facts : ∀ k ∈ ks, ∀ index < count, ∀ segment ∈ listed index k,
    videoFacts segment.content ≠ none

/-- The rungs to come are ready as long as their own files are not touched. -/
theorem RungsReady.tail {work after : WorkTree} {k : ℕ} {ks : List ℕ}
    (hready : RungsReady videoFacts files listed count work (k :: ks)) (hnew : k ∉ ks)
    (hkept : ∀ path, ¬Touches k path → after path = work path) :
    RungsReady videoFacts files listed count after ks := by
  have hother : ∀ l ∈ ks, ∀ path, Touches l path → ¬Touches k path := fun l hl path htouch hk =>
    hnew (hk.inj htouch ▸ hl)
  refine ⟨fun l hl index hindex => ?_, fun l hl name => ?_,
    fun l hl => hready.segments l (List.mem_cons_of_mem _ hl),
    fun l hl => hready.facts l (List.mem_cons_of_mem _ hl)⟩
  · obtain ⟨hat, hrung⟩ := hready.pieces l (List.mem_cons_of_mem _ hl) index hindex
    refine ⟨fun name => ?_, hrung⟩
    rw [hkept _ (hother l hl _ (Or.inr ⟨index, name, rfl⟩)), hat name]
  · rw [hkept _ (hother l hl _ (Or.inl ⟨name, rfl⟩))]
    exact hready.empty l (List.mem_cons_of_mem _ hl) name

theorem joinRungs_eq {ks : List ℕ} (hks : ks.Nodup) {work : WorkTree} (rungs : List PieceRung)
    (hready : RungsReady videoFacts files listed count work ks) :
    ∃ after joined, joinRungs videoFacts count work rungs ks = some (after, joined) ∧
      joined.length = rungs.length + ks.length ∧
      (∀ k ∈ ks, RungJoined after k (located (fun index => listed index k) (List.range count))) ∧
      ∀ path, (∀ k ∈ ks, ¬Touches k path) → after path = work path := by
  induction ks generalizing work rungs with
  | nil => exact ⟨work, rungs, rfl, rfl, by simp, fun _ _ => rfl⟩
  | cons k ks ih =>
      obtain ⟨hnew, hrest⟩ := List.nodup_cons.mp hks
      obtain ⟨next, rung, hnext, hrung, hkept⟩ := joinRung_eq
        (hready.pieces k (List.mem_cons_self ..)) (hready.empty k (List.mem_cons_self ..))
        (hready.segments k (List.mem_cons_self ..)) (hready.facts k (List.mem_cons_self ..))
      obtain ⟨after, joined, hafter, hlength, hrungs, hsame⟩ :=
        ih hrest (rungs ++ [rung]) (hready.tail hnew hkept)
      refine ⟨after, joined, ?_, ?_, fun l hl => ?_, fun path hpath => ?_⟩
      · rw [joinRungs, hnext, Option.bind_some, hafter]
      · rw [hlength, List.length_append, List.length_singleton, List.length_cons]
        omega
      · rcases List.mem_cons.mp hl with rfl | hl
        · refine hrung.congr fun name => hsame _ fun other hother htouch => hnew ?_
          rwa [htouch.inj (Or.inl ⟨name, rfl⟩)] at hother
        · exact hrungs l hl
      · rw [hsame path fun other hother => hpath other (List.mem_cons_of_mem _ hother),
          hkept path (hpath k (List.mem_cons_self ..))]

end Rungs

end Worker
end MediaPlayer
