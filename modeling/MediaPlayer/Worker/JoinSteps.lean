import MediaPlayer.Library.Binary64
import MediaPlayer.Library.FileTree
import MediaPlayer.Worker.PlaylistEntries

/-!
# Filling the work directory of a ladder in pieces

`LadderPieces.encode` and `_join` of `app/worker/ladder_pieces.py`, with `_encode_piece`,
`_unpack` and `_rates`, on the files of the work directory.  What FFmpeg writes, what ffprobe
reads and what helpers have stored is given; a step that raises is `none`.

* `fillWorkDir` — the audio, the coordinator's own pieces, every piece unpacked, and the join.
* `rungName_inj` and the lemmas after it — no two of the paths it uses meet.
-/

namespace MediaPlayer
namespace Worker

open Library

/-- A file of the work directory: what it holds, or the files in it if it is an archive. -/
inductive WorkFile
  | text (content : String)
  | archive (files : FileTree String)

def WorkFile.text? : WorkFile → Option String
  | text content => some content
  | archive _ => none

abbrev WorkTree := FileTree WorkFile

/-- Files that are no archives. -/
def asWorkFiles (files : FileTree String) : WorkTree := fun path => (files path).map .text

def readText (work : WorkTree) (path : List String) : Option String :=
  (work path).bind WorkFile.text?

/-! ## The names in the work directory -/

def rungName (k : ℕ) : String := s!"v{k}"

/-- Where `_encode_piece` has FFmpeg write, and what it packs that into. -/
def encodeDir (index : ℕ) : List String := [s!"piece-{zeroPad 4 index}"]

def archivePath (index : ℕ) : List String := [s!"piece-{zeroPad 4 index}.tar"]

def piecesDir : List String := ["pieces"]

def pieceDir (index : ℕ) : List String := ["pieces", zeroPad 4 index]

/-! ## One piece -/

/-- `tar.add(directory, arcname=".")`. -/
def pack (work : WorkTree) (directory : List String) : FileTree String :=
  fun path => readText work (directory ++ path)

/-- `_encode_piece`, of a piece of which FFmpeg writes the files `encoded`. -/
def encodePiece (encoded : ℕ → FileTree String) (work : WorkTree) (index : ℕ) : WorkTree :=
  let written := (work.removeTree (encodeDir index)).extract (encodeDir index)
    (asWorkFiles (encoded index))
  (written.write (archivePath index) (.archive (pack written (encodeDir index)))).removeTree
    (encodeDir index)

/-- `mine.get(index) or self._fetch(job_id, index, work_dir)`: the archive is there, or comes
from storage. -/
def fetchArchive (stored : ℕ → Option (FileTree String)) (mine : List ℕ) (work : WorkTree)
    (index : ℕ) : Option WorkTree :=
  if index ∈ mine then some work
  else (stored index).map fun files => work.write (archivePath index) (.archive files)

/-- `_unpack` below the pieces, and `archive.unlink`. -/
def unpackArchive (work : WorkTree) (index : ℕ) : Option WorkTree :=
  match work (archivePath index) with
  | some (.archive files) =>
      some ((work.extract (pieceDir index) (asWorkFiles files)).unlink (archivePath index))
  | _ => none

/-- The loop of `encode` over the pieces. -/
def unpackPieces (stored : ℕ → Option (FileTree String)) (mine : List ℕ) (work : WorkTree) :
    List ℕ → Option WorkTree
  | [] => some work
  | index :: rest =>
      (fetchArchive stored mine work index).bind fun fetched =>
        (unpackArchive fetched index).bind fun unpacked => unpackPieces stored mine unpacked rest

/-! ## The join -/

/-- The work directory in the loops of `_join`, with the entries of the rung so far. -/
structure JoinState where
  work : WorkTree
  entries : List (ℚ × String)

/-- The loop of `_join` over the segments of one piece. -/
def joinSegments (piece rung : List String) (state : JoinState) :
    List (ℚ × String) → Option JoinState
  | [] => some state
  | (duration, name) :: rest =>
      let joined := segmentName ".ts" state.entries.length
      (state.work.move (piece ++ [name]) (rung ++ [joined])).bind fun work =>
        joinSegments piece rung ⟨work, state.entries ++ [(duration, joined)]⟩ rest

/-- The loop of `_join` over the pieces of rung `k`. -/
def joinPieces (k : ℕ) (state : JoinState) : List ℕ → Option JoinState
  | [] => some state
  | index :: rest =>
      let piece := pieceDir index ++ [rungName k]
      (readText state.work (piece ++ [indexName])).bind fun playlist =>
        (segments playlist).bind fun listed =>
          (joinSegments piece [rungName k] state listed).bind fun next => joinPieces k next rest

/-- The sizes `_rates` reads, in bits. -/
def segmentSizes (work : WorkTree) (directory : List String) :
    List (ℚ × String) → Option (List ℕ)
  | [] => some []
  | entry :: entries =>
      (readText work (directory ++ [entry.2])).bind fun content =>
        (segmentSizes work directory entries).map fun sizes => content.utf8ByteSize * 8 :: sizes

/-- `bits / s`, an integer by a float. -/
def bitRate (pair : ℕ × ℚ) : ℚ := binary64 (binary64 pair.1 / pair.2)

/-- The bits per second of the segments that are long enough. -/
def segmentRates (enough : ℚ → Bool) (pairs : List (ℕ × ℚ)) : List ℚ :=
  (pairs.filter fun pair => enough pair.2).map bitRate

/-- The peak of `_rates`: over the segments of a second or more, else over those that last. -/
def peakRate (pairs : List (ℕ × ℚ)) : ℚ :=
  let whole := segmentRates (fun seconds => decide (1 ≤ seconds)) pairs
  let positive := segmentRates (fun seconds => decide (0 < seconds)) pairs
  (if whole ≠ [] then whole else if positive ≠ [] then positive else [0]).max?.getD 0

/-- `sum(seconds) or 1`. -/
def totalSeconds (seconds : List ℚ) : ℚ :=
  if floatSum seconds = 0 then 1 else floatSum seconds

/-- `_rates`. -/
def rates (work : WorkTree) (directory : List String) (entries : List (ℚ × String)) :
    Option (ℕ × ℕ) :=
  (segmentSizes work directory entries).map fun sizes =>
    -- `_segments` reads floats.
    let seconds := entries.map fun entry => binary64 entry.1
    (⌊peakRate (sizes.zip seconds)⌋₊, ⌊bitRate (sizes.sum, totalSeconds seconds)⌋₊)

/-- One rung of `_join`.  A rung without a segment has no first one to look at: `entries[0]`
raises. -/
def joinRung (videoFacts : String → Option VideoFacts) (count : ℕ) (work : WorkTree) (k : ℕ) :
    Option (WorkTree × PieceRung) :=
  (joinPieces k ⟨work, []⟩ (List.range count)).bind fun state =>
    let listed := state.work.write [rungName k, indexName] (.text (writePlaylist state.entries))
    state.entries.head?.bind fun first =>
      (readText listed [rungName k, first.2]).bind fun segment =>
        (videoFacts segment).bind fun facts =>
          -- `write_master` reads of a rung only what is measured here.
          (rates listed [rungName k] state.entries).map fun rate =>
            (listed, ⟨[], facts, rate.1, rate.2⟩)

def joinRungs (videoFacts : String → Option VideoFacts) (count : ℕ) (work : WorkTree)
    (rungs : List PieceRung) : List ℕ → Option (WorkTree × List PieceRung)
  | [] => some (work, rungs)
  | k :: rest =>
      (joinRung videoFacts count work k).bind fun joined =>
        joinRungs videoFacts count joined.1 (rungs ++ [joined.2]) rest

/-- `_join`, of `count` pieces in `n` rungs; the audio is the variant after them. -/
def joinLadder (videoFacts : String → Option VideoFacts) (n count : ℕ) (work : WorkTree) :
    Option WorkTree :=
  (joinRungs videoFacts count work [] (List.range n)).bind fun joined =>
    (readText joined.1 [rungName n, indexName]).bind fun playlist =>
      (segments playlist).bind fun audio =>
        (rates joined.1 [rungName n] audio).map fun sound =>
          (joined.1.write [masterPlaylistName]
            (.text (writeMaster joined.2 sound (variantFile n indexName)))).removeTree piecesDir

/-- `encode`, from the audio to the join: the work directory is new, and the loop has ended
with the pieces `mine` encoded here. -/
def fillWorkDir (videoFacts : String → Option VideoFacts) (n count : ℕ) (audio : FileTree String)
    (encoded : ℕ → FileTree String) (stored : ℕ → Option (FileTree String)) (mine : List ℕ) :
    Option WorkTree :=
  let begun := FileTree.empty.extract [rungName n] (asWorkFiles audio)
  (unpackPieces stored mine (mine.foldl (encodePiece encoded) begun) (List.range count)).bind
    (joinLadder videoFacts n count)

/-! ## The paths do not meet -/

theorem toList_rungName (k : ℕ) : (rungName k).toList = 'v' :: k.repr.toList := by
  simp [rungName, toString]

theorem rungName_inj {k l : ℕ} (heq : rungName k = rungName l) : k = l := by
  have hchars := congrArg String.toList heq
  rw [toList_rungName, toList_rungName] at hchars
  exact eq_of_repr (List.cons.inj hchars).2

theorem rungName_ne {k : ℕ} {name : String} (hfirst : name.toList.head? ≠ some 'v') :
    rungName k ≠ name := by
  rintro rfl
  rw [toList_rungName] at hfirst
  exact hfirst rfl

theorem zeroPad_inj {width m n : ℕ} (heq : zeroPad width m = zeroPad width n) : m = n := by
  have hvalue (n : ℕ) : Nat.ofDigitChars 10 (zeroPad width n).toList 0 = n := by
    rw [zeroPad, String.toList_ofList, List.leftpad, Nat.ofDigitChars_append,
      Nat.ofDigitChars_replicate_zero, Nat.mul_zero, Nat.ofDigitChars_ten_toDigits]
  rw [← hvalue m, heq, hvalue n]

theorem segmentName_inj {ending : String} {m n : ℕ}
    (heq : segmentName ending m = segmentName ending n) : m = n := by
  have hchars := congrArg String.toList heq
  simp only [toList_segmentName, List.cons.injEq, true_and] at hchars
  exact zeroPad_inj (String.toList_inj.mp (List.append_cancel_right hchars))

theorem isDigit_of_mem_zeroPad {c : Char} {width n : ℕ} (hc : c ∈ (zeroPad width n).toList) :
    c.isDigit = true :=
  isDigit_of_mem_leftpad (by simpa [zeroPad] using hc)

theorem toList_pieceName (index : ℕ) :
    s!"piece-{zeroPad 4 index}".toList = "piece-".toList ++ (zeroPad 4 index).toList := by
  simp [toString]

theorem toList_archiveName (index : ℕ) : s!"piece-{zeroPad 4 index}.tar".toList =
    "piece-".toList ++ ((zeroPad 4 index).toList ++ '.' :: "tar".toList) := by
  simp [toString]

theorem archivePath_inj {i j : ℕ} (heq : archivePath i = archivePath j) : i = j := by
  have hchars := congrArg String.toList (List.cons.inj heq).1
  rw [toList_archiveName, toList_archiveName] at hchars
  exact zeroPad_inj (String.toList_inj.mp
    (List.append_cancel_right (List.append_cancel_left hchars)))

/-- An archive is none of the directories it is packed from. -/
theorem not_encodeDir_prefix_archivePath (i j : ℕ) : ¬encodeDir i <+: archivePath j := by
  intro hprefix
  have hchars := congrArg String.toList (List.cons_prefix_cons.mp hprefix).1
  rw [toList_pieceName, toList_archiveName] at hchars
  have hdot : '.' ∈ (zeroPad 4 i).toList := by
    rw [List.append_cancel_left hchars]
    simp
  exact absurd (isDigit_of_mem_zeroPad hdot) (by decide)

theorem pieceDir_prefix_inj {i j : ℕ} {path : List String} (hi : pieceDir i <+: path)
    (hj : pieceDir j <+: path) : i = j := by
  obtain ⟨rest, rfl⟩ := hi
  exact (zeroPad_inj (List.cons_prefix_cons.mp (List.cons_prefix_cons.mp hj).2).1).symm

/-- The archives and what they are packed from lie beside the pieces and the rungs. -/
theorem ne_pieceName {name : String} (hname : ¬"piece-".toList <+: name.toList) (index : ℕ) :
    name ≠ s!"piece-{zeroPad 4 index}" ∧ name ≠ s!"piece-{zeroPad 4 index}.tar" := by
  constructor
  · rintro rfl
    rw [toList_pieceName] at hname
    exact hname (List.prefix_append ..)
  · rintro rfl
    rw [toList_archiveName] at hname
    exact hname (List.prefix_append ..)

theorem rungName_ne_pieceName (k index : ℕ) :
    rungName k ≠ s!"piece-{zeroPad 4 index}" ∧ rungName k ≠ s!"piece-{zeroPad 4 index}.tar" := by
  refine ne_pieceName (fun hprefix => ?_) index
  rw [toList_rungName] at hprefix
  exact absurd (List.cons_prefix_cons.mp hprefix).1 (by decide)

end Worker
end MediaPlayer
