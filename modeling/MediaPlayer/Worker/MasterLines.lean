import MediaPlayer.Library.StableSort
import MediaPlayer.Worker.VideoLines

/-!
# The lines of a master, as the passes over it leave them

`write_master` leaves a blank line behind each rung, `label_frame_rates` keeps these, and
`add_to_master` drops them.  Between blank lines all three keep every STREAM-INF line next to
its URI.

* `LaidOut` — entries with blank lines between them at most.
* `entriesOf_laidOut` — a text that is laid out is read as its head and its entries.
* `LaidOut.followed` — every STREAM-INF line stands directly before its own URI.
* `pipelineLines` — the file of a ladder, labelled, with some renditions listed.
-/

namespace MediaPlayer
namespace Worker

open Library

/-- Lines that are these entries, each tag directly before its URI. -/
inductive LaidOut : List (String × String) → List String → Prop
  | nil : LaidOut [] []
  | blank {entries : List (String × String)} {lines : List String} (h : LaidOut entries lines) :
      LaidOut entries ("" :: lines)
  | entry {entries : List (String × String)} {lines : List String} (info uri : String)
      (h : LaidOut entries lines) : LaidOut ((info, uri) :: entries) (info :: uri :: lines)

/-- A line that `_entries` reads as it is written. -/
def Readable (line : String) : Prop := strip line ≠ "" ∧ BreakFree line

/-- An entry whose tag and whose URI are told apart. -/
structure PlainEntry (entry : String × String) : Prop where
  tag : startsWith entry.1 streamInf = true
  uri : startsWith entry.2 streamInf = false
  readable : Readable entry.1 ∧ Readable entry.2

/-- The number of STREAM-INF lines among these. -/
def countTags (lines : List String) : ℕ := lines.countP fun line => startsWith line streamInf

/-! ## Reading a file that is laid out -/

section

variable {entries : List (String × String)} {head lines : List String}

theorem laidOut_masterLines (entries : List (String × String)) :
    LaidOut entries (masterLines [] entries) := by
  induction entries with
  | nil => exact .nil
  | cons entry entries ih => exact .entry entry.1 entry.2 ih

theorem LaidOut.append {others : List (String × String)} {more : List String}
    (hlines : LaidOut entries lines) (hmore : LaidOut others more) :
    LaidOut (entries ++ others) (lines ++ more) := by
  induction hlines with
  | nil => exact hmore
  | blank _ ih => exact .blank ih
  | entry info uri _ ih => exact .entry info uri ih

/-- Without its blank lines the file is what `add_to_master` would write. -/
theorem LaidOut.nonblank (hlines : LaidOut entries lines)
    (hentries : ∀ entry ∈ entries, PlainEntry entry) :
    (lines.filter fun line => strip line ≠ "") = masterLines [] entries := by
  induction hlines with
  | nil => rfl
  -- `add_to_master` drops it, and the file it writes has none.
  | blank _ ih =>
      have hblank : strip "" = "" := by decide
      rw [List.filter_cons_of_neg (by simp [hblank])]
      exact ih hentries
  | entry info uri _ ih =>
      obtain ⟨hinfo, huri⟩ := (hentries (info, uri) (List.mem_cons_self ..)).readable
      rw [List.filter_cons_of_pos (by simpa using hinfo.1),
        List.filter_cons_of_pos (by simpa using huri.1),
        ih fun entry hentry => hentries entry (List.mem_cons_of_mem _ hentry)]
      rfl

theorem LaidOut.breakFree (hlines : LaidOut entries lines)
    (hentries : ∀ entry ∈ entries, PlainEntry entry) : ∀ line ∈ lines, BreakFree line := by
  induction hlines with
  | nil => simp
  | blank _ ih =>
      have hblank : BreakFree "" := by decide
      exact List.forall_mem_cons.mpr ⟨hblank, ih hentries⟩
  | entry info uri _ ih =>
      obtain ⟨hinfo, huri⟩ := (hentries (info, uri) (List.mem_cons_self ..)).readable
      have hrest := ih fun entry hentry => hentries entry (List.mem_cons_of_mem _ hentry)
      exact List.forall_mem_cons.mpr ⟨hinfo.2, List.forall_mem_cons.mpr ⟨huri.2, hrest⟩⟩

theorem LaidOut.mem_lines (hlines : LaidOut entries lines) {line : String} (hline : line ∈ lines) :
    line = "" ∨ ∃ entry ∈ entries, line = entry.1 ∨ line = entry.2 := by
  induction hlines with
  | nil => exact absurd hline List.not_mem_nil
  | blank _ ih =>
      rcases List.mem_cons.mp hline with rfl | hline
      · exact .inl rfl
      · exact ih hline
  | entry info uri _ ih =>
      rcases List.mem_cons.mp hline with rfl | hline
      · exact .inr ⟨(line, uri), List.mem_cons_self .., .inl rfl⟩
      · rcases List.mem_cons.mp hline with rfl | hline
        · exact .inr ⟨(info, line), List.mem_cons_self .., .inr rfl⟩
        · refine (ih hline).imp_right ?_
          rintro ⟨entry, hentry, heq⟩
          exact ⟨entry, List.mem_cons_of_mem _ hentry, heq⟩

theorem LaidOut.mem_uri (hlines : LaidOut entries lines) {entry : String × String}
    (hentry : entry ∈ entries) : entry.2 ∈ lines := by
  induction hlines with
  | nil => exact absurd hentry List.not_mem_nil
  | blank _ ih => exact List.mem_cons_of_mem _ (ih hentry)
  | entry info uri _ ih =>
      rcases List.mem_cons.mp hentry with rfl | hentry
      · exact List.mem_cons_of_mem _ (List.mem_cons_self ..)
      · exact List.mem_cons_of_mem _ (List.mem_cons_of_mem _ (ih hentry))

/-- The file that is laid out is read as it was written. -/
theorem entriesOf_laidOut (hlines : LaidOut entries lines)
    (hentries : ∀ entry ∈ entries, PlainEntry entry)
    (hhead : ∀ line ∈ head, startsWith line streamInf = false ∧ Readable line) (hne : head ≠ []) :
    splitLines (joinLines (head ++ lines)) = head ++ lines ∧
      entriesOf (joinLines (head ++ lines)) = (head, entries) := by
  have hsplit : splitLines (joinLines (head ++ lines)) = head ++ lines := by
    refine splitLines_joinLines (by simp [hne]) fun line hline => ?_
    rcases List.mem_append.mp hline with hline | hline
    · exact (hhead line hline).2.2
    · exact hlines.breakFree hentries line hline
  refine ⟨hsplit, ?_⟩
  have hkept : (head.filter fun line => strip line ≠ "") = head :=
    List.filter_eq_self.mpr fun line hline => decide_eq_true (hhead line hline).2.1
  have hread : playlistLines (joinLines (head ++ lines)) = masterLines head entries := by
    unfold playlistLines
    rw [hsplit, List.filter_append, hkept, hlines.nonblank hentries]
    rfl
  rw [entriesOf_eq, hread]
  exact entriesFrom_masterLines (fun line hline => (hhead line hline).1)
    fun entry hentry => (hentries entry hentry).tag

/-- A STREAM-INF line stands directly before the URI of its own entry. -/
theorem LaidOut.followed (hlines : LaidOut entries lines)
    (hentries : ∀ entry ∈ entries, PlainEntry entry) {before after : List String} {line : String}
    (hsplit : lines = before ++ line :: after) (htag : startsWith line streamInf = true) :
    ∃ uri rest, after = uri :: rest ∧ entries[countTags before]? = some (line, uri) := by
  have hempty : startsWith "" streamInf = false := by decide
  -- Two lines of an entry go at once, so that what stands before may end between them.
  induction hlines generalizing before with
  | nil => exact absurd hsplit (by simp)
  | blank _ ih =>
      cases before with
      | nil =>
          obtain ⟨rfl, -⟩ := List.cons.inj hsplit
          exact absurd (hempty.symm.trans htag) (by decide)
      | cons first before =>
          obtain ⟨rfl, hbehind⟩ := List.cons.inj hsplit
          obtain ⟨uri, rest, hafter, hentry⟩ := ih hentries hbehind
          refine ⟨uri, rest, hafter, ?_⟩
          rwa [countTags, List.countP_cons_of_neg (by simp [hempty])]
  | @entry entries lines info uri _ ih =>
      have hplain := hentries (info, uri) (List.mem_cons_self ..)
      cases before with
      | nil =>
          obtain ⟨rfl, rfl⟩ := List.cons.inj hsplit
          exact ⟨uri, lines, rfl, rfl⟩
      | cons first before =>
          obtain ⟨rfl, htail⟩ := List.cons.inj hsplit
          cases before with
          | nil =>
              -- The line would be the URI of the entry, which is no STREAM-INF line.
              obtain ⟨rfl, -⟩ := List.cons.inj htail
              exact absurd (hplain.uri.symm.trans htag) (by decide)
          | cons second before =>
              obtain ⟨rfl, hbehind⟩ := List.cons.inj htail
              obtain ⟨next, rest, hafter, hentry⟩ := ih
                (fun entry hentry => hentries entry (List.mem_cons_of_mem _ hentry)) hbehind
              refine ⟨next, rest, hafter, ?_⟩
              have hcount : countTags (info :: uri :: before) = countTags before + 1 := by
                unfold countTags
                rw [List.countP_cons_of_pos (by simpa using hplain.tag),
                  List.countP_cons_of_neg (by simp [hplain.uri])]
              rw [hcount, List.getElem?_cons_succ]
              exact hentry

end

/-! ## The file of a ladder with some renditions -/

/-- The first lines of `write_master`. -/
def masterHead (count : ℕ) : List String :=
  ["#EXTM3U", "#EXT-X-VERSION:3", audioLine count (variantFile count indexName)]

/-- The entries of the rungs, labelled. -/
def rungEntries (rungs : List PieceRung) (audio : ℕ × ℕ) (rate : ℚ) : List (String × String) :=
  rungs.zipIdx.map fun rung =>
    (labelFrameRate rate (rungLine rung.1 audio), variantFile rung.2 indexName)

/-- The entry of the audio alone. -/
def soundEntry (count : ℕ) (audio : ℕ × ℕ) : String × String :=
  (soundLine audio, variantFile count indexName)

/-- The ladder's own entries, the audio alone last. -/
def ladderEntries (rungs : List PieceRung) (audio : ℕ × ℕ) (rate : ℚ) : List (String × String) :=
  rungEntries rungs audio rate ++ [soundEntry rungs.length audio]

/-- The entries of a batch, in the audio group and with the rate of this line. -/
def batchEntries (first : String) (batch : List Listed) : List (String × String) :=
  batch.map fun listed => (listed.info first, listed.uri)

/-- The entries of the ladder with these renditions: HDR, then AV1, then the ladder's own. -/
def pipelineEntries (rungs : List PieceRung) (audio : ℕ × ℕ) (rate : ℚ)
    (batch : RenditionKind → List Listed) : List (String × String) :=
  batchEntries (firstVideo (ladderEntries rungs audio rate)) (batch .hdr) ++
    (batchEntries (firstVideo (ladderEntries rungs audio rate)) (batch .av1) ++
      ladderEntries rungs audio rate)

/-- The lines of the ladder's own entries, with the blank lines of `write_master`. -/
def ladderLines (rungs : List PieceRung) (audio : ℕ × ℕ) (rate : ℚ) : List String :=
  (rungs.zipIdx.flatMap fun rung =>
    [labelFrameRate rate (rungLine rung.1 audio), variantFile rung.2 indexName, ""]) ++
    [soundLine audio, variantFile rungs.length indexName]

/-- The lines behind the head; `add_to_master` drops the blank ones. -/
def pipelineLines (rungs : List PieceRung) (audio : ℕ × ℕ) (rate : ℚ)
    (batch : RenditionKind → List Listed) : List String :=
  if batch .hdr = [] ∧ batch .av1 = [] then ladderLines rungs audio rate
  else masterLines [] (pipelineEntries rungs audio rate batch)

/-- The file of a ladder with these renditions. -/
def pipelineFile (rungs : List PieceRung) (audio : ℕ × ℕ) (rate : ℚ)
    (batch : RenditionKind → List Listed) : String :=
  joinLines (masterHead rungs.length ++ pipelineLines rungs audio rate batch)

section

variable {rungs : List PieceRung} {audio : ℕ × ℕ} {rate : ℚ}
  {batch : RenditionKind → List Listed}

theorem laidOut_ladderLines (rungs : List PieceRung) (audio : ℕ × ℕ) (rate : ℚ) :
    LaidOut (ladderEntries rungs audio rate) (ladderLines rungs audio rate) := by
  refine LaidOut.append ?_ (.entry _ _ .nil)
  unfold rungEntries
  induction rungs.zipIdx with
  | nil => exact .nil
  | cons rung rest ih => exact .entry _ _ (.blank ih)

/-- Whatever is listed, the lines behind the head are laid out. -/
theorem laidOut_pipelineLines (rungs : List PieceRung) (audio : ℕ × ℕ) (rate : ℚ)
    (batch : RenditionKind → List Listed) :
    LaidOut (pipelineEntries rungs audio rate batch) (pipelineLines rungs audio rate batch) := by
  unfold pipelineLines
  split
  · next hnone =>
      rw [pipelineEntries, hnone.1, hnone.2]
      exact laidOut_ladderLines rungs audio rate
  · exact laidOut_masterLines _

end

end Worker
end MediaPlayer
