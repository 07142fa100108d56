import MediaPlayer.Api.Hls
import MediaPlayer.Worker.LadderJoin
import MediaPlayer.Worker.PublishedMaster

/-!
# Everything published can be served

The files a ladder's build and the renditions of its video upload, and the URIs in their
playlists, against the paths the API accepts.

* `LadderEncode`, `RenditionShape` — what the encodes leave: of a ladder in one run FFmpeg's
  own layout, of one in pieces what the join writes.
* `published_accepted_iff` — all of it is accepted exactly if no rendition is built of a source
  lower than 100 pixels.
-/

namespace MediaPlayer
namespace Api

open Library Worker

/-- What is uploaded under some paths leads to: these paths, and where the URIs of the
playlists among them lead. -/
def publishedPaths (files : List (String × String)) : List String :=
  files.map (·.1) ++ files.flatMap fun file =>
    if endsWith file.1 ".m3u8" then (namedUris file.2).map (resolveUri file.1) else []

/-- What the encode of a ladder leaves, in one run or joined from pieces. -/
inductive LadderEncode : ℕ → List (String × String) → Prop
  | oneRun {count : ℕ} {files : List (String × String)} (hshape : LadderShape count files) :
      LadderEncode count files
  | pieces {rungs : List PieceRung} {audio : List (String × String)}
      (haudio : VariantShape ".ts" audio) (rates : ℕ × ℕ) :
      LadderEncode rungs.length (joinedFiles rungs audio rates)

/-- What the encode of a rendition's rung leaves: a playlist, an init file, and fewer than a
million segments. -/
structure RenditionShape (files : List (String × String)) : Prop where
  names : ∀ file ∈ files, file.1 = indexName ∨ file.1 = "init.mp4" ∨
    ∃ n < 1000000, file.1 = segmentName ".m4s" n
  playlist : ∀ file ∈ files, file.1 = indexName → ∀ uri ∈ namedUris file.2,
    uri = "init.mp4" ∨ ∃ n < 1000000, uri = segmentName ".m4s" n
  hasPlaylist : ∃ text, (indexName, text) ∈ files

/-- A run of the rendition builder: the kind, and for each rung what its encode leaves and the
bandwidth that is measured of it. -/
structure RenditionRun where
  kind : RenditionKind
  encode : ℕ → List (String × String)
  bandwidth : ℕ → ℕ × ℕ

/-- The files of a run's rungs. -/
def rungUploads (probe : SourceProbe) (run : RenditionRun) : List (String × String) :=
  (rungsFor run.kind probe.height).flatMap fun rung =>
    (run.encode rung).map fun file => (renditionFile run.kind rung file.1, file.2)

/-- The master a run writes, from the one it finds. -/
def extendedMaster (probe : SourceProbe) (run : RenditionRun) (master : String) : String :=
  ((rungsFor run.kind probe.height).filterMap fun rung =>
    listedRung run.kind probe rung (run.bandwidth rung)).foldl addToMaster master

/-- Whether a run builds its kind: it is not listed, and the source gets it. -/
def RenditionRun.builds (run : RenditionRun) (probe : SourceProbe) (master : String) : Bool :=
  !contains master (run.kind.name ++ "/") && (planRendition run.kind probe 1080).isSome

/-- What the renditions of a video upload, one after the other. -/
def renditionUploads (probe : SourceProbe) (master : String) :
    List RenditionRun → List (String × String)
  | [] => []
  | run :: runs =>
      if run.builds probe master then
        rungUploads probe run ++ (masterPlaylistName, extendedMaster probe run master) ::
          renditionUploads probe (extendedMaster probe run master) runs
      else renditionUploads probe master runs

/-! ## Paths that are accepted -/

/-- The API serves the path. -/
def Accepted (path : String) : Prop := safeHlsPath path = some path

theorem accepted_master : Accepted masterPlaylistName := by
  have hmaster : "master".toList ⊆ nameChars := by decide
  exact safeHlsPath_iff.mpr (Or.inl (rmatch_ladderPath.mpr
    ⟨[], "master".toList, "m3u8".toList, rfl, Or.inl rfl, ⟨by decide, hmaster⟩, Or.inl rfl⟩))

theorem digits_mem_nameChars {c : Char} (hc : c ∈ digitChars) : c ∈ nameChars := by
  have hsubset : digitChars ⊆ nameChars := by decide
  exact hsubset hc

theorem accepted_variantFile {k : ℕ} (hk : k < 100) {name : String}
    (hname : name = indexName ∨ ∃ n, name = segmentName ".ts" n) :
    Accepted (variantFile k name) := by
  obtain ⟨stem, ending, hchars, hstem, hending⟩ : ∃ stem ending : List Char,
      name.toList = stem ++ '.' :: ending ∧ (stem ≠ [] ∧ ∀ c ∈ stem, c ∈ nameChars) ∧
        (ending = "m3u8".toList ∨ ending = "ts".toList) := by
    rcases hname with rfl | ⟨n, rfl⟩
    · have hindex : "index".toList ⊆ nameChars := by decide
      exact ⟨"index".toList, "m3u8".toList, rfl, ⟨by decide, hindex⟩, Or.inl rfl⟩
    · have hseg : "seg".toList ⊆ nameChars := by decide
      refine ⟨"seg".toList ++ (zeroPad 5 n).toList, "ts".toList, by simp [toList_segmentName],
        ⟨by simp, fun c hc => ?_⟩, Or.inr rfl⟩
      rcases List.mem_append.mp hc with hc | hc
      · exact hseg hc
      · exact digits_mem_nameChars (zeroPad_mem_digitChars 5 n c hc)
  refine safeHlsPath_iff.mpr (Or.inl (rmatch_ladderPath.mpr
    ⟨'v' :: (k.repr.toList ++ ['/']), stem, ending, ?_, Or.inr ⟨_, rfl, ?_, ?_, ?_⟩,
      hstem, hending⟩))
  · rw [toList_variantFile, hchars]
    simp
  · rw [Nat.toList_repr]
    exact Nat.length_toDigits_pos
  · rw [Nat.toList_repr]
    exact length_toDigits_le (by decide) (by omega)
  · rw [Nat.toList_repr]
    exact toDigits_mem_digitChars k

theorem renditionName_of_shape {name : String}
    (hname : name = indexName ∨ name = "init.mp4" ∨ ∃ n < 1000000, name = segmentName ".m4s" n) :
    RenditionName name.toList := by
  rcases hname with rfl | rfl | ⟨n, hn, rfl⟩
  · exact Or.inl rfl
  · exact Or.inr (Or.inl rfl)
  · have hlength : (Nat.toDigits 10 n).length ≤ 6 := length_toDigits_le (by decide) (by omega)
    refine Or.inr (Or.inr ⟨(zeroPad 5 n).toList, by simp [toList_segmentName], ?_, ?_,
      zeroPad_mem_digitChars 5 n⟩)
    · simp only [zeroPad, String.toList_ofList, List.length_leftpad]
      omega
    · simp only [zeroPad, String.toList_ofList, List.length_leftpad]
      omega

/-- A file of a rendition is accepted exactly in the folder of a height of three or four
digits. -/
theorem accepted_renditionFile_iff {kind : RenditionKind} {rung : ℕ} {name : String}
    (hname : RenditionName name.toList) :
    Accepted (renditionFile kind rung name) ↔ 100 ≤ rung ∧ rung < 10000 := by
  have hkinds : ∀ kind : RenditionKind, '/' ∉ kind.name.toList := by
    intro kind
    cases kind <;> decide
  have hrungs : '/' ∉ rung.repr.toList := not_mem_repr (by decide) rung
  have hdigits : '/' ∉ digitChars := by decide
  have hthree : 3 ≤ (Nat.toDigits 10 rung).length ↔ 100 ≤ rung := by
    have := Nat.length_toDigits_le_iff (b := 10) (n := rung) (k := 2) (by decide) (by decide)
    omega
  have hfour : (Nat.toDigits 10 rung).length ≤ 4 ↔ rung < 10000 :=
    Nat.length_toDigits_le_iff (by decide) (by decide)
  rw [Accepted, safeHlsPath_iff, rmatch_ladderPath, rmatch_renditionPath, toList_renditionFile]
  constructor
  · rintro (⟨folder, stem, ending, hchars, hfolder, ⟨-, hstem⟩, hending⟩ |
      ⟨kindChars, height, rest, hchars, hkind, ⟨hleast, hmost, hheight⟩, -⟩)
    · -- A path of the ladder has at most one slash.
      have hcount := congrArg (List.count '/') hchars
      have hnone : '/' ∉ nameChars := by decide
      have hstemCount : stem.count '/' = 0 :=
        List.count_eq_zero.mpr fun hmem => hnone (hstem '/' hmem)
      have hendingCount : ending.count '/' = 0 := by
        rcases hending with rfl | rfl <;> decide
      have hfolderCount : folder.count '/' ≤ 1 := by
        rcases hfolder with rfl | ⟨digits, rfl, -, -, hall⟩
        · simp
        · have hzero : digits.count '/' = 0 :=
            List.count_eq_zero.mpr fun hmem => hdigits (hall '/' hmem)
          simp [hzero]
      simp only [List.count_append, List.count_cons, List.count_eq_zero.mpr (hkinds kind),
        List.count_eq_zero.mpr hrungs, hstemCount, hendingCount] at hcount
      simp at hcount
      omega
    · have hkindChars : '/' ∉ kindChars := by
        rcases hkind with rfl | rfl <;> decide
      obtain ⟨-, hrest⟩ := append_cons_inj (hkinds kind) hkindChars hchars
      obtain ⟨hrung, -⟩ := append_cons_inj hrungs (fun hmem => hdigits (hheight '/' hmem)) hrest
      rw [← hrung, Nat.toList_repr] at hleast hmost
      exact ⟨hthree.mp hleast, hfour.mp hmost⟩
  · rintro ⟨hleast, hmost⟩
    refine Or.inr ⟨_, rung.repr.toList, name.toList, rfl, ?_, ⟨?_, ?_, ?_⟩, hname⟩
    · cases kind
      · exact Or.inl rfl
      · exact Or.inr rfl
    · rw [Nat.toList_repr]
      exact hthree.mpr hleast
    · rw [Nat.toList_repr]
      exact hfour.mpr hmost
    · rw [Nat.toList_repr]
      exact toDigits_mem_digitChars rung

/-! ## What is published -/

/-- The file's path is accepted, and so is what it names if it is a playlist. -/
def AcceptedFile (file : String × String) : Prop :=
  Accepted file.1 ∧ (endsWith file.1 ".m3u8" = true →
    ∀ uri ∈ namedUris file.2, Accepted (resolveUri file.1 uri))

theorem publishedPaths_accepted_iff {files : List (String × String)} :
    (∀ path ∈ publishedPaths files, Accepted path) ↔ ∀ file ∈ files, AcceptedFile file := by
  simp only [publishedPaths, List.mem_append, List.mem_map, List.mem_flatMap]
  constructor
  · intro hall file hfile
    refine ⟨hall _ (Or.inl ⟨file, hfile, rfl⟩), fun hplaylist uri huri => ?_⟩
    refine hall _ (Or.inr ⟨file, hfile, ?_⟩)
    rw [if_pos hplaylist]
    exact List.mem_map_of_mem huri
  · rintro hall path (⟨file, hfile, rfl⟩ | ⟨file, hfile, hpath⟩)
    · exact (hall file hfile).1
    · split_ifs at hpath with hplaylist
      · obtain ⟨uri, huri, rfl⟩ := List.mem_map.mp hpath
        exact (hall file hfile).2 hplaylist uri huri
      · simp at hpath

theorem acceptedFile_master (text : String)
    (huris : ∀ uri ∈ namedUris text, Accepted uri) :
    AcceptedFile (masterPlaylistName, text) :=
  ⟨accepted_master, fun _ uri huri => by
    rw [resolveUri_master]
    exact huris uri huri⟩

/-- A playlist's path ends in an 8. -/
theorem not_playlist {path : String} (before : List Char) (c : Char)
    (hpath : path.toList = before ++ [c]) (hc : c ≠ '8') : endsWith path ".m3u8" = false := by
  refine (Bool.not_eq_true _).mp fun hends => hc ?_
  obtain ⟨stem, hstem⟩ : ".m3u8".toList <:+ path.toList := List.isSuffixOf_iff_suffix.mp hends
  have hlast := congrArg List.getLast? (hstem.trans hpath)
  simpa [List.getLast?_append] using hlast.symm

theorem resolveUri_variantFile (k : ℕ) (uri : String) :
    resolveUri (variantFile k indexName) uri = variantFile k uri := by
  have hindex : '/' ∉ indexName.toList := by decide
  have hslash : '/' ∈ (variantFile k indexName).toList := by simp [toList_variantFile]
  have hfolder : variantFile k indexName =
      ("v" ++ k.repr) ++ String.singleton '/' ++ indexName := by
    rw [← String.toList_inj, toList_variantFile]
    simp
  rw [resolveUri, if_pos hslash, hfolder, beforeLast_append hindex, ← String.toList_inj,
    toList_variantFile]
  simp

/-- A ladder in FFmpeg's layout is accepted. -/
theorem acceptedFile_of_ladderShape {count : ℕ} (hcount : count < 100)
    {files : List (String × String)} (hshape : LadderShape count files) :
    ∀ file ∈ files, AcceptedFile file := by
  intro file hfile
  rcases hshape.names file hfile with hmaster | ⟨k, hk, hindex | ⟨n, hsegment⟩⟩
  · have haccepted := acceptedFile_master file.2 fun uri huri => by
      obtain ⟨k, hk, rfl⟩ := hshape.master file hfile hmaster uri huri
      exact accepted_variantFile (by omega) (Or.inl rfl)
    rw [← hmaster] at haccepted
    exact haccepted
  · rw [AcceptedFile, hindex]
    refine ⟨accepted_variantFile (by omega) (Or.inl rfl), fun _ uri huri => ?_⟩
    rw [resolveUri_variantFile]
    exact accepted_variantFile (by omega) (Or.inr (hshape.playlists file hfile k hindex uri huri))
  · have hchars : file.1.toList =
        ('v' :: (k.repr.toList ++ '/' :: ("seg".toList ++ (zeroPad 5 n).toList ++ ".t".toList))) ++
          ['s'] := by
      rw [hsegment, toList_variantFile, toList_segmentName]
      simp
    have hother := not_playlist _ _ hchars (by decide)
    rw [AcceptedFile, hother, hsegment]
    exact ⟨accepted_variantFile (by omega) (Or.inr ⟨n, rfl⟩), fun h => absurd h (by simp)⟩

/-- What a build uploads of a ladder is laid out as the ladder was. -/
theorem ladderShape_uploads {count : ℕ} {files : List (String × String)}
    (hshape : LadderShape count files) (probe : SourceProbe) (maxFps : ℕ) :
    LadderShape count (ladderUploads probe maxFps files) := by
  have hmem : ∀ file ∈ ladderUploads probe maxFps files,
      (file ∈ files ∧ file.1 ≠ masterPlaylistName) ∨ ∃ master,
        (masterPlaylistName, master) ∈ files ∧
          file = (masterPlaylistName, labelledMaster probe maxFps master) := by
    intro file hfile
    unfold ladderUploads at hfile
    split_ifs at hfile
    · simp only [List.mem_append, List.mem_filter, List.mem_map] at hfile
      rcases hfile with ⟨hold, hname⟩ | ⟨⟨name, master⟩, ⟨hold, hname⟩, rfl⟩
      · exact Or.inl ⟨hold, by simpa using hname⟩
      · obtain rfl : name = masterPlaylistName := beq_iff_eq.mp hname
        exact Or.inr ⟨master, hold, rfl⟩
    · simp at hfile
  refine ⟨fun file hfile => ?_, fun file hfile hname => ?_, fun file hfile k hname => ?_⟩
  · rcases hmem file hfile with ⟨hold, -⟩ | ⟨master, -, rfl⟩
    · exact hshape.names file hold
    · exact Or.inl rfl
  · rcases hmem file hfile with ⟨-, hother⟩ | ⟨master, hold, rfl⟩
    · exact absurd hname hother
    · rw [namedUris_labelledMaster]
      exact hshape.master _ hold rfl
  · rcases hmem file hfile with ⟨hold, -⟩ | ⟨master, -, rfl⟩
    · exact hshape.playlists file hold k hname
    · exact absurd hname.symm (variantFile_ne_master _ _)

theorem LadderEncode.shape {count : ℕ} {files : List (String × String)}
    (hladder : LadderEncode count files) : LadderShape count files := by
  cases hladder with
  | oneRun hshape => exact hshape
  | pieces haudio rates => exact ladderShape_joinedFiles haudio rates

theorem length_variantsFor (height maxHeight : ℕ) : (variantsFor height maxHeight).length ≤ 6 := by
  simp only [variantsFor]
  split
  · exact Nat.succ_le_of_lt (by decide)
  · refine (List.length_filter_le ..).trans ?_
    exact List.length_filter_le ..

/-- The rungs of a rendition are of three or four digits exactly if the source is. -/
theorem rungsFor_accepted_iff (kind : RenditionKind) {height : ℕ} :
    (∀ rung ∈ rungsFor kind height, 100 ≤ rung ∧ rung < 10000) ↔ 100 ≤ height := by
  have hrungs : renditionRungs kind = [1080, 720, 360] := by cases kind <;> rfl
  have hmem : ∀ rung ∈ renditionRungs kind, 100 ≤ rung ∧ rung < 10000 := by
    rw [hrungs]
    decide
  simp only [rungsFor]
  split_ifs with hnone
  · have hsmall : height < 360 := by
      have h360 := List.filter_eq_nil_iff.mp hnone 360 (by simp [hrungs])
      simpa using h360
    simp only [List.mem_singleton, forall_eq]
    omega
  · refine ⟨fun _ => ?_, fun _ rung hrung => hmem rung (List.mem_filter.mp hrung).1⟩
    obtain ⟨rung, hrung⟩ := List.exists_mem_of_ne_nil _ hnone
    obtain ⟨hlisted, hle⟩ := List.mem_filter.mp hrung
    have hleast := (hmem rung hlisted).1
    have hle' : rung ≤ height := of_decide_eq_true hle
    omega

theorem not_playlist_rendition {kind : RenditionKind} {rung : ℕ} {name : String}
    (hname : name = "init.mp4" ∨ ∃ n < 1000000, name = segmentName ".m4s" n) :
    endsWith (renditionFile kind rung name) ".m3u8" = false := by
  rcases hname with rfl | ⟨n, -, rfl⟩
  · refine not_playlist
      (kind.name.toList ++ '/' :: (rung.repr.toList ++ '/' :: "init.mp".toList)) '4' ?_ (by decide)
    simp [toList_renditionFile]
  · refine not_playlist (kind.name.toList ++ '/' :: (rung.repr.toList ++
      '/' :: ("seg".toList ++ (zeroPad 5 n).toList ++ ".m4".toList))) 's' ?_ (by decide)
    simp [toList_renditionFile, toList_segmentName]

/-- The files of a rung are accepted exactly if its height has three or four digits. -/
theorem acceptedFile_rung_iff {kind : RenditionKind} {rung : ℕ} {files : List (String × String)}
    (hshape : RenditionShape files) :
    (∀ file ∈ files, AcceptedFile (renditionFile kind rung file.1, file.2)) ↔
      100 ≤ rung ∧ rung < 10000 := by
  constructor
  · intro hall
    obtain ⟨text, htext⟩ := hshape.hasPlaylist
    exact (accepted_renditionFile_iff (renditionName_of_shape (Or.inl rfl))).mp (hall _ htext).1
  · intro hrung file hfile
    have hname := hshape.names file hfile
    refine ⟨(accepted_renditionFile_iff (renditionName_of_shape hname)).mpr hrung,
      fun hplaylist uri huri => ?_⟩
    rcases hname with hindex | hother
    · simp only [hindex]
      rw [show indexName = "index.m3u8" from rfl, ← renditionUri_eq_file, resolveUri_renditionUri]
      exact (accepted_renditionFile_iff (renditionName_of_shape
        (Or.inr (hshape.playlist file hfile hindex uri huri)))).mpr hrung
    · rw [not_playlist_rendition hother] at hplaylist
      exact absurd hplaylist (by simp)

/-- A master that names accepted paths does so with more rungs of accepted heights. -/
theorem accepted_extendedMaster {probe : SourceProbe} (run : RenditionRun) {master : String}
    (hheight : 100 ≤ probe.height) (huris : ∀ uri ∈ namedUris master, Accepted uri) :
    ∀ uri ∈ namedUris (extendedMaster probe run master), Accepted uri := by
  have hlisted : ∀ entry ∈ (rungsFor run.kind probe.height).filterMap fun rung =>
      listedRung run.kind probe rung (run.bandwidth rung),
      entry.Plain ∧ entry.rung ∈ rungsFor run.kind probe.height := by
    intro entry hentry
    obtain ⟨rung, hrung, hsome⟩ := List.mem_filterMap.mp hentry
    obtain ⟨-, hsame, hplain⟩ := listedRung_plain hsome
    exact ⟨hplain, hsame ▸ hrung⟩
  intro uri huri
  rcases namedUris_foldl (fun entry hentry => (hlisted entry hentry).1) huri with
    hold | ⟨entry, hentry, rfl⟩
  · exact huris uri hold
  · rw [Listed.uri, renditionUri_eq_file]
    refine (accepted_renditionFile_iff (renditionName_of_shape (Or.inl rfl))).mpr ?_
    exact (rungsFor_accepted_iff run.kind).mpr hheight _ (hlisted entry hentry).2

/-- What the renditions of a source upload is accepted exactly if the source is of 100 pixels
or more, or no run builds anything. -/
theorem acceptedFile_renditions_iff {probe : SourceProbe} {master : String}
    (huris : ∀ uri ∈ namedUris master, Accepted uri) {runs : List RenditionRun}
    (hruns : ∀ run ∈ runs, ∀ rung ∈ rungsFor run.kind probe.height,
      RenditionShape (run.encode rung)) :
    (∀ file ∈ renditionUploads probe master runs, AcceptedFile file) ↔
      100 ≤ probe.height ∨ ∀ run ∈ runs, run.builds probe master = false := by
  induction runs generalizing master with
  | nil => simp [renditionUploads]
  | cons run runs ih =>
      have hrest : ∀ run ∈ runs, ∀ rung ∈ rungsFor run.kind probe.height,
          RenditionShape (run.encode rung) := fun other hother =>
        hruns other (List.mem_cons_of_mem _ hother)
      cases hbuilds : run.builds probe master with
      | false =>
          have huploads : renditionUploads probe master (run :: runs) =
              renditionUploads probe master runs := by simp [renditionUploads, hbuilds]
          rw [huploads, ih huris hrest, List.forall_mem_cons]
          simp [hbuilds]
      | true =>
          have huploads : renditionUploads probe master (run :: runs) = rungUploads probe run ++
              (masterPlaylistName, extendedMaster probe run master) ::
                renditionUploads probe (extendedMaster probe run master) runs := by
            simp [renditionUploads, hbuilds]
          have hrungs : (∀ file ∈ rungUploads probe run, AcceptedFile file) ↔
              100 ≤ probe.height := by
            rw [← rungsFor_accepted_iff run.kind]
            simp only [rungUploads, List.mem_flatMap, List.mem_map]
            constructor
            · intro hall rung hrung
              exact (acceptedFile_rung_iff (hruns run (List.mem_cons_self ..) rung hrung)).mp
                fun file hfile => hall _ ⟨rung, hrung, file, hfile, rfl⟩
            · rintro hall _ ⟨rung, hrung, file, hfile, rfl⟩
              exact (acceptedFile_rung_iff (hruns run (List.mem_cons_self ..) rung hrung)).mpr
                (hall rung hrung) file hfile
          rw [huploads]
          constructor
          · intro hall
            exact Or.inl (hrungs.mp fun file hfile => hall file (List.mem_append_left _ hfile))
          · rintro (hheight | hnone)
            · have hextended := accepted_extendedMaster run hheight huris
              intro file hfile
              rcases List.mem_append.mp hfile with hfile | hfile
              · exact hrungs.mpr hheight file hfile
              · rcases List.mem_cons.mp hfile with rfl | hfile
                · exact acceptedFile_master _ hextended
                · exact (ih hextended hrest).mpr (Or.inl hheight) file hfile
            · rw [hnone run (List.mem_cons_self ..)] at hbuilds
              exact absurd hbuilds (by simp)

/-- Everything the ladder's build and the renditions publish is accepted exactly if the source
is of 100 pixels or more, or no rendition is built. -/
theorem published_accepted_iff {probe : SourceProbe} {maxHeight maxFps : ℕ}
    {files : List (String × String)}
    (hladder : LadderEncode (variantsFor probe.height maxHeight).length files) {own : String}
    (hown : (masterPlaylistName, own) ∈ ladderUploads probe maxFps files)
    {runs : List RenditionRun}
    (hruns : ∀ run ∈ runs, ∀ rung ∈ rungsFor run.kind probe.height,
      RenditionShape (run.encode rung)) :
    (∀ path ∈ publishedPaths (ladderUploads probe maxFps files ++
        renditionUploads probe own runs), Accepted path) ↔
      100 ≤ probe.height ∨ ∀ run ∈ runs, run.builds probe own = false := by
  have hshape := ladderShape_uploads hladder.shape probe maxFps
  have hcount := length_variantsFor probe.height maxHeight
  have haccepted := acceptedFile_of_ladderShape (by omega) hshape
  have huris : ∀ uri ∈ namedUris own, Accepted uri := by
    intro uri huri
    obtain ⟨k, hk, rfl⟩ := hshape.master _ hown rfl uri huri
    exact accepted_variantFile (by omega) (Or.inl rfl)
  rw [publishedPaths_accepted_iff, ← acceptedFile_renditions_iff huris hruns]
  simp only [List.mem_append, or_imp, forall_and]
  exact and_iff_right haccepted

/-- What the encodes of a short source leave. -/
def shortEncode : List (String × String) :=
  [(masterPlaylistName, "#EXTM3U\nv0/index.m3u8\n"), ("v0/index.m3u8", "#EXTM3U\nseg00000.ts\n"),
    ("v0/seg00000.ts", "")]

def shortRun : RenditionRun where
  kind := .av1
  encode _ := [(indexName, "#EXTM3U\nseg00000.m4s\n"), ("init.mp4", ""), ("seg00000.m4s", "")]
  bandwidth _ := (0, 0)

theorem ladderEncode_short (count : ℕ) : LadderEncode count shortEncode := by
  have hvariant : "v0/index.m3u8" = variantFile 0 indexName := by decide
  have hsegment : "v0/seg00000.ts" = variantFile 0 (segmentName ".ts" 0) := by decide
  have hmaster : namedUris "#EXTM3U\nv0/index.m3u8\n" = ["v0/index.m3u8"] := by decide +kernel
  have hplaylist : namedUris "#EXTM3U\nseg00000.ts\n" = [segmentName ".ts" 0] := by
    decide +kernel
  refine .oneRun ⟨?_, ?_, ?_⟩ <;> simp only [shortEncode, List.forall_mem_cons]
  · exact ⟨Or.inl trivial, Or.inr ⟨0, by omega, Or.inl hvariant⟩,
      Or.inr ⟨0, by omega, Or.inr ⟨0, hsegment⟩⟩, by simp⟩
  · refine ⟨fun _ uri huri => ⟨0, by omega, ?_⟩, fun h => absurd h (by decide),
      fun h => absurd h (by decide), by simp⟩
    rw [hmaster, List.mem_singleton] at huri
    exact huri.trans hvariant
  · refine ⟨fun k h => absurd h.symm (variantFile_ne_master k _), fun k _ uri huri => ⟨0, ?_⟩,
      fun k h => ?_, by simp⟩
    · rwa [hplaylist, List.mem_singleton] at huri
    · rw [hsegment] at h
      exact absurd (variantFile_inj h).2 (segmentName_ne_index _ _)

theorem renditionShape_short (rung : ℕ) : RenditionShape (shortRun.encode rung) := by
  have hsegment : "seg00000.m4s" = segmentName ".m4s" 0 := by decide
  have hplaylist : namedUris "#EXTM3U\nseg00000.m4s\n" = [segmentName ".m4s" 0] := by
    decide +kernel
  refine ⟨?_, ?_, _, List.mem_cons_self ..⟩ <;>
    simp only [shortRun, List.forall_mem_cons]
  · exact ⟨Or.inl trivial, Or.inr (Or.inl trivial), Or.inr (Or.inr ⟨0, by decide, hsegment⟩),
      by simp⟩
  · refine ⟨fun _ uri huri => Or.inr ⟨0, by decide, ?_⟩, fun h => absurd h (by decide),
      fun h => absurd h (by decide), by simp⟩
    rwa [hplaylist, List.mem_singleton] at huri

/-- Of a source of 1920x1080 all of it is accepted. -/
theorem published_accepted_hd :
    let probe : SourceProbe := ⟨1920, 1080, by decide, by decide, false, none, none⟩
    ∀ path ∈ publishedPaths (ladderUploads probe 30 shortEncode ++
      renditionUploads probe "#EXTM3U\nv0/index.m3u8\n" [shortRun]), Accepted path :=
  (published_accepted_iff (ladderEncode_short (variantsFor 1080 2160).length) (by decide +kernel)
    (by simp [renditionShape_short])).mpr (Or.inl (by decide))

/-- A source of 160x90 gets an AV1 rendition that the API does not serve. -/
theorem short_rendition_rejected :
    let probe : SourceProbe := ⟨160, 90, by decide, by decide, false, none, none⟩
    LadderEncode (variantsFor probe.height 2160).length shortEncode ∧
      (∀ rung, RenditionShape (shortRun.encode rung)) ∧
      "av1/90/index.m3u8" ∈ publishedPaths (ladderUploads probe 30 shortEncode ++
        renditionUploads probe "#EXTM3U\nv0/index.m3u8\n" [shortRun]) ∧
      ¬Accepted "av1/90/index.m3u8" := by
  refine ⟨ladderEncode_short _, renditionShape_short, by decide +kernel, fun haccepted => ?_⟩
  have hname : RenditionName indexName.toList := Or.inl rfl
  have hpath : "av1/90/index.m3u8" = renditionFile .av1 90 indexName := by decide
  rw [hpath, accepted_renditionFile_iff hname] at haccepted
  omega

end Api
end MediaPlayer
