import MediaPlayer.Worker.Playlists
import MediaPlayer.Worker.RenditionRuns

/-!
# The published master never dangles

One ladder's build from an empty prefix, and any number of renditions, each of which may
raise or die after any single upload; nothing is deleted.

* `LocalLadder` — what FFmpeg leaves of a ladder: every playlist the master names is among
  the files, and every file these name.
* `SameNames` — every encode of a rung leaves files of the same names, and a playlist that
  names them.
* `NoDangling` — what the master names is stored, and what that names too.
* `master_never_dangles` — so it is in every state reached.
-/

namespace MediaPlayer
namespace Worker

open Library

/-- The files an encode of a ladder leaves. -/
structure LocalLadder (files : List (String × String)) : Prop where
  nodup : (files.map (·.1)).Nodup
  closed : ∀ master, (masterPlaylistName, master) ∈ files → ∀ uri ∈ namedUris master,
    ∃ playlist, uri ≠ masterPlaylistName ∧ (uri, playlist) ∈ files ∧
      ∀ part ∈ namedUris playlist, ∃ text, (resolveUri uri part, text) ∈ files

namespace Publishing

/-- What a stored playlist names is stored. -/
def Complete (objects : String → Option String) (uri : String) : Prop :=
  ∃ playlist, objects uri = some playlist ∧
    ∀ part ∈ namedUris playlist, objects (resolveUri uri part) ≠ none

/-- Every playlist the master names is stored, and every file these name. -/
def NoDangling (s : Publishing) : Prop :=
  ∀ master, s.store.objects masterPlaylistName = some master →
    ∀ uri ∈ namedUris master, Complete s.store.objects (resolveUri masterPlaylistName uri)

/-- An encode of a rung leaves the files of these names, and a playlist that names no
others. -/
def LeavesNames (names : List String) (files : List (String × String)) : Prop :=
  (∀ name ∈ names, name ∈ files.map (·.1)) ∧
    ∀ file ∈ files, file.1 = "index.m3u8" → ∀ part ∈ namedUris file.2, part ∈ names

instance (names : List String) (files : List (String × String)) :
    Decidable (LeavesNames names files) :=
  inferInstanceAs (Decidable ((∀ name ∈ names, name ∈ files.map (·.1)) ∧
    ∀ file ∈ files, file.1 = "index.m3u8" → ∀ part ∈ namedUris file.2, part ∈ names))

/-- The rung a job encodes next. -/
def encodes (job : RenditionJob) : Option ℕ :=
  match job.phase with
  | .encoding _ (rung :: _) _ => some rung
  | _ => none

/-- Two encodes of one rung leave the same names. -/
def SameNames (names : RenditionKind → ℕ → List String) (s : Publishing) :
    PublishingAction → Prop
  | .rendition id world => ∀ job ∈ s.jobs.lookup id, ∀ rung ∈ encodes job,
      LeavesNames (names job.kind rung) world.files
  | _ => True

instance (names : RenditionKind → ℕ → List String) (s : Publishing) :
    ∀ action, Decidable (SameNames names s action)
  | .rendition id world => inferInstanceAs (Decidable (∀ job ∈ s.jobs.lookup id,
      ∀ rung ∈ encodes job, LeavesNames (names job.kind rung) world.files))
  | .ladder _ | .ladderDies | .start _ _ | .dies _ | .lockExpires => .isTrue trivial

end Publishing

/-! ## Paths -/

theorem toList_renditionFile (kind : RenditionKind) (rung : ℕ) (name : String) :
    (renditionFile kind rung name).toList =
      kind.name.toList ++ '/' :: (rung.repr.toList ++ '/' :: name.toList) := by
  simp [renditionFile, toString]

theorem renditionUri_eq_file (kind : RenditionKind) (rung : ℕ) :
    renditionUri kind rung = renditionFile kind rung "index.m3u8" := by
  rw [← String.toList_inj, toList_renditionUri, toList_renditionFile]

/-- A file of a rendition is of one rung. -/
theorem renditionFile_inj {kind other : RenditionKind} {rung height : ℕ} {name file : String}
    (heq : renditionFile kind rung name = renditionFile other height file) :
    kind = other ∧ rung = height ∧ name = file := by
  have hname : ∀ kind : RenditionKind, '/' ∉ kind.name.toList := by
    intro kind
    cases kind <;> decide
  have hrung : ∀ n : ℕ, '/' ∉ n.repr.toList := not_mem_repr (by decide)
  have hchars := congrArg String.toList heq
  rw [toList_renditionFile, toList_renditionFile] at hchars
  obtain ⟨hkind, hchars⟩ := append_cons_inj (hname _) (hname _) hchars
  obtain ⟨hrungs, hnames⟩ := append_cons_inj (hrung _) (hrung _) hchars
  refine ⟨?_, eq_of_repr hrungs, String.toList_inj.mp hnames⟩
  revert hkind
  cases kind <;> cases other <;> decide

/-- Where a URI of a rung's playlist leads. -/
theorem resolveUri_renditionUri (kind : RenditionKind) (rung : ℕ) (part : String) :
    resolveUri (renditionUri kind rung) part = renditionFile kind rung part := by
  have hindex : '/' ∉ "index.m3u8".toList := by decide
  have hslash : '/' ∈ (renditionUri kind rung).toList := by simp [toList_renditionUri]
  have hfolder : renditionUri kind rung =
      (kind.name ++ "/" ++ rung.repr) ++ String.singleton '/' ++ "index.m3u8" := by
    rw [← String.toList_inj, toList_renditionUri]
    simp
  rw [resolveUri, if_pos hslash, hfolder, beforeLast_append hindex, ← String.toList_inj,
    toList_renditionFile]
  simp

/-- The master is at the root of the prefix. -/
theorem resolveUri_master (uri : String) : resolveUri masterPlaylistName uri = uri := by
  have hroot : '/' ∉ masterPlaylistName.toList := by decide
  rw [resolveUri, if_neg hroot]

/-- A file of a rendition is in the folder of its kind. -/
theorem contains_renditionFile (kind : RenditionKind) (rung : ℕ) (name : String) :
    contains (renditionFile kind rung name) (kind.name ++ "/") = true := by
  simp only [contains, decide_eq_true_eq, toList_renditionFile]
  exact ⟨[], rung.repr.toList ++ '/' :: name.toList, by simp⟩

/-! ## What a step keeps -/

namespace Publishing

/-- The rung's playlist is stored, and names files of the rung. -/
def NamesOwn (names : RenditionKind → ℕ → List String) (objects : String → Option String)
    (kind : RenditionKind) (rung : ℕ) : Prop :=
  ∃ text, objects (renditionUri kind rung) = some text ∧
    ∀ part ∈ namedUris text, part ∈ names kind rung

/-- The rung is stored with everything its playlist names. -/
structure RungComplete (names : RenditionKind → ℕ → List String)
    (objects : String → Option String) (kind : RenditionKind) (rung : ℕ) : Prop where
  stored : ∀ name ∈ names kind rung, objects (renditionFile kind rung name) ≠ none
  playlist : NamesOwn names objects kind rung

/-- Nothing is deleted, and no playlist of a rung comes to name other files. -/
structure Grown (names : RenditionKind → ℕ → List String)
    (objects after : String → Option String) : Prop where
  stored : ∀ path, objects path ≠ none → after path ≠ none
  playlists : ∀ kind rung, NamesOwn names objects kind rung → NamesOwn names after kind rung

variable {names : RenditionKind → ℕ → List String} {objects after : String → Option String}
  {kind other : RenditionKind} {rung height : ℕ}

theorem Grown.refl (objects : String → Option String) : Grown names objects objects :=
  ⟨fun _ h => h, fun _ _ h => h⟩

theorem RungComplete.mono (hgrown : Grown names objects after)
    (hrung : RungComplete names objects kind rung) : RungComplete names after kind rung :=
  ⟨fun name hname => hgrown.stored _ (hrung.stored name hname), hgrown.playlists _ _ hrung.playlist⟩

theorem RungComplete.complete (hrung : RungComplete names objects kind rung) :
    Complete objects (renditionUri kind rung) := by
  obtain ⟨text, htext, hparts⟩ := hrung.playlist
  refine ⟨text, htext, fun part hpart => ?_⟩
  rw [resolveUri_renditionUri]
  exact hrung.stored part (hparts part hpart)

/-- A text that may be stored as a file of this rung: its playlist names no other files. -/
def MayStore (names : RenditionKind → ℕ → List String) (kind : RenditionKind) (rung : ℕ)
    (file : String × String) : Prop :=
  file.1 = "index.m3u8" → ∀ part ∈ namedUris file.2, part ∈ names kind rung

theorem update_ne_none {path text key : String} (hkey : objects key ≠ none) :
    Function.update objects path (some text) key ≠ none := by
  by_cases hsame : key = path
  · rw [hsame, Function.update_self]
    simp
  · rwa [Function.update_of_ne hsame]

theorem grown_put (objects : String → Option String) {file : String × String}
    (hfile : MayStore names kind rung file) :
    Grown names objects
      (Function.update objects (renditionFile kind rung file.1) (some file.2)) := by
  refine ⟨fun path hpath => update_ne_none hpath, fun other height hplaylist => ?_⟩
  by_cases hsame : renditionUri other height = renditionFile kind rung file.1
  · refine ⟨file.2, by rw [hsame, Function.update_self], ?_⟩
    rw [renditionUri_eq_file] at hsame
    obtain ⟨rfl, rfl, hname⟩ := renditionFile_inj hsame
    exact hfile hname.symm
  · obtain ⟨text, htext, hparts⟩ := hplaylist
    exact ⟨text, by rwa [Function.update_of_ne hsame], hparts⟩

theorem grown_putMaster (names : RenditionKind → ℕ → List String)
    (objects : String → Option String) (master : String) :
    Grown names objects (Function.update objects masterPlaylistName (some master)) := by
  refine ⟨fun path hpath => update_ne_none hpath, fun kind rung hplaylist => ?_⟩
  obtain ⟨text, htext, hparts⟩ := hplaylist
  refine ⟨text, ?_, hparts⟩
  rwa [renditionUri_eq_file, Function.update_of_ne (renditionFile_ne_master _ _ _),
    ← renditionUri_eq_file]

/-- What a master names in the folder of a kind are the playlists of complete rungs. -/
def Clear (names : RenditionKind → ℕ → List String) (objects : String → Option String)
    (master : String) (kind : RenditionKind) : Prop :=
  ∀ rung name, renditionFile kind rung name ∈ namedUris master →
    name = "index.m3u8" ∧ RungComplete names objects kind rung

/-- A master without the folder of a kind names nothing in it. -/
theorem clear_of_not_contains {master : String}
    (hfree : contains master (kind.name ++ "/") = false) : Clear names objects master kind := by
  intro rung name huri
  rw [contains_of_mem_namedUris huri (contains_renditionFile kind rung name)] at hfree
  exact absurd hfree (by simp)

/-- Storing a file of a kind in whose folder the master names only complete rungs keeps what
the master names complete. -/
theorem complete_put {master uri : String} {file : String × String}
    (hclear : Clear names objects master kind) (hfile : MayStore names kind rung file)
    (huri : uri ∈ namedUris master) (hcomplete : Complete objects uri) :
    Complete (Function.update objects (renditionFile kind rung file.1) (some file.2)) uri := by
  by_cases hsame : uri = renditionFile kind rung file.1
  · obtain ⟨hname, hrung⟩ := hclear rung file.1 (hsame ▸ huri)
    rw [hsame, hname, ← renditionUri_eq_file]
    have hput := hrung.mono (grown_put _ hfile)
    rw [hname, ← renditionUri_eq_file] at hput
    exact hput.complete
  · obtain ⟨playlist, hplaylist, hparts⟩ := hcomplete
    exact ⟨playlist, by rwa [Function.update_of_ne hsame],
      fun part hpart => update_ne_none (hparts part hpart)⟩

/-- The master that names more, of complete rungs, is as clear. -/
theorem Clear.mono {master text : String} (hclear : Clear names objects master kind)
    (hgrown : Grown names objects after)
    (huris : ∀ uri ∈ namedUris text, uri ∈ namedUris master ∨ ∃ kind rung,
      uri = renditionUri kind rung ∧ RungComplete names after kind rung) :
    Clear names after text kind := by
  intro rung name huri
  rcases huris _ huri with hold | ⟨other, height, hsame, hrung⟩
  · obtain ⟨hname, hrung⟩ := hclear rung name hold
    exact ⟨hname, hrung.mono hgrown⟩
  · rw [renditionUri_eq_file] at hsame
    obtain ⟨rfl, rfl, hname⟩ := renditionFile_inj hsame
    exact ⟨hname, hrung⟩

end Publishing

/-! ## The jobs -/

namespace RenditionJob

open Publishing

/-- What a job lists are complete rungs of its kind. -/
def ListsComplete (names : RenditionKind → ℕ → List String) (objects : String → Option String)
    (kind : RenditionKind) (listed : List Listed) : Prop :=
  ∀ entry ∈ listed, entry.plan.kind = kind ∧ entry.Plain ∧
    RungComplete names objects kind entry.rung

/-- What a job that is uploading a rung has stored of it, or has left to upload. -/
structure Uploads (names : RenditionKind → ℕ → List String) (objects : String → Option String)
    (kind : RenditionKind) (rung : ℕ) (files : List (String × String)) : Prop where
  stored : ∀ name ∈ names kind rung,
    objects (renditionFile kind rung name) ≠ none ∨ name ∈ files.map (·.1)
  playlist : NamesOwn names objects kind rung ∨ "index.m3u8" ∈ files.map (·.1)
  mayStore : ∀ file ∈ files, MayStore names kind rung file

/-- What a job knows of the objects and of the master that are stored. -/
def Standing (names : RenditionKind → ℕ → List String) (objects : String → Option String)
    (master : String) (job : RenditionJob) : Prop :=
  match job.phase with
  | .checking | .unlocking _ | .returned _ | .raised => True
  | .probing => Clear names objects master job.kind
  | .encoding _ _ listed =>
      Clear names objects master job.kind ∧ ListsComplete names objects job.kind listed
  | .uploading _ rung files _ listed =>
      Clear names objects master job.kind ∧ Uploads names objects job.kind rung files ∧
        ∃ done entry, listed = done ++ [entry] ∧ ListsComplete names objects job.kind done ∧
          entry.plan.kind = job.kind ∧ entry.Plain ∧ entry.rung = rung
  | .waiting listed | .reading listed => ListsComplete names objects job.kind listed
  | .extending listed text => text = master ∧ ListsComplete names objects job.kind listed

variable {names : RenditionKind → ℕ → List String} {objects after : String → Option String}
  {kind : RenditionKind} {rung : ℕ} {listed : List Listed} {files : List (String × String)}

theorem ListsComplete.mono (hlists : ListsComplete names objects kind listed)
    (hgrown : Grown names objects after) : ListsComplete names after kind listed := by
  intro entry hentry
  obtain ⟨hkind, hplain, hrung⟩ := hlists entry hentry
  exact ⟨hkind, hplain, hrung.mono hgrown⟩

theorem Uploads.mono (huploads : Uploads names objects kind rung files)
    (hgrown : Grown names objects after) : Uploads names after kind rung files where
  stored name hname := (huploads.stored name hname).imp_left (hgrown.stored _)
  playlist := huploads.playlist.imp_left (hgrown.playlists _ _)
  mayStore := huploads.mayStore

/-- What a job knows stays so while the store grows, and the master gains complete rungs. -/
theorem Standing.mono {job : RenditionJob} {master text : String}
    (hstanding : job.Standing names objects master) (hgrown : Grown names objects after)
    (huris : ∀ uri ∈ namedUris text, uri ∈ namedUris master ∨ ∃ kind rung,
      uri = renditionUri kind rung ∧ RungComplete names after kind rung)
    (hsame : job.inside = true → text = master) : job.Standing names after text := by
  obtain ⟨kind, phase⟩ := job
  cases phase with
  | checking | unlocking _ | returned _ | raised => trivial
  | probing => exact Clear.mono hstanding hgrown huris
  | encoding _ _ listed => exact ⟨hstanding.1.mono hgrown huris, hstanding.2.mono hgrown⟩
  | uploading _ rung files _ listed =>
      obtain ⟨hclear, huploads, done, entry, hlisted, hdone, hentry⟩ := hstanding
      exact ⟨hclear.mono hgrown huris, huploads.mono hgrown, done, entry, hlisted,
        hdone.mono hgrown, hentry⟩
  | waiting listed => exact ListsComplete.mono hstanding hgrown
  | reading listed => exact ListsComplete.mono hstanding hgrown
  | extending listed old =>
      rw [hsame rfl]
      exact ⟨hstanding.1, hstanding.2.mono hgrown⟩

end RenditionJob

namespace Publishing

variable {names : RenditionKind → ℕ → List String}

/-- The master names playlists other than itself, each of which is stored with everything it
names. -/
def NamesComplete (objects : String → Option String) (master : String) : Prop :=
  ∀ uri ∈ namedUris master, uri ≠ masterPlaylistName ∧ Complete objects uri

/-- What one step of a job leaves: more objects, and a master that names only more complete
rungs. -/
structure Progress (names : RenditionKind → ℕ → List String) (job : RenditionJob)
    (objects : String → Option String) (master : String) (after : String → Option String)
    (phase : BuilderPhase) (text : String) : Prop where
  stored : after masterPlaylistName = some text
  grown : Grown names objects after
  complete : NamesComplete after text
  named : ∀ uri ∈ namedUris text, uri ∈ namedUris master ∨ ∃ kind rung,
    uri = renditionUri kind rung ∧ RungComplete names after kind rung
  standing : (⟨job.kind, phase⟩ : RenditionJob).Standing names after text
  written : job.inside = true ∨ text = master

variable {job : RenditionJob} {objects : String → Option String} {master : String}
  {phase : BuilderPhase}

theorem Progress.of_same (hmaster : objects masterPlaylistName = some master)
    (hcomplete : NamesComplete objects master)
    (hstanding : (⟨job.kind, phase⟩ : RenditionJob).Standing names objects master) :
    Progress names job objects master objects phase master :=
  ⟨hmaster, Grown.refl objects, hcomplete, fun _ huri => Or.inl huri, hstanding, Or.inr rfl⟩

/-- A file of a rung is stored. -/
theorem Progress.of_put {rung : ℕ} {file : String × String}
    (hmaster : objects masterPlaylistName = some master)
    (hcomplete : NamesComplete objects master) (hclear : Clear names objects master job.kind)
    (hfile : MayStore names job.kind rung file)
    (hstanding : (⟨job.kind, phase⟩ : RenditionJob).Standing names
      (Function.update objects (renditionFile job.kind rung file.1) (some file.2)) master) :
    Progress names job objects master
      (Function.update objects (renditionFile job.kind rung file.1) (some file.2)) phase
      master where
  stored := by rwa [Function.update_of_ne (renditionFile_ne_master _ _ _).symm]
  grown := grown_put _ hfile
  complete uri huri :=
    ⟨(hcomplete uri huri).1, complete_put hclear hfile huri (hcomplete uri huri).2⟩
  named _ huri := Or.inl huri
  standing := hstanding
  written := Or.inr rfl

/-- The extended master is stored. -/
theorem Progress.of_putMaster {listed : List Listed} (hcomplete : NamesComplete objects master)
    (hlists : RenditionJob.ListsComplete names objects job.kind listed)
    (hinside : job.inside = true)
    (hstanding : (⟨job.kind, phase⟩ : RenditionJob).Standing names
      (Function.update objects masterPlaylistName (some (listed.foldl addToMaster master)))
      (listed.foldl addToMaster master)) :
    Progress names job objects master
      (Function.update objects masterPlaylistName (some (listed.foldl addToMaster master))) phase
      (listed.foldl addToMaster master) := by
  have hgrown := grown_putMaster names objects (listed.foldl addToMaster master)
  have hrung : ∀ entry ∈ listed, RungComplete names
      (Function.update objects masterPlaylistName (some (listed.foldl addToMaster master)))
      entry.plan.kind entry.rung := by
    intro entry hentry
    obtain ⟨hkind, -, hrung⟩ := hlists entry hentry
    rw [hkind]
    exact hrung.mono hgrown
  refine ⟨Function.update_self .., hgrown, fun uri huri => ?_, fun uri huri => ?_, hstanding,
    Or.inl hinside⟩
  · rcases namedUris_foldl (fun entry hentry => (hlists entry hentry).2.1) huri with
      hold | ⟨entry, hentry, rfl⟩
    · obtain ⟨hne, playlist, hplaylist, hparts⟩ := hcomplete uri hold
      exact ⟨hne, playlist, by rwa [Function.update_of_ne hne],
        fun part hpart => update_ne_none (hparts part hpart)⟩
    · refine ⟨?_, (hrung entry hentry).complete⟩
      rw [Listed.uri, renditionUri_eq_file]
      exact renditionFile_ne_master _ _ _
  · rcases namedUris_foldl (fun entry hentry => (hlists entry hentry).2.1) huri with
      hold | ⟨entry, hentry, rfl⟩
    · exact Or.inl hold
    · exact Or.inr ⟨entry.plan.kind, entry.rung, rfl, hrung entry hentry⟩

end Publishing

/-- A job that goes on after a call, or has raised, knows what it knows in either case. -/
theorem standing_next {names : RenditionKind → ℕ → List String} {kind : RenditionKind}
    {phase : BuilderPhase} {objects : String → Option String} {master : String}
    (hstanding : (⟨kind, phase⟩ : RenditionJob).Standing names objects master)
    (out : CallOutcome) :
    (⟨kind, out.next phase .raised⟩ : RenditionJob).Standing names objects master :=
  CallOutcome.next_of
    (p := fun phase => (⟨kind, phase⟩ : RenditionJob).Standing names objects master) hstanding
    (show (⟨kind, .raised⟩ : RenditionJob).Standing names objects master from trivial) out

/-- The files that are left after one has been stored. -/
theorem RenditionJob.Uploads.put {names : RenditionKind → ℕ → List String}
    {objects : String → Option String} {kind : RenditionKind} {rung : ℕ}
    {file : String × String} {files : List (String × String)}
    (huploads : Uploads names objects kind rung (file :: files)) :
    Uploads names (Function.update objects (renditionFile kind rung file.1) (some file.2)) kind
      rung files := by
  have hfile := huploads.mayStore file (List.mem_cons_self ..)
  have hgrown := Publishing.grown_put objects hfile
  refine ⟨fun name hname => ?_, ?_, fun other hother =>
    huploads.mayStore other (List.mem_cons_of_mem _ hother)⟩
  · rcases huploads.stored name hname with hstored | hleft
    · exact Or.inl (hgrown.stored _ hstored)
    · rcases List.mem_cons.mp hleft with rfl | hleft
      · exact Or.inl (by simp)
      · exact Or.inr hleft
  · rcases huploads.playlist with hstored | hleft
    · exact Or.inl (hgrown.playlists _ _ hstored)
    · rcases List.mem_cons.mp hleft with hname | hleft
      · refine Or.inl ⟨file.2, ?_, hfile hname.symm⟩
        rw [renditionUri_eq_file, hname, Function.update_self]
      · exact Or.inr hleft

open Publishing in
/-- One step of a job, from what it knows. -/
theorem next_progress {names : RenditionKind → ℕ → List String} {id : ℕ} {job : RenditionJob}
    {store after : PublishedPrefix} {master : String} {world : RenditionWorld}
    {phase : BuilderPhase} (hmaster : store.objects masterPlaylistName = some master)
    (hcomplete : NamesComplete store.objects master)
    (hstanding : job.Standing names store.objects master)
    (hnames : ∀ probe rung rungs listed, job.phase = .encoding probe (rung :: rungs) listed →
      LeavesNames (names job.kind rung) world.files)
    (hnext : job.next id store world = some (after, phase)) :
    ∃ text, Progress names job store.objects master after.objects phase text := by
  obtain ⟨kind, before⟩ := job
  cases before with
  | checking =>
      simp only [RenditionJob.next, hmaster] at hnext
      obtain ⟨rfl, rfl⟩ := Prod.mk.inj (Option.some.inj hnext)
      refine ⟨master, .of_same hmaster hcomplete (standing_next ?_ _)⟩
      split_ifs with hnamed
      · trivial
      · exact clear_of_not_contains ((Bool.not_eq_true _).mp hnamed)
  | probing =>
      obtain ⟨rfl, rfl⟩ := Prod.mk.inj (Option.some.inj hnext)
      refine ⟨master, .of_same hmaster hcomplete (standing_next ?_ _)⟩
      split_ifs
      · trivial
      · exact ⟨hstanding, fun entry hentry => by simp at hentry⟩
  | encoding probe rungs listed =>
      cases rungs with
      | nil =>
          obtain ⟨rfl, rfl⟩ := Prod.mk.inj (Option.some.inj hnext)
          exact ⟨master, .of_same hmaster hcomplete hstanding.2⟩
      | cons rung rungs =>
          simp only [RenditionJob.next] at hnext
          split at hnext
          · obtain ⟨rfl, rfl⟩ := Prod.mk.inj (Option.some.inj hnext)
            exact ⟨master, .of_same hmaster hcomplete trivial⟩
          · rename_i entry hentry
            obtain ⟨rfl, rfl⟩ := Prod.mk.inj (Option.some.inj hnext)
            obtain ⟨hkind, hrung, hplain⟩ := listedRung_plain hentry
            refine ⟨master, .of_same hmaster hcomplete (standing_next ?_ _)⟩
            split_ifs with hplaylist
            · obtain ⟨hleft, hparts⟩ := hnames probe rung rungs listed rfl
              refine ⟨hstanding.1, ⟨fun name hname => Or.inr (hleft name hname), Or.inr ?_, hparts⟩,
                listed, entry, rfl, hstanding.2, hkind, hplain, hrung⟩
              obtain ⟨file, hfile, hname⟩ := List.any_eq_true.mp hplaylist
              exact List.mem_map.mpr ⟨file, hfile, beq_iff_eq.mp hname⟩
            · trivial
  | uploading probe rung files rungs listed =>
      obtain ⟨hclear, huploads, done, entry, hlisted, hdone, hkind, hplain, hrung⟩ := hstanding
      cases files with
      | nil =>
          obtain ⟨rfl, rfl⟩ := Prod.mk.inj (Option.some.inj hnext)
          refine ⟨master, .of_same hmaster hcomplete ⟨hclear, fun other hother => ?_⟩⟩
          rw [hlisted] at hother
          rcases List.mem_append.mp hother with hother | hother
          · exact hdone other hother
          · rw [List.mem_singleton.mp hother, hrung]
            exact ⟨hkind, hplain, fun name hname =>
              (huploads.stored name hname).resolve_right (by simp),
              huploads.playlist.resolve_right (by simp)⟩
      | cons file files =>
          obtain ⟨rfl, rfl⟩ := Prod.mk.inj (Option.some.inj hnext)
          have hfile := huploads.mayStore file (List.mem_cons_self ..)
          have hgrown := grown_put store.objects hfile
          cases world.out with
          | returned =>
              refine ⟨master, .of_put hmaster hcomplete hclear hfile ⟨?_, huploads.put, done, entry,
                hlisted, hdone.mono hgrown, hkind, hplain, hrung⟩⟩
              exact hclear.mono hgrown fun _ huri => Or.inl huri
          | raisedBefore => exact ⟨master, .of_same hmaster hcomplete trivial⟩
          | raisedAfter => exact ⟨master, .of_put hmaster hcomplete hclear hfile trivial⟩
  | waiting listed =>
      simp only [RenditionJob.next] at hnext
      split at hnext
      · simp at hnext
      · obtain ⟨rfl, rfl⟩ := Prod.mk.inj (Option.some.inj hnext)
        have hreading : (⟨kind, .reading listed⟩ : RenditionJob).Standing names store.objects
            master := hstanding
        have hsame :
            (world.out.effect (fun store => { store with lock := some id }) store).objects =
            store.objects := by
          cases world.out <;> rfl
        rw [hsame]
        exact ⟨master, .of_same hmaster hcomplete (standing_next hreading _)⟩
  | reading listed =>
      simp only [RenditionJob.next, hmaster] at hnext
      obtain ⟨rfl, rfl⟩ := Prod.mk.inj (Option.some.inj hnext)
      refine ⟨master, .of_same hmaster hcomplete ?_⟩
      cases world.out with
      | returned => exact ⟨rfl, hstanding⟩
      | raisedBefore | raisedAfter => trivial
  | extending listed text =>
      obtain ⟨rfl, rfl⟩ := Prod.mk.inj (Option.some.inj hnext)
      obtain ⟨rfl, hlists⟩ := hstanding
      cases world.out with
      | returned => exact ⟨_, .of_putMaster hcomplete hlists rfl trivial⟩
      | raisedBefore => exact ⟨text, .of_same hmaster hcomplete trivial⟩
      | raisedAfter => exact ⟨_, .of_putMaster hcomplete hlists rfl trivial⟩
  | unlocking result =>
      obtain ⟨rfl, rfl⟩ := Prod.mk.inj (Option.some.inj hnext)
      have hsame : (world.out.effect (fun store => { store with lock := none }) store).objects =
          store.objects := by
        cases world.out <;> rfl
      rw [hsame]
      refine ⟨master, .of_same hmaster hcomplete (standing_next ?_ _)⟩
      cases result <;> trivial
  | returned result => simp [RenditionJob.next] at hnext
  | raised => simp [RenditionJob.next] at hnext

/-! ## The ladder's build -/

/-- What a build uploads: the files, each once, and last a master of which they are all it
leads to. -/
structure ClosedUploads (others : List (String × String)) (master : String) : Prop where
  notMaster : ∀ file ∈ others, file.1 ≠ masterPlaylistName
  nodup : (others.map (·.1)).Nodup
  closed : ∀ uri ∈ namedUris master, ∃ playlist, (uri, playlist) ∈ others ∧
    ∀ part ∈ namedUris playlist,
      resolveUri uri part = masterPlaylistName ∨ resolveUri uri part ∈ others.map (·.1)

theorem ladderUploads_cases {files : List (String × String)} (hfiles : LocalLadder files)
    (probe : SourceProbe) (maxFps : ℕ) : ladderUploads probe maxFps files = [] ∨
      ∃ others master, ladderUploads probe maxFps files = others ++ [(masterPlaylistName, master)] ∧
        ClosedUploads others master := by
  unfold ladderUploads
  split_ifs with hmaster
  · refine Or.inr ?_
    obtain ⟨⟨name, master⟩, hmem, hname⟩ := List.any_eq_true.mp hmaster
    obtain rfl : name = masterPlaylistName := beq_iff_eq.mp hname
    -- A name occurs once, so the master is the one file of its name.
    obtain ⟨before, after, rfl⟩ := List.append_of_mem hmem
    have hnodup := hfiles.nodup
    rw [List.map_append, List.map_cons] at hnodup
    have hbefore : ∀ file ∈ before, file.1 ≠ masterPlaylistName := fun file hfile hsame =>
      (List.nodup_append.mp hnodup).2.2 file.1 (List.mem_map_of_mem hfile) _
        (List.mem_cons_self ..) hsame
    have hafter : ∀ file ∈ after, file.1 ≠ masterPlaylistName := fun file hfile hsame =>
      (List.nodup_cons.mp (List.nodup_append.mp hnodup).2.1).1
        (List.mem_map.mpr ⟨file, hfile, hsame⟩)
    have hmasters : (before ++ (masterPlaylistName, master) :: after).filter
        (·.1 == masterPlaylistName) = [(masterPlaylistName, master)] := by
      rw [List.filter_append, List.filter_cons_of_pos (by simp),
        List.filter_eq_nil_iff.mpr fun file hfile => by simpa using hbefore file hfile,
        List.filter_eq_nil_iff.mpr fun file hfile => by simpa using hafter file hfile,
        List.nil_append]
    refine ⟨_, labelledMaster probe maxFps master, by rw [hmasters, List.map_singleton], ?_⟩
    refine ⟨fun file hfile => by simpa using (List.mem_filter.mp hfile).2,
      hfiles.nodup.sublist (List.filter_sublist.map _), fun uri huri => ?_⟩
    rw [namedUris_labelledMaster] at huri
    obtain ⟨playlist, hne, hplaylist, hparts⟩ := hfiles.closed master hmem uri huri
    refine ⟨playlist, List.mem_filter.mpr ⟨hplaylist, by simpa using hne⟩, fun part hpart => ?_⟩
    obtain ⟨text, htext⟩ := hparts part hpart
    by_cases hsame : resolveUri uri part = masterPlaylistName
    · exact Or.inl hsame
    · exact Or.inr (List.mem_map.mpr ⟨_, List.mem_filter.mpr ⟨htext, by simpa using hsame⟩, rfl⟩)
  · exact Or.inl rfl

namespace Publishing

variable {others : List (String × String)} {own : String} {s t : Publishing}

/-- Until the master is stored, no rendition gets past its check, and the ladder's build has
stored what it has not left to upload. -/
structure Growing (others : List (String × String)) (own : String) (s : Publishing) : Prop where
  noMaster : s.store.objects masterPlaylistName = none
  idle : ∀ id job, s.jobs.lookup id = some job → job.phase = .checking ∨ job.phase = .raised
  left : s.ladder = [] ∨ ∃ done left, others = done ++ left ∧
    s.ladder = left ++ [(masterPlaylistName, own)] ∧
    ∀ file ∈ done, s.store.objects file.1 = some file.2

/-- Afterwards what the master names is complete, and every job knows what it has to know. -/
structure Published (names : RenditionKind → ℕ → List String) (s : Publishing) : Prop where
  ladder : s.ladder = []
  stored : ∃ master, s.store.objects masterPlaylistName = some master ∧
    NamesComplete s.store.objects master ∧
    ∀ id job, s.jobs.lookup id = some job → job.Standing names s.store.objects master

/-- The master's upload is the last. -/
theorem Growing.publish (hothers : ClosedUploads others own) (hs : Growing others own s)
    (hdone : ∀ file ∈ others, s.store.objects file.1 = some file.2) :
    Published names { s with store := s.store.put masterPlaylistName own, ladder := [] } := by
  have hstored : ∀ file ∈ others,
      (s.store.put masterPlaylistName own).objects file.1 = some file.2 := by
    intro file hfile
    rw [put_ne (hothers.notMaster file hfile).symm, hdone file hfile]
  refine ⟨rfl, own, put_self .., fun uri huri => ?_, fun id job hjob => ?_⟩
  · obtain ⟨playlist, hplaylist, hparts⟩ := hothers.closed uri huri
    refine ⟨hothers.notMaster _ hplaylist, playlist, hstored _ hplaylist, fun part hpart => ?_⟩
    rcases hparts part hpart with hself | hother
    · rw [hself, put_self]
      simp
    · obtain ⟨file, hfile, hname⟩ := List.mem_map.mp hother
      rw [← hname, hstored file hfile]
      simp
  · obtain ⟨kind, phase⟩ := job
    rcases hs.idle id _ hjob with rfl | rfl <;> trivial

/-- One upload of the ladder's build. -/
theorem Growing.upload (hothers : ClosedUploads others own) (hs : Growing others own s)
    {out : CallOutcome} (hstep : s.step (.ladder out) = some t) :
    Growing others own t ∨ Published names t := by
  simp only [Publishing.step] at hstep
  split at hstep
  · simp at hstep
  · rename_i file files hladder
    obtain rfl := Option.some.inj hstep
    obtain ⟨done, left, hsplit, hleft, hdone⟩ := hs.left.resolve_left (by simp [hladder])
    rw [hladder] at hleft
    cases left with
    | nil =>
        obtain ⟨rfl, rfl⟩ := List.cons.inj hleft
        rw [List.append_nil] at hsplit
        have hpublished : Published names _ := hs.publish hothers (hsplit ▸ hdone)
        cases out with
        | returned => exact Or.inr hpublished
        | raisedBefore => exact Or.inl ⟨hs.noMaster, hs.idle, Or.inl rfl⟩
        | raisedAfter => exact Or.inr hpublished
    | cons next left =>
        obtain ⟨rfl, rfl⟩ := List.cons.inj hleft
        have hfile : file ∈ others := hsplit ▸ List.mem_append_right _ (List.mem_cons_self ..)
        have hne := hothers.notMaster file hfile
        have hput : (s.store.put file.1 file.2).objects masterPlaylistName = none := by
          rw [put_ne hne, hs.noMaster]
        have hnodup := hothers.nodup
        rw [hsplit, List.map_append, List.map_cons] at hnodup
        refine Or.inl ?_
        cases out with
        | returned =>
            refine ⟨hput, hs.idle, Or.inr ⟨done ++ [file], left, by simp [hsplit], rfl, ?_⟩⟩
            intro other hother
            rcases List.mem_append.mp hother with hother | hother
            · have hdiffers : file.1 ≠ other.1 := fun hsame =>
                (List.nodup_append.mp hnodup).2.2 other.1 (List.mem_map_of_mem hother) file.1
                  (List.mem_cons_self ..) hsame.symm
              exact (put_ne hdiffers).trans (hdone other hother)
            · rw [List.mem_singleton.mp hother]
              exact put_self ..
        | raisedBefore => exact ⟨hs.noMaster, hs.idle, Or.inl rfl⟩
        | raisedAfter => exact ⟨hput, hs.idle, Or.inl rfl⟩

theorem Growing.step (hothers : ClosedUploads others own) (hs : Growing others own s)
    {action : PublishingAction} (hstep : s.step action = some t) :
    Growing others own t ∨ Published names t := by
  have ⟨hmaster, hidle, hleft⟩ := hs
  cases action with
  | ladder out => exact hs.upload hothers hstep
  | ladderDies =>
      obtain rfl := Option.some.inj hstep
      exact Or.inl ⟨hmaster, hidle, Or.inl rfl⟩
  | start id kind =>
      simp only [Publishing.step] at hstep
      split at hstep
      · simp at hstep
      · obtain rfl := Option.some.inj hstep
        exact Or.inl ⟨hmaster, Parties.forall_insert
          (fun other job _ hjob => hidle other job hjob) (Or.inl rfl), hleft⟩
  | dies id =>
      obtain ⟨job, hjob, rfl⟩ := Option.map_eq_some_iff.mp hstep
      exact Or.inl ⟨hmaster, Parties.forall_insert
        (fun other job _ hjob => hidle other job hjob) (Or.inr rfl), hleft⟩
  | lockExpires =>
      simp only [Publishing.step] at hstep
      split at hstep
      · simp at hstep
      · obtain rfl := Option.some.inj hstep
        exact Or.inl ⟨hmaster, hidle, hleft⟩
  | rendition id world =>
      obtain ⟨⟨kind, phase⟩, hjob, hmap⟩ := Option.bind_eq_some_iff.mp hstep
      obtain ⟨⟨after, next⟩, hnext, rfl⟩ := Option.map_eq_some_iff.mp hmap
      rcases hidle id _ hjob with rfl | rfl
      · simp only [RenditionJob.next, hmaster] at hnext
        obtain ⟨rfl, rfl⟩ := Prod.mk.inj (Option.some.inj hnext)
        exact Or.inl ⟨hmaster, Parties.forall_insert
          (fun other job _ hjob => hidle other job hjob) (Or.inr rfl), hleft⟩
      · simp [RenditionJob.next] at hnext

theorem Published.step (hs : Published names s) (hlock : LockHeld s) {action : PublishingAction}
    (hok : SameNames names s action) (hstep : s.step action = some t) : Published names t := by
  obtain ⟨hladder, master, hmaster, hcomplete, hstanding⟩ := hs
  cases action with
  | ladder out => simp [Publishing.step, hladder] at hstep
  | ladderDies =>
      obtain rfl := Option.some.inj hstep
      exact ⟨rfl, master, hmaster, hcomplete, hstanding⟩
  | start id kind =>
      simp only [Publishing.step] at hstep
      split at hstep
      · simp at hstep
      · obtain rfl := Option.some.inj hstep
        exact ⟨hladder, master, hmaster, hcomplete, Parties.forall_insert
          (fun other job _ hjob => hstanding other job hjob) trivial⟩
  | dies id =>
      obtain ⟨job, hjob, rfl⟩ := Option.map_eq_some_iff.mp hstep
      exact ⟨hladder, master, hmaster, hcomplete, Parties.forall_insert
        (fun other job _ hjob => hstanding other job hjob) trivial⟩
  | lockExpires =>
      simp only [Publishing.step] at hstep
      split at hstep
      · simp at hstep
      · obtain rfl := Option.some.inj hstep
        exact ⟨hladder, master, hmaster, hcomplete, hstanding⟩
  | rendition id world =>
      obtain ⟨job, hjob, hmap⟩ := Option.bind_eq_some_iff.mp hstep
      obtain ⟨⟨after, phase⟩, hnext, rfl⟩ := Option.map_eq_some_iff.mp hmap
      have hnames : ∀ probe rung rungs listed, job.phase = .encoding probe (rung :: rungs) listed →
          LeavesNames (names job.kind rung) world.files := by
        intro probe rung rungs listed hphase
        exact hok job hjob rung (by simp [encodes, hphase])
      obtain ⟨text, hprogress⟩ :=
        next_progress hmaster hcomplete (hstanding id job hjob) hnames hnext
      refine ⟨hladder, text, hprogress.stored, hprogress.complete, ?_⟩
      refine Parties.forall_insert (fun other otherJob hne hother => ?_) hprogress.standing
      refine (hstanding other otherJob hother).mono hprogress.grown hprogress.named
        fun hinside => ?_
      have hout := hlock.others hjob hother hne hinside
      exact hprogress.written.resolve_left (by simp [hout])

/-- The master never dangles: of a ladder whose encode left a closed set of files, and
renditions that leave the same names whenever they encode a rung, the master that is stored
names only playlists that are stored, and these only files that are. -/
theorem master_never_dangles {files : List (String × String)} (hfiles : LocalLadder files)
    {probe : SourceProbe} {maxFps : ℕ}
    (hs : (publishingSystem (ladderUploads probe maxFps files)).ReachableUnder
      (SameNames names) s) : NoDangling s := by
  obtain ⟨others, own, hothers, huploads⟩ : ∃ others own, ClosedUploads others own ∧
      (ladderUploads probe maxFps files = [] ∨
        ladderUploads probe maxFps files = others ++ [(masterPlaylistName, own)]) := by
    rcases ladderUploads_cases hfiles probe maxFps with hnone | ⟨others, own, hsome, hothers⟩
    · exact ⟨[], "", ⟨by simp, by simp, by simp [namedUris, splitLines, splitLinesFrom]⟩,
        Or.inl hnone⟩
    · exact ⟨others, own, hothers, Or.inr hsome⟩
  have hinv : LockHeld s ∧ (Growing others own s ∨ Published names s) := by
    refine hs.invariant (fun s => LockHeld s ∧ (Growing others own s ∨ Published names s)) ?_ ?_
    · rintro s ⟨hempty, hlock, hladder, hjobs⟩
      have hnone : ∀ id job, s.jobs.lookup id ≠ some job := by simp [hjobs]
      refine ⟨fun id job hjob => absurd hjob (hnone id job), Or.inl ⟨hempty _, fun id job hjob =>
        absurd hjob (hnone id job), ?_⟩⟩
      rcases huploads with hnil | hcons
      · exact Or.inl (hladder.trans hnil)
      · exact Or.inr ⟨[], others, rfl, hladder.trans hcons, by simp⟩
    · rintro s action t - ⟨hlock, hgrowing | hpublished⟩ hok hstep
      · exact ⟨hlock.step hstep, hgrowing.step hothers hstep⟩
      · exact ⟨hlock.step hstep, Or.inr (hpublished.step hlock hok hstep)⟩
  intro master hmaster uri huri
  rw [resolveUri_master]
  rcases hinv.2 with hgrowing | ⟨-, stored, hstored, hcomplete, -⟩
  · rw [hgrowing.noMaster] at hmaster
    exact absurd hmaster (by simp)
  · obtain rfl := Option.some.inj (hmaster.symm.trans hstored)
    exact (hcomplete uri huri).2

/-- A small ladder's files, and those of every encode of a rung. -/
def smallLadder : List (String × String) :=
  [(masterPlaylistName, smallMaster), ("v0/index.m3u8", "#EXTM3U\n#EXTINF:4,\nseg00000.ts\n"),
    ("v0/seg00000.ts", "")]

def smallRung : List (String × String) :=
  [("index.m3u8", "#EXTM3U\n#EXT-X-MAP:URI=\"init.mp4\"\n#EXTINF:4,\nseg00000.m4s\n"),
    ("init.mp4", ""), ("seg00000.m4s", "")]

/-- A ladder, and an HDR job that lists its rung. -/
theorem master_never_dangles_hdr : ∃ s : Publishing,
    listedRungs s 0 = [200] ∧ NoDangling s := by
  have hfiles : LocalLadder smallLadder := by
    have hmaster : namedUris smallMaster = ["v0/index.m3u8"] := by decide +kernel
    have hplaylist : namedUris "#EXTM3U\n#EXTINF:4,\nseg00000.ts\n" = ["seg00000.ts"] := by
      decide +kernel
    refine ⟨by decide +kernel, fun master hmem uri huri => ?_⟩
    obtain rfl : master = smallMaster := by
      simpa [smallLadder, masterPlaylistName] using hmem
    rw [hmaster, List.mem_singleton] at huri
    subst huri
    refine ⟨_, by decide, List.mem_cons_of_mem _ (List.mem_cons_self ..), fun part hpart => ?_⟩
    rw [hplaylist, List.mem_singleton] at hpart
    subst hpart
    exact ⟨"", by decide +kernel⟩
  let probe : SourceProbe := ⟨320, 200, by decide, by decide, true, none, some "smpte2084"⟩
  let start : Publishing := ⟨⟨fun _ => none, none⟩, ladderUploads probe 30 smallLadder, ∅⟩
  have hstart : (publishingSystem (ladderUploads probe 30 smallLadder)).ReachableUnder
      (SameNames fun _ _ => ["index.m3u8", "init.mp4", "seg00000.m4s"]) start :=
    .init ⟨fun _ => rfl, rfl, rfl, rfl⟩
  obtain ⟨s, hs, hp⟩ := hstart.exists_of_runUnder
    (List.replicate 3 (.ladder .returned) ++ [.start 0 .hdr, .rendition 0 {},
      .rendition 0 { probe := probe }, .rendition 0 { files := smallRung }] ++
      List.replicate 9 (.rendition 0 {}))
    (fun s => listedRungs s 0 = [200]) (by decide +kernel)
  exact ⟨s, of_decide_eq_true hp, master_never_dangles hfiles hs⟩

end Publishing

end Worker
end MediaPlayer
