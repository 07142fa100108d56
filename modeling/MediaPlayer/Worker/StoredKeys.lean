import MediaPlayer.Api.Jobs
import MediaPlayer.Library.Paths
import MediaPlayer.Services.ObjectKeys
import MediaPlayer.Worker.LadderLeftovers
import MediaPlayer.Worker.WorkerSteps

/-!
# The keys the workers make

`output_key_for` and `thumbnail_key_for` of `app/worker/storage.py`, the output key of an edit in
`app/worker/operations.py`, and `preview_prefix_for` of `app/worker/preview.py`, for any output
prefix: a worker strips it of slashes, and `PurePosixPath` drops more of it from the prefix of a
preview.

* `FileOf` — the objects of a job: its upload, an output, or anything in the folders of its
  ladder and its preview.
* `FileOf.unique` — no object is of two jobs.
-/

namespace MediaPlayer
namespace Worker

open Library Models Services Api

/-- `text.strip("/")`. -/
def stripSlashes (text : String) : String :=
  String.ofList ((text.toList.dropWhile (· == '/')).rdropWhile (· == '/'))

/-! ## The keys -/

/-- The key of an output with this extension. -/
def outputKeyAs (outputPrefix : String) (jobId : UUID) (sourceKey extension : String) : String :=
  let stem := if pathStem sourceKey = "" then toString jobId else pathStem sourceKey
  objectKey outputPrefix jobId (stem ++ "." ++ extension)

/-- `output_key_for`. -/
def outputKeyFor (outputPrefix : String) (jobId : UUID) (sourceKey : String) : String :=
  outputKeyAs outputPrefix jobId sourceKey "mp4"

/-- The extensions of an edit's output, the first that of an upload's as well. -/
def outputExtensions : List String := ["mp4", "mkv", "mp3"]

/-- `thumbnail_key_for`. -/
def thumbnailKeyFor (outputPrefix : String) (jobId : UUID) : String :=
  objectKey outputPrefix jobId thumbnailFilename

/-- `preview_prefix_for`. -/
def previewPrefixFor (outputKey : String) : String := pathParent outputKey ++ "/preview/"

/-- The key `_record` is given. -/
def previewKeyFor (outputKey : String) : String := previewPrefixFor outputKey ++ "sprite.vtt"

/-! ## Names -/

theorem slash_not_mem_toString (jobId : UUID) : '/' ∉ (toString jobId).toList :=
  not_mem_repr (by decide) jobId

theorem toString_ne_of_mem {jobId : UUID} {text : String} {c : Char} (hc : c.isDigit = false)
    (hmem : c ∈ text.toList) : toString jobId ≠ text := by
  rintro rfl
  exact not_mem_repr hc jobId hmem

theorem toString_ne_empty (jobId : UUID) : toString jobId ≠ "" := by
  intro hempty
  have hdigits : Nat.toDigits 10 jobId = [] := by
    rw [← Nat.toList_repr]
    exact congrArg String.toList hempty
  exact Nat.toDigits_ne_nil hdigits

theorem pathName_eq (path : String) :
    pathName path = ((pathParts path).getLast?).getD "" := rfl

theorem slash_not_mem_pathName (path : String) : '/' ∉ (pathName path).toList := by
  rw [pathName_eq]
  cases hlast : (pathParts path).getLast? with
  | none => exact List.not_mem_nil
  | some name =>
      have hname : name ∈ components path := by
        rw [← splitOn_slash]
        exact List.mem_of_mem_filter (List.mem_of_getLast? hlast)
      exact slash_not_mem_component hname

theorem mem_of_mem_beforeLast {separator c : Char} {text : String}
    (hc : c ∈ (beforeLast separator text).toList) : c ∈ text.toList := by
  unfold beforeLast at hc
  split at hc
  · rw [String.toList_ofList] at hc
    exact (List.rdropWhile_prefix _ _).subset (List.mem_of_mem_dropLast hc)
  · exact hc

theorem slash_not_mem_pathStem (path : String) : '/' ∉ (pathStem path).toList := by
  unfold pathStem
  dsimp only
  split
  · exact fun hslash => slash_not_mem_pathName path (mem_of_mem_beforeLast hslash)
  · exact slash_not_mem_pathName path

/-- The name of an output is one component, and has a letter. -/
theorem outputKeyAs_named (outputPrefix : String) (jobId : UUID) (sourceKey : String)
    {extension : String} (hextension : extension ∈ outputExtensions) :
    ∃ name, '/' ∉ name.toList ∧ 'm' ∈ name.toList ∧
      outputKeyAs outputPrefix jobId sourceKey extension = objectKey outputPrefix jobId name := by
  have hletters : '/' ∉ extension.toList ∧ 'm' ∈ extension.toList := by
    simp only [outputExtensions, List.mem_cons, List.not_mem_nil, or_false] at hextension
    rcases hextension with rfl | rfl | rfl <;> decide
  have hstem : '/' ∉ (if pathStem sourceKey = "" then toString jobId
      else pathStem sourceKey).toList := by
    split
    · exact slash_not_mem_toString jobId
    · exact slash_not_mem_pathStem sourceKey
  have hdot : '/' ∉ (".").toList := by decide
  refine ⟨_, ?_, ?_, rfl⟩
  · simp only [String.toList_append, List.mem_append, not_or]
    exact ⟨⟨hstem, hdot⟩, hletters.1⟩
  · simp only [String.toList_append, List.mem_append]
    exact Or.inr hletters.2

theorem components_objectKey {root name : String} {jobId : UUID} (hname : '/' ∉ name.toList) :
    components (objectKey root jobId name) = components root ++ [toString jobId, name] := by
  unfold objectKey
  rw [components_name hname, components_name (slash_not_mem_toString jobId), List.append_assoc]
  rfl

theorem isPart_toString (jobId : UUID) : isPart (toString jobId) = true := by
  have hdot : toString jobId ≠ "." := toString_ne_of_mem (c := '.') (by decide) (by decide)
  exact decide_eq_true ⟨toString_ne_empty jobId, hdot⟩

theorem isPart_of_mem {name : String} {c : Char} (hmem : c ∈ name.toList) (hdot : c ≠ '.') :
    isPart name = true := by
  refine decide_eq_true ⟨?_, ?_⟩
  · rintro rfl
    exact absurd hmem List.not_mem_nil
  · rintro rfl
    exact hdot (List.mem_singleton.mp hmem)

/-! ## The folder of a preview -/

theorem head_stripSlashes (text : String) : (stripSlashes text).toList.head? ≠ some '/' := by
  intro hhead
  unfold stripSlashes at hhead
  rw [String.toList_ofList] at hhead
  obtain ⟨rest, hrest⟩ := List.rdropWhile_prefix (fun c => c == '/')
    (l := text.toList.dropWhile fun c => c == '/')
  obtain ⟨kept, hkept⟩ := List.head?_eq_some_iff.mp hhead
  have hfirst := List.head?_dropWhile_not (fun c => c == '/') text.toList
  rw [← hrest, hkept] at hfirst
  simp at hfirst

/-- What `PurePosixPath` leaves of the output prefix: of none, the root. -/
def previewRoot (outputPrefix : String) : List String :=
  if outputPrefix = "" then [""] else (components outputPrefix).filter isPart

theorem previewRoot_cases (outputPrefix : String) :
    previewRoot outputPrefix = components outputPrefix ∨
      previewRoot outputPrefix = (components outputPrefix).filter isPart := by
  unfold previewRoot
  split
  · rename_i hempty
    exact Or.inl (by rw [hempty]; rfl)
  · exact Or.inr rfl

theorem pathRoot_objectKey_empty (jobId : UUID) (name : String) :
    pathRoot (objectKey "" jobId name) = "/" := by
  have hchars : (objectKey "" jobId name).toList =
      '/' :: (jobId.repr.toList ++ '/' :: name.toList) := toList_objectKey "" jobId name
  have hone : startsWith (objectKey "" jobId name) "/" = true := by
    unfold startsWith
    rw [hchars]
    rfl
  have htwo : startsWith (objectKey "" jobId name) "//" = false := by
    unfold startsWith
    rw [hchars]
    cases hdigits : jobId.repr.toList with
    | nil => exact absurd (String.toList_eq_nil_iff.mp hdigits) (toString_ne_empty jobId)
    | cons first rest =>
        have hfirst : '/' ≠ first := by
          rintro rfl
          exact slash_not_mem_toString jobId (hdigits ▸ List.mem_cons_self)
        simp [List.isPrefixOf, hfirst]
  unfold pathRoot
  rw [hone, htwo]
  rfl

theorem pathRoot_objectKey {outputPrefix name : String} {jobId : UUID}
    (hplain : outputPrefix.toList.head? ≠ some '/') (hne : outputPrefix ≠ "") :
    pathRoot (objectKey outputPrefix jobId name) = "" := by
  have hstarts (rest : List Char) :
      ('/' :: rest).isPrefixOf (objectKey outputPrefix jobId name).toList = false := by
    rw [toList_objectKey]
    cases hchars : outputPrefix.toList with
    | nil => exact absurd (String.toList_eq_nil_iff.mp hchars) hne
    | cons first others =>
        have hfirst : '/' ≠ first := by
          rintro rfl
          exact hplain (hchars ▸ rfl)
        simp [List.isPrefixOf, hfirst]
  have hone : startsWith (objectKey outputPrefix jobId name) "/" = false := hstarts []
  have htwo : startsWith (objectKey outputPrefix jobId name) "//" = false := hstarts ['/']
  unfold pathRoot
  rw [hone, htwo]
  rfl

theorem components_pathParent {outputPrefix name : String} {jobId : UUID}
    (hplain : outputPrefix.toList.head? ≠ some '/') (hname : '/' ∉ name.toList)
    (hpart : isPart name = true) :
    components (pathParent (objectKey outputPrefix jobId name)) =
      previewRoot outputPrefix ++ [toString jobId] := by
  have hparts : (pathParts (objectKey outputPrefix jobId name)).dropLast =
      (components outputPrefix).filter isPart ++ [toString jobId] := by
    unfold pathParts
    rw [splitOn_slash, components_objectKey hname, List.filter_append,
      List.filter_cons_of_pos (isPart_toString jobId), List.filter_cons_of_pos hpart,
      List.filter_nil, List.append_cons, List.dropLast_concat]
  have hjoined : components (pathRoot (objectKey outputPrefix jobId name) ++
      "/".intercalate (pathParts (objectKey outputPrefix jobId name)).dropLast) =
      previewRoot outputPrefix ++ [toString jobId] := by
    rw [hparts]
    by_cases hempty : outputPrefix = ""
    · subst hempty
      rw [pathRoot_objectKey_empty]
      exact @components_name "" _ (slash_not_mem_toString jobId)
    · rw [pathRoot_objectKey hplain hempty, String.empty_append,
        components_intercalate (by simp), previewRoot, if_neg hempty]
      intro part hmem
      rcases List.mem_append.mp hmem with hroot | hid
      · exact slash_not_mem_component (List.mem_of_mem_filter hroot)
      · rw [List.mem_singleton.mp hid]
        exact slash_not_mem_toString jobId
  have hne : pathRoot (objectKey outputPrefix jobId name) ++
      "/".intercalate (pathParts (objectKey outputPrefix jobId name)).dropLast ≠ "" := by
    intro hempty
    rw [hempty] at hjoined
    have hmem : toString jobId ∈ components "" := hjoined ▸ List.mem_append_right _ (by simp)
    exact toString_ne_empty jobId (List.mem_singleton.mp hmem)
  unfold pathParent
  dsimp only
  rw [if_neg hne, hjoined]

/-! ## Whose an object is -/

/-- The object is one of the job's: its upload, an output or a poster frame, or anything in the
folder of its ladder or of its preview. -/
inductive FileOf (outputPrefix : String) (jobId : UUID) (key : String) : Prop
  | upload {name : String} (hname : '/' ∉ name.toList) (hkey : key = objectKey "uploads" jobId name)
  | output {name : String} (hname : '/' ∉ name.toList)
      (hkey : key = objectKey outputPrefix jobId name)
  | ladder (hstarts : startsWith key (prefixFor outputPrefix jobId ++ "/") = true)
  | preview {name : String} (hname : '/' ∉ name.toList) (hpart : isPart name = true)
      (hstarts : startsWith key (previewPrefixFor (objectKey outputPrefix jobId name)) = true)

section

variable {outputPrefix key : String} {jobId other : UUID}

theorem prefixFor_eq (outputPrefix : String) (jobId : UUID) :
    prefixFor outputPrefix jobId = objectKey outputPrefix jobId "hls" := by
  have htext : ("/hls" : String) = "/" ++ "hls" := by decide
  change outputPrefix ++ "/" ++ toString jobId ++ "/hls" = _
  rw [htext, ← String.append_assoc]
  rfl

theorem components_ladder (hstarts : startsWith key (prefixFor outputPrefix jobId ++ "/") = true) :
    ∃ rest, rest ≠ [] ∧
      components key = components outputPrefix ++ [toString jobId] ++ "hls" :: rest := by
  obtain ⟨rest, hrest, hkey⟩ := components_startsWith hstarts
  rw [prefixFor_eq, components_objectKey (by decide)] at hkey
  exact ⟨rest, hrest, by rw [hkey]; simp⟩

theorem components_preview (hplain : outputPrefix.toList.head? ≠ some '/') {name : String}
    (hname : '/' ∉ name.toList) (hpart : isPart name = true)
    (hstarts : startsWith key (previewPrefixFor (objectKey outputPrefix jobId name)) = true) :
    ∃ rest, rest ≠ [] ∧
      components key = previewRoot outputPrefix ++ [toString jobId] ++ "preview" :: rest := by
  have hfolder : previewPrefixFor (objectKey outputPrefix jobId name) =
      pathParent (objectKey outputPrefix jobId name) ++ "/" ++ "preview" ++ "/" := by
    have htext : ("/preview/" : String) = "/" ++ "preview" ++ "/" := by decide
    rw [previewPrefixFor, htext, String.append_assoc, String.append_assoc, String.append_assoc]
  rw [hfolder] at hstarts
  obtain ⟨rest, hrest, hkey⟩ := components_startsWith hstarts
  rw [components_name (by decide), components_pathParent hplain hname hpart] at hkey
  exact ⟨rest, hrest, by rw [hkey]; simp⟩

/-- The object is under the job's id, in the output prefix as it is or as a preview has it. -/
def Under (outputPrefix : String) (jobId : UUID) (key : String) : Prop :=
  ∃ root, (root = components outputPrefix ∨ root = (components outputPrefix).filter isPart) ∧
    root ++ [toString jobId] <+: components key

theorem eq_of_toString (hsame : toString jobId = toString other) : jobId = other :=
  eq_of_repr (congrArg String.toList hsame)

/-- Under the prefix as it is and under what is left of it, no object is under two ids. -/
theorem Under.unique (hjob : Under outputPrefix jobId key) (hother : Under outputPrefix other key) :
    jobId = other := by
  have hmixed {first second : UUID}
      (hfirst : (components outputPrefix).filter isPart ++ [toString first] <+: components key)
      (hsecond : components outputPrefix ++ [toString second] <+: components key) :
      first = second := by
    have hlength := List.length_filter_le isPart (components outputPrefix)
    have hplain := List.prefix_of_prefix_length_le hfirst hsecond (by simpa using hlength)
    exact eq_of_toString (eq_of_filtered_front (isPart_toString first) hplain).2
  have hsame {root : List String} {first second : UUID}
      (hfirst : root ++ [toString first] <+: components key)
      (hsecond : root ++ [toString second] <+: components key) : first = second := by
    have hplain := List.prefix_of_prefix_length_le hfirst hsecond (by simp)
    have hlists := hplain.eq_of_length (by simp)
    exact eq_of_toString (List.singleton_inj.mp (List.append_cancel_left hlists))
  obtain ⟨root, rfl | rfl, hunder⟩ := hjob <;> obtain ⟨root', rfl | rfl, hunder'⟩ := hother
  · exact hsame hunder hunder'
  · exact (hmixed hunder' hunder).symm
  · exact hmixed hunder hunder'
  · exact hsame hunder hunder'

theorem under_of_output {name : String} (hname : '/' ∉ name.toList) :
    Under outputPrefix jobId (objectKey outputPrefix jobId name) := by
  refine ⟨_, Or.inl rfl, [name], ?_⟩
  rw [components_objectKey hname, List.append_assoc]
  rfl

theorem under_of_ladder (hstarts : startsWith key (prefixFor outputPrefix jobId ++ "/") = true) :
    Under outputPrefix jobId key := by
  obtain ⟨rest, -, hkey⟩ := components_ladder hstarts
  exact ⟨_, Or.inl rfl, "hls" :: rest, hkey.symm⟩

theorem under_of_preview (hplain : outputPrefix.toList.head? ≠ some '/') {name : String}
    (hname : '/' ∉ name.toList) (hpart : isPart name = true)
    (hstarts : startsWith key (previewPrefixFor (objectKey outputPrefix jobId name)) = true) :
    Under outputPrefix jobId key := by
  obtain ⟨rest, -, hkey⟩ := components_preview hplain hname hpart hstarts
  exact ⟨_, previewRoot_cases outputPrefix, "preview" :: rest, hkey.symm⟩

/-- An upload has three components, and what is in a folder has more, or begins with an id. -/
theorem not_in_folder_of_upload {name dir : String} {root rest : List String}
    (hname : '/' ∉ name.toList) (hrest : rest ≠ []) :
    components (objectKey "uploads" jobId name) ≠ root ++ [toString other] ++ dir :: rest := by
  rw [components_objectKey hname, components_of_not_mem (by decide)]
  intro hkey
  cases root with
  | nil =>
      have hid : "uploads" = toString other := (List.cons.inj hkey).1
      exact toString_ne_of_mem (c := 'u') (by decide) (by decide) hid.symm
  | cons first others =>
      have hlength := congrArg List.length hkey
      have hpos := List.length_pos_of_ne_nil hrest
      simp only [List.length_append, List.length_cons, List.length_nil] at hlength
      omega

theorem FileOf.namedFor_of_upload (hplain : outputPrefix.toList.head? ≠ some '/')
    {name : String} (hname : '/' ∉ name.toList)
    (hfile : FileOf outputPrefix other (objectKey "uploads" jobId name)) :
    NamedFor other (objectKey "uploads" jobId name) := by
  cases hfile with
  | upload hother hkey => exact ⟨_, _, hother, hkey⟩
  | output hother hkey => exact ⟨_, _, hother, hkey⟩
  | ladder hstarts =>
      obtain ⟨rest, hrest, hkey⟩ := components_ladder hstarts
      exact absurd hkey (not_in_folder_of_upload hname hrest)
  | preview hother hpart hstarts =>
      obtain ⟨rest, hrest, hkey⟩ := components_preview hplain hother hpart hstarts
      exact absurd hkey (not_in_folder_of_upload hname hrest)

theorem FileOf.under_or_upload (hplain : outputPrefix.toList.head? ≠ some '/')
    (hfile : FileOf outputPrefix jobId key) :
    Under outputPrefix jobId key ∨
      ∃ name, '/' ∉ name.toList ∧ key = objectKey "uploads" jobId name := by
  cases hfile with
  | upload hname hkey => exact Or.inr ⟨_, hname, hkey⟩
  | output hname hkey => exact Or.inl (hkey ▸ under_of_output hname)
  | ladder hstarts => exact Or.inl (under_of_ladder hstarts)
  | preview hname hpart hstarts => exact Or.inl (under_of_preview hplain hname hpart hstarts)

/-- No object is of two jobs. -/
theorem FileOf.unique (hplain : outputPrefix.toList.head? ≠ some '/')
    (hjob : FileOf outputPrefix jobId key) (hother : FileOf outputPrefix other key) :
    jobId = other := by
  rcases hjob.under_or_upload hplain with hunder | ⟨name, hname, rfl⟩
  · rcases hother.under_or_upload hplain with hunder' | ⟨name, hname, rfl⟩
    · exact hunder.unique hunder'
    · exact (hjob.namedFor_of_upload hplain hname).unique ⟨_, _, hname, rfl⟩
  · exact NamedFor.unique ⟨_, _, hname, rfl⟩ (hother.namedFor_of_upload hplain hname)

end

end Worker
end MediaPlayer
