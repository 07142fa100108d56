import MediaPlayer.Api.Jobs
import MediaPlayer.Worker.LadderLeftovers
import MediaPlayer.Worker.StoredKeys
import MediaPlayer.Worker.SweepInvariant

/-!
# The names clients give

A filename and a path of a ladder come from the client and end up in object keys.

* `PlainName` — what `safe_filename` leaves of a filename; it leaves such a name alone.
* `SafePart` — a component of a key that leads nowhere else.
* `client_names_contained` — the keys made from a client's names stay in the job's folders.
-/

namespace MediaPlayer
namespace Worker

open Library Models Services Schemas Api

/-! ## Names -/

/-- At most a hundred characters of the alphabet, and no dot in front. -/
structure PlainName (name : String) : Prop where
  least : 1 ≤ name.length
  most : name.length ≤ 100
  chars : ∀ c ∈ name.toList, safeFilenameChar c = true
  head : name.toList.head? ≠ some '.'

/-- A component that is neither empty nor `.` nor `..`. -/
def SafePart (part : String) : Prop := part ≠ "" ∧ part ≠ "." ∧ part ≠ ".."

theorem safePart_of_mem {part : String} {c : Char} (hmem : c ∈ part.toList) (hdot : c ≠ '.') :
    SafePart part := by
  refine ⟨?_, ?_, ?_⟩
  · rintro rfl
    exact absurd hmem List.not_mem_nil
  · rintro rfl
    exact hdot (List.mem_singleton.mp hmem)
  · rintro rfl
    have hdots : "..".toList = List.replicate 2 '.' := rfl
    exact hdot (List.eq_of_mem_replicate (hdots ▸ hmem))

theorem PlainName.slash {name : String} (h : PlainName name) : '/' ∉ name.toList :=
  fun hslash => absurd (h.chars '/' hslash) (by decide)

/-- The first character is no dot. -/
theorem PlainName.safePart {name : String} (h : PlainName name) : SafePart name := by
  cases hchars : name.toList with
  | nil =>
      have hleast := h.least
      rw [← String.length_toList, hchars] at hleast
      cases hleast
  | cons c rest =>
      have hhead := h.head
      rw [hchars] at hhead
      exact safePart_of_mem (hchars ▸ List.mem_cons_self) fun hdot => hhead (congrArg some hdot)

theorem plainName_upload : PlainName "upload.bin" :=
  ⟨by decide, by decide, List.all_eq_true.mp (by decide), by decide⟩

/-- What `safe_filename` leaves. -/
theorem safeFilename_plain (raw : String) : PlainName (safeFilename raw) := by
  unfold safeFilename
  dsimp only
  split
  · exact plainName_upload
  · rename_i hne
    refine ⟨?_, ?_, fun c hc => ?_, ?_⟩
    · rw [← String.length_toList, String.toList_ofList]
      exact List.length_pos_iff.mpr hne
    · rw [← String.length_toList, String.toList_ofList]
      exact List.length_take_le ..
    · rw [String.toList_ofList] at hc
      have hmem := (List.dropWhile_sublist _).subset (List.mem_of_mem_take hc)
      obtain ⟨d, -, rfl⟩ := List.mem_map.mp hmem
      split
      · assumption
      · decide
    · rw [String.toList_ofList, List.head?_take]
      intro hhead
      have hfirst := List.head?_dropWhile_not (fun c => decide (c = '.'))
        ((pathName raw).toList.map fun c => if safeFilenameChar c then c else '_')
      simp_all

/-- A plain name is its own name, and nothing of it is replaced, stripped or cut. -/
theorem PlainName.safeFilename_eq {name : String} (h : PlainName name) :
    safeFilename name = name := by
  have hname : pathName name = name := by
    have hkept : isPart name = true := decide_eq_true ⟨h.safePart.1, h.safePart.2.1⟩
    rw [pathName_eq, pathParts, splitOn_slash, components_of_not_mem h.slash,
      List.filter_cons_of_pos hkept]
    rfl
  have hchars : (name.toList.map fun c => if safeFilenameChar c then c else '_') = name.toList :=
    (List.map_congr_left fun c hc => if_pos (h.chars c hc)).trans (List.map_id _)
  have hcut : (name.toList.dropWhile (· = '.')).take 100 = name.toList := by
    have hleft : name.toList.dropWhile (· = '.') = name.toList := by
      cases hlist : name.toList with
      | nil => rfl
      | cons c rest =>
          have hhead := h.head
          rw [hlist] at hhead
          exact List.dropWhile_cons_of_neg fun hdot =>
            hhead (congrArg some (of_decide_eq_true hdot))
    rw [hleft]
    exact List.take_of_length_le (String.length_toList ▸ h.most)
  have hne : name.toList ≠ [] := by
    intro hnil
    have hleast := h.least
    rw [← String.length_toList, hnil] at hleast
    cases hleast
  unfold safeFilename
  dsimp only
  rw [hname, hchars, hcut, if_neg hne, String.ofList_toList]

/-! ## Paths of a ladder -/

theorem components_ofList_append (folder name : List Char) :
    components (String.ofList (folder ++ '/' :: name)) =
      components (String.ofList folder) ++ components (String.ofList name) := by
  rw [← components_append]
  congr 1
  apply String.toList_inj.mp
  rw [String.toList_append, String.toList_append, String.toList_ofList, String.toList_ofList,
    String.toList_ofList, List.append_assoc, String.toList_ofList]
  rfl

/-- A component with a character that is no dot, and without a slash. -/
theorem safePart_ofList {name : List Char} {c : Char} (hslash : '/' ∉ name) (hmem : c ∈ name)
    (hdot : c ≠ '.') : ∀ part ∈ components (String.ofList name), SafePart part := by
  rw [components_of_not_mem ((String.toList_ofList (l := name)).symm ▸ hslash)]
  intro part hpart
  rw [List.mem_singleton.mp hpart]
  exact safePart_of_mem ((String.toList_ofList (l := name)).symm ▸ hmem) hdot

theorem safePart_ladderFile {name ending : List Char} (hne : name ≠ [])
    (hname : ∀ c ∈ name, c ∈ nameChars) (hending : '/' ∉ ending) :
    ∀ part ∈ components (String.ofList (name ++ '.' :: ending)), SafePart part := by
  obtain ⟨c, hc⟩ := List.exists_mem_of_ne_nil _ hne
  refine safePart_ofList (c := c) ?_ (List.mem_append_left _ hc) ?_
  · rw [List.mem_append, List.mem_cons, not_or, not_or]
    exact ⟨fun hslash => absurd (hname _ hslash) (by decide), by decide, hending⟩
  · rintro rfl
    exact absurd (hname _ hc) (by decide)

theorem slash_not_mem_digits {digits : List Char} (hdigits : ∀ c ∈ digits, c ∈ digitChars) :
    '/' ∉ digits :=
  fun hslash => absurd (hdigits _ hslash) (by decide)

theorem safePart_rendition {name : List Char} (hname : RenditionName name) :
    ∀ part ∈ components (String.ofList name), SafePart part := by
  rcases hname with rfl | rfl | ⟨digits, rfl, -, -, hdigits⟩
  · exact safePart_ofList (c := 'i') (by decide) (by decide) (by decide)
  · exact safePart_ofList (c := 'i') (by decide) (by decide) (by decide)
  · refine safePart_ofList (c := 's') ?_ ?_ (by decide)
    · rw [List.mem_append, List.mem_append, not_or, not_or]
      exact ⟨⟨by decide, slash_not_mem_digits hdigits⟩, by decide⟩
    · exact List.mem_append_left _ (List.mem_append_left _ (by decide))

/-- Every component of a path that is accepted is safe. -/
theorem safePart_of_accepted {path safe : String} (haccepted : safeHlsPath path = some safe) :
    ∀ part ∈ components safe, SafePart part := by
  obtain rfl : path = safe := by
    unfold safeHlsPath at haccepted
    split at haccepted
    · exact Option.some.inj haccepted
    · cases haccepted
  have hself : path = String.ofList path.toList := String.ofList_toList.symm
  rw [hself]
  rcases safeHlsPath_iff.mp haccepted with hladder | hrendition
  · obtain ⟨folder, name, ending, htext, hfolder, ⟨hne, hname⟩, hending⟩ :=
      rmatch_ladderPath.mp hladder
    have hslash : '/' ∉ ending := by
      rcases hending with rfl | rfl <;> decide
    have hfile := safePart_ladderFile hne hname hslash
    rw [htext]
    rcases hfolder with rfl | ⟨digits, rfl, -, -, hdigits⟩
    · exact hfile
    · have hslashes : '/' ∉ 'v' :: digits :=
        List.not_mem_cons_of_ne_of_not_mem (by decide) (slash_not_mem_digits hdigits)
      have hrung := safePart_ofList hslashes List.mem_cons_self (by decide)
      have hparts : 'v' :: (digits ++ ['/']) ++ (name ++ '.' :: ending) =
          'v' :: digits ++ '/' :: (name ++ '.' :: ending) := by simp
      rw [hparts, components_ofList_append]
      intro part hpart
      exact (List.mem_append.mp hpart).elim (hrung part) (hfile part)
  · obtain ⟨kind, height, name, htext, hkind, ⟨hleast, -, hheight⟩, hname⟩ :=
      rmatch_renditionPath.mp hrendition
    have hfolder : ∀ part ∈ components (String.ofList kind), SafePart part := by
      rcases hkind with rfl | rfl
      · exact safePart_ofList (c := 'h') (by decide) (by decide) (by decide)
      · exact safePart_ofList (c := 'a') (by decide) (by decide) (by decide)
    obtain ⟨digit, hdigit⟩ := List.exists_mem_of_length_pos (Nat.zero_lt_of_lt hleast)
    have hrung := safePart_ofList (slash_not_mem_digits hheight) hdigit fun hdot =>
      absurd (hheight _ hdigit) (hdot ▸ by decide)
    rw [htext, components_ofList_append, components_ofList_append]
    intro part hpart
    rcases List.mem_append.mp hpart with hpart | hpart
    · exact hfolder part hpart
    · exact (List.mem_append.mp hpart).elim (hrung part) (safePart_rendition hname part)

/-! ## Keys -/

/-- No component leads out of the folder that the others name. -/
def SafeKey (key : String) : Prop := ∀ part ∈ components key, SafePart part

/-- The object is in the folder, or in a folder of it. -/
def InFolder (folder key : String) : Prop :=
  ∃ rest, rest ≠ [] ∧ components key = components folder ++ rest ∧ ∀ part ∈ rest, SafePart part

theorem safePart_toString (jobId : UUID) : SafePart (toString jobId) :=
  ⟨toString_ne_empty jobId, toString_ne_of_mem (c := '.') (by decide) (by decide),
    toString_ne_of_mem (c := '.') (by decide) (by decide)⟩

theorem safeKey_objectKey {root name : String} (jobId : UUID) (hroot : SafeKey root)
    (hslash : '/' ∉ name.toList) (hname : SafePart name) :
    SafeKey (objectKey root jobId name) := by
  intro part hpart
  rw [components_objectKey hslash] at hpart
  simp only [List.mem_append, List.mem_cons, List.not_mem_nil, or_false] at hpart
  rcases hpart with hpart | rfl | rfl
  · exact hroot part hpart
  · exact safePart_toString jobId
  · exact hname

theorem safeKey_name {name : String} (hslash : '/' ∉ name.toList) (hname : SafePart name) :
    SafeKey name := by
  intro part hpart
  rw [components_of_not_mem hslash] at hpart
  exact List.mem_singleton.mp hpart ▸ hname

theorem inFolder_accepted (folder : String) {path safe : String}
    (haccepted : safeHlsPath path = some safe) : InFolder folder (folder ++ "/" ++ safe) :=
  ⟨components safe, components_ne_nil safe, components_append folder safe,
    safePart_of_accepted haccepted⟩

theorem InFolder.safeKey {folder key : String} (h : InFolder folder key)
    (hfolder : SafeKey folder) : SafeKey key := by
  obtain ⟨rest, -, hkey, hrest⟩ := h
  intro part hpart
  rw [hkey] at hpart
  exact (List.mem_append.mp hpart).elim (hfolder part) (hrest part)

/-- The playlist, or the address that was signed, is of an object in the folder. -/
def FromFolder (world : World) (folder : String) (answer : JobsAnswer) : Prop :=
  ∃ key, InFolder folder key ∧
    ((∃ body, world.readObject key = some body ∧ answer = .playlist body) ∨
      answer = .redirect (world.createInlineUrl key))

/-- What the API answers with is an object of the ladder's folder. -/
theorem getHlsPart_inFolder (settings : JobsSettings) (user : UUID) (world : World)
    (table : Repositories.JobTable) (jobId : UUID) (path : String) :
    (getHlsPart settings user world table jobId path).answer = notFound ∨
      ∃ hlsKey, (table.getJob jobId (some user) false).bind (·.hlsKey) = some hlsKey ∧
        FromFolder world (beforeLast '/' hlsKey)
          (getHlsPart settings user world table jobId path).answer := by
  unfold getHlsPart
  cases hrow : (table.getJob jobId (some user) false).bind (·.hlsKey) with
  | none => exact Or.inl rfl
  | some hlsKey =>
      cases haccepted : safeHlsPath path with
      | none => exact Or.inl rfl
      | some safe =>
          have hfolder := inFolder_accepted (beforeLast '/' hlsKey) haccepted
          dsimp only
          by_cases hplaylist : endsWith safe ".m3u8" = true
          · rw [if_pos hplaylist]
            cases hread : world.readObject (beforeLast '/' hlsKey ++ "/" ++ safe) with
            | none => exact Or.inl rfl
            | some body => exact Or.inr ⟨hlsKey, rfl, _, hfolder, Or.inl ⟨body, hread, rfl⟩⟩
          · rw [if_neg hplaylist]
            exact Or.inr ⟨hlsKey, rfl, _, hfolder, Or.inr rfl⟩

/-! ## Three components -/

/-- A folder, the job's id in it, and a name in that. -/
structure ThreeParts (key : String) : Prop where
  three : (components key).length = 3
  safe : SafeKey key

theorem threeParts_objectKey {root name : String} (jobId : UUID) (hroot : '/' ∉ root.toList)
    (hsafe : SafePart root) (hslash : '/' ∉ name.toList) (hname : SafePart name) :
    ThreeParts (objectKey root jobId name) where
  three := by
    rw [components_objectKey hslash, components_of_not_mem hroot]
    rfl
  safe := safeKey_objectKey jobId (safeKey_name hroot hsafe) hslash hname

theorem threeParts_source (raw : String) (jobId : UUID) :
    ThreeParts (objectKey "uploads" jobId (safeFilename raw)) :=
  threeParts_objectKey jobId (by decide) (safePart_of_mem (c := 'u') (by decide) (by decide))
    (safeFilename_plain raw).slash (safeFilename_plain raw).safePart

/-- Whatever the source is called. -/
theorem threeParts_output {outputPrefix : String} (jobId : UUID) (sourceKey : String)
    (hroot : '/' ∉ outputPrefix.toList) (hsafe : SafePart outputPrefix) :
    ThreeParts (outputKeyFor outputPrefix jobId sourceKey) := by
  have hextension : "mp4" ∈ outputExtensions := List.mem_cons_self
  obtain ⟨name, hslash, hletter, hkey⟩ :=
    outputKeyAs_named outputPrefix jobId sourceKey hextension
  have hname : SafePart name := safePart_of_mem hletter (by decide)
  rw [outputKeyFor, hkey]
  exact threeParts_objectKey jobId hroot hsafe hslash hname

theorem safeKey_ladder {outputPrefix : String} (jobId : UUID) (hroot : SafeKey outputPrefix) :
    SafeKey (prefixFor outputPrefix jobId) := by
  rw [prefixFor_eq]
  exact safeKey_objectKey jobId hroot (by decide)
    (safePart_of_mem (c := 'h') (by decide) (by decide))

/-- Names the client gives lead nowhere but into the job's folders: a filename is reduced to a
plain one, and that to itself; the source and the output are one name in a folder for the job;
and what the API signs or reads for a path of the ladder is in the ladder's folder. -/
theorem client_names_contained {outputPrefix : String} (hroot : '/' ∉ outputPrefix.toList)
    (hsafe : SafePart outputPrefix) (jobId : UUID) :
    (∀ raw, PlainName (safeFilename raw) ∧ safeFilename (safeFilename raw) = safeFilename raw) ∧
    (∀ raw, ThreeParts (objectKey "uploads" jobId (safeFilename raw)) ∧
      ThreeParts (outputKeyFor outputPrefix jobId
        (objectKey "uploads" jobId (safeFilename raw)))) ∧
    (∀ user request now, (newUpload user jobId request now).sourceKey =
      objectKey "uploads" jobId (safeFilename request.filename)) ∧
    (∀ hlsKey path safe, safeHlsPath path = some safe →
      InFolder (beforeLast '/' hlsKey) (beforeLast '/' hlsKey ++ "/" ++ safe)) ∧
    (∀ settings user world table path,
      (getHlsPart settings user world table jobId path).answer = notFound ∨
        ∃ hlsKey, (table.getJob jobId (some user) false).bind (·.hlsKey) = some hlsKey ∧
          FromFolder world (beforeLast '/' hlsKey)
            (getHlsPart settings user world table jobId path).answer) ∧
    ∀ path safe, safeHlsPath path = some safe →
      SafeKey (beforeLast '/' (masterKey (prefixFor outputPrefix jobId)) ++ "/" ++ safe) := by
  refine ⟨fun raw => ⟨safeFilename_plain raw, (safeFilename_plain raw).safeFilename_eq⟩,
    fun raw => ⟨threeParts_source raw jobId, threeParts_output jobId _ hroot hsafe⟩,
    fun user request now => newUpload_sourceKey user jobId request now,
    fun hlsKey path safe haccepted => inFolder_accepted _ haccepted,
    fun settings user world table path =>
      getHlsPart_inFolder settings user world table jobId path,
    fun path safe haccepted => ?_⟩
  have hfolder := safeKey_ladder jobId (safeKey_name hroot hsafe)
  rw [LadderDeliveries.beforeLast_masterKey]
  exact (inFolder_accepted _ haccepted).safeKey hfolder

theorem mem_of_all {chars alphabet : List Char}
    (hall : (chars.all fun c => decide (c ∈ alphabet)) = true) : ∀ c ∈ chars, c ∈ alphabet :=
  fun c hc => of_decide_eq_true (List.all_eq_true.mp hall c hc)

/-- The output prefix as it is by default. -/
theorem client_names_contained_outputs :
    ThreeParts (outputKeyFor "outputs" 1 (objectKey "uploads" 1 (safeFilename "../../a.mov"))) ∧
    SafeKey (beforeLast '/' (masterKey (prefixFor "outputs" 1)) ++ "/" ++ "v0/seg00001.ts") := by
  have hcontained := @client_names_contained "outputs" (by decide)
    (safePart_of_mem (c := 'o') (by decide) (by decide)) 1
  have hchars : ∀ c ∈ "seg00001".toList, c ∈ nameChars := mem_of_all (by decide)
  have hrung : LadderFolder "v0/".toList :=
    Or.inr ⟨['0'], by decide, by decide, by decide, mem_of_all (by decide)⟩
  have haccepted : safeHlsPath "v0/seg00001.ts" = some "v0/seg00001.ts" :=
    safeHlsPath_iff.mpr (Or.inl (rmatch_ladderPath.mpr ⟨"v0/".toList, "seg00001".toList,
      "ts".toList, by decide, hrung, ⟨by decide, hchars⟩, Or.inr rfl⟩))
  exact ⟨(hcontained.2.1 "../../a.mov").2, hcontained.2.2.2.2.2 _ _ haccepted⟩

end Worker
end MediaPlayer
