import MediaPlayer.Api.OwnerView
import MediaPlayer.Repositories.EditRoots
import MediaPlayer.Worker.SweepInvariant

/-!
# The steps beside an orphan sweep

One lemma a step: it keeps the store sound, and leaves what a sweep relies on (`StepKept`).
-/

namespace MediaPlayer
namespace Worker

open Library Models Repositories Schemas Services Api

namespace SweepRuns

variable {settings : SweepSettings} {s t : SweepRuns}

/-! ## Steps on the clock and on rows -/

theorem tick_sound (hs : StoreSound s) (elapsed : ℕ) :
    StoreSound { s with clock := s.clock + elapsed } ∧
      StepKept settings s { s with clock := s.clock + elapsed } := by
  refine ⟨⟨?_, ?_, ?_, ?_, hs.objects⟩, ⟨?_, fun _ _ h => h, ?_, fun _ _ h => Or.inl h, ?_⟩⟩
  · exact fun id row hrow => (hs.sessions id row hrow).frame (fun _ _ h => h) fun _ _ => rfl
  · exact fun id job hrow => (hs.rows id job hrow).frame fun _ _ h => h
  · exact fun party writes hedit write hwrite =>
      (hs.edits party writes hedit write hwrite).frame (fun _ _ h => h) fun _ _ _ _ _ h => h
  · exact fun party upload hupload =>
      (hs.uploads party upload hupload).frame (fun _ _ h => h) rfl fun _ h => h
  · exact le_add_of_nonneg_right (Int.natCast_nonneg elapsed)
  · intro key _ hclaimed
    refine Or.inl ?_
    cases hclaimed with
    | job hrow => exact .job hrow
    | edit hedit hwrite => exact .edit hedit hwrite
    | session hrow hsession hstate => exact .session hrow hsession hstate
    | upload hupload htime =>
        exact .upload hupload ((le_add_of_nonneg_right (Int.natCast_nonneg elapsed)).trans htime)
  · intro key modified hinitiated
    cases hinitiated with
    | mk hrow hsession htime => exact Or.inl ⟨hrow, hsession, htime⟩

/-- What a change of rows leaves, if the ids it changes are neither a session's nor those of
an upload to come. -/
theorem table_sound (hs : StoreSound s) {table : JobTable}
    (hrows : ∀ id job, table.lookup id = some job → RowSound s id job)
    (hsource : ∀ id purpose, s.drawn.lookup id = some purpose → purpose ≠ .edit →
      { s with table := table }.source id = s.source id)
    (hclaimed : ∀ id job, table.lookup id = some job → s.Claimed settings job.sourceKey) :
    StoreSound { s with table := table } ∧ StepKept settings s { s with table := table } := by
  refine ⟨⟨?_, ?_, ?_, ?_, hs.objects⟩,
    ⟨le_refl _, fun _ _ h => h, ?_, fun _ _ h => Or.inl h, ?_⟩⟩
  · intro id row hrow
    have hsound := hs.sessions id row hrow
    exact hsound.frame (fun _ _ h => h) fun upload hsession =>
      hsource _ _ (hsound.drawn upload hsession) (by simp)
  · exact fun id job hrow => (hrows id job hrow).frame fun _ _ h => h
  · exact fun party writes hedit write hwrite =>
      (hs.edits party writes hedit write hwrite).frame (fun _ _ h => h)
        fun id purpose key hpurpose hkind hrow => (hsource id purpose hpurpose hkind).trans hrow
  · intro party upload hupload
    have hsound := hs.uploads party upload hupload
    exact hsound.frame (fun _ _ h => h) (hsource _ _ hsound.drawn (by simp)) fun _ h => h
  · intro key _ hkey
    refine Or.inl ?_
    cases hkey with
    | job hrow =>
        obtain ⟨job, hjob, rfl⟩ := Option.map_eq_some_iff.mp hrow
        exact hclaimed _ job hjob
    | edit hedit hwrite => exact .edit hedit hwrite
    | session hrow hsession hstate => exact .session hrow hsession hstate
    | upload hupload htime => exact .upload hupload htime
  · intro key modified hinitiated
    cases hinitiated with
    | mk hrow hsession htime => exact Or.inl ⟨hrow, hsession, htime⟩

theorem StoreSound.source_of_fresh (hs : StoreSound s) {id : UUID}
    (hfresh : s.drawn.lookup id = none) : s.source id = none := by
  cases hrow : s.table.lookup id with
  | none => rw [source, hrow, Option.map_none]
  | some job =>
      obtain ⟨purpose, hpurpose⟩ := (hs.rows id job hrow).drawn
      rw [hfresh] at hpurpose
      simp at hpurpose

/-- Writes that leave later rows of the same jobs. -/
theorem kept_sound (hs : StoreSound s) {table : JobTable} (hkept : Kept "outputs" s.table table)
    (hpersists : Persists s.table table) :
    StoreSound { s with table := table } ∧ StepKept settings s { s with table := table } := by
  refine table_sound hs (fun id job hjob => ?_) (fun id _ _ _ => ?_) fun id job hjob => ?_
  · obtain ⟨before, hbefore, hrow⟩ := hkept id job hjob
    have hsound := hs.rows id before hbefore
    refine ⟨fun hunder => ?_, fun key hkey => ?_, hsound.drawn, fun hedit => ?_⟩
    · rw [hrow.sourceKey] at hunder ⊢
      exact hsound.used hunder
    · exact (hrow.output key hkey).elim (hsound.output key) OwnOutput.not_underUploads
    · rw [hrow.operations]
      exact hsound.edit hedit
  · change (table.lookup id).map _ = (s.table.lookup id).map _
    cases hbefore : s.table.lookup id with
    | some job =>
        obtain ⟨later, hlater, hrow⟩ := hkept.forward hpersists hbefore
        rw [hlater, Option.map_some, Option.map_some, hrow.sourceKey]
    | none =>
        cases hafter : table.lookup id with
        | none => rfl
        | some job =>
            obtain ⟨before, hold, -⟩ := hkept id job hafter
            rw [hbefore] at hold
            simp at hold
  · obtain ⟨before, hbefore, hrow⟩ := hkept id job hjob
    rw [hrow.sourceKey]
    exact .job (source_of_lookup hbefore)

/-- A new row, with a claimed source and no output yet. -/
theorem rowSound_of_new (hs : StoreSound s) {id : UUID} {job : Job} {purpose : Draw}
    (hdrawn : s.drawn.lookup id = some purpose)
    (hoperations : purpose = .edit → job.operations ≠ none)
    (houtput : job.outputKey = none) (hclaimed : s.Claimed settings job.sourceKey) :
    RowSound s id job where
  used hunder := hs.used hunder hclaimed
  output key hkey := by simp [houtput] at hkey
  drawn := ⟨purpose, hdrawn⟩
  edit hedit := hoperations (Option.some.inj (hdrawn.symm.trans hedit))

/-- The source of a row beside the one that is inserted. -/
theorem source_insert_ne {id other : UUID} {job : Job} (hne : other ≠ id) :
    { s with table := s.table.insert id job }.source other = s.source other := by
  change ((s.table.insert id job).lookup other).map _ = _
  rw [AList.lookup_insert_ne hne]
  rfl

/-- The rows of a table with a new row. -/
theorem StoreSound.rows_insert (hs : StoreSound s) {id : UUID} {job : Job}
    (hnew : RowSound s id job) (other : UUID) (row : Job)
    (hrow : (s.table.insert id job).lookup other = some row) : RowSound s other row := by
  rcases lookup_insert_cases hrow with ⟨rfl, rfl⟩ | ⟨-, hold⟩
  · exact hnew
  · exact hs.rows other row hold

/-- Edits start from other rows than the new one. -/
theorem StoreSound.edits_insert (hs : StoreSound s) {id : UUID} {job : Job}
    (hempty : s.source id = none) {party : ℕ} {writes : List RowWrite}
    (hedit : s.edits.lookup party = some writes) {write : RowWrite} (hwrite : write ∈ writes) :
    EditSound { s with table := s.table.insert id job } write := by
  refine (hs.edits party writes hedit write hwrite).frame (fun _ _ h => h) ?_
  intro base purpose key _ _ hbase
  have hne : base ≠ id := by
    rintro rfl
    simp [hempty] at hbase
  exact (source_insert_ne hne).trans hbase

/-- The sources of a table with a new row are claimed, if the new one is. -/
theorem claimed_insert {id other : UUID} {job : Job} (hclaimed : s.Claimed settings job.sourceKey)
    {key : String} (hrow : { s with table := s.table.insert id job }.source other = some key) :
    s.Claimed settings key := by
  obtain ⟨row, hlookup, rfl⟩ := Option.map_eq_some_iff.mp hrow
  rcases lookup_insert_cases hlookup with ⟨rfl, rfl⟩ | ⟨-, hold⟩
  · exact hclaimed
  · exact .job (source_of_lookup hold)

/-! ## One-request uploads -/

/-- The object is stored, under a key nobody has used. -/
theorem storeUpload_sound (hs : StoreSound s) {party : ℕ} {ownerId jobId : UUID}
    {filename : String} {maxFps : ℤ} {outcome : CallOutcome}
    (hstep : s.step settings (.storeUpload party ownerId jobId filename maxFps outcome) = some t) :
    StoreSound t ∧ StepKept settings s t := by
  simp only [step] at hstep
  split at hstep
  · rename_i hfree
    obtain ⟨-, hunused, hname⟩ := hfree
    obtain rfl := Option.some.inj hstep
    have hfresh : s.drawn.lookup jobId = none := by simpa [unused] using hunused
    have hnamed : NamedFor jobId (objectKey "uploads" jobId filename) := ⟨"uploads", _, hname, rfl⟩
    have hdrawn : ∀ id purpose, s.drawn.lookup id = some purpose →
        (s.drawn.insert jobId (.upload party)).lookup id = some purpose := by
      intro id purpose hid
      have hne : id ≠ jobId := by
        rintro rfl
        simp [hfresh] at hid
      rwa [AList.lookup_insert_ne hne]
    have hother : ∀ key, s.Used key → key ≠ objectKey "uploads" jobId filename := by
      rintro key hused rfl
      exact not_used_of_fresh hfresh hnamed hused
    -- An object is as before, or the new one.
    have hobject : ∀ key modified,
        (outcome.effect (·.insert (objectKey "uploads" jobId filename) s.clock) s.objects).lookup
          key = some modified → s.objects.lookup key = some modified ∨
            (key = objectKey "uploads" jobId filename ∧ modified = s.clock) := by
      intro key modified hmodified
      refine CallOutcome.effect_of (p := fun objects : Parties String Timestamp =>
        objects.lookup key = some modified → s.objects.lookup key = some modified ∨
          (key = objectKey "uploads" jobId filename ∧ modified = s.clock))
        Or.inl ?_ outcome hmodified
      intro hinserted
      by_cases hkey : key = objectKey "uploads" jobId filename
      · subst hkey
        rw [AList.lookup_insert] at hinserted
        exact Or.inr ⟨rfl, (Option.some.inj hinserted).symm⟩
      · rw [AList.lookup_insert_ne hkey] at hinserted
        exact Or.inl hinserted
    have huploads : ∀ other upload,
        (outcome.next (s.uploads.insert party ⟨ownerId, jobId, filename, maxFps, s.clock⟩)
          s.uploads).lookup other = some upload → s.uploads.lookup other = some upload ∨
            (other = party ∧ outcome = .returned ∧
              upload = ⟨ownerId, jobId, filename, maxFps, s.clock⟩) := by
      intro other upload hupload
      cases outcome with
      | raisedBefore | raisedAfter => exact Or.inl hupload
      | returned =>
          by_cases hparty : other = party
          · subst hparty
            rw [CallOutcome.next_returned, AList.lookup_insert] at hupload
            exact Or.inr ⟨rfl, rfl, (Option.some.inj hupload).symm⟩
          · rw [CallOutcome.next_returned, AList.lookup_insert_ne hparty] at hupload
            exact Or.inl hupload
    refine ⟨⟨?_, ?_, ?_, ?_, ?_⟩, ⟨le_refl _, hdrawn, ?_, ?_, ?_⟩⟩
    · exact fun id row hrow => (hs.sessions id row hrow).frame hdrawn fun _ _ => rfl
    · exact fun id job hrow => (hs.rows id job hrow).frame hdrawn
    · exact fun other writes hedit write hwrite =>
        (hs.edits other writes hedit write hwrite).frame hdrawn fun _ _ _ _ _ h => h
    · intro other upload hupload
      rcases huploads other upload hupload with hold | ⟨rfl, rfl, rfl⟩
      · have hsound := hs.uploads other upload hold
        refine hsound.frame hdrawn rfl fun modified hmodified => ?_
        rcases hobject _ modified hmodified with hsame | ⟨hkey, -⟩
        · exact hsame
        · exact absurd hkey (hother _ ⟨_, _, hsound.drawn, hsound.namedFor⟩)
      · refine ⟨AList.lookup_insert _, hname, ?_, fun modified hmodified => ?_⟩
        · exact hs.source_of_fresh hfresh
        · have hstored := (AList.lookup_insert s.objects).symm.trans hmodified
          exact (Option.some.inj hstored).symm
    · intro key modified hmodified hunder
      rcases hobject key modified hmodified with hsame | ⟨rfl, -⟩
      · obtain ⟨id, purpose, hid, hkey⟩ := hs.objects key modified hsame hunder
        exact ⟨id, purpose, hdrawn id purpose hid, hkey⟩
      · exact ⟨jobId, _, AList.lookup_insert _, hnamed⟩
    · intro key hunder hclaimed
      cases hclaimed with
      | job hrow => exact Or.inl (.job hrow)
      | edit hedit hwrite => exact Or.inl (.edit hedit hwrite)
      | session hrow hsession hstate => exact Or.inl (.session hrow hsession hstate)
      | upload hupload htime =>
          rcases huploads _ _ hupload with hold | ⟨-, -, rfl⟩
          · exact Or.inl (.upload hold htime)
          · exact Or.inr (not_used_of_fresh hfresh hnamed)
    · intro key modified hmodified
      rcases hobject key modified hmodified with hsame | ⟨-, rfl⟩
      · exact Or.inl hsame
      · exact Or.inr (Or.inl (le_refl _))
    · intro key modified hinitiated
      cases hinitiated with
      | mk hrow hsession htime => exact Or.inl ⟨hrow, hsession, htime⟩
  · simp at hstep

/-- The row of a one-request upload is created in time, or not at all. -/
theorem createUpload_sound (hs : StoreSound s) {party : ℕ} {outcome : CallOutcome}
    (hstep : s.step settings (.createUpload party outcome) = some t) :
    StoreSound t ∧ StepKept settings s t := by
  simp only [step] at hstep
  split at hstep
  · simp at hstep
  · rename_i upload hupload
    have hsound := hs.uploads party upload hupload
    have herased : ∀ other upload, (s.uploads.erase party).lookup other = some upload →
        other ≠ party ∧ s.uploads.lookup other = some upload := by
      intro other upload hother
      have hne : other ≠ party := by
        rintro rfl
        simp [AList.lookup_erase] at hother
      rw [AList.lookup_erase_ne hne] at hother
      exact ⟨hne, hother⟩
    split at hstep
    · rename_i htime
      have hclaimed : s.Claimed settings upload.sourceKey := .upload hupload htime
      have hforget : StoreSound { s with uploads := s.uploads.erase party } ∧
          StepKept settings s { s with uploads := s.uploads.erase party } := by
        refine ⟨⟨fun id row hrow => (hs.sessions id row hrow).frame (fun _ _ h => h) fun _ _ => rfl,
          fun id job hrow => (hs.rows id job hrow).frame fun _ _ h => h,
          fun other writes hedit write hwrite =>
            (hs.edits other writes hedit write hwrite).frame (fun _ _ h => h) fun _ _ _ _ _ h => h,
          fun other upload hother => (hs.uploads other upload (herased other upload hother).2).frame
            (fun _ _ h => h) rfl fun _ h => h,
          hs.objects⟩, ⟨le_refl _, fun _ _ h => h, fun key _ hkey => Or.inl ?_,
            fun _ _ h => Or.inl h, fun key modified hinitiated => Or.inl ?_⟩⟩
        · cases hkey with
          | job hrow => exact .job hrow
          | edit hedit hwrite => exact .edit hedit hwrite
          | session hrow hsession hstate => exact .session hrow hsession hstate
          | upload hother htime => exact .upload (herased _ _ hother).2 htime
        · cases hinitiated with
          | mk hrow hsession htime => exact ⟨hrow, hsession, htime⟩
      cases hcreate : createJob upload.ownerId upload.filename upload.sourceKey upload.maxFps
          s.clock with
      | error e =>
          rw [hcreate] at hstep
          obtain rfl := Option.some.inj hstep
          exact hforget
      | ok job =>
          rw [hcreate] at hstep
          obtain rfl := Option.some.inj hstep
          have hcolumns := store_eq_ok_iff.mp hcreate
          have hkey : job.sourceKey = upload.sourceKey := by
            rw [hcolumns]
            rfl
          have hnew : RowSound s upload.jobId job := by
            refine rowSound_of_new hs hsound.drawn (by simp) ?_ (hkey ▸ hclaimed)
            rw [hcolumns]
            rfl
          have hinsert : StoreSound
                { s with
                  uploads := s.uploads.erase party
                  table := s.table.insert upload.jobId job } ∧
              StepKept settings s
                { s with
                  uploads := s.uploads.erase party
                  table := s.table.insert upload.jobId job } := by
            refine ⟨⟨?_, ?_, ?_, ?_, hs.objects⟩, ⟨le_refl _, fun _ _ h => h, ?_,
              fun _ _ h => Or.inl h, ?_⟩⟩
            · intro id row hrow
              have hsession := hs.sessions id row hrow
              refine hsession.frame (fun _ _ h => h) fun started hstarted =>
                source_insert_ne fun hid => ?_
              have hpurpose := hsession.drawn started hstarted
              rw [hid, hsound.drawn] at hpurpose
              simp at hpurpose
            · exact fun id row hrow => (hs.rows_insert hnew id row hrow).frame fun _ _ h => h
            · exact fun other writes hedit write hwrite =>
                (hs.edits_insert hsound.row hedit hwrite).frame (fun _ _ h => h)
                  fun _ _ _ _ _ h => h
            · intro other stored hother
              obtain ⟨hne, hstored⟩ := herased other stored hother
              have hstoredSound := hs.uploads other stored hstored
              refine hstoredSound.frame (fun _ _ h => h) (source_insert_ne fun hid => hne ?_)
                fun _ h => h
              have hpurpose := hstoredSound.drawn
              rw [hid, hsound.drawn] at hpurpose
              simpa using hpurpose.symm
            · intro key _ hclaim
              refine Or.inl ?_
              cases hclaim with
              | job hrow => exact claimed_insert (hkey ▸ hclaimed) hrow
              | edit hedit hwrite => exact .edit hedit hwrite
              | session hrow hsession hstate => exact .session hrow hsession hstate
              | upload hother htime => exact .upload (herased _ _ hother).2 htime
            · intro key modified hinitiated
              cases hinitiated with
              | mk hrow hsession htime => exact Or.inl ⟨hrow, hsession, htime⟩
          cases outcome with
          | raisedBefore => exact hforget
          | returned | raisedAfter => exact hinsert
    · simp at hstep

/-! ## Edits -/

/-- What an edit starts from has a row that stays, or an output. -/
theorem StoreSound.editBase_source (hs : StoreSound s) (world : World) {row : JobRow}
    (hrow : s.table.lookup row.1 = some row.2) {sourceKey : String}
    (hkey : editSourceKey (editBaseOf world s.table row).2 = some sourceKey)
    (hunder : underUploads sourceKey = true) :
    ∃ base purpose, s.drawn.lookup base = some purpose ∧ purpose ≠ .edit ∧
      s.source base = some sourceKey := by
  have hbase : s.table.lookup (editBaseOf world s.table row).1 =
      some (editBaseOf world s.table row).2 := by
    have hcases : editBaseOf world s.table row = row ∨ editBaseOf world s.table row =
        JobTable.rootOf (s.table.resolveEditRoots world.rowOrders [row]) row := by
      unfold editBaseOf editBase
      split
      · exact Or.inr rfl
      · exact Or.inl rfl
    rcases hcases with hself | hroot
    · rwa [hself]
    · rw [hroot]
      exact rootOf_lookup world.rowOrders hrow
  have hsound := hs.rows _ _ hbase
  unfold editSourceKey at hkey
  split at hkey
  · rename_i hupload
    obtain ⟨purpose, hpurpose⟩ := hsound.drawn
    refine ⟨_, purpose, hpurpose, ?_, Option.some.inj hkey ▸ source_of_lookup hbase⟩
    rintro rfl
    exact hsound.edit hpurpose hupload
  · simp [hsound.output sourceKey hkey] at hunder

/-- Drawing an id changes nothing. -/
theorem draw_sound (settings : SweepSettings) (hs : StoreSound s) {id : UUID}
    (hfresh : s.drawn.lookup id = none) (purpose : Draw) :
    StoreSound (s.draw id purpose) ∧ StepKept settings s (s.draw id purpose) := by
  have hdrawn : ∀ other kind, s.drawn.lookup other = some kind →
      (s.draw id purpose).drawn.lookup other = some kind := by
    intro other kind hother
    have hne : other ≠ id := by
      rintro rfl
      simp [hfresh] at hother
    exact (AList.lookup_insert_ne hne).trans hother
  refine ⟨⟨?_, ?_, ?_, ?_, ?_⟩, ⟨le_refl _, hdrawn, ?_, fun _ _ h => Or.inl h, ?_⟩⟩
  · exact fun id row hrow => (hs.sessions id row hrow).frame hdrawn fun _ _ => rfl
  · exact fun id job hrow => (hs.rows id job hrow).frame hdrawn
  · exact fun party writes hedit write hwrite =>
      (hs.edits party writes hedit write hwrite).frame hdrawn fun _ _ _ _ _ h => h
  · exact fun party upload hupload =>
      (hs.uploads party upload hupload).frame hdrawn rfl fun _ h => h
  · intro key modified hmodified hunder
    obtain ⟨other, kind, hother, hnamed⟩ := hs.objects key modified hmodified hunder
    exact ⟨other, kind, hdrawn other kind hother, hnamed⟩
  · intro key _ hclaimed
    refine Or.inl ?_
    cases hclaimed with
    | job hrow => exact .job hrow
    | edit hedit hwrite => exact .edit hedit hwrite
    | session hrow hsession hstate => exact .session hrow hsession hstate
    | upload hupload htime => exact .upload hupload htime
  · intro key modified hinitiated
    cases hinitiated with
    | mk hrow hsession htime => exact Or.inl ⟨hrow, hsession, htime⟩

/-- What a change of the writes to come leaves, if all of them are sound. -/
theorem edits_sound (settings : SweepSettings) (hs : StoreSound s)
    {edits : Parties ℕ (List RowWrite)}
    (hedits : ∀ party writes, edits.lookup party = some writes →
      ∀ write ∈ writes, EditSound s write)
    (hclaimed : ∀ party writes id job, edits.lookup party = some writes →
      RowWrite.put id job ∈ writes → underUploads job.sourceKey = true →
        s.Claimed settings job.sourceKey) :
    StoreSound { s with edits := edits } ∧ StepKept settings s { s with edits := edits } := by
  refine ⟨⟨?_, ?_, ?_, ?_, hs.objects⟩,
    ⟨le_refl _, fun _ _ h => h, ?_, fun _ _ h => Or.inl h, ?_⟩⟩
  · exact fun id row hrow => (hs.sessions id row hrow).frame (fun _ _ h => h) fun _ _ => rfl
  · exact fun id job hrow => (hs.rows id job hrow).frame fun _ _ h => h
  · exact fun party writes hedit write hwrite =>
      (hedits party writes hedit write hwrite).frame (fun _ _ h => h) fun _ _ _ _ _ h => h
  · exact fun party upload hupload =>
      (hs.uploads party upload hupload).frame (fun _ _ h => h) rfl fun _ h => h
  · intro key hunder hkey
    refine Or.inl ?_
    cases hkey with
    | job hrow => exact .job hrow
    | edit hedit hwrite => exact hclaimed _ _ _ _ hedit hwrite hunder
    | session hrow hsession hstate => exact .session hrow hsession hstate
    | upload hupload htime => exact .upload hupload htime
  · intro key modified hinitiated
    cases hinitiated with
    | mk hrow hsession htime => exact Or.inl ⟨hrow, hsession, htime⟩

/-- A request for an edit reads what it starts from. -/
theorem readEdit_sound (hs : StoreSound s) {party : ℕ} {user : UUID} {world : World} {jobId : UUID}
    {edit : EditRequest}
    (hstep : s.step settings (.readEdit party user world jobId edit) = some t) :
    StoreSound t ∧ StepKept settings s t := by
  simp only [step] at hstep
  split at hstep
  · rename_i hfree
    obtain rfl := Option.some.inj hstep
    have hfresh : s.drawn.lookup world.newJobId = none := by simpa [unused] using hfree.2
    obtain ⟨hdrawSound, hdrawKept⟩ := draw_sound settings hs hfresh .edit
    have hown : (s.draw world.newJobId .edit).drawn.lookup world.newJobId = some .edit :=
      AList.lookup_insert _
    have hwrites : ∀ write ∈ (editJobById settings.jobs user world s.table jobId edit).writes,
        EditSound (s.draw world.newJobId .edit) write := by
      rcases editJobById_cases settings.jobs user world s.table jobId edit with
        ⟨answer, hreply⟩ | ⟨source, sourceKey, created, hsource, -, hkey, -, hcolumns, hreply⟩
      · rw [hreply]
        simp
      · rw [hreply]
        intro write hwrite
        rcases List.mem_cons.mp hwrite with rfl | hdelete
        · refine ⟨hown, fun id job hput => ?_⟩
          simp only [RowWrite.put.injEq] at hput
          obtain ⟨rfl, rfl⟩ := hput
          refine ⟨by rw [hcolumns]; simp [newColumns], by rw [hcolumns]; rfl, fun hunder => ?_⟩
          have hcreated : created.sourceKey = sourceKey := by
            rw [hcolumns]
            rfl
          rw [hcreated] at hunder ⊢
          have hrow := (getJob_own hsource).1
          exact hdrawSound.editBase_source world
            (show s.table.lookup (jobId, source).1 = _ from hrow) hkey hunder
        · obtain rfl : write = .delete world.newJobId := by
            cases hqueue : world.enqueue <;> simp_all
          exact ⟨hown, by simp⟩
    have hmore : ∀ other writes,
        (s.edits.insert party
          (editJobById settings.jobs user world s.table jobId edit).writes).lookup other =
            some writes → ∀ write ∈ writes,
            EditSound (s.draw world.newJobId .edit) write := by
      intro other writes hlookup
      by_cases hparty : other = party
      · subst hparty
        rw [AList.lookup_insert] at hlookup
        exact Option.some.inj hlookup ▸ hwrites
      · rw [AList.lookup_insert_ne hparty] at hlookup
        exact hdrawSound.edits other writes hlookup
    obtain ⟨hsound, hkept⟩ := edits_sound settings hdrawSound hmore
      fun other writes id job hlookup hput hunder => by
        obtain ⟨base, purpose, -, -, hbase⟩ :=
          ((hmore other writes hlookup _ hput).put id job rfl).2.2 hunder
        exact .job hbase
    exact ⟨hsound, hdrawKept.trans hkept⟩
  · simp at hstep

/-- A write of an edit leaves the rows under other ids. -/
theorem lookup_apply_ne {table : JobTable} {write : RowWrite} {other : UUID}
    (hne : other ≠ write.jobId) : (write.apply table).lookup other = table.lookup other := by
  cases write with
  | put id job => exact AList.lookup_insert_ne hne
  | delete id => exact AList.lookup_erase_ne hne

/-- A row after a write of an edit is as before, or the one that is put. -/
theorem lookup_apply_cases {table : JobTable} {write : RowWrite} {id : UUID} {job : Job}
    (hrow : (write.apply table).lookup id = some job) :
    table.lookup id = some job ∨ write = .put id job := by
  cases write with
  | put written created =>
      rcases lookup_insert_cases hrow with ⟨rfl, rfl⟩ | ⟨-, hold⟩
      · exact Or.inr rfl
      · exact Or.inl hold
  | delete erased =>
      by_cases hid : id = erased
      · subst hid
        simp [RowWrite.apply, AList.lookup_erase] at hrow
      · exact Or.inl ((AList.lookup_erase_ne hid).symm.trans hrow)

/-- A request for an edit writes. -/
theorem writeEdit_sound (hs : StoreSound s) {party : ℕ} {outcome : CallOutcome}
    (hstep : s.step settings (.writeEdit party outcome) = some t) :
    StoreSound t ∧ StepKept settings s t := by
  simp only [step] at hstep
  split at hstep
  · rename_i write rest hlookup
    obtain rfl := Option.some.inj hstep
    have hwrite := hs.edits party _ hlookup write (List.mem_cons_self ..)
    have hclaimed : ∀ id job, write = .put id job → s.Claimed settings job.sourceKey := by
      rintro id job rfl
      exact .edit hlookup (List.mem_cons_self ..)
    have happly : StoreSound { s with table := write.apply s.table } ∧
        StepKept settings s { s with table := write.apply s.table } := by
      refine table_sound hs (fun id job hrow => ?_) (fun id purpose hpurpose hkind => ?_)
        fun id job hrow => ?_
      · rcases lookup_apply_cases hrow with hold | rfl
        · exact hs.rows id job hold
        · obtain ⟨hoperations, houtput, -⟩ := hwrite.put id job rfl
          exact rowSound_of_new hs hwrite.drawn (fun _ => hoperations) houtput (hclaimed id job rfl)
      · have hne : id ≠ write.jobId := by
          rintro rfl
          exact hkind (Option.some.inj (hpurpose.symm.trans hwrite.drawn))
        change ((write.apply s.table).lookup id).map _ = _
        rw [lookup_apply_ne hne]
        rfl
      · rcases lookup_apply_cases hrow with hold | hput
        · exact .job (source_of_lookup hold)
        · exact hclaimed id job hput
    have hwritten : StoreSound { s with table := outcome.effect (write.apply ·) s.table } ∧
        StepKept settings s { s with table := outcome.effect (write.apply ·) s.table } := by
      cases outcome with
      | returned | raisedAfter => exact happly
      | raisedBefore =>
          exact table_sound hs hs.rows (fun _ _ _ _ => rfl)
            fun id job hrow => .job (source_of_lookup hrow)
    -- What is still to write was to be written before.
    have hrest : ∀ other writes, (outcome.next (s.edits.insert party rest)
        (s.edits.erase party)).lookup other = some writes →
          ∃ before, s.edits.lookup other = some before ∧ ∀ write ∈ writes, write ∈ before := by
      intro other writes hother
      by_cases hparty : other = party
      · subst hparty
        cases outcome with
        | raisedBefore | raisedAfter => simp [AList.lookup_erase] at hother
        | returned =>
            rw [CallOutcome.next_returned, AList.lookup_insert] at hother
            obtain rfl := Option.some.inj hother
            exact ⟨_, hlookup, fun _ => List.mem_cons_of_mem _⟩
      · refine ⟨writes, ?_, fun _ => id⟩
        cases outcome with
        | raisedBefore | raisedAfter => exact (AList.lookup_erase_ne hparty).symm.trans hother
        | returned => exact (AList.lookup_insert_ne hparty).symm.trans hother
    have hsounds : ∀ other writes, (outcome.next (s.edits.insert party rest)
        (s.edits.erase party)).lookup other = some writes → ∀ later ∈ writes,
          EditSound { s with table := outcome.effect (write.apply ·) s.table } later := by
      intro other writes hother later hlater
      obtain ⟨before, hbefore, hsub⟩ := hrest other writes hother
      exact hwritten.1.edits other before hbefore later (hsub later hlater)
    obtain ⟨hsound, hkept⟩ := edits_sound settings hwritten.1 hsounds
      fun other writes id job hother hput _ => by
        obtain ⟨before, hbefore, hsub⟩ := hrest other writes hother
        exact .edit hbefore (hsub _ hput)
    exact ⟨hsound, hwritten.2.trans hkept⟩
  · simp at hstep
  · simp at hstep

/-! ## Sessions -/

theorem sessionSound_new (s : SweepRuns) (id : ℕ) : SessionSound s id {} where
  discards party p hp := by simp [AList.lookup_empty] at hp
  untouched _ := ⟨rfl, rfl, rfl, rfl⟩
  drawn _ h := by simp at h
  named _ h := by simp at h
  settled _ h := by simp at h
  unsettled _ h := by simp at h
  held _ h := by simp at h

/-- The row of a session, be there one or not. -/
theorem StoreSound.session (hs : StoreSound s) (id : ℕ) :
    SessionSound s id ((s.sessions.lookup id).getD {}) := by
  cases hrow : s.sessions.lookup id with
  | none => exact sessionSound_new s id
  | some row => exact hs.sessions id row hrow

theorem load_session (row : SessionRuns) (objects : Parties String Timestamp) :
    (row.load objects).session = row.runs.session := by
  unfold SessionRuns.load
  split <;> rfl

theorem load_jobs (row : SessionRuns) (objects : Parties String Timestamp) :
    (row.load objects).jobs = row.runs.jobs := by
  unfold SessionRuns.load
  split <;> rfl

theorem load_discards {row : SessionRuns} (hdiscards : UploadRuns.Discards row.runs)
    (objects : Parties String Timestamp) : UploadRuns.Discards (row.load objects) := by
  unfold SessionRuns.load
  split
  · exact hdiscards
  · exact hdiscards

theorem load_of_none {row : SessionRuns} (hsession : row.runs.session = none)
    (objects : Parties String Timestamp) : row.load objects = row.runs := by
  unfold SessionRuns.load
  rw [hsession]

/-- The time of initiation is the one there was, or now. -/
theorem initiation_eq {row : SessionRuns} {clock modified : Timestamp} {bucket : Bucket}
    (htime : row.initiation clock bucket = some modified) :
    row.initiatedAt = some modified ∨ modified = clock := by
  unfold SessionRuns.initiation at htime
  rcases Option.or_eq_some_iff.mp htime with hold | ⟨-, hnow⟩
  · exact Or.inl hold
  · split at hnow
    · simp at hnow
    · exact Or.inr (Option.some.inj hnow).symm

/-- A change of one session, its object and its row, seen from all the others. -/
theorem StoreSound.others (hs : StoreSound s) {id : ℕ} {row : SessionRuns}
    (hnew : SessionSound s id row) (other : ℕ) (found : SessionRuns)
    (hfound : (s.sessions.insert id row).lookup other = some found) :
    SessionSound s other found :=
  Parties.forall_insert (fun other found _ => hs.sessions other found) hnew other found hfound

/-- A span where there is no session yet starts one at most. -/
theorem start_sound (hs : StoreSound s) {id : ℕ} {row : SessionRuns} {after : UploadRuns}
    {action : UploadAction} (hrow : SessionSound s id row) (hsession : row.runs.session = none)
    (hunused : s.unused (drawnId action) = true)
    (hstep : UploadRuns.step settings.maxUploadBytes (row.load s.objects) action = some after) :
    ∀ u, u = (match drawnId action with
        | none => s
        | some jobId => s.draw jobId (.session id)) →
      StoreSound (u.reach id row after) ∧ StepKept settings s (u.reach id row after) := by
  rintro u hu
  obtain ⟨hinitiated, hheld, huploads, hobject⟩ := hrow.untouched hsession
  rw [load_of_none hsession] at hstep
  have hbegins := UploadRuns.step_of_none hsession huploads hstep
  have hdraw : StoreSound u ∧ StepKept settings s u := by
    subst hu
    cases hid : drawnId action with
    | none =>
        exact table_sound hs hs.rows (fun _ _ _ _ => rfl)
          fun id job hrow => .job (source_of_lookup hrow)
    | some jobId =>
        refine draw_sound settings hs ?_ _
        simpa [unused, hid] using hunused
  have htime : row.initiation u.clock after.bucket = none := by
    rw [SessionRuns.initiation, hinitiated, hbegins.bucket, huploads, hobject]
    rfl
  -- The session that is started has a key that nobody has used.
  have hstarted : ∀ upload, after.session = some upload → upload.state = .open ∧
      s.drawn.lookup upload.jobId = none ∧ u.drawn.lookup upload.jobId = some (.session id) ∧
        ∃ name, '/' ∉ name.toList ∧ upload.sourceKey = objectKey "uploads" upload.jobId name := by
    intro upload hupload
    rcases hbegins.started with hnone | ⟨party, user, jobId, request, c, rfl, hsome⟩
    · simp [hnone] at hupload
    · obtain rfl := Option.some.inj (hsome.symm.trans hupload)
      refine ⟨rfl, ?_, ?_, safeFilename request.filename, safeFilename_no_slash _,
        newUpload_sourceKey user jobId request c.now⟩
      · change s.drawn.lookup jobId = none
        simpa [unused, drawnId] using hunused
      · subst hu
        exact AList.lookup_insert _
  have hreach : u.reach id row after = { u with
      sessions := u.sessions.insert id
        { row with runs := after, initiatedAt := row.initiation u.clock after.bucket } } := by
    simp only [reach, hsession]
  have hnew : SessionSound u id
      { row with runs := after, initiatedAt := row.initiation u.clock after.bucket } := by
    refine ⟨hrow.discards.step hstep, fun _ => ⟨htime, hheld, ?_, ?_⟩, ?_, ?_, ?_, ?_, ?_⟩
    · exact hbegins.bucket ▸ huploads
    · exact hbegins.bucket ▸ hobject
    · exact fun upload hupload => (hstarted upload hupload).2.2.1
    · exact fun upload hupload => (hstarted upload hupload).2.2.2
    · intro upload hupload hstate
      rw [(hstarted upload hupload).1] at hstate
      exact hstate.elim
    · intro upload hupload _
      have hsource : u.source upload.jobId = s.source upload.jobId := by
        subst hu
        cases drawnId action <;> rfl
      rw [hsource]
      exact hs.source_of_fresh (hstarted upload hupload).2.1
    · intro held hsome
      simp [hheld] at hsome
  rw [hreach]
  refine ⟨⟨?_, ?_, ?_, ?_, hdraw.1.objects⟩,
    ⟨hdraw.2.clock, hdraw.2.drawn, ?_, hdraw.2.objects, ?_⟩⟩
  · exact fun other found hfound => (hdraw.1.others hnew other found hfound).frame
      (fun _ _ h => h) fun _ _ => rfl
  · exact fun id job hrow => (hdraw.1.rows id job hrow).frame fun _ _ h => h
  · exact fun party writes hedit write hwrite =>
      (hdraw.1.edits party writes hedit write hwrite).frame (fun _ _ h => h) fun _ _ _ _ _ h => h
  · exact fun party upload hupload =>
      (hdraw.1.uploads party upload hupload).frame (fun _ _ h => h) rfl fun _ h => h
  · intro key hunder hclaimed
    cases hclaimed with
    | job hrow => exact hdraw.2.claimed key hunder (.job hrow)
    | edit hedit hwrite => exact hdraw.2.claimed _ hunder (.edit hedit hwrite)
    | upload hupload htime => exact hdraw.2.claimed _ hunder (.upload hupload htime)
    | @session other found upload hfound hupload hstate =>
        by_cases hother : other = id
        · subst hother
          obtain rfl := Option.some.inj ((AList.lookup_insert u.sessions).symm.trans hfound)
          obtain ⟨-, hfresh, -, name, hname, hkey⟩ := hstarted upload hupload
          exact Or.inr (not_used_of_fresh hfresh ⟨"uploads", name, hname, hkey⟩)
        · have hold := (AList.lookup_insert_ne hother).symm.trans hfound
          exact hdraw.2.claimed _ hunder (.session hold hupload hstate)
  · intro key modified hmodified
    cases hmodified with
    | @mk other found upload modified hfound hupload hsome =>
        by_cases hother : other = id
        · subst hother
          obtain rfl := Option.some.inj ((AList.lookup_insert u.sessions).symm.trans hfound)
          simp [htime] at hsome
        · have hold := (AList.lookup_insert_ne hother).symm.trans hfound
          exact hdraw.2.initiated _ modified ⟨hold, hupload, hsome⟩

/-- The objects after a span of a session: as before, or the session's, as old as its
initiation. -/
theorem lookup_storeObject {sessionKey key : String} {object : Option (List UInt8)}
    {at_ modified : Timestamp}
    (hmodified : (s.storeObject sessionKey object at_).lookup key = some modified) :
    s.objects.lookup key = some modified ∨ (key = sessionKey ∧ modified = at_) := by
  unfold storeObject at hmodified
  by_cases hkey : key = sessionKey
  · subst hkey
    cases object with
    | none => simp [AList.lookup_erase] at hmodified
    | some bytes =>
        rw [AList.lookup_insert] at hmodified
        exact Or.inr ⟨rfl, (Option.some.inj hmodified).symm⟩
  · cases object with
    | none => exact Or.inl ((AList.lookup_erase_ne hkey).symm.trans hmodified)
    | some bytes => exact Or.inl ((AList.lookup_insert_ne hkey).symm.trans hmodified)

/-- A span of a session reaches the store under the session's own key, and commits later. -/
theorem hold_sound (hs : StoreSound s) {id : ℕ} {row : SessionRuns} {upload : UploadSession}
    {after : UploadRuns} {action : UploadAction} (hlookup : s.sessions.lookup id = some row)
    (hsession : row.runs.session = some upload)
    (hstep : UploadRuns.step settings.maxUploadBytes (row.load s.objects) action = some after) :
    StoreSound (s.reach id row after) ∧ StepKept settings s (s.reach id row after) := by
  have hrow := hs.sessions id row hlookup
  have hloaded := load_discards hrow.discards s.objects
  obtain ⟨later, job, hlater, hjobs, hcontinues⟩ :=
    UploadRuns.step_continues hloaded ((load_session row s.objects).trans hsession) hstep
  have hreach : s.reach id row after = { s with
      sessions := s.sessions.insert id
        { row with held := some after, initiatedAt := row.initiation s.clock after.bucket }
      objects := s.storeObject upload.sourceKey after.bucket.object
        ((row.initiation s.clock after.bucket).getD s.clock) } := by
    simp only [reach, hsession]
  have hnew : SessionSound s id
      { row with held := some after, initiatedAt := row.initiation s.clock after.bucket } := by
    refine ⟨hrow.discards, fun hnone => ?_, hrow.drawn, hrow.named, hrow.settled,
      hrow.unsettled, ?_⟩
    · simp [hsession] at hnone
    · intro held hheld
      obtain rfl := Option.some.inj hheld
      refine ⟨hloaded.step hstep, fun found hfound => ?_⟩
      obtain rfl := Option.some.inj (hsession.symm.trans hfound)
      exact ⟨later, job, hlater, by rw [hjobs, load_jobs], hcontinues⟩
  rw [hreach]
  refine ⟨⟨?_, ?_, ?_, ?_, ?_⟩, ⟨le_refl _, fun _ _ h => h, ?_, ?_, ?_⟩⟩
  · exact fun other found hfound => (hs.others hnew other found hfound).frame
      (fun _ _ h => h) fun _ _ => rfl
  · exact fun id job hrow => (hs.rows id job hrow).frame fun _ _ h => h
  · exact fun party writes hedit write hwrite =>
      (hs.edits party writes hedit write hwrite).frame (fun _ _ h => h) fun _ _ _ _ _ h => h
  · intro party stored hstored
    have hsound := hs.uploads party stored hstored
    refine hsound.frame (fun _ _ h => h) rfl fun modified hmodified => ?_
    rcases lookup_storeObject hmodified with hold | ⟨hkey, -⟩
    · exact hold
    · -- The ids of a session and of a one-request upload are drawn apart.
      have hid := hsound.namedFor.unique (hkey ▸ hrow.namedFor hsession)
      have hpurpose := hrow.drawn upload hsession
      rw [← hid, hsound.drawn] at hpurpose
      simp at hpurpose
  · intro key modified hmodified hunder
    rcases lookup_storeObject hmodified with hold | ⟨rfl, -⟩
    · exact hs.objects key modified hold hunder
    · exact hrow.used hsession
  · intro key _ hclaimed
    refine Or.inl ?_
    cases hclaimed with
    | job hrow => exact .job hrow
    | edit hedit hwrite => exact .edit hedit hwrite
    | upload hupload htime => exact .upload hupload htime
    | @session other found upload hfound hupload hstate =>
        by_cases hother : other = id
        · subst hother
          obtain rfl := Option.some.inj ((AList.lookup_insert s.sessions).symm.trans hfound)
          exact .session hlookup hupload hstate
        · exact .session ((AList.lookup_insert_ne hother).symm.trans hfound) hupload hstate
  · intro key modified hmodified
    rcases lookup_storeObject hmodified with hold | ⟨rfl, htime⟩
    · exact Or.inl hold
    · refine Or.inr ?_
      cases hinitiation : row.initiation s.clock after.bucket with
      | none => exact Or.inl (by simp [htime, hinitiation])
      | some initiated =>
          rw [hinitiation, Option.getD_some] at htime
          subst htime
          rcases initiation_eq hinitiation with hold | rfl
          · exact Or.inr ⟨hlookup, hsession, hold⟩
          · exact Or.inl (le_refl _)
  · intro key modified hmodified
    cases hmodified with
    | @mk other found upload modified hfound hupload hsome =>
        by_cases hother : other = id
        · subst hother
          obtain rfl := Option.some.inj ((AList.lookup_insert s.sessions).symm.trans hfound)
          rcases initiation_eq hsome with hold | rfl
          · exact Or.inl ⟨hlookup, hupload, hold⟩
          · exact Or.inr (le_refl _)
        · exact Or.inl ⟨(AList.lookup_insert_ne hother).symm.trans hfound, hupload, hsome⟩

/-- A session is started once. -/
theorem drawnId_of_session {runs after : UploadRuns} {upload : UploadSession}
    {action : UploadAction} (hsession : runs.session = some upload)
    (hstep : UploadRuns.step settings.maxUploadBytes runs action = some after) :
    drawnId action = none := by
  cases action with
  | call party user request c =>
      cases request with
      | start jobId request => simp [UploadRuns.step, UploadRuns.possible, hsession] at hstep
      | signParts | complete | resume | abort => rfl
  | select | proceed | uploadPart => rfl

theorem span_sound (hs : StoreSound s) {id : ℕ} {action : UploadAction}
    (hstep : s.step settings (.span id action) = some t) :
    StoreSound t ∧ StepKept settings s t := by
  simp only [step] at hstep
  split at hstep
  · rename_i hfree
    obtain ⟨after, hafter, rfl⟩ := Option.map_eq_some_iff.mp hstep
    cases hsession : ((s.sessions.lookup id).getD {}).runs.session with
    | none =>
        have hsound := start_sound hs (hs.session id) hsession hfree.2 hafter
        cases hid : drawnId action with
        | none => exact hsound s (by rw [hid])
        | some jobId => exact hsound (s.draw jobId (.session id)) (by rw [hid])
    | some upload =>
        rw [drawnId_of_session ((load_session _ _).trans hsession) hafter]
        cases hlookup : s.sessions.lookup id with
        | none => simp [hlookup] at hsession
        | some row =>
            rw [hlookup] at hsession hafter
            exact hold_sound hs hlookup hsession hafter
  · simp at hstep

/-- A span that held its row commits it, with the job it has created. -/
theorem commit_sound (hs : StoreSound s) {id : ℕ}
    (hstep : s.step settings (.commit id) = some t) : StoreSound t ∧ StepKept settings s t := by
  simp only [step] at hstep
  split at hstep
  · simp at hstep
  · rename_i row hlookup
    obtain ⟨after, hheld, rfl⟩ := Option.map_eq_some_iff.mp hstep
    have hrow := hs.sessions id row hlookup
    obtain ⟨upload, hsession⟩ : ∃ upload, row.runs.session = some upload := by
      cases hsession : row.runs.session with
      | none => simp [(hrow.untouched hsession).2.1] at hheld
      | some upload => exact ⟨upload, rfl⟩
    obtain ⟨hdiscards, hlater⟩ := hrow.held after hheld
    obtain ⟨later, job, hafter, hjobs, hcontinues⟩ := hlater upload hsession
    have hdrawn := hrow.drawn upload hsession
    have hjobList : after.jobs.drop row.runs.jobs.length = job.toList := by
      rw [hjobs, List.drop_left]
    rw [hjobList]
    -- The rows: as before, or with the session's job.
    have htable : (job = none ∧ addJobs s.table job.toList = s.table) ∨
        ∃ created, job = some (upload.jobId, created) ∧
          created.sourceKey = upload.sourceKey ∧ created.operations = none ∧
          created.outputKey = none ∧ s.source upload.jobId = none ∧ ¬ upload.state.Cancelled ∧
          addJobs s.table job.toList = s.table.insert upload.jobId created := by
      cases hjob : job with
      | none => exact Or.inl ⟨rfl, rfl⟩
      | some created =>
          obtain ⟨hid, hkey, hoperations, houtput⟩ := hcontinues.created created hjob
          obtain ⟨hunsettled, halive⟩ := hcontinues.fresh (by simp [hjob])
          obtain ⟨createdId, createdJob⟩ := created
          obtain rfl : createdId = upload.jobId := hid
          exact Or.inr ⟨createdJob, rfl, hkey, hoperations, houtput,
            hrow.unsettled upload hsession hunsettled, halive, rfl⟩
    generalize addJobs s.table job.toList = table at htable ⊢
    have hother : ∀ other, other ≠ upload.jobId →
        (table.lookup other).map (·.sourceKey) = s.source other := by
      intro other hne
      rcases htable with ⟨-, rfl⟩ | ⟨created, -, -, -, -, -, -, rfl⟩
      · rfl
      · exact source_insert_ne hne
    have hnew : SessionSound { s with table := table } id
        { row with runs := after, held := none } := by
      refine ⟨hdiscards, fun hnone => ?_, ?_, ?_, ?_, ?_, fun _ h => by simp at h⟩
      · simp [hafter] at hnone
      · intro found hfound
        obtain rfl := Option.some.inj (hafter.symm.trans hfound)
        exact hcontinues.jobId ▸ hdrawn
      · intro found hfound
        obtain rfl := Option.some.inj (hafter.symm.trans hfound)
        obtain ⟨name, hname, hkey⟩ := hrow.named upload hsession
        exact ⟨name, hname, by rw [hcontinues.sourceKey, hcontinues.jobId, hkey]⟩
      · intro found hfound hstate
        obtain rfl := Option.some.inj (hafter.symm.trans hfound)
        rw [hcontinues.jobId, hcontinues.sourceKey]
        rcases htable with ⟨hnone, rfl⟩ | ⟨created, -, hkey, -, -, -, -, rfl⟩
        · refine hrow.settled upload hsession ?_
          exact (hcontinues.settled.mp hstate).resolve_right fun h => h hnone
        · exact hkey ▸ source_of_lookup (AList.lookup_insert s.table)
      · intro found hfound hstate
        obtain rfl := Option.some.inj (hafter.symm.trans hfound)
        rw [hcontinues.jobId]
        rcases htable with ⟨hnone, rfl⟩ | ⟨created, hsome, -⟩
        · exact hrow.unsettled upload hsession fun h => hstate (hcontinues.settled.mpr (Or.inl h))
        · exact absurd (hcontinues.settled.mpr (Or.inr (by simp [hsome]))) hstate
    have hclaimed : ∀ created, job = some (upload.jobId, created) →
        created.sourceKey = upload.sourceKey → ¬ upload.state.Cancelled →
          s.Claimed settings created.sourceKey := by
      intro created _ hkey halive
      rw [hkey]
      exact .session hlookup hsession halive
    refine ⟨⟨?_, ?_, ?_, ?_, hs.objects⟩, ⟨le_refl _, fun _ _ h => h, ?_,
      fun _ _ h => Or.inl h, ?_⟩⟩
    · intro other found hfound
      by_cases hid : other = id
      · subst hid
        obtain rfl := Option.some.inj ((AList.lookup_insert s.sessions).symm.trans hfound)
        exact hnew.frame (fun _ _ h => h) fun _ _ => rfl
      · have hsound := hs.sessions other found ((AList.lookup_insert_ne hid).symm.trans hfound)
        refine hsound.frame (fun _ _ h => h) fun started hstarted => hother _ fun hsame => hid ?_
        have hpurpose := hsound.drawn started hstarted
        rw [hsame, hdrawn] at hpurpose
        simpa using hpurpose.symm
    · intro other found hfound
      refine RowSound.frame (s := s) ?_ fun _ _ h => h
      rcases htable with ⟨-, rfl⟩ | ⟨created, hjob, hkey, hoperations, houtput, -, halive, rfl⟩
      · exact hs.rows other found hfound
      · exact hs.rows_insert (rowSound_of_new hs hdrawn (by simp) houtput
          (hclaimed created hjob hkey halive)) other found hfound
    · intro party writes hedit write hwrite
      rcases htable with ⟨-, rfl⟩ | ⟨created, -, -, -, -, hempty, -, rfl⟩
      · exact (hs.edits party writes hedit write hwrite).frame (fun _ _ h => h)
          fun _ _ _ _ _ h => h
      · exact (hs.edits_insert hempty hedit hwrite).frame (fun _ _ h => h) fun _ _ _ _ _ h => h
    · intro party stored hstored
      have hsound := hs.uploads party stored hstored
      refine hsound.frame (fun _ _ h => h) (hother _ fun hsame => ?_) fun _ h => h
      have hpurpose := hsound.drawn
      rw [hsame, hdrawn] at hpurpose
      simp at hpurpose
    · intro key _ hclaim
      refine Or.inl ?_
      cases hclaim with
      | job hsource =>
          rcases htable with ⟨-, rfl⟩ | ⟨created, hjob, hkey, -, -, -, halive, rfl⟩
          · exact .job hsource
          · exact claimed_insert (hclaimed created hjob hkey halive) hsource
      | edit hedit hwrite => exact .edit hedit hwrite
      | upload hupload htime => exact .upload hupload htime
      | @session other found started hfound hstarted hstate =>
          by_cases hid : other = id
          · subst hid
            obtain rfl := Option.some.inj ((AList.lookup_insert s.sessions).symm.trans hfound)
            obtain rfl := Option.some.inj (hafter.symm.trans hstarted)
            rw [hcontinues.sourceKey]
            exact .session hlookup hsession fun h => hstate (hcontinues.cancelled h)
          · exact .session ((AList.lookup_insert_ne hid).symm.trans hfound) hstarted hstate
    · intro key modified hinitiated
      cases hinitiated with
      | @mk other found started modified hfound hstarted htime =>
          refine Or.inl ?_
          by_cases hid : other = id
          · subst hid
            obtain rfl := Option.some.inj ((AList.lookup_insert s.sessions).symm.trans hfound)
            obtain rfl := Option.some.inj (hafter.symm.trans hstarted)
            rw [hcontinues.sourceKey]
            exact ⟨hlookup, hsession, htime⟩
          · exact ⟨(AList.lookup_insert_ne hid).symm.trans hfound, hstarted, htime⟩

end SweepRuns

end Worker
end MediaPlayer
