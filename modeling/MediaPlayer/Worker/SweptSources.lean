import MediaPlayer.Worker.SweepSteps

/-!
# No wanted source is swept

* `StoreSound.claimed_known` — at the one statement that reads the source keys, every claimed
  key is among them, or young.
* `orphan_sweep_safe` — so no sweep deletes a wanted source.
-/

namespace MediaPlayer
namespace Worker

open Library Models Repositories Schemas Services Api

namespace SweepRuns

variable {settings : SweepSettings} {s t : SweepRuns}

/-! ## Sweeps -/

/-- A sweep changes nothing but objects, and makes none. -/
theorem sweeping_sound (settings : SweepSettings) (hs : StoreSound s)
    {objects : Parties String Timestamp}
    (hobjects : ∀ key modified, objects.lookup key = some modified →
      s.objects.lookup key = some modified) (sweeps : Parties ℕ SweepPhase) (swept : List String) :
    StoreSound { s with objects := objects, sweeps := sweeps, swept := swept } ∧
      StepKept settings s { s with objects := objects, sweeps := sweeps, swept := swept } := by
  refine ⟨⟨?_, ?_, ?_, ?_, ?_⟩, ⟨le_refl _, fun _ _ h => h, ?_, ?_, ?_⟩⟩
  · exact fun id row hrow => (hs.sessions id row hrow).frame (fun _ _ h => h) fun _ _ => rfl
  · exact fun id job hrow => (hs.rows id job hrow).frame fun _ _ h => h
  · exact fun party writes hedit write hwrite =>
      (hs.edits party writes hedit write hwrite).frame (fun _ _ h => h) fun _ _ _ _ _ h => h
  · exact fun party upload hupload =>
      (hs.uploads party upload hupload).frame (fun _ _ h => h) rfl fun modified =>
        hobjects _ modified
  · exact fun key modified hmodified => hs.objects key modified (hobjects key modified hmodified)
  · intro key _ hclaimed
    refine Or.inl ?_
    cases hclaimed with
    | job hrow => exact .job hrow
    | edit hedit hwrite => exact .edit hedit hwrite
    | session hrow hsession hstate => exact .session hrow hsession hstate
    | upload hupload htime => exact .upload hupload htime
  · exact fun key modified hmodified => Or.inl (hobjects key modified hmodified)
  · intro key modified hinitiated
    cases hinitiated with
    | mk hrow hsession htime => exact Or.inl ⟨hrow, hsession, htime⟩

theorem mem_listSourceKeys_of_row {id : UUID} {key : String} (hrow : s.source id = some key) :
    key ∈ s.listSourceKeys := by
  obtain ⟨job, hjob, rfl⟩ := Option.map_eq_some_iff.mp hrow
  exact List.mem_append_left _ (List.mem_map_of_mem (f := fun entry => entry.2.sourceKey)
    (AList.mem_lookup_iff.mp hjob))

theorem mem_listSourceKeys_of_session {id : ℕ} {row : SessionRuns} {upload : UploadSession}
    (hrow : s.sessions.lookup id = some row) (hsession : row.runs.session = some upload)
    (hstate : keepsSource upload.state = true) : upload.sourceKey ∈ s.listSourceKeys := by
  refine List.mem_append_right _ (List.mem_filterMap.mpr
    ⟨⟨id, row⟩, AList.mem_lookup_iff.mp hrow, Option.map_eq_some_iff.mpr ⟨upload, ?_, rfl⟩⟩)
  exact Option.filter_eq_some_iff.mpr ⟨hsession, hstate⟩

/-- At the one statement that reads the source keys, every claimed key is among them, or the
object was stored within the grace time. -/
theorem StoreSound.claimed_known (hs : StoreSound s) {graceBefore : Timestamp}
    (hcutoff : graceBefore + settings.grace ≤ s.clock) {key : String}
    (hunder : underUploads key = true) (hclaimed : s.Claimed settings key) :
    key ∈ s.listSourceKeys ∨ s.Young graceBefore [] key := by
  cases hclaimed with
  | job hrow => exact Or.inl (mem_listSourceKeys_of_row hrow)
  | edit hedit hwrite =>
      obtain ⟨base, purpose, -, -, hbase⟩ :=
        ((hs.edits _ _ hedit _ hwrite).put _ _ rfl).2.2 hunder
      exact Or.inl (mem_listSourceKeys_of_row hbase)
  | @session id row upload hrow hsession hstate =>
      refine Or.inl ?_
      have hsound := hs.sessions id row hrow
      by_cases hsettled : upload.state.Settled
      · exact mem_listSourceKeys_of_row (hsound.settled upload hsession hsettled)
      · refine mem_listSourceKeys_of_session hrow hsession ?_
        cases hvalue : upload.state <;>
          simp_all [keepsSource, UploadState.Settled, UploadState.Cancelled]
  | @upload party upload hupload htime =>
      have hsound := hs.uploads party upload hupload
      refine Or.inr ⟨fun modified hmodified => ?_, by simp, fun modified hinitiated => ?_⟩
      · rw [hsound.object modified hmodified]
        linarith
      · -- No session has the key of a one-request upload.
        generalize hkey : upload.sourceKey = key at hinitiated
        cases hinitiated with
        | mk hrow hsession _ =>
            have hsession' := hs.sessions _ _ hrow
            have hid := hsound.namedFor.unique (hkey ▸ hsession'.namedFor hsession)
            have hpurpose := hsession'.drawn _ hsession
            rw [← hid, hsound.drawn] at hpurpose
            simp at hpurpose

/-- What holds in every state. -/
structure Sound (settings : SweepSettings) (s : SweepRuns) : Prop where
  store : StoreSound s
  sweep : SweepSound settings s

/-- Every other step leaves the sweeps alone. -/
theorem Sound.of_kept (hs : Sound settings s) (hkept : StoreSound t ∧ StepKept settings s t)
    (hsweeps : t.sweeps = s.sweeps) (hswept : t.swept = s.swept) : Sound settings t :=
  ⟨hkept.1, hs.sweep.of_kept hs.store hkept.2 hsweeps hswept⟩

/-- A sweep moves on. -/
theorem Sound.move (hs : Sound settings s) {party : ℕ} {phase : SweepPhase}
    (hphase : PhaseSound settings s phase) :
    Sound settings { s with sweeps := s.sweeps.insert party phase } := by
  obtain ⟨hstore, hkept⟩ := sweeping_sound settings hs.store (fun _ _ h => h)
    (s.sweeps.insert party phase) s.swept
  refine ⟨hstore, ⟨?_, fun key hmem => hs.sweep.swept_of_kept hkept hmem⟩⟩
  exact Parties.forall_insert
    (fun other found _ hfound => (hs.sweep.phases other found hfound).of_kept hs.store hkept)
    (hphase.of_kept hs.store hkept)

/-- A sweep reads a page of objects. -/
theorem PhaseSound.page (hs : Sound settings s) {graceBefore : Timestamp}
    {sourceKeys : List String} {listed : List (String × Timestamp)}
    (hphase : PhaseSound settings s (.knowing graceBefore sourceKeys listed)) (keys : List String) :
    PhaseSound settings s (.knowing graceBefore sourceKeys
      (listed ++ (keys.filter underUploads).filterMap fun key =>
        (s.objects.lookup key).map fun modified => (key, modified))) := by
  obtain ⟨hcutoff, hlisted, hclaims⟩ := hphase
  have hpage : ∀ entry ∈ (keys.filter underUploads).filterMap fun key =>
      (s.objects.lookup key).map fun modified => (key, modified),
      underUploads entry.1 = true ∧ s.objects.lookup entry.1 = some entry.2 := by
    intro entry hentry
    obtain ⟨key, hkey, hsome⟩ := List.mem_filterMap.mp hentry
    obtain ⟨modified, hmodified, rfl⟩ := Option.map_eq_some_iff.mp hsome
    exact ⟨(List.mem_filter.mp hkey).2, hmodified⟩
  refine ⟨hcutoff, fun entry hentry => ?_, fun key hunder hclaimed => ?_⟩
  · rcases List.mem_append.mp hentry with hold | hnew
    · exact hlisted entry hold
    · obtain ⟨hunder, hmodified⟩ := hpage entry hnew
      exact ⟨hunder, hs.store.objects _ _ hmodified hunder⟩
  · refine (hclaims key hunder hclaimed).imp_right fun hyoung =>
      ⟨hyoung.object, fun modified hmem => ?_, hyoung.initiated⟩
    rcases List.mem_append.mp hmem with hold | hnew
    · exact hyoung.listed modified hold
    · exact hyoung.object modified (hpage _ hnew).2

/-- What a sweep deletes is not claimed. -/
theorem Sound.not_claimed (hs : Sound settings s) {party : ℕ} {key : String}
    {outcome : CallOutcome} (hstep : s.step settings (.deleteOrphan party key outcome) = some t) :
    underUploads key = true ∧ s.Used key ∧ ¬ s.Claimed settings key := by
  simp only [step] at hstep
  split at hstep
  · rename_i graceBefore sourceKeys listed hphase
    split at hstep
    · rename_i horphan
      obtain ⟨hunknown, hold⟩ := horphan
      obtain ⟨entry, hentry, hmatch⟩ := List.any_eq_true.mp hold
      obtain ⟨rfl, htime⟩ := of_decide_eq_true hmatch
      obtain ⟨-, hlisted, hclaims⟩ := hs.sweep.phases party _ hphase
      obtain ⟨hunder, hused⟩ := hlisted entry hentry
      refine ⟨hunder, hused, fun hclaimed => ?_⟩
      rcases hclaims entry.1 hunder hclaimed with hknown | hyoung
      · exact hunknown hknown
      · exact absurd (hyoung.listed entry.2 hentry) (not_le.mpr htime)
    · simp at hstep
  · simp at hstep

theorem Sound.delete (hs : Sound settings s) {party : ℕ} {key : String}
    {outcome : CallOutcome} (hstep : s.step settings (.deleteOrphan party key outcome) = some t) :
    Sound settings t := by
  obtain ⟨hunder, hused, hunclaimed⟩ := hs.not_claimed hstep
  simp only [step] at hstep
  split at hstep
  · split at hstep
    · obtain rfl := Option.some.inj hstep
      have hobjects : ∀ other modified,
          (outcome.effect (·.erase key) s.objects).lookup other = some modified →
            s.objects.lookup other = some modified := by
        intro other modified
        refine CallOutcome.effect_of (p := fun objects : Parties String Timestamp =>
          objects.lookup other = some modified → s.objects.lookup other = some modified)
          id (fun herased => ?_) outcome
        by_cases hother : other = key
        · subst hother
          simp [AList.lookup_erase] at herased
        · exact (AList.lookup_erase_ne hother).symm.trans herased
      obtain ⟨hstore, hkept⟩ := sweeping_sound settings hs.store hobjects
        (outcome.next s.sweeps (s.sweeps.insert party .stopped))
        (outcome.effect (key :: ·) s.swept)
      refine ⟨hstore, fun other phase hphase => ?_, fun other hmem => ?_⟩
      · refine PhaseSound.of_kept hs.store hkept ?_
        cases outcome with
        | returned => exact hs.sweep.phases other phase hphase
        | raisedBefore | raisedAfter =>
            have hstopped : PhaseSound settings s .stopped := trivial
            exact Parties.forall_insert (p := fun _ phase => PhaseSound settings s phase)
              (fun other phase _ => hs.sweep.phases other phase) hstopped other phase hphase
      · have hswept : other = key ∨ other ∈ s.swept := by
          cases outcome with
          | raisedBefore => exact Or.inr hmem
          | returned | raisedAfter => exact List.mem_cons.mp hmem
        rcases hswept with rfl | hold
        · refine ⟨hunder, hkept.used hused, fun hclaimed => ?_⟩
          exact (hkept.claimed other hunder hclaimed).elim hunclaimed fun hnew => hnew hused
        · exact hs.sweep.swept_of_kept hkept hold
    · simp at hstep
  · simp at hstep

/-- Every step keeps the store and the sweeps sound. -/
theorem Sound.step {a : SweepAction} (hs : Sound settings s)
    (hstep : SweepRuns.step settings s a = some t) : Sound settings t := by
  cases a with
  | tick elapsed =>
      obtain rfl := Option.some.inj hstep
      exact hs.of_kept (tick_sound hs.store elapsed) rfl rfl
  | span id action =>
      have hsound := span_sound hs.store hstep
      simp only [SweepRuns.step] at hstep
      split at hstep
      · obtain ⟨after, -, rfl⟩ := Option.map_eq_some_iff.mp hstep
        refine hs.of_kept hsound ?_ ?_
        all_goals
          cases drawnId action <;> simp only [reach, draw] <;> split <;> rfl
      · simp at hstep
  | commit id =>
      have hsound := commit_sound hs.store hstep
      simp only [SweepRuns.step] at hstep
      split at hstep
      · simp at hstep
      · obtain ⟨after, -, rfl⟩ := Option.map_eq_some_iff.mp hstep
        exact hs.of_kept hsound rfl rfl
  | storeUpload party ownerId jobId filename maxFps outcome =>
      have hsound := storeUpload_sound hs.store hstep
      simp only [SweepRuns.step] at hstep
      split at hstep
      · obtain rfl := Option.some.inj hstep
        exact hs.of_kept hsound rfl rfl
      · simp at hstep
  | createUpload party outcome =>
      have hsound := createUpload_sound hs.store hstep
      simp only [SweepRuns.step] at hstep
      split at hstep
      · simp at hstep
      · split at hstep
        · split at hstep <;> obtain rfl := Option.some.inj hstep <;>
            exact hs.of_kept hsound rfl rfl
        · simp at hstep
  | request user world request =>
      simp only [SweepRuns.step] at hstep
      split at hstep
      · simp at hstep
      · rename_i hedit
        split at hstep
        · simp at hstep
        · rename_i hdeletes
          obtain rfl := Option.some.inj hstep
          have hkept : Kept "outputs" s.table _ :=
            kept_handle settings.jobs user world s.table hedit
          exact hs.of_kept (kept_sound hs.store hkept (persists_handle settings.jobs user world
            s.table hedit (by simpa using hdeletes))) rfl rfl
  | readEdit party user world jobId edit =>
      have hsound := readEdit_sound hs.store hstep
      simp only [SweepRuns.step] at hstep
      split at hstep
      · obtain rfl := Option.some.inj hstep
        exact hs.of_kept hsound rfl rfl
      · simp at hstep
  | writeEdit party outcome =>
      have hsound := writeEdit_sound hs.store hstep
      simp only [SweepRuns.step] at hstep
      split at hstep
      · obtain rfl := Option.some.inj hstep
        exact hs.of_kept hsound rfl rfl
      · simp at hstep
      · simp at hstep
  | write jobId now name op =>
      simp only [SweepRuns.step] at hstep
      split at hstep
      · simp at hstep
      · rename_i hdelete
        split at hstep
        · rename_i hkeyed
          obtain rfl := Option.some.inj hstep
          exact hs.of_kept (kept_sound hs.store (kept_writeRow s.table hkeyed)
            (persists_writeRow s.table hdelete)) rfl rfl
        · simp at hstep
  | startSweep party =>
      simp only [SweepRuns.step] at hstep
      split at hstep
      · obtain rfl := Option.some.inj hstep
        refine hs.move ?_
        exact le_of_eq (sub_add_cancel s.clock settings.grace)
      · simp at hstep
  | readKeys party =>
      simp only [SweepRuns.step] at hstep
      split at hstep
      · rename_i graceBefore hphase
        obtain rfl := Option.some.inj hstep
        have hcutoff : graceBefore + settings.grace ≤ s.clock := hs.sweep.phases party _ hphase
        have hgrace : 0 ≤ settings.grace :=
          mul_nonneg (Int.natCast_nonneg _) (by norm_num)
        exact hs.move ⟨by linarith, by simp, fun key hunder hclaimed =>
          hs.store.claimed_known hcutoff hunder hclaimed⟩
      · simp at hstep
  | listPage party keys =>
      simp only [SweepRuns.step] at hstep
      split at hstep
      · rename_i graceBefore sourceKeys listed hphase
        obtain rfl := Option.some.inj hstep
        exact hs.move ((hs.sweep.phases party _ hphase).page hs keys)
      · simp at hstep
  | deleteOrphan party key outcome => exact hs.delete hstep

end SweepRuns

/-- A library in which nothing goes on, with the rows and the objects any earlier time has
left. -/
structure Idle (s : SweepRuns) : Prop where
  sessions : s.sessions = ∅
  uploads : s.uploads = ∅
  edits : s.edits = ∅
  sweeps : s.sweeps = ∅
  swept : s.swept = []
  rows : ∀ id job, s.table.lookup id = some job → s.RowSound id job
  objects : ∀ key modified, s.objects.lookup key = some modified → underUploads key = true →
    s.Used key

/-- Uploads, edits, requests and writes from such a library, beside any number of sweeps. -/
def sweepSystem (settings : SweepSettings) : StepSystem SweepRuns SweepAction where
  init := Idle
  step := SweepRuns.step settings

theorem idle_empty : Idle {} := by
  constructor <;> simp [AList.lookup_empty]

theorem Idle.sound {settings : SweepSettings} {s : SweepRuns} (hs : Idle s) :
    s.Sound settings where
  store :=
    { sessions := fun id row hrow => by simp [hs.sessions, AList.lookup_empty] at hrow
      rows := hs.rows
      edits := fun party writes hedit => by simp [hs.edits, AList.lookup_empty] at hedit
      uploads := fun party upload hupload => by simp [hs.uploads, AList.lookup_empty] at hupload
      objects := hs.objects }
  sweep :=
    { phases := fun party phase hphase => by simp [hs.sweeps, AList.lookup_empty] at hphase
      swept := by simp [hs.swept] }

theorem sound_of_reachable {settings : SweepSettings} {s : SweepRuns}
    (hs : (sweepSystem settings).Reachable s) : s.Sound settings :=
  hs.invariant (SweepRuns.Sound settings) (fun _ (hidle : Idle _) => hidle.sound)
    fun _ _ _ _ hsound _ hstep => hsound.step hstep

/-- No sweep deletes the source of a job, or of a session that is open or completing, and what
a sweep has deleted never becomes one. -/
theorem orphan_sweep_safe {settings : SweepSettings} {s : SweepRuns}
    (hs : (sweepSystem settings).Reachable s) :
    (∀ party key outcome t, s.step settings (.deleteOrphan party key outcome) = some t →
      ¬ s.Wanted key) ∧ ∀ key ∈ s.swept, ¬ s.Wanted key := by
  have hsound := sound_of_reachable hs
  refine ⟨fun party key outcome t hstep hwanted => ?_, fun key hmem hwanted => ?_⟩
  · exact (hsound.not_claimed hstep).2.2 hwanted.claimed
  · exact (hsound.sweep.swept key hmem).2.2 hwanted.claimed

/-- Two uploads in one request, of which only the second comes to its row, and a sweep two hours
later. -/
def abandonedUpload : List SweepAction :=
  [.storeUpload 0 7 1 "a.mp4" 30 .returned, .storeUpload 1 7 2 "b.mp4" 30 .returned,
    .createUpload 1 .returned, .tick 7200000000, .startSweep 0, .readKeys 0,
    .listPage 0 ["uploads/1/a.mp4", "uploads/2/b.mp4"],
    .deleteOrphan 0 "uploads/1/a.mp4" .returned]

/-- The first object is swept, and is no job's source; the second is kept. -/
theorem orphan_sweep_safe_abandoned : ∃ s, (sweepSystem {}).Reachable s ∧
    s.swept = ["uploads/1/a.mp4"] ∧ (s.objects.lookup "uploads/2/b.mp4").isSome ∧
      ∀ key ∈ s.swept, ¬ s.Wanted key := by
  have hinit : (sweepSystem {}).Reachable {} := .init idle_empty
  obtain ⟨s, hs, hrun⟩ := hinit.exists_of_run abandonedUpload
    (fun s => s.swept = ["uploads/1/a.mp4"] ∧ (s.objects.lookup "uploads/2/b.mp4").isSome)
    (by decide +kernel)
  obtain ⟨hswept, hkept⟩ := of_decide_eq_true hrun
  exact ⟨s, hs, hswept, hkept, (orphan_sweep_safe hs).2⟩

end Worker
end MediaPlayer
