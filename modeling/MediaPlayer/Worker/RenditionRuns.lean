import MediaPlayer.Worker.MasterText
import MediaPlayer.Worker.Publishing

/-!
# No rendition is lost from the master

Any number of renditions of one ladder, in any order, each of which may raise or die at any
step.

* `KeepsEntries` — a playlist that has the head, the entries and the listed URIs of another.
* `Sound` — what a job knows of the master that is stored: that it does not name the job's
  rungs without listing them, and in the end that it lists them.
* `no_rendition_lost` — so the master keeps every entry of the ladder's own, and lists every
  rung of a job that has returned True, once.
-/

namespace MediaPlayer
namespace Worker

open Library

/-! ## Playlists with more and more entries -/

/-- The playlist has one entry with this URI. -/
def ListedOnce (master uri : String) : Prop := ((entriesOf master).2.map (·.2)).count uri = 1

/-- The playlist names a URI only as that of its one entry. -/
def Unambiguous (master uri : String) : Prop := contains master uri = true → ListedOnce master uri

/-- What the text of a playlist keeps when entries are added to it. -/
structure KeepsEntries (master after : String) : Prop where
  head : (entriesOf after).1 = (entriesOf master).1
  entries : ∀ entry ∈ (entriesOf master).2,
    (entriesOf after).2.count entry = (entriesOf master).2.count entry
  listed : ∀ uri, ListedOnce master uri → ListedOnce after uri
  unambiguous : ∀ kind rung, Unambiguous master (renditionUri kind rung) →
    Unambiguous after (renditionUri kind rung)

theorem KeepsEntries.refl (master : String) : KeepsEntries master master :=
  ⟨rfl, fun _ _ => rfl, fun _ h => h, fun _ _ h => h⟩

theorem KeepsEntries.mem {master after : String} (hext : KeepsEntries master after)
    {entry : String × String} (hentry : entry ∈ (entriesOf master).2) :
    entry ∈ (entriesOf after).2 := by
  rw [← List.one_le_count_iff, hext.entries entry hentry]
  exact List.one_le_count_iff.mpr hentry

theorem KeepsEntries.ne_nil {master after : String} (hext : KeepsEntries master after)
    (hentries : (entriesOf master).2 ≠ []) : (entriesOf after).2 ≠ [] := by
  obtain ⟨entry, hentry⟩ := List.exists_mem_of_ne_nil _ hentries
  exact List.ne_nil_of_mem (hext.mem hentry)

theorem KeepsEntries.trans {first second third : String} (hfirst : KeepsEntries first second)
    (hsecond : KeepsEntries second third) : KeepsEntries first third where
  head := hsecond.head.trans hfirst.head
  entries entry hentry :=
    (hsecond.entries entry (hfirst.mem hentry)).trans (hfirst.entries entry hentry)
  listed uri h := hsecond.listed uri (hfirst.listed uri h)
  unambiguous kind rung h := hsecond.unambiguous kind rung (hfirst.unambiguous kind rung h)

section
variable {master : String} {listed : Listed}

theorem contains_of_listed {uri : String} (huri : uri ∈ (entriesOf master).2.map (·.2)) :
    contains master uri = true := by
  obtain ⟨entry, hentry, rfl⟩ := List.mem_map.mp huri
  have hmem := ((mem_of_mem_entriesFrom (playlistLines master) false).2 entry hentry).2.2
  exact contains_of_mem_playlistLines hmem (by simp [contains])

/-- How often a URI is listed once an entry is added. -/
theorem count_addToMaster (hplain : listed.Plain) (hentries : (entriesOf master).2 ≠ [])
    (hnew : contains master listed.uri = false) (uri : String) :
    ((entriesOf (addToMaster master listed)).2.map (·.2)).count uri =
      ((entriesOf master).2.map (·.2)).count uri + if listed.uri = uri then 1 else 0 := by
  rw [entriesOf_addToMaster hplain hentries hnew,
    ((addEntry_perm _ listed).map (·.2)).count_eq, List.map_append, List.count_append]
  simp [List.count_cons]

theorem count_eq_zero_of_not_contains {uri : String} (hnew : contains master uri = false) :
    ((entriesOf master).2.map (·.2)).count uri = 0 := by
  rw [List.count_eq_zero]
  intro hmem
  rw [contains_of_listed hmem] at hnew
  exact absurd hnew (by simp)

/-- A rung that the playlist does not name without listing it is listed by adding it. -/
theorem listedOnce_addToMaster (hplain : listed.Plain) (hentries : (entriesOf master).2 ≠ [])
    (hsound : Unambiguous master listed.uri) :
    ListedOnce (addToMaster master listed) listed.uri := by
  cases hnew : contains master listed.uri with
  | true =>
      rw [addToMaster, if_pos hnew]
      exact hsound hnew
  | false =>
      unfold ListedOnce
      rw [count_addToMaster hplain hentries hnew, count_eq_zero_of_not_contains hnew, if_pos rfl]

theorem keepsEntries_addToMaster (hplain : listed.Plain) (hentries : (entriesOf master).2 ≠ []) :
    KeepsEntries master (addToMaster master listed) := by
  cases hnew : contains master listed.uri with
  | true =>
      rw [addToMaster, if_pos hnew]
      exact KeepsEntries.refl master
  | false =>
      have hzero := count_eq_zero_of_not_contains hnew
      refine ⟨?_, fun entry hentry => ?_, fun uri huri => ?_, fun kind rung hsound hcontains => ?_⟩
      · rw [entriesOf_addToMaster hplain hentries hnew]
      · rw [entriesOf_addToMaster hplain hentries hnew, (addEntry_perm _ listed).count_eq,
          List.count_append, List.count_singleton]
        have hne : (listed.info (firstVideo (entriesOf master).2), listed.uri) ≠ entry := by
          rintro rfl
          exact List.count_eq_zero.mp hzero (List.mem_map.mpr ⟨_, hentry, rfl⟩)
        simp [hne]
      · have hne : listed.uri ≠ uri := by
          rintro rfl
          rw [ListedOnce, hzero] at huri
          exact absurd huri (by decide)
        unfold ListedOnce
        rw [count_addToMaster hplain hentries hnew, if_neg hne]
        exact huri
      · by_cases hsame : renditionUri kind rung = listed.uri
        · rw [hsame]
          refine listedOnce_addToMaster hplain hentries fun hold => ?_
          rw [hnew] at hold
          exact absurd hold (by simp)
        · have hold := (contains_addToMaster hplain hcontains).resolve_right hsame
          unfold ListedOnce
          rw [count_addToMaster hplain hentries hnew, if_neg (Ne.symm hsame)]
          exact hsound hold

end

/-- Adding every rung of a job lists them all. -/
theorem keepsEntries_foldl {listed : List Listed} (hplain : ∀ entry ∈ listed, entry.Plain)
    {master : String} (hentries : (entriesOf master).2 ≠ [])
    (hsound : ∀ entry ∈ listed, Unambiguous master entry.uri) :
    KeepsEntries master (listed.foldl addToMaster master) ∧
      ∀ entry ∈ listed, ListedOnce (listed.foldl addToMaster master) entry.uri := by
  induction listed generalizing master with
  | nil => exact ⟨KeepsEntries.refl master, fun entry hentry => by simp at hentry⟩
  | cons first listed ih =>
      have hfirst := keepsEntries_addToMaster (hplain first (List.mem_cons_self ..)) hentries
      obtain ⟨hrest, hlisted⟩ :=
        ih (fun entry hentry => hplain entry (List.mem_cons_of_mem _ hentry))
        (hfirst.ne_nil hentries) fun entry hentry =>
          hfirst.unambiguous _ _ (hsound entry (List.mem_cons_of_mem _ hentry))
      refine ⟨hfirst.trans hrest, fun entry hentry => ?_⟩
      rcases List.mem_cons.mp hentry with rfl | hentry
      · exact hrest.listed _ (listedOnce_addToMaster (hplain entry (List.mem_cons_self ..)) hentries
          (hsound entry (List.mem_cons_self ..)))
      · exact hlisted entry hentry

/-! ## The jobs -/

namespace RenditionJob

/-- The playlist does not name a rung of this kind without listing it. -/
def Unlisted (job : RenditionJob) (master : String) : Prop :=
  ∀ rung, Unambiguous master (renditionUri job.kind rung)

/-- What the job lists are rungs of its kind. -/
def Lists (job : RenditionJob) (listed : List Listed) : Prop :=
  ∀ entry ∈ listed, entry.plan.kind = job.kind ∧ entry.Plain

/-- What a job knows of the master that is stored. -/
def Sound (job : RenditionJob) (master : String) : Prop :=
  match job.phase with
  | .checking | .raised | .unlocking none | .returned none => True
  | .probing => job.Unlisted master
  | .encoding _ _ listed | .uploading _ _ _ _ listed | .waiting listed | .reading listed =>
      job.Unlisted master ∧ job.Lists listed
  | .extending listed text => text = master ∧ job.Unlisted master ∧ job.Lists listed
  | .unlocking (some listed) | .returned (some listed) =>
      ∀ entry ∈ listed, ListedOnce master entry.uri

variable {job : RenditionJob} {master after : String}

theorem Unlisted.mono (hunlisted : job.Unlisted master) (hext : KeepsEntries master after) :
    job.Unlisted after := fun rung => hext.unambiguous _ rung (hunlisted rung)

/-- What a job knows of a master it knows of one with more entries, but for the one that
has read it and is about to write it. -/
theorem Sound.mono (hsound : job.Sound master) (hext : KeepsEntries master after)
    (hsame : job.inside = true → after = master) : job.Sound after := by
  obtain ⟨kind, phase⟩ := job
  cases phase with
  | checking | raised => trivial
  | probing => exact Unlisted.mono hsound hext
  | encoding _ _ listed => exact ⟨hsound.1.mono hext, hsound.2⟩
  | uploading _ _ _ _ listed => exact ⟨hsound.1.mono hext, hsound.2⟩
  | waiting listed => exact ⟨hsound.1.mono hext, hsound.2⟩
  | reading listed => exact ⟨hsound.1.mono hext, hsound.2⟩
  | extending listed text =>
      rw [hsame rfl]
      exact hsound
  | unlocking result =>
      rw [hsame rfl]
      exact hsound
  | returned result =>
      cases result with
      | none => trivial
      | some listed => exact fun entry hentry => hext.listed _ (hsound entry hentry)

theorem name_prefix_renditionUri (kind : RenditionKind) (rung : ℕ) :
    contains (renditionUri kind rung) (kind.name ++ "/") = true := by
  simp only [contains, decide_eq_true_eq, toList_renditionUri]
  exact ⟨[], rung.repr.toList ++ '/' :: "index.m3u8".toList, by simp⟩

/-- A playlist without the folder of a kind names no rung of it. -/
theorem unlisted_of_not_contains (hfree : contains master (job.kind.name ++ "/") = false) :
    job.Unlisted master := by
  intro rung huri
  simp only [contains, decide_eq_true_eq, decide_eq_false_iff_not] at huri hfree
  have hname : (job.kind.name ++ "/").toList <:+: (renditionUri job.kind rung).toList :=
    of_decide_eq_true (name_prefix_renditionUri job.kind rung)
  exact absurd (hname.trans huri) hfree

end RenditionJob

theorem renditionFile_ne_master (kind : RenditionKind) (rung : ℕ) (name : String) :
    renditionFile kind rung name ≠ masterPlaylistName := by
  intro heq
  have hfirst := congrArg (fun path : String => path.toList.head?) heq
  cases kind <;> simp [renditionFile, RenditionKind.name, masterPlaylistName, toString] at hfirst

theorem put_ne {store : PublishedPrefix} {path other text : String} (hne : path ≠ other) :
    (store.put path text).objects other = store.objects other :=
  Function.update_of_ne hne.symm _ _

@[simp] theorem put_self (store : PublishedPrefix) (path text : String) :
    (store.put path text).objects path = some text := Function.update_self ..

/-- What one step of a job leaves: a master with no fewer entries, of which it knows what it
has to know; only a job inside writes it. -/
def Advanced (job : RenditionJob) (master : String) (after : PublishedPrefix)
    (phase : BuilderPhase) : Prop :=
  ∃ text, after.objects masterPlaylistName = some text ∧ KeepsEntries master text ∧
    (⟨job.kind, phase⟩ : RenditionJob).Sound text ∧ (job.inside = true ∨ text = master)

theorem Advanced.of_same {job : RenditionJob} {after : PublishedPrefix} {master : String}
    {phase : BuilderPhase} (hmaster : after.objects masterPlaylistName = some master)
    (hsound : (⟨job.kind, phase⟩ : RenditionJob).Sound master) :
    Advanced job master after phase :=
  ⟨master, hmaster, KeepsEntries.refl master, hsound, Or.inr rfl⟩

/-- A job that goes on after a call, or has raised, knows what it knows in either case. -/
theorem sound_next {kind : RenditionKind} {phase : BuilderPhase} {master : String}
    (hsound : (⟨kind, phase⟩ : RenditionJob).Sound master) (out : CallOutcome) :
    (⟨kind, out.next phase .raised⟩ : RenditionJob).Sound master :=
  CallOutcome.next_of (p := fun phase => (⟨kind, phase⟩ : RenditionJob).Sound master) hsound
    (show (⟨kind, .raised⟩ : RenditionJob).Sound master from trivial) out

/-- One step of a job, from what it knows. -/
theorem next_advanced {id : ℕ} {job : RenditionJob} {store after : PublishedPrefix}
    {master : String} {world : RenditionWorld} {phase : BuilderPhase}
    (hmaster : store.objects masterPlaylistName = some master)
    (hentries : (entriesOf master).2 ≠ []) (hsound : job.Sound master)
    (hnext : job.next id store world = some (after, phase)) :
    Advanced job master after phase := by
  obtain ⟨kind, before⟩ := job
  cases before with
  | checking =>
      simp only [RenditionJob.next, hmaster] at hnext
      obtain ⟨rfl, rfl⟩ := Prod.mk.inj (Option.some.inj hnext)
      refine .of_same hmaster (sound_next ?_ _)
      split_ifs with hnamed
      · trivial
      · exact RenditionJob.unlisted_of_not_contains ((Bool.not_eq_true _).mp hnamed)
  | probing =>
      obtain ⟨rfl, rfl⟩ := Prod.mk.inj (Option.some.inj hnext)
      refine .of_same hmaster (sound_next ?_ _)
      split_ifs
      · trivial
      · exact ⟨hsound, fun entry hentry => by simp at hentry⟩
  | encoding probe rungs listed =>
      cases rungs with
      | nil =>
          obtain ⟨rfl, rfl⟩ := Prod.mk.inj (Option.some.inj hnext)
          exact .of_same hmaster hsound
      | cons rung rungs =>
          simp only [RenditionJob.next] at hnext
          split at hnext
          · obtain ⟨rfl, rfl⟩ := Prod.mk.inj (Option.some.inj hnext)
            exact .of_same hmaster trivial
          · rename_i entry hentry
            obtain ⟨rfl, rfl⟩ := Prod.mk.inj (Option.some.inj hnext)
            obtain ⟨hkind, -, hplain⟩ := listedRung_plain hentry
            refine .of_same hmaster (sound_next ?_ _)
            split_ifs
            · refine ⟨hsound.1, fun other hother => ?_⟩
              rcases List.mem_append.mp hother with hother | hother
              · exact hsound.2 other hother
              · rw [List.mem_singleton.mp hother]
                exact ⟨hkind, hplain⟩
            · trivial
  | uploading probe rung files rungs listed =>
      cases files with
      | nil =>
          obtain ⟨rfl, rfl⟩ := Prod.mk.inj (Option.some.inj hnext)
          exact .of_same hmaster hsound
      | cons file files =>
          obtain ⟨rfl, rfl⟩ := Prod.mk.inj (Option.some.inj hnext)
          have hrest : (⟨kind, .uploading probe rung files rungs listed⟩ : RenditionJob).Sound
              master := hsound
          refine .of_same ?_ (sound_next hrest _)
          refine CallOutcome.effect_of
            (p := fun store : PublishedPrefix => store.objects masterPlaylistName = some master)
            hmaster ?_ _
          rw [put_ne (renditionFile_ne_master _ _ _), hmaster]
  | waiting listed =>
      simp only [RenditionJob.next] at hnext
      split at hnext
      · simp at hnext
      · obtain ⟨rfl, rfl⟩ := Prod.mk.inj (Option.some.inj hnext)
        have hreading : (⟨kind, .reading listed⟩ : RenditionJob).Sound master := hsound
        refine .of_same ?_ (sound_next hreading _)
        cases world.out <;> exact hmaster
  | reading listed =>
      simp only [RenditionJob.next, hmaster] at hnext
      obtain ⟨rfl, rfl⟩ := Prod.mk.inj (Option.some.inj hnext)
      refine .of_same hmaster ?_
      cases world.out with
      | returned => exact ⟨rfl, hsound⟩
      | raisedBefore | raisedAfter => trivial
  | extending listed text =>
      obtain ⟨rfl, rfl⟩ := Prod.mk.inj (Option.some.inj hnext)
      obtain ⟨rfl, hunlisted, hlists⟩ := hsound
      obtain ⟨hext, hlisted⟩ :=
        keepsEntries_foldl (fun entry hentry => (hlists entry hentry).2) hentries
        fun entry hentry => by
          have hrung := hunlisted entry.rung
          rw [← (hlists entry hentry).1] at hrung
          exact hrung
      cases world.out with
      | returned => exact ⟨_, put_self .., hext, hlisted, Or.inl rfl⟩
      | raisedBefore => exact .of_same hmaster trivial
      | raisedAfter => exact ⟨_, put_self .., hext, trivial, Or.inl rfl⟩
  | unlocking result =>
      obtain ⟨rfl, rfl⟩ := Prod.mk.inj (Option.some.inj hnext)
      refine .of_same ?_ (sound_next ?_ _)
      · cases world.out <;> exact hmaster
      · cases result with
        | none => trivial
        | some listed => exact hsound
  | returned result => simp [RenditionJob.next] at hnext
  | raised => simp [RenditionJob.next] at hnext

/-! ## Runs -/

namespace Publishing

/-- The master keeps every entry of the ladder's own, as often as there, and lists every rung
of a job that has returned True, once. -/
def NoneLost (own : String) (s : Publishing) : Prop :=
  ∃ master, s.store.objects masterPlaylistName = some master ∧
    (∀ entry ∈ (entriesOf own).2,
      (entriesOf master).2.count entry = (entriesOf own).2.count entry) ∧
    ∀ id kind listed, s.jobs.lookup id = some ⟨kind, .returned (some listed)⟩ →
      ∀ entry ∈ listed, ListedOnce master entry.uri

/-- The master extends the ladder's own, and every job knows what it has to know of it. -/
structure RenditionInvariant (own : String) (s : Publishing) : Prop where
  stored : ∃ master, s.store.objects masterPlaylistName = some master ∧ KeepsEntries own master ∧
    ∀ id job, s.jobs.lookup id = some job → job.Sound master
  lock : LockHeld s
  ladder : s.ladder = []

variable {own : String} {s t : Publishing}

theorem RenditionInvariant.step (hown : (entriesOf own).2 ≠ []) (hs : RenditionInvariant own s)
    {action : PublishingAction} (hstep : s.step action = some t) : RenditionInvariant own t := by
  obtain ⟨⟨master, hmaster, hext, hsound⟩, hlock, hladder⟩ := hs
  suffices hstored : (∃ master, t.store.objects masterPlaylistName = some master ∧
      KeepsEntries own master ∧ ∀ id job, t.jobs.lookup id = some job → job.Sound master) ∧
      t.ladder = [] from ⟨hstored.1, hlock.step hstep, hstored.2⟩
  cases action with
  | ladder out => simp [Publishing.step, hladder] at hstep
  | ladderDies =>
      obtain rfl := Option.some.inj hstep
      exact ⟨⟨master, hmaster, hext, hsound⟩, rfl⟩
  | start id kind =>
      simp only [Publishing.step] at hstep
      split at hstep
      · simp at hstep
      · obtain rfl := Option.some.inj hstep
        exact ⟨⟨master, hmaster, hext, Parties.forall_insert
          (fun other job _ hjob => hsound other job hjob) trivial⟩, hladder⟩
  | dies id =>
      obtain ⟨job, hjob, rfl⟩ := Option.map_eq_some_iff.mp hstep
      exact ⟨⟨master, hmaster, hext, Parties.forall_insert
        (fun other job _ hjob => hsound other job hjob) trivial⟩, hladder⟩
  | lockExpires =>
      simp only [Publishing.step] at hstep
      split at hstep
      · simp at hstep
      · obtain rfl := Option.some.inj hstep
        exact ⟨⟨master, hmaster, hext, hsound⟩, hladder⟩
  | rendition id world =>
      obtain ⟨job, hjob, hmap⟩ := Option.bind_eq_some_iff.mp hstep
      obtain ⟨⟨after, phase⟩, hnext, rfl⟩ := Option.map_eq_some_iff.mp hmap
      obtain ⟨text, hstored, hgrown, hnow, hwritten⟩ :=
        next_advanced hmaster (hext.ne_nil hown) (hsound id job hjob) hnext
      refine ⟨⟨text, hstored, hext.trans hgrown, ?_⟩, hladder⟩
      refine Parties.forall_insert (fun other otherJob hne hother => ?_) hnow
      refine (hsound other otherJob hother).mono hgrown fun hinside => ?_
      have hout := hlock.others hjob hother hne hinside
      exact hwritten.resolve_left (by simp [hout])

/-- No rendition is lost: in every state reached from a ready ladder, whose own master has an
entry, the master that is stored keeps its entries and those of each job that returned True. -/
theorem no_rendition_lost (hown : (entriesOf own).2 ≠ [])
    (hs : (renditionSystem own).Reachable s) : NoneLost own s := by
  have hinv : RenditionInvariant own s := by
    refine hs.invariant (RenditionInvariant own) ?_ fun s action t _ hinv _ hstep =>
      hinv.step hown hstep
    rintro s ⟨hmaster, hlock, hladder, hjobs⟩
    have hnone : ∀ id job, s.jobs.lookup id ≠ some job := by simp [hjobs]
    exact ⟨⟨own, hmaster, KeepsEntries.refl own, fun id job hjob => absurd hjob (hnone id job)⟩,
      fun id job hjob => absurd hjob (hnone id job), hladder⟩
  obtain ⟨⟨master, hmaster, hext, hsound⟩, -, -⟩ := hinv
  exact ⟨master, hmaster, hext.entries, fun id kind listed hjob => hsound id _ hjob⟩

/-- A small ladder's master. -/
def smallMaster : String :=
  "#EXTM3U\n#EXT-X-STREAM-INF:BANDWIDTH=900000,RESOLUTION=320x200\nv0/index.m3u8\n"

/-- The steps of a job that returns True, after its check, for a source of one rung. -/
def oneRungSteps (id : ℕ) : List PublishingAction :=
  [.rendition id { probe :=
      ⟨320, 200, by decide, by decide, true, none, some "smpte2084"⟩ },
    .rendition id { files := [("index.m3u8", "")] }] ++
    List.replicate 7 (.rendition id {})

def listedRungs (s : Publishing) (id : ℕ) : List ℕ :=
  match s.jobs.lookup id with
  | some ⟨_, .returned (some listed)⟩ => listed.map (·.rung)
  | _ => []

/-- An HDR and an AV1 job that both look before either has listed anything. -/
theorem no_rendition_lost_both : ∃ s : Publishing, (listedRungs s 0 = [200] ∧
    listedRungs s 1 = [200]) ∧ NoneLost smallMaster s := by
  have hown : (entriesOf smallMaster).2 ≠ [] := by decide +kernel
  let start : Publishing :=
    ⟨⟨fun path => if path = masterPlaylistName then some smallMaster else none, none⟩, [], ∅⟩
  have hstart : (renditionSystem smallMaster).Reachable start := .init ⟨rfl, rfl, rfl, rfl⟩
  obtain ⟨s, hs, hp⟩ := hstart.exists_of_run
    ([.start 0 .hdr, .start 1 .av1, .rendition 0 {}, .rendition 1 {}] ++
      oneRungSteps 0 ++ oneRungSteps 1)
    (fun s => listedRungs s 0 = [200] ∧ listedRungs s 1 = [200]) (by decide +kernel)
  exact ⟨s, of_decide_eq_true hp, no_rendition_lost hown hs⟩

end Publishing

end Worker
end MediaPlayer
