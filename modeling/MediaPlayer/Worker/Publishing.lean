import MediaPlayer.Worker.Hls

/-!
# Publishing one video's master playlist

`HlsLadderBuilder.build` of `app/worker/hls.py`, where it uploads, and any number of
`RenditionBuilder.run` of `app/worker/renditions.py`, each under `master_lock` of
`app/worker/tasks.py` while it re-reads, extends and uploads the master.  Every upload,
download and lock call is one step, which may raise before or after it took effect; a
worker may die between any two steps.

The store is the texts under the ladder's prefix, by their path below it, with the line ends
`read_text` gives them.  The lock does not expire while its holder is inside; the lock of a
worker that died inside does.
-/

namespace MediaPlayer
namespace Worker

open Library

/-- The texts under the prefix, and who holds the master lock. -/
structure PublishedPrefix where
  objects : String → Option String
  lock : Option ℕ

/-- Where a rendition's job stands between two of its steps.  Once past its probe it knows
what it has listed; what it returns is `none` for False. -/
inductive BuilderPhase
  | checking
  | probing
  | encoding (probe : SourceProbe) (rungs : List ℕ) (listed : List Listed)
  | uploading (probe : SourceProbe) (rung : ℕ) (files : List (String × String)) (rungs : List ℕ)
      (listed : List Listed)
  | waiting (listed : List Listed)
  | reading (listed : List Listed)
  | extending (listed : List Listed) (master : String)
  | unlocking (result : Option (List Listed))
  | returned (result : Option (List Listed))
  | raised

structure RenditionJob where
  kind : RenditionKind
  phase : BuilderPhase

/-- What the world shows a job in one step: how its call ends, the probe of the source,
and the files and the bandwidth of an encode. -/
structure RenditionWorld where
  out : CallOutcome := .returned
  probe : SourceProbe := ⟨1, 1, Nat.one_pos, Nat.one_pos, false, none, none⟩
  files : List (String × String) := []
  bandwidth : ℕ × ℕ := (0, 0)

/-- Where a rendition's file goes. -/
def renditionFile (kind : RenditionKind) (rung : ℕ) (name : String) : String :=
  s!"{kind.name}/{rung}/{name}"

def PublishedPrefix.put (store : PublishedPrefix) (path text : String) : PublishedPrefix :=
  { store with objects := Function.update store.objects path (some text) }

namespace RenditionJob

/-- In the block that holds the master lock. -/
def inside (job : RenditionJob) : Bool :=
  match job.phase with
  | .reading _ | .extending _ _ | .unlocking _ => true
  | _ => false

/-- One step of `run`; `none` when it has ended, or waits for the lock. -/
def next (id : ℕ) (store : PublishedPrefix) (job : RenditionJob) (world : RenditionWorld) :
    Option (PublishedPrefix × BuilderPhase) :=
  match job.phase with
  | .checking =>
      match store.objects masterPlaylistName with
      | none => some (store, .raised)
      | some master => some (store, world.out.next
          (if contains master (job.kind.name ++ "/") then .returned none else .probing) .raised)
  | .probing => some (store, world.out.next
      (if (planRendition job.kind world.probe 1080).isNone then .returned none
        else .encoding world.probe (rungsFor job.kind world.probe.height) []) .raised)
  | .encoding _ [] listed => some (store, .waiting listed)
  | .encoding probe (rung :: rungs) listed =>
      match listedRung job.kind probe rung world.bandwidth with
      | none => some (store, .raised)
      | some entry => some (store, world.out.next
          (if world.files.any (·.1 == "index.m3u8") then
            .uploading probe rung world.files rungs (listed ++ [entry])
          else .raised) .raised)
  | .uploading probe _ [] rungs listed => some (store, .encoding probe rungs listed)
  | .uploading probe rung (file :: files) rungs listed => some
      (world.out.effect (·.put (renditionFile job.kind rung file.1) file.2) store,
      world.out.next (.uploading probe rung files rungs listed) .raised)
  | .waiting listed =>
      match store.lock with
      | some _ => none
      | none => some (world.out.effect (fun store => { store with lock := some id }) store,
          world.out.next (.reading listed) .raised)
  | .reading listed =>
      match store.objects masterPlaylistName with
      | none => some (store, .unlocking none)
      | some master => some (store, world.out.next (.extending listed master) (.unlocking none))
  | .extending listed master => some
      (world.out.effect (·.put masterPlaylistName (listed.foldl addToMaster master)) store,
      world.out.next (.unlocking (some listed)) (.unlocking none))
  | .unlocking result => some
      (world.out.effect (fun store => { store with lock := none }) store,
      world.out.next (result.elim .raised fun listed => .returned (some listed)) .raised)
  | .returned _ => none
  | .raised => none

end RenditionJob

/-- The store, what the ladder's build has left to upload, and the renditions' jobs. -/
structure Publishing where
  store : PublishedPrefix
  ladder : List (String × String)
  jobs : Parties ℕ RenditionJob

inductive PublishingAction
  | ladder (out : CallOutcome)
  | ladderDies
  | start (id : ℕ) (kind : RenditionKind)
  | rendition (id : ℕ) (world : RenditionWorld)
  | dies (id : ℕ)
  | lockExpires

namespace Publishing

/-- Whether the holder of the lock is still inside. -/
def held (s : Publishing) : Bool :=
  match s.store.lock with
  | none => false
  | some id => (s.jobs.lookup id).any RenditionJob.inside

/-- One atomic step. -/
def step (s : Publishing) : PublishingAction → Option Publishing
  | .ladder out =>
      match s.ladder with
      | [] => none
      | file :: files => some { s with
          store := out.effect (·.put file.1 file.2) s.store
          ladder := out.next files [] }
  | .ladderDies => some { s with ladder := [] }
  | .start id kind =>
      match s.jobs.lookup id with
      | some _ => none
      | none => some { s with jobs := s.jobs.insert id ⟨kind, .checking⟩ }
  | .rendition id world =>
      (s.jobs.lookup id).bind fun job =>
        (job.next id s.store world).map fun after =>
          { s with store := after.1, jobs := s.jobs.insert id { job with phase := after.2 } }
  | .dies id =>
      (s.jobs.lookup id).map fun job =>
        { s with jobs := s.jobs.insert id { job with phase := .raised } }
  | .lockExpires =>
      if s.held then none else some { s with store := { s.store with lock := none } }

end Publishing

/-- Renditions of a ladder whose master is `own`. -/
def renditionSystem (own : String) : StepSystem Publishing PublishingAction where
  init s := s.store.objects masterPlaylistName = some own ∧ s.store.lock = none ∧
    s.ladder = [] ∧ s.jobs = ∅
  step := Publishing.step

/-- A ladder's build with these uploads from an empty prefix, and renditions. -/
def publishingSystem (uploads : List (String × String)) :
    StepSystem Publishing PublishingAction where
  init s := (∀ path, s.store.objects path = none) ∧ s.store.lock = none ∧
    s.ladder = uploads ∧ s.jobs = ∅
  step := Publishing.step

/-! ## The lock -/

/-- A job has nothing to do with the lock but to take it when it is free, and, while it is
inside, to give it back. -/
theorem RenditionJob.next_lock {id : ℕ} {job : RenditionJob} {store after : PublishedPrefix}
    {world : RenditionWorld} {phase : BuilderPhase}
    (hnext : job.next id store world = some (after, phase)) :
    (job.inside = true ∨ after.lock = store.lock ∨ store.lock = none) ∧
      ((⟨job.kind, phase⟩ : RenditionJob).inside = true → after.lock = some id ∨
        job.inside = true ∧ after.lock = store.lock) := by
  obtain ⟨kind, before⟩ := job
  have houtside : ∀ {onReturn : BuilderPhase},
      (⟨kind, onReturn⟩ : RenditionJob).inside = false →
      ¬(⟨kind, world.out.next onReturn .raised⟩ : RenditionJob).inside = true := by
    intro onReturn hreturn
    cases world.out with
    | returned => simpa using hreturn
    | raisedBefore | raisedAfter => simp [inside]
  cases before with
  | checking =>
      simp only [next] at hnext
      split at hnext
      · obtain ⟨rfl, rfl⟩ := Prod.mk.inj (Option.some.inj hnext)
        exact ⟨Or.inr (Or.inl rfl), fun hinside => by simp [inside] at hinside⟩
      · obtain ⟨rfl, rfl⟩ := Prod.mk.inj (Option.some.inj hnext)
        refine ⟨Or.inr (Or.inl rfl), fun hinside => absurd hinside (houtside ?_)⟩
        split_ifs <;> rfl
  | probing =>
      obtain ⟨rfl, rfl⟩ := Prod.mk.inj (Option.some.inj hnext)
      refine ⟨Or.inr (Or.inl rfl), fun hinside => absurd hinside (houtside ?_)⟩
      split_ifs <;> rfl
  | encoding probe rungs listed =>
      cases rungs with
      | nil =>
          obtain ⟨rfl, rfl⟩ := Prod.mk.inj (Option.some.inj hnext)
          exact ⟨Or.inr (Or.inl rfl), fun hinside => by simp [inside] at hinside⟩
      | cons rung rungs =>
          simp only [next] at hnext
          split at hnext
          · obtain ⟨rfl, rfl⟩ := Prod.mk.inj (Option.some.inj hnext)
            exact ⟨Or.inr (Or.inl rfl), fun hinside => by simp [inside] at hinside⟩
          · obtain ⟨rfl, rfl⟩ := Prod.mk.inj (Option.some.inj hnext)
            refine ⟨Or.inr (Or.inl rfl), fun hinside => absurd hinside (houtside ?_)⟩
            split_ifs <;> rfl
  | uploading probe rung files rungs listed =>
      cases files with
      | nil =>
          obtain ⟨rfl, rfl⟩ := Prod.mk.inj (Option.some.inj hnext)
          exact ⟨Or.inr (Or.inl rfl), fun hinside => by simp [inside] at hinside⟩
      | cons file files =>
          obtain ⟨rfl, rfl⟩ := Prod.mk.inj (Option.some.inj hnext)
          refine ⟨Or.inr (Or.inl ?_), fun hinside => absurd hinside (houtside rfl)⟩
          cases world.out <;> rfl
  | waiting listed =>
      simp only [next] at hnext
      split at hnext
      · simp at hnext
      · rename_i hfree
        obtain ⟨rfl, rfl⟩ := Prod.mk.inj (Option.some.inj hnext)
        refine ⟨Or.inr (Or.inr hfree), ?_⟩
        cases world.out with
        | returned => exact fun _ => Or.inl rfl
        | raisedBefore | raisedAfter => exact fun hinside => by simp [inside] at hinside
  | reading listed =>
      simp only [next] at hnext
      split at hnext
      · obtain ⟨rfl, rfl⟩ := Prod.mk.inj (Option.some.inj hnext)
        exact ⟨Or.inl rfl, fun _ => Or.inr ⟨rfl, rfl⟩⟩
      · obtain ⟨rfl, rfl⟩ := Prod.mk.inj (Option.some.inj hnext)
        exact ⟨Or.inl rfl, fun _ => Or.inr ⟨rfl, rfl⟩⟩
  | extending listed text =>
      obtain ⟨rfl, rfl⟩ := Prod.mk.inj (Option.some.inj hnext)
      refine ⟨Or.inl rfl, fun _ => Or.inr ⟨rfl, ?_⟩⟩
      cases world.out <;> rfl
  | unlocking result =>
      obtain ⟨rfl, rfl⟩ := Prod.mk.inj (Option.some.inj hnext)
      refine ⟨Or.inl rfl, fun hinside => absurd hinside (houtside ?_)⟩
      cases result <;> rfl
  | returned result => simp [next] at hnext
  | raised => simp [next] at hnext

namespace Publishing

/-- Whoever is inside holds the lock. -/
def LockHeld (s : Publishing) : Prop :=
  ∀ id job, s.jobs.lookup id = some job → job.inside = true → s.store.lock = some id

variable {s t : Publishing}

theorem LockHeld.insert (hs : LockHeld s) {id : ℕ} {job : RenditionJob} {lock : Option ℕ}
    (hothers : ∀ other otherJob, other ≠ id → s.jobs.lookup other = some otherJob →
      otherJob.inside = true → lock = s.store.lock)
    (hjob : job.inside = true → lock = some id) :
    ∀ other otherJob, (s.jobs.insert id job).lookup other = some otherJob →
      otherJob.inside = true → lock = some other := by
  refine Parties.forall_insert
    (p := fun id (job : RenditionJob) => job.inside = true → lock = some id) ?_ hjob
  intro other otherJob hne hlookup hinside
  rw [hothers other otherJob hne hlookup hinside]
  exact hs other otherJob hlookup hinside

/-- A job that moves is the only one inside, or not inside. -/
theorem LockHeld.others (hs : LockHeld s) {id other : ℕ} {job otherJob : RenditionJob}
    (hjob : s.jobs.lookup id = some job) (hother : s.jobs.lookup other = some otherJob)
    (hne : other ≠ id) (hinside : otherJob.inside = true) : job.inside = false := by
  refine (Bool.not_eq_true _).mp fun hin => hne ?_
  exact Option.some.inj ((hs other otherJob hother hinside).symm.trans (hs id job hjob hin))

theorem LockHeld.step (hs : LockHeld s) {action : PublishingAction}
    (hstep : s.step action = some t) : LockHeld t := by
  cases action with
  | ladder out =>
      simp only [Publishing.step] at hstep
      split at hstep
      · simp at hstep
      · obtain rfl := Option.some.inj hstep
        intro id job hjob hinside
        refine Eq.trans ?_ (hs id job hjob hinside)
        cases out <;> rfl
  | ladderDies =>
      obtain rfl := Option.some.inj hstep
      exact hs
  | start id kind =>
      simp only [Publishing.step] at hstep
      split at hstep
      · simp at hstep
      · obtain rfl := Option.some.inj hstep
        exact hs.insert (fun _ _ _ _ _ => rfl) (by simp [RenditionJob.inside])
  | dies id =>
      obtain ⟨job, hjob, rfl⟩ := Option.map_eq_some_iff.mp hstep
      exact hs.insert (fun _ _ _ _ _ => rfl) (by simp [RenditionJob.inside])
  | lockExpires =>
      simp only [Publishing.step] at hstep
      split at hstep
      · simp at hstep
      · rename_i hfree
        obtain rfl := Option.some.inj hstep
        intro id job hjob hinside
        have hlock := hs id job hjob hinside
        simp [held, hlock, hjob, hinside] at hfree
  | rendition id world =>
      obtain ⟨job, hjob, hmap⟩ := Option.bind_eq_some_iff.mp hstep
      obtain ⟨⟨after, phase⟩, hnext, rfl⟩ := Option.map_eq_some_iff.mp hmap
      obtain ⟨hlock, hnow⟩ := RenditionJob.next_lock hnext
      refine hs.insert (fun other otherJob hne hother hinside => ?_) fun hinside => ?_
      · have hheld := hs other otherJob hother hinside
        have hout := hs.others hjob hother hne hinside
        rcases hlock with hin | hsame | hfree
        · simp [hout] at hin
        · exact hsame
        · simp [hheld] at hfree
      · rcases hnow hinside with hself | ⟨hin, hsame⟩
        · exact hself
        · exact hsame.trans (hs id job hjob hin)

end Publishing

end Worker
end MediaPlayer
