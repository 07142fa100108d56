import MediaPlayer.Frontend.JobFollowers

/-!
# The players of a page

`mountPlayer` and `unmountPlayer` of `frontend/app.js`, with the functions that call them: every
`<video>` of the page is given to Plyr, and one that plays a ladder to hls.js first, and both go on
until they are destroyed.  hls.js says when it has read the manifest and when it gives up; either
may come after the player was taken down, more than once, or never.

* `Players.mountPlayer`, `Players.unmountPlayer` — with `attachHls` and `startPlyr`.
* `PlayerAction` — the upload card, the editor, the cards of the library and of the admin table,
  signing out, and the accounts refused to one who is an operator no longer.
* `players_owned` — what is not destroyed belongs to a player that is mounted, and every such player
  is in the page until the accounts are refused while one plays in the admin table.
-/

namespace MediaPlayer
namespace Frontend

open Library

/-! ## One player -/

/-- The elements that hold a player: the page's own, and those `toggleInlinePlayer` makes. -/
inductive Host
  | player
  | editPlayer
  | editResultPlayer
  | inline (id : ℕ)
  deriving DecidableEq

/-- What `playbackSource` returns. -/
structure PlaybackSource where
  hls : Option String
  fallback : Option String
  deriving DecidableEq

/-- A text that is there and is not empty. -/
def truthyText (text : Option String) : Option String := text.filter (· ≠ "")

def playbackSource (job : JobDocument) : Option PlaybackSource :=
  match truthyText job.hlsUrl with
  | some hls => some ⟨some hls, job.outputUrl⟩
  | none => (truthyText job.outputUrl).map fun output => ⟨none, some output⟩

/-- What the browser has when a player is built. -/
structure PlayerWorld where
  /-- `window.Hls` is there, and supported. -/
  hlsSupported : Bool
  /-- `window.Plyr` is a function. -/
  plyrLoaded : Bool

/-- The state of a player: `hls` and `plyr` are the libraries it holds. -/
structure Mounted where
  host : Host
  fallback : Option String
  previewVtt : Option String
  hls : Bool := false
  plyr : Bool := false
  deriving DecidableEq

/-- A call of one of the libraries, for a player. -/
inductive LibraryCall
  | newHls
  | newPlyr
  | destroyHls
  | destroyPlyr
  deriving DecidableEq

/-- Where `toggleInlinePlayer` opens players. -/
inductive Region
  | libraryGrid
  | adminTbody
  deriving DecidableEq

/-- The players of a page.  A state is known by the number it was made under; `calls` is what the
libraries were told, and `inline` the elements made in the library's cards and in the cells of the
admin table. -/
structure Players where
  players : Host → Option ℕ := fun _ => none
  states : ℕ → Option Mounted := fun _ => none
  nextState : ℕ := 0
  calls : ℕ → List LibraryCall := fun _ => []
  /-- The players to be rebuilt, once hls.js is done with its error. -/
  rebuilds : List ℕ := []
  inline : Parties (Region × ℕ) ℕ := ∅
  nextInline : ℕ := 0
  uploadPlayerKey : Option (Option ℕ × Bool) := none

namespace Players

variable (p : Players)

def setState (id : ℕ) (state : Mounted) : Players :=
  { p with states := Function.update p.states id (some state) }

def call (id : ℕ) (calls : List LibraryCall) : Players :=
  { p with calls := Function.update p.calls id (p.calls id ++ calls) }

/-- `unmountPlayer`: hls.js goes before Plyr. -/
def unmountPlayer (host : Host) : Players :=
  match p.players host with
  | none => p
  | some id =>
      let gone := { p with players := Function.update p.players host none }
      match p.states id with
      | none => gone
      | some state =>
          (gone.call id ((if state.hls then [.destroyHls] else []) ++
            (if state.plyr then [.destroyPlyr] else []))).setState id
              { state with hls := false, plyr := false }

/-- `unmountPlayersIn`. -/
def unmountPlayersIn (hosts : List Host) : Players := hosts.foldl unmountPlayer p

/-- `startPlyr`. -/
def startPlyr (id : ℕ) (world : PlayerWorld) : Players :=
  match p.states id with
  | none => p
  | some state =>
      if !world.plyrLoaded || state.plyr then p
      else if p.players state.host ≠ some id then p
      else (p.call id [.newPlyr]).setState id { state with plyr := true }

/-- `attachHls`, with what `mountPlayer` does when the ladder is not taken. -/
def attachHls (id : ℕ) (source : PlaybackSource) (world : PlayerWorld) : Players :=
  if source.hls.isSome && world.hlsSupported then
    match p.states id with
    | none => p
    | some state => (p.call id [.newHls]).setState id { state with hls := true }
  -- The browser plays the ladder itself, or the element is given the MP4.
  else p.startPlyr id world

/-- `mountPlayer`. -/
def mountPlayer (host : Host) (job : JobDocument) (world : PlayerWorld) : Players :=
  let p := p.unmountPlayer host
  match playbackSource job with
  | none => p
  | some source =>
      let id := p.nextState
      let mounted : Players :=
        { p with
          players := Function.update p.players host (some id)
          nextState := id + 1 }
      (mounted.setState id ⟨host, source.fallback, job.previewVttUrl, false, false⟩).attachHls id
        source world

/-- The players of a region. -/
def inlineHosts (region : Region) : List Host :=
  (p.inline.entries.filter (·.1.1 = region)).map fun entry => .inline entry.2

/-- The elements of the page that can hold a player. -/
def pageHosts : List Host :=
  [.player, .editPlayer, .editResultPlayer] ++ p.inline.entries.map fun entry => .inline entry.2

/-- The cards of a region are thrown away, with what is in them. -/
def removeCards (region : Region) : Players :=
  { p with inline := p.inline.filter fun card _ => card.1 ≠ region }

/-- `renderLibrary` and `renderAdmin`. -/
def render (region : Region) : Players :=
  (p.unmountPlayersIn (p.inlineHosts region)).removeCards region

/-- `toggleInlinePlayer`. -/
def toggleInlinePlayer (card : Region × ℕ) (job : JobDocument) (world : PlayerWorld) : Players :=
  match p.inline.lookup card with
  | some id =>
      let collapsed := p.unmountPlayer (.inline id)
      { collapsed with inline := collapsed.inline.erase card }
  | none =>
      { p with
        inline := p.inline.insert card p.nextInline
        nextInline := p.nextInline + 1 }.mountPlayer (.inline p.nextInline) job world

/-- `showUploadPlayer`. -/
def showUploadPlayer (job : JobDocument) (world : PlayerWorld) : Players :=
  if (playbackSource job).isNone then p
  else
    let key := (job.id, (truthyText job.hlsUrl).isSome)
    if p.uploadPlayerKey = some key then p
    else { p with uploadPlayerKey := some key }.mountPlayer .player job world

/-- `clearUploadPlayer`. -/
def clearUploadPlayer : Players := { p with uploadPlayerKey := none }.unmountPlayer .player

/-- `clearAdminData`: the table is emptied, whatever plays in it. -/
def clearAdminData : Players := p.removeCards .adminTbody

/-- `showSignedOut`. -/
def showSignedOut : Players := (p.unmountPlayersIn p.pageHosts).clearAdminData

/-- `closeEditor`. -/
def closeEditor : Players := (p.unmountPlayer .editPlayer).unmountPlayer .editResultPlayer

/-- `loadAdminUsers`, answered 403; `switchView` closes the editor. -/
def leaveAdmin : Players := p.clearAdminData.closeEditor

end Players

inductive PlayerAction
  | showUploadPlayer (job : JobDocument) (world : PlayerWorld)
  | clearUploadPlayer
  /-- `mountEditor`, with the video that is edited. -/
  | mountEditPlayer (source : JobDocument) (world : PlayerWorld)
  /-- `showEditResult`. -/
  | mountEditResult (job : JobDocument) (world : PlayerWorld)
  /-- The original of an edit is deleted, or another one is about to be loaded. -/
  | unmountEditPlayer
  | closeEditor
  | toggleInlinePlayer (card : Region × ℕ) (job : JobDocument) (world : PlayerWorld)
  | render (region : Region)
  | showSignedOut
  | leaveAdmin
  /-- `MANIFEST_PARSED`, of the hls.js that was made for a player. -/
  | manifestParsed (id : ℕ) (world : PlayerWorld)
  /-- `ERROR`, a fatal one. -/
  | fatalError (id : ℕ)
  /-- The timer of such an error. -/
  | rebuild (world : PlayerWorld)

/-- One task of the page. -/
def Players.step (p : Players) : PlayerAction → Option Players
  | .showUploadPlayer job world => some (p.showUploadPlayer job world)
  | .clearUploadPlayer => some p.clearUploadPlayer
  | .mountEditPlayer source world => some (p.mountPlayer .editPlayer source world)
  | .mountEditResult job world => some (p.mountPlayer .editResultPlayer job world)
  | .unmountEditPlayer => some (p.unmountPlayer .editPlayer)
  | .closeEditor => some p.closeEditor
  | .toggleInlinePlayer card job world => some (p.toggleInlinePlayer card job world)
  | .render region => some (p.render region)
  | .showSignedOut => some p.showSignedOut
  | .leaveAdmin => some p.leaveAdmin
  | .manifestParsed id world =>
      if .newHls ∈ p.calls id then some (p.startPlyr id world) else none
  | .fatalError id =>
      if .newHls ∈ p.calls id then
        match p.states id with
        | none => none
        | some state =>
            if (truthyText state.fallback).isNone then some p
            else some { p with rebuilds := p.rebuilds ++ [id] }
      else none
  | .rebuild world =>
      match p.rebuilds with
      | [] => none
      | id :: rest =>
          let p := { p with rebuilds := rest }
          match p.states id with
          | none => none
          | some state =>
              if p.players state.host ≠ some id then some p
              else some (p.mountPlayer state.host
                { outputUrl := state.fallback, previewVttUrl := state.previewVtt } world)

def playerSystem : StepSystem Players PlayerAction where
  init := (· = {})
  step := Players.step

/-- Nothing plays in the admin table when the accounts are refused. -/
def TableAtRest (p : Players) : PlayerAction → Prop
  | .leaveAdmin => ∀ host ∈ p.inlineHosts .adminTbody, p.players host = none
  | _ => True

instance (p : Players) (action : PlayerAction) : Decidable (TableAtRest p action) := by
  cases action <;> unfold TableAtRest <;> infer_instance

/-! ## What every run keeps -/

/-- The calls that have made what a player holds. -/
def madeCalls (hls plyr : Bool) : List LibraryCall :=
  (if hls then [.newHls] else []) ++ (if plyr then [.newPlyr] else [])

/-- The calls that destroy it. -/
def destroyCalls (hls plyr : Bool) : List LibraryCall :=
  (if hls then [.destroyHls] else []) ++ (if plyr then [.destroyPlyr] else [])

namespace Players

/-- What was made for a player is what it holds as long as it is mounted, and is destroyed, all of
it and once, when it is not. -/
def Accounted (p : Players) (id : ℕ) : Prop :=
  ∃ hls plyr, (∃ state, p.states id = some state ∧ p.players state.host = some id ∧
      state.hls = hls ∧ state.plyr = plyr ∧ p.calls id = madeCalls hls plyr) ∨
    (∀ host, p.players host ≠ some id) ∧ p.calls id = madeCalls hls plyr ++ destroyCalls hls plyr

/-- The invariant of one player. -/
structure Owned (p : Players) : Prop where
  mounted : ∀ host id, p.players host = some id →
    ∃ state, p.states id = some state ∧ state.host = host
  known : ∀ id state, p.states id = some state → id < p.nextState
  untouched : ∀ id, p.states id = none → p.calls id = []
  accounted : ∀ id, p.Accounted id

/-- What is mounted is in the page. -/
def InPage (p : Players) : Prop := ∀ host id, p.players host = some id → host ∈ p.pageHosts

/-- The elements in the cards, and how many were made. -/
def cards (p : Players) : Parties (Region × ℕ) ℕ × ℕ := (p.inline, p.nextInline)

/-- No two cards hold the same element. -/
structure Numbered (p : Players) : Prop where
  known : ∀ card inline, p.inline.lookup card = some inline → inline < p.nextInline
  card_eq : ∀ card other inline, p.inline.lookup card = some inline →
    p.inline.lookup other = some inline → card = other

variable {p : Players} {host : Host} {id : ℕ} {world : PlayerWorld}

/-! ### What a call leaves alone -/

theorem players_unmountPlayer (host : Host) :
    (p.unmountPlayer host).players = Function.update p.players host none := by
  unfold unmountPlayer
  split
  · rename_i hnone
    rw [← hnone, Function.update_eq_self]
  · split <;> rfl

theorem cards_unmountPlayer (host : Host) : (p.unmountPlayer host).cards = p.cards := by
  unfold unmountPlayer
  split
  · rfl
  · split <;> rfl

theorem players_startPlyr : (p.startPlyr id world).players = p.players := by
  unfold startPlyr
  split
  · rfl
  · split
    · rfl
    · split <;> rfl

theorem cards_startPlyr : (p.startPlyr id world).cards = p.cards := by
  unfold startPlyr
  split
  · rfl
  · split
    · rfl
    · split <;> rfl

theorem players_attachHls {source : PlaybackSource} :
    (p.attachHls id source world).players = p.players := by
  unfold attachHls
  split
  · split <;> rfl
  · exact players_startPlyr

theorem cards_attachHls {source : PlaybackSource} :
    (p.attachHls id source world).cards = p.cards := by
  unfold attachHls
  split
  · split <;> rfl
  · exact cards_startPlyr

theorem cards_mountPlayer {job : JobDocument} :
    (p.mountPlayer host job world).cards = p.cards := by
  unfold mountPlayer
  dsimp only
  split
  · exact cards_unmountPlayer host
  · exact cards_attachHls.trans (cards_unmountPlayer host)

theorem inline_congr {q : Players} (hcards : q.cards = p.cards) : q.inline = p.inline :=
  congrArg Prod.fst hcards

theorem pageHosts_congr {q : Players} (hcards : q.cards = p.cards) :
    q.pageHosts = p.pageHosts := by
  unfold pageHosts
  rw [inline_congr hcards]

/-- Where a player is mounted, nothing else changes. -/
theorem players_mountPlayer {job : JobDocument} {other : Host} (hne : other ≠ host) :
    (p.mountPlayer host job world).players other = p.players other := by
  unfold mountPlayer
  dsimp only
  split
  · rw [players_unmountPlayer, Function.update_of_ne hne]
  · rw [players_attachHls]
    refine (Function.update_of_ne hne ..).trans ?_
    rw [players_unmountPlayer, Function.update_of_ne hne]

/-! ### The libraries -/

theorem states_setState (state : Mounted) (other : ℕ) :
    (p.setState id state).states other = if other = id then some state else p.states other :=
  Function.update_apply ..

theorem calls_call (calls : List LibraryCall) (other : ℕ) :
    (p.call id calls).calls other =
      if other = id then p.calls id ++ calls else p.calls other :=
  Function.update_apply ..

theorem unmountPlayer_of_mounted {state : Mounted} (hmounted : p.players host = some id)
    (hstate : p.states id = some state) :
    p.unmountPlayer host =
      (({ p with players := Function.update p.players host none }.call id
        (destroyCalls state.hls state.plyr)).setState id
          { state with hls := false, plyr := false }) := by
  simp only [Players.unmountPlayer, hmounted, hstate, destroyCalls]

/-- The accounts of the other players, where one of them changes. -/
theorem Accounted.of_other {q : Players} {other : ℕ} (haccount : p.Accounted other)
    (hstates : q.states other = p.states other) (hcalls : q.calls other = p.calls other)
    (hplayers : ∀ host, q.players host = some other ↔ p.players host = some other) :
    q.Accounted other := by
  obtain ⟨hls, plyr, ⟨state, hstate, hmounted, hhls, hplyr, hmade⟩ | ⟨hgone, hmade⟩⟩ := haccount
  · exact ⟨hls, plyr, Or.inl ⟨state, hstates.trans hstate, (hplayers _).mpr hmounted, hhls, hplyr,
      hcalls.trans hmade⟩⟩
  · exact ⟨hls, plyr, Or.inr ⟨fun host => mt (hplayers host).mp (hgone host),
      hcalls.trans hmade⟩⟩

/-- What was made for a mounted player. -/
theorem Owned.calls_of_mounted (hp : p.Owned) {state : Mounted} (hstate : p.states id = some state)
    (hmounted : p.players state.host = some id) :
    p.calls id = madeCalls state.hls state.plyr := by
  obtain ⟨hls, plyr, ⟨known, hknown, -, rfl, rfl, hcalls⟩ | ⟨hgone, -⟩⟩ := hp.accounted id
  · obtain rfl := Option.some.inj (hstate.symm.trans hknown)
    exact hcalls
  · exact absurd hmounted (hgone _)

/-- A player is mounted in one place. -/
theorem Owned.host_eq (hp : p.Owned) {other : Host} (hmounted : p.players host = some id)
    (hother : p.players other = some id) : host = other := by
  obtain ⟨state, hstate, rfl⟩ := hp.mounted _ _ hmounted
  obtain ⟨known, hknown, rfl⟩ := hp.mounted _ _ hother
  obtain rfl := Option.some.inj (hstate.symm.trans hknown)
  rfl

theorem Owned.unmountPlayer (hp : p.Owned) (host : Host) : (p.unmountPlayer host).Owned := by
  cases hmounted : p.players host with
  | none =>
      simp only [Players.unmountPlayer, hmounted]
      exact hp
  | some id =>
      obtain ⟨state, hstate, rfl⟩ := hp.mounted _ _ hmounted
      rw [unmountPlayer_of_mounted hmounted hstate]
      have hplayers : ∀ other value,
          Function.update p.players state.host none other = some value →
            other ≠ state.host ∧ p.players other = some value := by
        intro other value hsome
        by_cases hother : other = state.host
        · subst hother
          rw [Function.update_self] at hsome
          exact absurd hsome (by simp)
        · exact ⟨hother, by rwa [Function.update_of_ne hother] at hsome⟩
      refine ⟨fun other value hsome => ?_, fun other value hsome => ?_, fun other hnone => ?_,
        fun other => ?_⟩
      · obtain ⟨hother, hold⟩ := hplayers other value hsome
        obtain ⟨known, hknown, hhost⟩ := hp.mounted _ _ hold
        have hvalue : value ≠ id := by
          rintro rfl
          exact hother (hp.host_eq hold hmounted)
        exact ⟨known, by rw [states_setState, if_neg hvalue]; exact hknown, hhost⟩
      · rw [states_setState] at hsome
        split at hsome
        · rename_i hid
          rw [hid]
          exact hp.known _ _ hstate
        · exact hp.known _ _ hsome
      · rw [states_setState] at hnone
        split at hnone
        · exact absurd hnone (by simp)
        · rename_i hid
          exact ((calls_call _ other).trans (if_neg hid)).trans (hp.untouched _ hnone)
      · by_cases hid : other = id
        · subst hid
          refine ⟨state.hls, state.plyr, Or.inr ⟨fun place hsome => ?_, ?_⟩⟩
          · obtain ⟨hplace, hold⟩ := hplayers place other hsome
            exact hplace (hp.host_eq hold hmounted)
          · refine ((calls_call _ other).trans (if_pos rfl)).trans ?_
            exact congrArg (· ++ destroyCalls state.hls state.plyr)
              (hp.calls_of_mounted hstate hmounted)
        · refine (hp.accounted other).of_other ((states_setState _ other).trans (if_neg hid))
            ((calls_call _ other).trans (if_neg hid)) fun place => ?_
          refine ⟨fun hsome => (hplayers place other hsome).2, fun hold => ?_⟩
          refine (Function.update_of_ne ?_ ..).trans hold
          rintro rfl
          exact hid (Option.some.inj (hold.symm.trans hmounted))

/-- A library is made for a mounted player. -/
theorem Owned.make (hp : p.Owned) {state next : Mounted} {made : List LibraryCall}
    (hstate : p.states id = some state) (hmounted : p.players state.host = some id)
    (hhost : next.host = state.host)
    (hmade : madeCalls state.hls state.plyr ++ made = madeCalls next.hls next.plyr) :
    ((p.call id made).setState id next).Owned := by
  refine ⟨fun host other hsome => ?_, fun other value hsome => ?_, fun other hnone => ?_,
    fun other => ?_⟩
  · obtain ⟨known, hknown, rfl⟩ := hp.mounted _ _ hsome
    by_cases hid : other = id
    · subst hid
      obtain rfl := Option.some.inj (hstate.symm.trans hknown)
      exact ⟨next, (states_setState ..).trans (if_pos rfl), hhost⟩
    · exact ⟨known, ((states_setState ..).trans (if_neg hid)).trans hknown, rfl⟩
  · rw [states_setState] at hsome
    split at hsome
    · rename_i hid
      rw [hid]
      exact hp.known _ _ hstate
    · exact hp.known _ _ hsome
  · rw [states_setState] at hnone
    split at hnone
    · exact absurd hnone (by simp)
    · rename_i hid
      exact ((calls_call ..).trans (if_neg hid)).trans (hp.untouched _ hnone)
  · by_cases hid : other = id
    · subst hid
      refine ⟨next.hls, next.plyr, Or.inl ⟨next, (states_setState ..).trans (if_pos rfl), ?_, rfl,
        rfl, ?_⟩⟩
      · rw [hhost]
        exact hmounted
      · refine ((calls_call ..).trans (if_pos rfl)).trans ?_
        rw [hp.calls_of_mounted hstate hmounted]
        exact hmade
    · exact (hp.accounted other).of_other ((states_setState ..).trans (if_neg hid))
        ((calls_call ..).trans (if_neg hid)) fun _ => Iff.rfl

theorem Owned.startPlyr (hp : p.Owned) (id : ℕ) (world : PlayerWorld) :
    (p.startPlyr id world).Owned := by
  unfold Players.startPlyr
  split
  · exact hp
  · rename_i state hstate
    split
    · exact hp
    · rename_i hneeded
      split
      · exact hp
      · rename_i hmounted
        have hnone : state.plyr = false := by
          simp only [Bool.or_eq_true, Bool.not_eq_true', not_or, Bool.not_eq_true] at hneeded
          exact hneeded.2
        refine hp.make hstate (not_not.mp hmounted) rfl ?_
        simp [madeCalls, hnone]

/-- A new player in an element that has none. -/
theorem Owned.mount (hp : p.Owned) (state : Mounted) (hempty : p.players state.host = none)
    (hhls : state.hls = false) (hplyr : state.plyr = false) :
    ({ p with
        players := Function.update p.players state.host (some p.nextState)
        nextState := p.nextState + 1 }.setState p.nextState state).Owned := by
  have hfresh : p.states p.nextState = none :=
    Option.eq_none_iff_forall_ne_some.mpr fun known hknown =>
      Nat.lt_irrefl _ (hp.known _ _ hknown)
  have hnowhere : ∀ host, p.players host ≠ some p.nextState := by
    intro host hsome
    obtain ⟨known, hknown, -⟩ := hp.mounted _ _ hsome
    exact absurd (hfresh.symm.trans hknown) (by simp)
  have hplayers : ∀ host other,
      Function.update p.players state.host (some p.nextState) host = some other →
        (host = state.host ∧ other = p.nextState) ∨ p.players host = some other := by
    intro host other hsome
    by_cases hhost : host = state.host
    · subst hhost
      rw [Function.update_self] at hsome
      exact Or.inl ⟨rfl, (Option.some.inj hsome).symm⟩
    · rw [Function.update_of_ne hhost] at hsome
      exact Or.inr hsome
  refine ⟨fun host other hsome => ?_, fun other value hsome => ?_, fun other hnone => ?_,
    fun other => ?_⟩
  · rcases hplayers host other hsome with ⟨rfl, rfl⟩ | hold
    · exact ⟨state, (states_setState ..).trans (if_pos rfl), rfl⟩
    · obtain ⟨known, hknown, hhost⟩ := hp.mounted _ _ hold
      refine ⟨known, ((states_setState ..).trans (if_neg ?_)).trans hknown, hhost⟩
      rintro rfl
      exact hnowhere host hold
  · rw [states_setState] at hsome
    split at hsome
    · rename_i hid
      rw [hid]
      exact Nat.lt_succ_self _
    · exact Nat.lt_succ_of_lt (hp.known _ _ hsome)
  · rw [states_setState] at hnone
    split at hnone
    · exact absurd hnone (by simp)
    · exact hp.untouched _ hnone
  · by_cases hid : other = p.nextState
    · subst hid
      refine ⟨false, false, Or.inl ⟨state, (states_setState ..).trans (if_pos rfl),
        Function.update_self .., hhls, hplyr, hp.untouched _ hfresh⟩⟩
    · refine (hp.accounted other).of_other ((states_setState ..).trans (if_neg hid)) rfl
        fun host => ⟨fun hsome => ?_, fun hold => ?_⟩
      · exact (hplayers host other hsome).resolve_left fun hnew => hid hnew.2
      · refine (Function.update_of_ne ?_ ..).trans hold
        rintro rfl
        exact absurd (hempty.symm.trans hold) (by simp)

theorem Owned.attachHls (hp : p.Owned) {state : Mounted} (hstate : p.states id = some state)
    (hmounted : p.players state.host = some id) (hhls : state.hls = false)
    (hplyr : state.plyr = false) (source : PlaybackSource) (world : PlayerWorld) :
    (p.attachHls id source world).Owned := by
  unfold Players.attachHls
  split
  · simp only [hstate]
    refine hp.make hstate hmounted rfl ?_
    simp [madeCalls, hhls, hplyr]
  · exact hp.startPlyr id world

theorem Owned.mountPlayer (hp : p.Owned) (host : Host) (job : JobDocument) (world : PlayerWorld) :
    (p.mountPlayer host job world).Owned := by
  unfold Players.mountPlayer
  dsimp only
  split
  · exact hp.unmountPlayer host
  · rename_i source _
    have hempty : (p.unmountPlayer host).players host = none := by
      rw [players_unmountPlayer, Function.update_self]
    have hmount := (hp.unmountPlayer host).mount
      ⟨host, source.fallback, job.previewVttUrl, false, false⟩ hempty rfl rfl
    exact hmount.attachHls ((states_setState ..).trans (if_pos rfl)) (Function.update_self ..)
      rfl rfl source world

/-! ### The page -/

theorem pageHosts_fixed (hhost : host = .player ∨ host = .editPlayer ∨ host = .editResultPlayer) :
    host ∈ p.pageHosts := by
  unfold pageHosts
  rcases hhost with rfl | rfl | rfl <;> simp

theorem inline_mem_pageHosts {inline : ℕ} :
    Host.inline inline ∈ p.pageHosts ↔ ∃ card, p.inline.lookup card = some inline := by
  simp only [pageHosts, List.mem_append, List.mem_cons, List.not_mem_nil, List.mem_map,
    reduceCtorEq, or_self, false_or, Host.inline.injEq]
  constructor
  · rintro ⟨⟨card, other⟩, hentry, rfl⟩
    exact ⟨card, AList.mem_lookup_iff.mpr hentry⟩
  · rintro ⟨card, hcard⟩
    exact ⟨⟨card, inline⟩, AList.mem_lookup_iff.mp hcard, rfl⟩

/-- The elements of a page stay in it as long as their cards do. -/
theorem mem_pageHosts_of {q : Players} (hhost : host ∈ p.pageHosts)
    (hinline : ∀ card inline, host = .inline inline → p.inline.lookup card = some inline →
      ∃ other, q.inline.lookup other = some inline) : host ∈ q.pageHosts := by
  cases host with
  | player => exact pageHosts_fixed (Or.inl rfl)
  | editPlayer => exact pageHosts_fixed (Or.inr (Or.inl rfl))
  | editResultPlayer => exact pageHosts_fixed (Or.inr (Or.inr rfl))
  | inline inline =>
      obtain ⟨card, hcard⟩ := inline_mem_pageHosts.mp hhost
      exact inline_mem_pageHosts.mpr (hinline card inline rfl hcard)

theorem inline_mem_inlineHosts {region : Region} {card : Region × ℕ} {inline : ℕ}
    (hcard : p.inline.lookup card = some inline) (hregion : card.1 = region) :
    Host.inline inline ∈ p.inlineHosts region := by
  refine List.mem_map.mpr ⟨⟨card, inline⟩, List.mem_filter.mpr ⟨AList.mem_lookup_iff.mp hcard, ?_⟩,
    rfl⟩
  exact decide_eq_true hregion

theorem InPage.unmountPlayer (hp : p.InPage) (host : Host) : (p.unmountPlayer host).InPage := by
  intro other id hsome
  rw [players_unmountPlayer] at hsome
  rw [pageHosts_congr (cards_unmountPlayer host)]
  by_cases hother : other = host
  · subst hother
    rw [Function.update_self] at hsome
    exact absurd hsome (by simp)
  · rw [Function.update_of_ne hother] at hsome
    exact hp other id hsome

theorem InPage.mountPlayer (hp : p.InPage) (hhost : host ∈ p.pageHosts) (job : JobDocument)
    (world : PlayerWorld) : (p.mountPlayer host job world).InPage := by
  intro other id hsome
  rw [pageHosts_congr cards_mountPlayer]
  by_cases hother : other = host
  · subst hother
    exact hhost
  · rw [players_mountPlayer hother] at hsome
    exact hp other id hsome

theorem players_unmountPlayersIn (hosts : List Host) (host : Host) :
    (p.unmountPlayersIn hosts).players host = if host ∈ hosts then none else p.players host := by
  induction hosts generalizing p with
  | nil => rfl
  | cons first rest ih =>
      rw [unmountPlayersIn, List.foldl_cons]
      refine (ih (p := p.unmountPlayer first)).trans ?_
      rw [players_unmountPlayer, Function.update_apply]
      by_cases hrest : host ∈ rest <;> by_cases hfirst : host = first <;> simp [hrest, hfirst]

theorem cards_unmountPlayersIn (hosts : List Host) :
    (p.unmountPlayersIn hosts).cards = p.cards := by
  induction hosts generalizing p with
  | nil => rfl
  | cons first rest ih =>
      rw [unmountPlayersIn, List.foldl_cons]
      exact (ih (p := p.unmountPlayer first)).trans (cards_unmountPlayer first)

theorem Owned.unmountPlayersIn (hp : p.Owned) (hosts : List Host) :
    (p.unmountPlayersIn hosts).Owned := by
  induction hosts generalizing p with
  | nil => exact hp
  | cons first rest ih => exact ih (hp.unmountPlayer first)

theorem InPage.unmountPlayersIn (hp : p.InPage) (hosts : List Host) :
    (p.unmountPlayersIn hosts).InPage := by
  induction hosts generalizing p with
  | nil => exact hp
  | cons first rest ih => exact ih (hp.unmountPlayer first)

theorem Owned.removeCards (hp : p.Owned) (region : Region) : (p.removeCards region).Owned :=
  ⟨hp.mounted, hp.known, hp.untouched, hp.accounted⟩

/-- Cards go that hold no player. -/
theorem InPage.removeCards (hp : p.InPage) {region : Region}
    (hempty : ∀ card inline, p.inline.lookup card = some inline → card.1 = region →
      p.players (.inline inline) = none) : (p.removeCards region).InPage := by
  intro host id hsome
  refine mem_pageHosts_of (hp host id hsome) fun card inline hinline hcard => ⟨card, ?_⟩
  subst hinline
  refine (Parties.lookup_filter ..).trans ?_
  rw [hcard, Option.filter_some, if_pos]
  refine decide_eq_true fun hregion => ?_
  exact absurd ((hempty card inline hcard hregion).symm.trans hsome) (by simp)

theorem Numbered.congr {q : Players} (hp : p.Numbered) (hcards : q.cards = p.cards) :
    q.Numbered := by
  obtain ⟨hinline, hnext⟩ := Prod.mk.inj hcards
  constructor
  · rw [hinline, hnext]
    exact hp.known
  · rw [hinline]
    exact hp.card_eq

theorem Numbered.removeCards (hp : p.Numbered) (region : Region) :
    (p.removeCards region).Numbered := by
  have hold {card : Region × ℕ} {inline : ℕ}
      (hcard : (p.removeCards region).inline.lookup card = some inline) :
      p.inline.lookup card = some inline :=
    (Option.filter_eq_some_iff.mp ((Parties.lookup_filter ..).symm.trans hcard)).1
  exact ⟨fun card inline hcard => hp.known card inline (hold hcard),
    fun card other inline hcard hother => hp.card_eq card other inline (hold hcard) (hold hother)⟩

theorem Numbered.mountPlayer (hp : p.Numbered) (host : Host) (job : JobDocument)
    (world : PlayerWorld) : (p.mountPlayer host job world).Numbered :=
  hp.congr cards_mountPlayer

theorem Numbered.unmountPlayer (hp : p.Numbered) (host : Host) : (p.unmountPlayer host).Numbered :=
  hp.congr (cards_unmountPlayer host)

/-! ### The tasks -/

/-- A change of what the libraries are not told of. -/
theorem Owned.congr {q : Players} (hp : p.Owned) (hplayers : q.players = p.players)
    (hstates : q.states = p.states) (hnext : q.nextState = p.nextState)
    (hcalls : q.calls = p.calls) : q.Owned := by
  refine ⟨?_, ?_, ?_, fun id => (hp.accounted id).of_other ?_ ?_ fun host => ?_⟩
  · rw [hplayers, hstates]
    exact hp.mounted
  · rw [hstates, hnext]
    exact hp.known
  · rw [hstates, hcalls]
    exact hp.untouched
  · rw [hstates]
  · rw [hcalls]
  · rw [hplayers]

theorem InPage.congr {q : Players} (hp : p.InPage) (hplayers : q.players = p.players)
    (hcards : q.cards = p.cards) : q.InPage := by
  intro host id hsome
  rw [hplayers] at hsome
  rw [pageHosts_congr hcards]
  exact hp host id hsome

theorem InPage.render (hp : p.InPage) (region : Region) : (p.render region).InPage := by
  refine (hp.unmountPlayersIn _).removeCards fun card inline hcard hregion => ?_
  rw [inline_congr (cards_unmountPlayersIn _)] at hcard
  rw [players_unmountPlayersIn, if_pos (inline_mem_inlineHosts hcard hregion)]

/-- Signing out takes down what is in the page. -/
theorem players_showSignedOut (host : Host) :
    p.showSignedOut.players host = if host ∈ p.pageHosts then none else p.players host :=
  players_unmountPlayersIn p.pageHosts host

theorem InPage.players_showSignedOut (hp : p.InPage) (host : Host) :
    p.showSignedOut.players host = none := by
  rw [Players.players_showSignedOut]
  by_cases hhost : host ∈ p.pageHosts
  · exact if_pos hhost
  · rw [if_neg hhost]
    exact Option.eq_none_iff_forall_ne_some.mpr fun id hsome => hhost (hp host id hsome)

/-- The card of an element goes with it. -/
theorem InPage.collapse (hp : p.InPage) {card : Region × ℕ} {inline : ℕ}
    (hcard : p.inline.lookup card = some inline) :
    InPage { p.unmountPlayer (.inline inline) with
      inline := (p.unmountPlayer (.inline inline)).inline.erase card } := by
  intro host id hsome
  refine mem_pageHosts_of (hp.unmountPlayer (.inline inline) host id hsome)
    fun otherCard other hinline hother =>
      ⟨otherCard, Parties.lookup_erase_eq_some.mpr ⟨?_, hother⟩⟩
  rintro rfl
  subst hinline
  rw [inline_congr (cards_unmountPlayer _), hcard] at hother
  obtain rfl := Option.some.inj hother
  have hgone : (p.unmountPlayer (.inline inline)).players (.inline inline) = none := by
    rw [players_unmountPlayer, Function.update_self]
  exact absurd (hgone.symm.trans hsome) (by simp)

/-- A new element in a card that has none. -/
theorem InPage.expand (hp : p.InPage) {card : Region × ℕ} (hnone : p.inline.lookup card = none) :
    InPage { p with
      inline := p.inline.insert card p.nextInline
      nextInline := p.nextInline + 1 } := by
  intro host id hsome
  refine mem_pageHosts_of (hp host id hsome) fun otherCard other _ hother =>
    ⟨otherCard, (AList.lookup_insert_ne ?_).trans hother⟩
  rintro rfl
  exact absurd (hnone.symm.trans hother) (by simp)

theorem InPage.toggleInlinePlayer (hp : p.InPage) (card : Region × ℕ) (job : JobDocument)
    (world : PlayerWorld) : (p.toggleInlinePlayer card job world).InPage := by
  unfold Players.toggleInlinePlayer
  split
  · rename_i inline hcard
    exact hp.collapse hcard
  · rename_i hnone
    exact (hp.expand hnone).mountPlayer
      (inline_mem_pageHosts.mpr ⟨card, AList.lookup_insert ..⟩) job world

theorem Owned.toggleInlinePlayer (hp : p.Owned) (card : Region × ℕ) (job : JobDocument)
    (world : PlayerWorld) : (p.toggleInlinePlayer card job world).Owned := by
  unfold Players.toggleInlinePlayer
  split
  · exact (hp.unmountPlayer _).congr rfl rfl rfl rfl
  · have hexpanded : Owned { p with
        inline := p.inline.insert card p.nextInline
        nextInline := p.nextInline + 1 } := hp.congr rfl rfl rfl rfl
    exact hexpanded.mountPlayer _ job world

theorem Numbered.toggleInlinePlayer (hp : p.Numbered) (card : Region × ℕ) (job : JobDocument)
    (world : PlayerWorld) : (p.toggleInlinePlayer card job world).Numbered := by
  unfold Players.toggleInlinePlayer
  split
  · rename_i element _
    have hrest := hp.unmountPlayer (.inline element)
    have hold {card other : Region × ℕ} {inline : ℕ} {cards : Parties (Region × ℕ) ℕ}
        (hcard : (cards.erase card).lookup other = some inline) :
        cards.lookup other = some inline := (Parties.lookup_erase_eq_some.mp hcard).2
    exact ⟨fun other inline hother => hrest.known other inline (hold hother),
      fun first second inline hfirst hsecond =>
        hrest.card_eq first second inline (hold hfirst) (hold hsecond)⟩
  · refine Numbered.mountPlayer ⟨fun other inline hother => ?_,
      fun first second inline hfirst hsecond => ?_⟩ _ job world
    · by_cases hsame : other = card
      · subst hsame
        rw [AList.lookup_insert] at hother
        obtain rfl := Option.some.inj hother
        exact Nat.lt_succ_self _
      · rw [AList.lookup_insert_ne hsame] at hother
        exact Nat.lt_succ_of_lt (hp.known other inline hother)
    · have hnew {other : Region × ℕ} (hne : other ≠ card)
          (hother : (p.inline.insert card p.nextInline).lookup other = some inline) :
          p.inline.lookup other = some inline ∧ inline < p.nextInline := by
        rw [AList.lookup_insert_ne hne] at hother
        exact ⟨hother, hp.known other inline hother⟩
      by_cases hone : first = card <;> by_cases htwo : second = card
      · rw [hone, htwo]
      · obtain ⟨-, hlt⟩ := hnew htwo hsecond
        rw [hone, AList.lookup_insert] at hfirst
        exact absurd (Option.some.inj hfirst) (Nat.ne_of_gt hlt)
      · obtain ⟨-, hlt⟩ := hnew hone hfirst
        rw [htwo, AList.lookup_insert] at hsecond
        exact absurd (Option.some.inj hsecond) (Nat.ne_of_gt hlt)
      · exact hp.card_eq first second inline (hnew hone hfirst).1 (hnew htwo hsecond).1

theorem InPage.leaveAdmin (hp : p.InPage)
    (hrest : ∀ host ∈ p.inlineHosts .adminTbody, p.players host = none) : p.leaveAdmin.InPage := by
  have hcleared : p.clearAdminData.InPage := hp.removeCards fun card inline hcard hregion =>
    hrest _ (inline_mem_inlineHosts hcard hregion)
  exact (hcleared.unmountPlayer .editPlayer).unmountPlayer .editResultPlayer

/-- A player of the admin table that is not taken down is left behind. -/
theorem Numbered.leaveAdmin_leaves (hp : p.Numbered) (hhost : host ∈ p.inlineHosts .adminTbody)
    (hmounted : p.players host = some id) :
    p.leaveAdmin.players host = some id ∧ host ∉ p.leaveAdmin.pageHosts := by
  obtain ⟨⟨card, inline⟩, hentry, rfl⟩ := List.mem_map.mp hhost
  obtain ⟨hentry, hregion⟩ := List.mem_filter.mp hentry
  have hcard := AList.mem_lookup_iff.mpr hentry
  have hcards : p.leaveAdmin.cards = p.clearAdminData.cards :=
    (cards_unmountPlayer _).trans (cards_unmountPlayer _)
  constructor
  · show ((p.clearAdminData.unmountPlayer .editPlayer).unmountPlayer .editResultPlayer).players _ =
      some id
    rw [players_unmountPlayer, players_unmountPlayer]
    exact hmounted
  · rw [pageHosts_congr hcards, inline_mem_pageHosts]
    rintro ⟨other, hother⟩
    obtain ⟨hother, hkept⟩ := Option.filter_eq_some_iff.mp
      ((Parties.lookup_filter ..).symm.trans hother)
    obtain rfl := hp.card_eq _ _ _ hcard hother
    exact of_decide_eq_true hkept (of_decide_eq_true hregion)

/-! ### The steps -/

/-- What every task keeps, but for the one that empties the admin table. -/
structure KeptByTasks (kept : Players → Prop) : Prop where
  unmount : ∀ p host, kept p → kept (p.unmountPlayer host)
  mount : ∀ p host job world, kept p → (host ∈ p.pageHosts ∨ ∃ id, p.players host = some id) →
    kept (p.mountPlayer host job world)
  start : ∀ p id world, kept p → kept (p.startPlyr id world)
  note : ∀ p uploadPlayerKey rebuilds, kept p → kept { p with uploadPlayerKey, rebuilds }
  toggle : ∀ p card job world, kept p → kept (p.toggleInlinePlayer card job world)
  render : ∀ p region, kept p → kept (p.render region)
  signOut : ∀ p, kept p → kept p.showSignedOut

theorem KeptByTasks.step {kept : Players → Prop} (hkept : KeptByTasks kept) (hp : kept p)
    {action : PlayerAction} (hleave : action = .leaveAdmin → kept p.leaveAdmin) {q : Players}
    (hstep : p.step action = some q) : kept q := by
  cases action with
  | showUploadPlayer job world =>
      obtain rfl := Option.some.inj hstep
      unfold Players.showUploadPlayer
      split
      · exact hp
      · dsimp only
        split
        · exact hp
        · exact hkept.mount _ .player job world (hkept.note p _ p.rebuilds hp)
            (Or.inl (pageHosts_fixed (Or.inl rfl)))
  | clearUploadPlayer =>
      obtain rfl := Option.some.inj hstep
      exact hkept.unmount _ .player (hkept.note p none p.rebuilds hp)
  | mountEditPlayer source world =>
      obtain rfl := Option.some.inj hstep
      exact hkept.mount p _ source world hp (Or.inl (pageHosts_fixed (Or.inr (Or.inl rfl))))
  | mountEditResult job world =>
      obtain rfl := Option.some.inj hstep
      exact hkept.mount p _ job world hp (Or.inl (pageHosts_fixed (Or.inr (Or.inr rfl))))
  | unmountEditPlayer =>
      obtain rfl := Option.some.inj hstep
      exact hkept.unmount p _ hp
  | closeEditor =>
      obtain rfl := Option.some.inj hstep
      exact hkept.unmount _ _ (hkept.unmount p _ hp)
  | toggleInlinePlayer card job world =>
      obtain rfl := Option.some.inj hstep
      exact hkept.toggle p card job world hp
  | render region =>
      obtain rfl := Option.some.inj hstep
      exact hkept.render p region hp
  | showSignedOut =>
      obtain rfl := Option.some.inj hstep
      exact hkept.signOut p hp
  | leaveAdmin =>
      obtain rfl := Option.some.inj hstep
      exact hleave rfl
  | manifestParsed id world =>
      rw [Players.step] at hstep
      split at hstep
      · obtain rfl := Option.some.inj hstep
        exact hkept.start p id world hp
      · exact absurd hstep (by simp)
  | fatalError id =>
      rw [Players.step] at hstep
      split at hstep
      · split at hstep
        · exact absurd hstep (by simp)
        · split at hstep
          · obtain rfl := Option.some.inj hstep
            exact hp
          · obtain rfl := Option.some.inj hstep
            exact hkept.note p p.uploadPlayerKey _ hp
      · exact absurd hstep (by simp)
  | rebuild world =>
      rw [Players.step] at hstep
      split at hstep
      · exact absurd hstep (by simp)
      · rename_i id rest _
        have hrest := hkept.note p p.uploadPlayerKey rest hp
        dsimp only at hstep
        split at hstep
        · exact absurd hstep (by simp)
        · split at hstep
          · obtain rfl := Option.some.inj hstep
            exact hrest
          · -- The player to be rebuilt is the one that is mounted there.
            rename_i hmounted
            obtain rfl := Option.some.inj hstep
            exact hkept.mount _ _ _ world hrest (Or.inr ⟨id, not_not.mp hmounted⟩)

theorem owned_keptByTasks : KeptByTasks Owned where
  unmount _ host hp := hp.unmountPlayer host
  mount _ host job world hp _ := hp.mountPlayer host job world
  start _ id world hp := hp.startPlyr id world
  note _ _ _ hp := hp.congr rfl rfl rfl rfl
  toggle _ card job world hp := hp.toggleInlinePlayer card job world
  render p region hp := (hp.unmountPlayersIn (p.inlineHosts region)).removeCards region
  signOut p hp := (hp.unmountPlayersIn p.pageHosts).removeCards .adminTbody

theorem numbered_keptByTasks : KeptByTasks Numbered where
  unmount _ host hp := hp.unmountPlayer host
  mount _ host job world hp _ := hp.mountPlayer host job world
  start _ _ _ hp := hp.congr cards_startPlyr
  note _ _ _ hp := hp.congr rfl
  toggle _ card job world hp := hp.toggleInlinePlayer card job world
  render _ region hp := (hp.congr (cards_unmountPlayersIn _)).removeCards region
  signOut _ hp := (hp.congr (cards_unmountPlayersIn _)).removeCards .adminTbody

theorem inPage_keptByTasks : KeptByTasks InPage where
  unmount _ host hp := hp.unmountPlayer host
  mount _ host job world hp hhost :=
    hp.mountPlayer (hhost.elim id fun ⟨id, hmounted⟩ => hp host id hmounted) job world
  start _ _ _ hp := hp.congr players_startPlyr cards_startPlyr
  note _ _ _ hp := hp.congr rfl rfl
  toggle _ card job world hp := hp.toggleInlinePlayer card job world
  render _ region hp := hp.render region
  signOut p hp := fun host _ hsome =>
    absurd ((hp.players_showSignedOut host).symm.trans hsome) (by simp)

theorem Owned.leaveAdmin (hp : p.Owned) : p.leaveAdmin.Owned :=
  ((hp.removeCards .adminTbody).unmountPlayer .editPlayer).unmountPlayer .editResultPlayer

theorem Numbered.leaveAdmin (hp : p.Numbered) : p.leaveAdmin.Numbered :=
  ((hp.removeCards .adminTbody).unmountPlayer .editPlayer).unmountPlayer .editResultPlayer

theorem owned_of_reachable (hs : playerSystem.Reachable p) : p.Owned := by
  refine hs.invariant Owned ?_ fun _ _ _ _ hp _ hstep =>
    owned_keptByTasks.step hp (fun _ => hp.leaveAdmin) hstep
  rintro _ rfl
  exact ⟨fun _ _ h => absurd h (by simp), fun _ _ h => absurd h (by simp), fun _ _ => rfl,
    fun _ => ⟨false, false, Or.inr ⟨fun _ => by simp, rfl⟩⟩⟩

theorem numbered_of_reachable (hs : playerSystem.Reachable p) : p.Numbered := by
  refine hs.invariant Numbered ?_ fun _ _ _ _ hp _ hstep =>
    numbered_keptByTasks.step hp (fun _ => hp.leaveAdmin) hstep
  rintro _ rfl
  exact ⟨fun _ _ h => absurd h (by simp), fun _ _ _ h => absurd h (by simp)⟩

theorem inPage_of_reachableUnder (hs : playerSystem.ReachableUnder TableAtRest p) : p.InPage := by
  refine hs.invariant InPage ?_ fun p action _ _ hp hrest hstep =>
    inPage_keptByTasks.step hp (fun hleave => ?_) hstep
  · rintro _ rfl _ _ h
    exact absurd h (by simp)
  · subst hleave
    exact hp.leaveAdmin hrest

end Players

/-- Whatever the reader opens, closes and lists again, whenever hls.js has read a manifest or gives
up: what was made for a player is what it holds while it is mounted, and hls.js and then Plyr are
destroyed, once each, when it is not.  As long as nothing plays in the admin table whenever the
accounts are refused, what is mounted is in the page, and one who signs out leaves nothing behind
that plays; a player that is open there then stays mounted outside the page, also after that. -/
theorem players_owned :
    (∀ p, playerSystem.Reachable p → ∀ id, p.Accounted id) ∧
    (∀ p, playerSystem.ReachableUnder TableAtRest p →
      p.InPage ∧ ∀ host, p.showSignedOut.players host = none) ∧
    ∀ p action q, playerSystem.Reachable p → ¬TableAtRest p action → p.step action = some q →
      ∃ host id, q.players host = some id ∧ host ∉ q.pageHosts ∧
        q.showSignedOut.players host = some id := by
  refine ⟨fun p hs => (Players.owned_of_reachable hs).accounted, fun p hs => ?_,
    fun p action q hs hplays hstep => ?_⟩
  · have hpage := Players.inPage_of_reachableUnder hs
    exact ⟨hpage, hpage.players_showSignedOut⟩
  · cases action with
    | leaveAdmin =>
        obtain rfl := Option.some.inj hstep
        simp only [TableAtRest, not_forall] at hplays
        obtain ⟨host, hhost, hsome⟩ := hplays
        obtain ⟨id, hmounted⟩ := Option.ne_none_iff_exists'.mp hsome
        obtain ⟨hkept, hgone⟩ :=
          (Players.numbered_of_reachable hs).leaveAdmin_leaves hhost hmounted
        exact ⟨host, id, hkept, hgone, by rw [Players.players_showSignedOut, if_neg hgone, hkept]⟩
    | _ => exact absurd trivial hplays

/-- A browser with both libraries. -/
def bothLoaded : PlayerWorld := ⟨true, true⟩

/-- A ladder plays on the upload card, and then its MP4, because hls.js has given up; and an
operator who watches a video in the admin table is one no longer when the next accounts are asked
for. -/
theorem players_owned_rebuilt :
    (∃ p : Players, p.players .player = some 1 ∧
      p.calls 0 = [.newHls, .newPlyr, .destroyHls, .destroyPlyr] ∧ p.calls 1 = [.newPlyr] ∧
        p.Accounted 1 ∧ p.InPage ∧ p.showSignedOut.players .player = none) ∧
    ∃ p : Players, ∃ host id, p.leaveAdmin.players host = some id ∧
      host ∉ p.leaveAdmin.pageHosts ∧ p.leaveAdmin.showSignedOut.players host = some id := by
  have hinit : playerSystem.ReachableUnder TableAtRest {} := .init rfl
  constructor
  · obtain ⟨p, hp, hstate⟩ := hinit.exists_of_runUnder
      [.showUploadPlayer { hlsUrl := some "/api/hls/7/master.m3u8", outputUrl := some "/7.mp4" }
        bothLoaded, .manifestParsed 0 bothLoaded, .fatalError 0, .rebuild bothLoaded, .leaveAdmin]
      (fun p => p.players .player == some 1 &&
        p.calls 0 == [.newHls, .newPlyr, .destroyHls, .destroyPlyr] && p.calls 1 == [.newPlyr])
      (by decide +kernel)
    simp only [Bool.and_eq_true, beq_iff_eq] at hstate
    obtain ⟨⟨hmounted, hfirst⟩, hsecond⟩ := hstate
    obtain ⟨hpage, hsignedOut⟩ := players_owned.2.1 p hp
    exact ⟨p, hmounted, hfirst, hsecond, players_owned.1 p hp.reachable 1, hpage,
      hsignedOut .player⟩
  · obtain ⟨p, hp, hstate⟩ := hinit.reachable.exists_of_run
      [.toggleInlinePlayer (.adminTbody, 0) { outputUrl := some "/7.mp4" } bothLoaded]
      (fun p => !decide (TableAtRest p .leaveAdmin)) (by decide +kernel)
    have hplays : ¬TableAtRest p .leaveAdmin := by simpa using hstate
    exact ⟨p, players_owned.2.2 p .leaveAdmin _ hp hplays rfl⟩

end Frontend
end MediaPlayer
