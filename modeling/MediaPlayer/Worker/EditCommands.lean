import MediaPlayer.Services.EditChecks
import MediaPlayer.Worker.EditFilters

/-!
# The check of an edit and its command

`check_edit_operations` and `filter_chain` each sort the operations of a request, and each
carries a frame along.

* `ordered_perm`, `ordered_eq_of_perm` — a request is its operations in the worker's order,
  however it lists them.
* `filterChain_visited` — the filters are built for the frames the rules were checked against.
* `editVideoFilters_pairwise` — geometry, tone map, colour and speed.
* `edit_command_agrees` — so the check and the command agree, for every order of a request.
-/

namespace MediaPlayer
namespace Worker

open Library Models Services Schemas

/-! ## The order of the operations -/

section

variable {operations other : List EditOperation} {name : OperationName}

/-- A request has at most one operation of a name. -/
theorem filter_operationName_length (hnodup : (operations.map operationName).Nodup) :
    (operations.filter fun operation => operationName operation = name).length ≤ 1 := by
  have hall : (operations.filter fun operation => operationName operation = name).map
      operationName = List.replicate
        (operations.filter fun operation => operationName operation = name).length name := by
    refine List.eq_replicate_iff.mpr ⟨List.length_map .., fun found hfound => ?_⟩
    obtain ⟨operation, hmem, rfl⟩ := List.mem_map.mp hfound
    exact of_decide_eq_true (List.mem_filter.mp hmem).2
  have hsub : ((operations.filter fun operation => operationName operation = name).map
      operationName).Nodup := hnodup.sublist (List.filter_sublist.map operationName)
  rw [hall, List.nodup_replicate] at hsub
  exact hsub

theorem eq_of_perm_of_length_le_one {α : Type*} {xs ys : List α} (hperm : xs.Perm ys)
    (hlength : ys.length ≤ 1) : xs = ys := by
  match ys, hlength with
  | [], _ => exact hperm.eq_nil
  | [y], _ => exact List.perm_singleton.mp hperm

theorem named_eq_of_perm (hnodup : (operations.map operationName).Nodup)
    (hperm : other.Perm operations) : named other = named operations := by
  funext name
  rw [named, named, eq_of_perm_of_length_le_one (hperm.filter _)
    (filter_operationName_length hnodup)]

theorem ordered_eq_of_perm (hnodup : (operations.map operationName).Nodup)
    (hperm : other.Perm operations) : ordered other = ordered operations := by
  rw [ordered, ordered, named_eq_of_perm hnodup hperm]

theorem operationName_of_named {operation : EditOperation}
    (hnamed : named operations name = some operation) :
    operation ∈ operations ∧ operationName operation = name := by
  obtain ⟨hmem, hname⟩ := List.mem_filter.mp (List.mem_of_getLast? hnamed)
  exact ⟨hmem, of_decide_eq_true hname⟩

theorem named_of_mem {operation : EditOperation}
    (hnodup : (operations.map operationName).Nodup) (hmem : operation ∈ operations) :
    named operations (operationName operation) = some operation := by
  have hfilter : [operation] = operations.filter fun other =>
      operationName other = operationName operation := by
    have hlength := @filter_operationName_length _ (operationName operation) hnodup
    have hself : operation ∈ operations.filter fun other =>
        operationName other = operationName operation :=
      List.mem_filter.mpr ⟨hmem, decide_eq_true rfl⟩
    obtain ⟨found, hfound⟩ := List.length_eq_one_iff.mp
      (le_antisymm hlength (List.length_pos_of_mem hself))
    rw [hfound] at hself ⊢
    rw [List.mem_singleton.mp hself]
  rw [named, ← hfilter]
  rfl

theorem mem_ordered (hnodup : (operations.map operationName).Nodup) {operation : EditOperation} :
    operation ∈ ordered operations ↔ operation ∈ operations := by
  have hall : ∀ name, name ∈ operationOrder := fun name => by cases name <;> decide
  unfold ordered
  rw [List.mem_filterMap]
  constructor
  · rintro ⟨name, -, hnamed⟩
    exact (operationName_of_named hnamed).1
  · intro hmem
    exact ⟨operationName operation, hall _, named_of_mem hnodup hmem⟩

/-- An MP3 is refused for the operations that change the picture. -/
theorem pictureLabels_ne_nil_iff (hnodup : (operations.map operationName).Nodup) :
    pictureLabels operations ≠ [] ↔
      (operations.any fun operation => changesPicture (operationName operation)) = true := by
  rw [Ne, pictureLabels_eq_nil_iff, List.any_eq_true]
  constructor
  · intro hsome
    by_contra hnone
    refine hsome fun operation hoperation => Bool.eq_false_iff.mpr fun hpicture => hnone ?_
    exact ⟨operation, (mem_ordered hnodup).mp hoperation, hpicture⟩
  · rintro ⟨operation, hoperation, hpicture⟩ hnone
    have hkept := hnone operation ((mem_ordered hnodup).mpr hoperation)
    exact absurd (hkept.symm.trans hpicture) nofun

end

theorem operation_eq_named (request : EditRequest) (name : OperationName) :
    request.operation name = named request.operations name := by
  have hlength := @filter_operationName_length _ name request.unambiguous
  unfold EditRequest.operation named
  rw [← List.head?_filter]
  match request.operations.filter fun item => operationName item = name, hlength with
  | [], _ => rfl
  | [_], _ => rfl

/-! ## The frames the filters are built for -/

section

variable {filters : EditFilters} {built : EditOperation → Services.Frame → FilterStep}
  {operations : List EditOperation} {frame after : Services.Frame}

/-- The chain of filters that are built for a list of operations, each with its frame. -/
def assemble (built : EditOperation → Services.Frame → FilterStep)
    (calls : List (EditOperation × Services.Frame)) : FilterChain :=
  calls.foldl (fun chain call => chain.extend call.1 (built call.1 call.2)) {}

/-- Where the rules accept a frame, every filter is built for the frame its rule was checked
against. -/
theorem filterChain_visited
    (hbuilt : ∀ operation ∈ ordered operations, ∀ frame,
      buildStep filters operation frame = .ok (built operation frame))
    (hok : (ordered operations).foldlM checkOperation frame = .ok after) :
    filterChain filters operations frame =
      .ok (assemble built (visited checkOperation frame (ordered operations))) := by
  have halong : ∀ operation ∈ ordered operations, ∀ chain frame next,
      checkOperation frame operation = .ok next →
        chainStep filters (chain, frame) operation =
          .ok (chain.extend operation (built operation frame), next) := by
    intro operation hoperation chain frame next hnext
    rw [chainStep, hbuilt operation hoperation, hnext]
    rfl
  rw [filterChain, foldlM_along halong hok]
  rfl

theorem chainStep_ok_iff {state next : FilterChain × Services.Frame}
    {operation : EditOperation} :
    chainStep filters state operation = .ok next ↔
      ∃ step, buildStep filters operation state.2 = .ok step ∧
        checkOperation state.2 operation = .ok next.2 ∧
          next.1 = state.1.extend operation step := by
  unfold chainStep
  cases buildStep filters operation state.2 with
  | error e => exact iff_of_false nofun fun ⟨_, h, _⟩ => absurd h nofun
  | ok step =>
      cases checkOperation state.2 operation with
      | error message => exact iff_of_false nofun fun ⟨_, _, h, _⟩ => absurd h nofun
      | ok after =>
          constructor
          · intro h
            obtain rfl := Except.ok.inj h
            exact ⟨step, rfl, rfl, rfl⟩
          · rintro ⟨other, hother, hafter, hchain⟩
            obtain rfl := Except.ok.inj hother
            obtain rfl := Except.ok.inj hafter
            show Except.ok (state.1.extend operation step, next.2) = .ok next
            rw [← hchain]

theorem filterChain_ok_iff {chain : FilterChain} :
    filterChain filters operations frame = .ok chain ↔
      ∃ after, (ordered operations).foldlM (chainStep filters) ({}, frame) =
        .ok (chain, after) := by
  unfold filterChain
  cases (ordered operations).foldlM (chainStep filters) ({}, frame) with
  | error e => exact iff_of_false nofun fun ⟨_, h⟩ => absurd h nofun
  | ok state =>
      constructor
      · intro h
        obtain rfl := Except.ok.inj h
        exact ⟨state.2, rfl⟩
      · rintro ⟨after, hafter⟩
        rw [Except.ok.inj hafter]
        rfl

/-- Where a rule refuses, no chain is built. -/
theorem foldlM_of_filterChain {chain : FilterChain}
    (hok : filterChain filters operations frame = .ok chain) :
    ∃ after, (ordered operations).foldlM checkOperation frame = .ok after := by
  obtain ⟨after, hafter⟩ := filterChain_ok_iff.mp hok
  obtain ⟨mine, hmine, -⟩ := @foldlM_simulates _ _ _ _ _ checkOperation (chainStep filters)
    (fun mine state => mine = state.2) (fun mine state operation next heq hnext => by
      obtain ⟨step, -, hcheck, -⟩ := chainStep_ok_iff.mp hnext
      exact ⟨next.2, heq ▸ hcheck, rfl⟩) _ _ _ _ rfl hafter
  exact ⟨mine, hmine⟩

end

/-! ## The stages of a chain -/

/-- Where in a chain a filter belongs: the rate comes first, then the geometry, the tone map,
and last the colour and the speed. -/
def VideoFilter.stage : VideoFilter → ℕ
  | capRate _ | rate _ | restart | restartAt _ => 0
  | scaleCapped _ | scaleTo _ | scaleUp _ | crop .. | transpose _ | hflip | vflip => 1
  | toneMap | pixels => 2
  | eq _ | look _ | retime _ => 3

/-- A chain with its geometry before the tone map, and its colour and its speed after it. -/
structure FilterChain.Staged (chain : FilterChain) : Prop where
  before : ∀ filter ∈ chain.beforeToneMap, filter.stage = 1
  after : ∀ filter ∈ chain.afterToneMap, filter.stage = 3

/-- An operation's filters belong to the side of the tone map they are put on. -/
theorem stage_of_buildStep {operation : EditOperation} {frame : Services.Frame} {step : FilterStep}
    (hstep : buildStep EditOps.filters operation frame = .ok step) :
    ∀ filter ∈ step.video,
      filter.stage = if toneMapped (operationName operation) then 3 else 1 := by
  cases operation with
  | clip | convert =>
      obtain rfl := Except.ok.inj hstep
      exact fun _ hnone => absurd hnone List.not_mem_nil
  | crop | downscale | upscale | speed =>
      obtain rfl := Except.ok.inj hstep
      exact List.forall_mem_singleton.mpr rfl
  | flip axis =>
      obtain rfl := Except.ok.inj hstep
      cases axis <;> exact List.forall_mem_singleton.mpr rfl
  -- A value that was not moved builds no filter.
  | adjust =>
      simp only [buildStep, EditOps.filters, EditOps.adjust] at hstep
      split_ifs at hstep
      · obtain rfl := Except.ok.inj hstep
        exact fun _ hnone => absurd hnone List.not_mem_nil
      · obtain rfl := Except.ok.inj hstep
        exact List.forall_mem_singleton.mpr rfl
  | preset name =>
      simp only [buildStep, EditOps.filters, EditOps.preset] at hstep
      split at hstep
      · exact absurd hstep nofun
      · obtain rfl := Except.ok.inj hstep
        intro filter hfilter
        obtain ⟨text, -, rfl⟩ := List.mem_map.mp hfilter
        rfl
  | rotate degrees =>
      have hall : ∀ entry ∈ EditOps.rotateFilters, ∀ filter ∈ entry.2, filter.stage = 1 := by
        decide
      -- The table of turns is searched; whichever entry is found is one of them.
      simp only [buildStep, EditOps.filters, EditOps.rotate] at hstep
      split at hstep
      · exact absurd hstep nofun
      · next video hlookup =>
          obtain rfl := Except.ok.inj hstep
          obtain ⟨before, after, hentries, -⟩ := List.lookup_eq_some_iff.mp hlookup
          exact hall (degrees, video) (by rw [hentries]; simp)

theorem FilterChain.Staged.extend {chain : FilterChain} (hstaged : chain.Staged)
    {operation : EditOperation} {step : FilterStep}
    (hstep : ∀ filter ∈ step.video,
      filter.stage = if toneMapped (operationName operation) then 3 else 1) :
    (chain.extend operation step).Staged := by
  unfold FilterChain.extend
  split
  · next hmapped =>
      refine ⟨hstaged.before, fun filter hfilter => ?_⟩
      rcases List.mem_append.mp hfilter with hold | hnew
      · exact hstaged.after filter hold
      · rw [hstep filter hnew, if_pos hmapped]
  · next hmapped =>
      refine ⟨fun filter hfilter => ?_, hstaged.after⟩
      rcases List.mem_append.mp hfilter with hold | hnew
      · exact hstaged.before filter hold
      · rw [hstep filter hnew, if_neg hmapped]

/-- Whatever is asked for, geometry comes before the tone map and colour and speed after it. -/
theorem staged_filterChain {operations : List EditOperation} {frame : Services.Frame}
    {chain : FilterChain} (hok : filterChain EditOps.filters operations frame = .ok chain) :
    chain.Staged := by
  obtain ⟨after, hafter⟩ := filterChain_ok_iff.mp hok
  refine foldlM_preserves (P := fun state => state.1.Staged) ?_ ⟨?_, ?_⟩ hafter
  · intro operation _ state next hstaged hnext
    obtain ⟨step, hstep, -, hchain⟩ := chainStep_ok_iff.mp hnext
    rw [hchain]
    exact hstaged.extend (stage_of_buildStep hstep)
  · exact fun _ hnone => absurd hnone List.not_mem_nil
  · exact fun _ hnone => absurd hnone List.not_mem_nil

theorem editVideoFilters_pairwise {chain : FilterChain} (hstaged : chain.Staged)
    (settings : EditSettings) :
    (editVideoFilters settings chain).Pairwise fun first second => first.stage ≤ second.stage := by
  have htone : ∀ filter ∈ sdrFilters settings.hdr, filter.stage = 2 := by
    cases settings.hdr <;> decide
  -- Within a stage the order is the one the operations are built in.
  have hflat : ∀ {filters : List VideoFilter} {stage : ℕ},
      (∀ filter ∈ filters, filter.stage = stage) →
        filters.Pairwise fun first second => first.stage ≤ second.stage := by
    intro filters stage hall
    refine List.pairwise_of_forall_mem_list fun first hfirst second hsecond => ?_
    rw [hall first hfirst, hall second hsecond]
  have hrest : (chain.beforeToneMap ++ (sdrFilters settings.hdr ++ chain.afterToneMap)).Pairwise
      fun first second => first.stage ≤ second.stage := by
    refine List.pairwise_append.mpr ⟨hflat hstaged.before, List.pairwise_append.mpr
      ⟨hflat htone, hflat hstaged.after, fun first hfirst second hsecond => ?_⟩,
      fun first hfirst second hsecond => ?_⟩
    · rw [htone first hfirst, hstaged.after second hsecond]
      decide
    · rw [hstaged.before first hfirst]
      rcases List.mem_append.mp hsecond with hsecond | hsecond
      · rw [htone second hsecond]
        decide
      · rw [hstaged.after second hsecond]
        decide
  rw [editVideoFilters, List.append_assoc, List.append_assoc]
  exact List.pairwise_cons.mpr ⟨fun _ _ => Nat.zero_le _, hrest⟩

/-! ## The command -/

/-- What an operation adds, if its filters can be built. -/
def builtStep (operation : EditOperation) (frame : Services.Frame) : FilterStep :=
  (buildStep EditOps.filters operation frame).toOption.getD {}

/-- Every operation the schema takes has its filters. -/
theorem buildStep_of_valid {operation : EditOperation} (hvalid : ValidParams operation)
    (frame : Services.Frame) :
    buildStep EditOps.filters operation frame = .ok (builtStep operation frame) := by
  obtain ⟨step, hstep⟩ : ∃ step, buildStep EditOps.filters operation frame = .ok step := by
    cases operation with
    | clip | convert | crop | downscale | upscale | speed | flip => exact ⟨_, rfl⟩
    | adjust =>
        simp only [buildStep, EditOps.filters, EditOps.adjust]
        split
        · exact ⟨_, rfl⟩
        · exact ⟨_, rfl⟩
    -- The schema takes the names of the table, and no other.
    | preset name =>
        have hnames : ∀ name ∈ ["bw", "warm", "cool", "vintage", "vivid"],
            (EditOps.presetFilters.lookup name).isSome := by decide
        obtain ⟨filters, hfilters⟩ := Option.isSome_iff_exists.mp (hnames name hvalid)
        simp only [buildStep, EditOps.filters, EditOps.preset, hfilters]
        exact ⟨_, rfl⟩
    | rotate degrees =>
        obtain ⟨hlow, hhigh, hquarter⟩ := hvalid
        -- A quarter turn between none and a full one.
        have hdegrees : degrees = 90 ∨ degrees = 180 ∨ degrees = 270 := by omega
        rcases hdegrees with rfl | rfl | rfl <;> exact ⟨_, rfl⟩
  rw [builtStep, hstep]
  rfl

section

variable {request : EditRequest}

theorem outputExtension_eq_mp3_iff :
    request.outputExtension = "mp3" ↔
      named request.operations .convert = some (.convert "mp3") := by
  unfold EditRequest.outputExtension
  rw [operation_eq_named]
  cases hnamed : named request.operations .convert with
  | none => decide
  | some operation =>
      have hname := (operationName_of_named hnamed).2
      cases operation <;> simp [operationName] at hname ⊢

theorem outputArguments_isOk_iff (numbers : NumberTexts) (settings : EditSettings)
    (chain : FilterChain) :
    (∃ output, outputArguments numbers settings request chain = .ok output) ↔
      ¬(named request.operations .convert = some (.convert "mp3") ∧
        pictureLabels request.operations ≠ []) := by
  rw [← outputExtension_eq_mp3_iff, pictureLabels_ne_nil_iff request.unambiguous]
  unfold outputArguments
  split
  · next hmp3 =>
      split
      · next hpicture =>
          exact iff_of_false (fun ⟨_, h⟩ => absurd h nofun) fun h => h ⟨hmp3, hpicture⟩
      · next hpicture => exact iff_of_true ⟨_, rfl⟩ fun h => hpicture h.2
  · next hmp3 =>
      refine iff_of_true ?_ fun h => hmp3 h.1
      split <;> exact ⟨_, rfl⟩

/-- The command is built exactly where the check accepts the request. -/
theorem buildEditCommand_isOk_iff (numbers : NumberTexts) (settings : EditSettings)
    (frame : Option Services.Frame) :
    (∃ command, buildEditCommand numbers settings request frame = .ok command) ↔
      checkEditOperations request.operations (startFrame frame).height (startFrame frame).width =
        .ok () := by
  rw [checkEditOperations_ok_iff]
  constructor
  · rintro ⟨command, hcommand⟩
    unfold buildEditCommand at hcommand
    cases hchain : filterChain EditOps.filters request.operations (startFrame frame) with
    | error e =>
        rw [hchain] at hcommand
        exact absurd hcommand nofun
    | ok chain =>
        refine ⟨(outputArguments_isOk_iff numbers settings chain).mp ?_,
          foldlM_of_filterChain hchain⟩
        -- The output is asked for last, so that a command has passed both.
        cases houtput : outputArguments numbers settings request chain with
        | error e => simp [hchain, houtput, bind, Except.bind] at hcommand
        | ok output => exact ⟨output, rfl⟩
  · rintro ⟨hmp3, after, hafter⟩
    have hchain := filterChain_visited (fun operation hoperation frame => buildStep_of_valid
      (request.valid operation ((mem_ordered request.unambiguous).mp hoperation)) frame) hafter
    obtain ⟨output, houtput⟩ := (outputArguments_isOk_iff numbers settings _).mpr hmp3
    unfold buildEditCommand
    rw [hchain]
    simp only [bind, Except.bind]
    rw [houtput]
    exact ⟨_, rfl⟩

end

/-- For every order of a request and every frame, the check gives one verdict and the worker
builds one command, if and only if the check accepts; the filters are built for the frames the
rules were checked against, and stand on their side of the tone map. -/
theorem edit_command_agrees (numbers : NumberTexts) (settings : EditSettings)
    (request : EditRequest) {operations : List EditOperation}
    (hperm : operations.Perm request.operations) (frame : Option Services.Frame) :
    checkEditOperations operations (startFrame frame).height (startFrame frame).width =
        checkEditOperations request.operations (startFrame frame).height
          (startFrame frame).width ∧
      buildEditCommand numbers settings (request.reorder operations hperm) frame =
        buildEditCommand numbers settings request frame ∧
      ((∃ command, buildEditCommand numbers settings request frame = .ok command) ↔
        checkEditOperations request.operations (startFrame frame).height
          (startFrame frame).width = .ok ()) ∧
      (∀ (filters : EditFilters) (built : EditOperation → Services.Frame → FilterStep),
        (∀ operation ∈ request.operations, ∀ frame,
          buildStep filters operation frame = .ok (built operation frame)) →
        ∀ after, (ordered request.operations).foldlM checkOperation (startFrame frame) =
          .ok after →
        filterChain filters request.operations (startFrame frame) = .ok (assemble built
          (visited checkOperation (startFrame frame) (ordered request.operations)))) ∧
      ∀ chain, filterChain EditOps.filters request.operations (startFrame frame) = .ok chain →
        (editVideoFilters settings chain).Pairwise fun first second =>
          first.stage ≤ second.stage := by
  have hnamed := named_eq_of_perm request.unambiguous hperm
  have hordered := ordered_eq_of_perm request.unambiguous hperm
  refine ⟨?_, ?_, buildEditCommand_isOk_iff numbers settings frame, ?_, ?_⟩
  · have hlabels : pictureLabels operations = pictureLabels request.operations := by
      rw [pictureLabels, pictureLabels, hordered]
    unfold checkEditOperations
    rw [hnamed, hlabels, hordered]
  -- All the command reads of a request is its operation of each name, and `ordered`.
  · have hoperation : (request.reorder operations hperm).operation = request.operation := by
      funext name
      rw [operation_eq_named, operation_eq_named]
      exact congrFun hnamed name
    have hpicture : (operations.any fun operation => changesPicture (operationName operation)) =
        request.operations.any fun operation => changesPicture (operationName operation) :=
      hperm.any_eq
    have hchain : filterChain EditOps.filters operations (startFrame frame) =
        filterChain EditOps.filters request.operations (startFrame frame) := by
      rw [filterChain, filterChain, hordered]
    have hextension : (request.reorder operations hperm).outputExtension =
        request.outputExtension := by
      rw [EditRequest.outputExtension, hoperation, EditRequest.outputExtension]
    have houtput : outputArguments numbers settings (request.reorder operations hperm) =
        outputArguments numbers settings request := by
      funext chain
      rw [outputArguments, hextension, outputArguments, ← hpicture]
      rfl
    have hseek : seekArguments numbers (request.reorder operations hperm) =
        seekArguments numbers request := by
      rw [seekArguments, hoperation, seekArguments]
    rw [buildEditCommand, houtput, hseek, buildEditCommand, ← hchain]
    rfl
  · intro filters built hbuilt after hafter
    exact filterChain_visited (fun operation hoperation =>
      hbuilt operation ((mem_ordered request.unambiguous).mp hoperation)) hafter
  · intro chain hchain
    exact editVideoFilters_pairwise (staged_filterChain hchain) settings

/-- A scale that is listed before the turn it follows. -/
def turnedRequest : EditRequest where
  operations := [.downscale 480, .rotate 90]
  length := by decide
  valid := by decide
  unambiguous := by decide
  oneScale := by decide

/-- The turned film is scaled from its new height, 1920, whichever way round it is asked for. -/
theorem edit_command_agrees_turned :
    buildEditCommand ⟨fun _ => "1", fun _ => "1"⟩ ⟨"ffmpeg", "source", "output.mp4", "veryfast", 23,
        30, false⟩ (turnedRequest.reorder [.rotate 90, .downscale 480] (.swap ..))
        (some ⟨some 1920, some 1080⟩) =
      .ok ["ffmpeg", "-hide_banner", "-loglevel", "error", "-i", "source", "-vf",
        "fps=fps=min(30\\,source_fps),transpose=1,scale=-2:480,format=yuv420p", "-c:v", "libx264",
        "-preset", "veryfast", "-crf", "23", "-c:a", "aac", "-movflags", "+faststart", "-y",
        "output.mp4"] := by
  rw [(edit_command_agrees ⟨fun _ => "1", fun _ => "1"⟩ ⟨"ffmpeg", "source", "output.mp4",
    "veryfast", 23, 30, false⟩ turnedRequest (.swap ..) (some ⟨some 1920, some 1080⟩)).2.1]
  decide +kernel

end Worker
end MediaPlayer
