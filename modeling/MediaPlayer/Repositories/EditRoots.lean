import MediaPlayer.Repositories.JobQueries

/-!
# Which original `resolve_edit_roots` finds

`MadeFrom` is the relation the hops follow: an edit was made from the upload whose source it
shares, or from the job whose output is its source.  In a table that gives no key to two jobs
(`KeysApart`) every job is made from one other at most, and neither the order of rows nor the
other jobs of the batch make a difference.

* `editParent_iff` — one hop finds what the job was made from.
* `rootOf_spec` — the root of a job is the end of its chain, or what is found eight hops up.
* `edit_roots` — a job gets the root it would get alone, whatever else is in the batch.
-/

namespace MediaPlayer
namespace Repositories

open Library Models

/-- Keys belong to one job each: no two uploads share a source, no two jobs an output, and an
upload's source is no other job's output. -/
structure KeysApart (table : JobTable) : Prop where
  uploads : ∀ {id other : UUID} {job upload : Job}, table.lookup id = some job →
    table.lookup other = some upload → job.operations = none → upload.operations = none →
    job.sourceKey = upload.sourceKey → id = other
  outputs : ∀ {id other : UUID} {job output : Job} {key : String}, table.lookup id = some job →
    table.lookup other = some output → job.outputKey = some key → output.outputKey = some key →
    id = other
  mixed : ∀ {id other : UUID} {upload output : Job}, table.lookup id = some upload →
    table.lookup other = some output → upload.operations = none →
    output.outputKey = some upload.sourceKey → id = other

/-- The edit `current` was made from `parent`. -/
structure MadeFrom (table : JobTable) (current parent : JobRow) : Prop where
  edit : current.2.operations ≠ none
  row : table.lookup parent.1 = some parent.2
  owner : parent.2.ownerId = current.2.ownerId
  other : parent.1 ≠ current.1
  key : (parent.2.operations = none ∧ parent.2.sourceKey = current.2.sourceKey) ∨
    (parent.2.outputKey = some current.2.sourceKey ∧ current.2.sourceKey ≠ "")

/-- `root` is found `n` hops up from `row`. -/
def Chain (table : JobTable) : ℕ → JobRow → JobRow → Prop
  | 0, row, root => root = row
  | n + 1, row, root => ∃ parent, MadeFrom table row parent ∧ Chain table n parent root

variable {table : JobTable}

theorem KeysApart.row_eq (hapart : KeysApart table) {current parent other : JobRow}
    (hparent : table.lookup parent.1 = some parent.2) (hother : table.lookup other.1 = some other.2)
    (hkey : (parent.2.operations = none ∧ parent.2.sourceKey = current.2.sourceKey) ∨
      parent.2.outputKey = some current.2.sourceKey)
    (hotherKey : (other.2.operations = none ∧ other.2.sourceKey = current.2.sourceKey) ∨
      other.2.outputKey = some current.2.sourceKey) : parent = other := by
  have hid : parent.1 = other.1 := by
    rcases hkey with ⟨hupload, hsource⟩ | houtput <;>
      rcases hotherKey with ⟨hotherUpload, hotherSource⟩ | hotherOutput
    · exact hapart.uploads hparent hother hupload hotherUpload (hsource.trans hotherSource.symm)
    · exact hapart.mixed hparent hother hupload (hsource ▸ hotherOutput)
    · exact (hapart.mixed hother hparent hotherUpload (hotherSource ▸ houtput)).symm
    · exact hapart.outputs hparent hother houtput hotherOutput
  have hjob : parent.2 = other.2 := by
    rw [hid, hother] at hparent
    exact (Option.some.inj hparent).symm
  exact Prod.ext hid hjob

/-- What a job was made from is unique. -/
theorem MadeFrom.unique (hapart : KeysApart table) {current parent other : JobRow}
    (hparent : MadeFrom table current parent) (hother : MadeFrom table current other) :
    parent = other :=
  hapart.row_eq hparent.row hother.row (hparent.key.imp_right And.left)
    (hother.key.imp_right And.left)

/-- A chain that goes on until it ends, or for as many hops, arrives at the upload that another
way up arrives at. -/
theorem Chain.eq_of_upload (hapart : KeysApart table) {n m : ℕ} {row upload root : JobRow}
    (hchain : Chain table n row upload) (hupload : upload.2.operations = none)
    (hroot : Chain table m row root) (hend : n ≤ m ∨ ∀ parent, ¬ MadeFrom table root parent) :
    root = upload := by
  induction n generalizing row m with
  | zero =>
      obtain rfl : upload = row := hchain
      cases m with
      | zero => exact hroot
      | succ m =>
          obtain ⟨parent, hmade, -⟩ := hroot
          exact absurd hupload hmade.edit
  | succ n ih =>
      obtain ⟨parent, hmade, hrest⟩ := hchain
      cases m with
      | zero =>
          obtain rfl : root = row := hroot
          exact absurd hmade (hend.resolve_left (by omega) parent)
      | succ m =>
          obtain ⟨other, hother, hrootRest⟩ := hroot
          obtain rfl := hmade.unique hapart hother
          exact ih hrest hrootRest (hend.imp_left (by omega))

theorem getLast?_of_forall_eq {α : Type*} {items : List α} {a : α} (hmem : a ∈ items)
    (hall : ∀ b ∈ items, b = a) : items.getLast? = some a := by
  have hne : items ≠ [] := List.ne_nil_of_mem hmem
  rw [List.getLast?_eq_some_getLast hne, hall _ (List.getLast_mem hne)]

/-- One hop finds what the job was made from, whatever else is pending and in whatever order
the rows come. -/
theorem editParent_iff (hapart : KeysApart table) {order : RowOrder} {pending : List JobRow}
    {current : JobRow} (hpending : current ∈ pending) (hedit : current.2.operations ≠ none)
    (parent : JobRow) :
    JobTable.editParent (table.editCandidates order pending) current = some parent ↔
      MadeFrom table current parent := by
  have howner : current.2.ownerId ∈ pending.map (·.2.ownerId) := List.mem_map_of_mem hpending
  have hsource : current.2.sourceKey ∈ pending.map (·.2.sourceKey) := List.mem_map_of_mem hpending
  unfold JobTable.editParent
  simp only [Option.filter_eq_some_iff, decide_eq_true_eq]
  constructor
  · rintro ⟨hfound, hsame, hother⟩
    rcases Option.or_eq_some_iff.mp hfound with hupload | ⟨-, houtput⟩
    · obtain ⟨hmem, hkey⟩ := List.mem_filter.mp (List.mem_of_getLast? hupload)
      exact ⟨hedit, (JobTable.mem_query.mp hmem).1, hsame, hother, Or.inl (of_decide_eq_true hkey)⟩
    · obtain ⟨hmem, hkey⟩ := List.mem_filter.mp (List.mem_of_getLast? houtput)
      exact ⟨hedit, (JobTable.mem_query.mp hmem).1, hsame, hother, Or.inr (of_decide_eq_true hkey)⟩
  · rintro ⟨-, hrow, hsame, hother, hkey⟩
    refine ⟨?_, hsame, hother⟩
    have hcandidate : ∀ row ∈ table.editCandidates order pending,
        (row.2.operations = none ∧ row.2.sourceKey = current.2.sourceKey) ∨
          row.2.outputKey = some current.2.sourceKey → row = parent := fun row hmem hrowKey =>
      hapart.row_eq (JobTable.mem_query.mp hmem).1 hrow hrowKey (hkey.imp_right And.left)
    have hmem : parent ∈ table.editCandidates order pending := by
      refine JobTable.mem_query.mpr ⟨hrow, decide_eq_true ⟨hsame ▸ howner, hkey.imp ?_ ?_⟩⟩
      · exact fun h => ⟨h.1, h.2 ▸ hsource⟩
      · rintro ⟨houtput, -⟩
        rw [houtput]
        exact decide_eq_true hsource
    rcases hkey with hupload | houtput
    · refine Option.or_eq_some_iff.mpr (Or.inl (getLast?_of_forall_eq ?_ fun row hrowMem => ?_))
      · exact List.mem_filter.mpr ⟨hmem, decide_eq_true hupload⟩
      · obtain ⟨hrowCandidate, hrowKey⟩ := List.mem_filter.mp hrowMem
        exact hcandidate row hrowCandidate (Or.inl (of_decide_eq_true hrowKey))
    · -- An upload that shares the source is the parent as well.
      have houtputs : ((table.editCandidates order pending).filter fun row =>
          row.2.outputKey = some current.2.sourceKey ∧ current.2.sourceKey ≠ "").getLast? =
          some parent := by
        refine getLast?_of_forall_eq (List.mem_filter.mpr ⟨hmem, decide_eq_true houtput⟩)
          fun row hrowMem => ?_
        obtain ⟨hrowCandidate, hrowKey⟩ := List.mem_filter.mp hrowMem
        exact hcandidate row hrowCandidate (Or.inr (of_decide_eq_true hrowKey).1)
      rw [houtputs]
      cases hlast : ((table.editCandidates order pending).filter fun row =>
          row.2.operations = none ∧ row.2.sourceKey = current.2.sourceKey).getLast? with
      | none => rfl
      | some row =>
          obtain ⟨hrowCandidate, hrowKey⟩ := List.mem_filter.mp (List.mem_of_getLast? hlast)
          rw [hcandidate row hrowCandidate (Or.inl (of_decide_eq_true hrowKey))]
          rfl

/-! ## The loop -/

/-- No key of a list has two values. -/
def OneEach (entries : List (UUID × JobRow)) : Prop :=
  ∀ entry ∈ entries, ∀ other ∈ entries, entry.1 = other.1 → entry.2 = other.2

theorem lookup_of_mem {entries : List (UUID × JobRow)} (hone : OneEach entries)
    {entry : UUID × JobRow} (hentry : entry ∈ entries) :
    entries.lookup entry.1 = some entry.2 := by
  induction entries with
  | nil => simp at hentry
  | cons first rest ih =>
      by_cases heq : entry.1 = first.1
      · rw [hone entry hentry first (List.mem_cons_self ..) heq, heq]
        exact List.lookup_cons_self
      · have hrest : entry ∈ rest :=
          (List.mem_cons.mp hentry).resolve_left fun hfirst => heq (congrArg Prod.fst hfirst)
        rw [List.lookup_cons, beq_false_of_ne heq]
        exact ih (fun a ha b hb => hone a (List.mem_cons_of_mem _ ha) b (List.mem_cons_of_mem _ hb))
          hrest

theorem lookup_of_not_mem {entries : List (UUID × JobRow)} {jobId : UUID}
    (hjob : jobId ∉ entries.map (·.1)) : entries.lookup jobId = none := by
  refine List.lookup_eq_none_iff.mpr fun entry hentry => ?_
  rw [bne_iff_ne]
  rintro rfl
  exact hjob (List.mem_map_of_mem hentry)

/-- What one hop finds for the pending jobs. -/
def foundParents (table : JobTable) (order : RowOrder) (pending : List (UUID × JobRow)) :
    List (UUID × JobRow) :=
  pending.filterMap fun entry =>
    (JobTable.editParent (table.editCandidates order (pending.map (·.2))) entry.2).map
      fun parent => (entry.1, parent)

/-- Those whose chain goes on. -/
def stillPending (found : List (UUID × JobRow)) : List (UUID × JobRow) :=
  found.filter fun entry => entry.2.2.operations.isSome

theorem mem_stillPending {found : List (UUID × JobRow)} {entry : UUID × JobRow} :
    entry ∈ stillPending found ↔ entry ∈ found ∧ entry.2.2.operations ≠ none := by
  rw [stillPending, List.mem_filter, Option.isSome_iff_ne_none]

theorem followEdits_succ (table : JobTable) (orders : ℕ → RowOrder) (hops : ℕ)
    {pending : List (UUID × JobRow)} (hpending : pending ≠ []) (roots : List (UUID × JobRow)) :
    table.followEdits orders (hops + 1) pending roots =
      table.followEdits orders hops (stillPending (foundParents table (orders hops) pending))
        (foundParents table (orders hops) pending ++ roots) := by
  simp only [JobTable.followEdits]
  rw [if_neg (by simpa using hpending)]
  rfl

theorem mem_foundParents (hapart : KeysApart table) {order : RowOrder}
    {pending : List (UUID × JobRow)} (hedits : ∀ entry ∈ pending, entry.2.2.operations ≠ none)
    {jobId : UUID} {parent : JobRow} :
    (jobId, parent) ∈ foundParents table order pending ↔
      ∃ current, (jobId, current) ∈ pending ∧ MadeFrom table current parent := by
  unfold foundParents
  rw [List.mem_filterMap]
  constructor
  · rintro ⟨entry, hentry, hfound⟩
    obtain ⟨found, hparent, heq⟩ := Option.map_eq_some_iff.mp hfound
    obtain ⟨rfl, rfl⟩ := Prod.mk.inj heq
    exact ⟨entry.2, hentry,
      (editParent_iff hapart (List.mem_map_of_mem hentry) (hedits entry hentry) _).mp hparent⟩
  · rintro ⟨current, hcurrent, hmade⟩
    refine ⟨(jobId, current), hcurrent, Option.map_eq_some_iff.mpr ⟨parent, ?_, rfl⟩⟩
    exact (editParent_iff hapart (List.mem_map_of_mem hcurrent) (hedits _ hcurrent) _).mpr hmade

theorem OneEach.foundParents (hapart : KeysApart table) {order : RowOrder}
    {pending : List (UUID × JobRow)} (hone : OneEach pending)
    (hedits : ∀ entry ∈ pending, entry.2.2.operations ≠ none) :
    OneEach (foundParents table order pending) := by
  rintro ⟨jobId, parent⟩ hparent ⟨_, other⟩ hother rfl
  obtain ⟨current, hcurrent, hmade⟩ := (mem_foundParents hapart hedits).mp hparent
  obtain ⟨otherCurrent, hotherCurrent, hotherMade⟩ := (mem_foundParents hapart hedits).mp hother
  obtain rfl : current = otherCurrent := hone _ hcurrent _ hotherCurrent rfl
  exact hmade.unique hapart hotherMade

theorem OneEach.stillPending {found : List (UUID × JobRow)} (hone : OneEach found) :
    OneEach (stillPending found) := fun entry hentry other hother =>
  hone entry (mem_stillPending.mp hentry).1 other (mem_stillPending.mp hother).1

/-- The loop leaves the roots of jobs that are not pending, and takes a pending one to the end
of its chain or as many hops up as it has. -/
theorem followEdits_spec (hapart : KeysApart table) (orders : ℕ → RowOrder) (hops : ℕ)
    (pending roots : List (UUID × JobRow)) (hone : OneEach pending)
    (hedits : ∀ entry ∈ pending, entry.2.2.operations ≠ none)
    (hroots : ∀ entry ∈ pending, roots.lookup entry.1 = some entry.2) :
    (∀ jobId, jobId ∉ pending.map (·.1) →
      (table.followEdits orders hops pending roots).lookup jobId = roots.lookup jobId) ∧
    ∀ entry ∈ pending, ∃ n ≤ hops, ∃ root, Chain table n entry.2 root ∧
      (n = hops ∨ ∀ parent, ¬ MadeFrom table root parent) ∧
      (table.followEdits orders hops pending roots).lookup entry.1 = some root := by
  induction hops generalizing pending roots with
  | zero =>
      exact ⟨fun _ _ => rfl, fun entry hentry =>
        ⟨0, le_rfl, entry.2, rfl, Or.inl rfl, hroots entry hentry⟩⟩
  | succ hops ih =>
      by_cases hempty : pending = []
      · subst hempty
        exact ⟨fun _ _ => rfl, by simp⟩
      rw [followEdits_succ table orders hops hempty]
      have hfoundOne : OneEach (foundParents table (orders hops) pending) :=
        hone.foundParents hapart hedits
      obtain ⟨hothers, hpendings⟩ := ih (stillPending (foundParents table (orders hops) pending))
        (foundParents table (orders hops) pending ++ roots) hfoundOne.stillPending
        (fun entry hentry => (mem_stillPending.mp hentry).2)
        (fun entry hentry => by
          rw [List.lookup_append, lookup_of_mem hfoundOne (mem_stillPending.mp hentry).1]
          rfl)
      -- A job whose chain has ended has its root: the one found now, or the one it had.
      have hended : ∀ jobId, (∀ parent, (jobId, parent) ∈
            foundParents table (orders hops) pending → parent.2.operations = none) →
          (table.followEdits orders hops (stillPending (foundParents table (orders hops) pending))
            (foundParents table (orders hops) pending ++ roots)).lookup jobId =
            ((foundParents table (orders hops) pending).lookup jobId).or (roots.lookup jobId) := by
        intro jobId huploads
        rw [hothers jobId fun hstill => ?_, List.lookup_append]
        obtain ⟨⟨_, parent⟩, hparent, rfl⟩ := List.mem_map.mp hstill
        obtain ⟨hfound, hedit⟩ := mem_stillPending.mp hparent
        exact hedit (huploads parent hfound)
      have hnotFound : ∀ jobId, (∀ parent, (jobId, parent) ∉
            foundParents table (orders hops) pending) →
          (table.followEdits orders hops (stillPending (foundParents table (orders hops) pending))
            (foundParents table (orders hops) pending ++ roots)).lookup jobId =
            roots.lookup jobId := by
        intro jobId hnone
        rw [hended jobId fun parent hparent => absurd hparent (hnone parent), lookup_of_not_mem]
        · rfl
        · intro hmem
          obtain ⟨⟨_, parent⟩, hparent, rfl⟩ := List.mem_map.mp hmem
          exact hnone parent hparent
      refine ⟨fun jobId hjob => hnotFound jobId fun parent hparent => ?_, fun entry hentry => ?_⟩
      · obtain ⟨current, hcurrent, -⟩ := (mem_foundParents hapart hedits).mp hparent
        exact hjob (List.mem_map_of_mem hcurrent)
      -- A parent that is an upload ends the walk; one that is an edit is pending for the hops left.
      by_cases hparent : ∃ parent, MadeFrom table entry.2 parent
      · obtain ⟨parent, hmade⟩ := hparent
        have hfound : (entry.1, parent) ∈ foundParents table (orders hops) pending :=
          (mem_foundParents hapart hedits).mpr ⟨entry.2, hentry, hmade⟩
        by_cases hupload : parent.2.operations = none
        · refine ⟨1, by omega, parent, ⟨parent, hmade, rfl⟩, Or.inr fun _ h => h.edit hupload, ?_⟩
          have huploads : ∀ other, (entry.1, other) ∈ foundParents table (orders hops) pending →
              other.2.operations = none := by
            intro other hother
            obtain rfl : parent = other := hfoundOne _ hfound _ hother rfl
            exact hupload
          rw [hended entry.1 huploads, lookup_of_mem hfoundOne hfound]
          rfl
        · obtain ⟨n, hn, root, hchain, hend, hlookup⟩ := hpendings (entry.1, parent)
            (mem_stillPending.mpr ⟨hfound, hupload⟩)
          exact ⟨n + 1, by omega, root, ⟨parent, hmade, hchain⟩, hend.imp_left (by omega), hlookup⟩
      · refine ⟨0, by omega, entry.2, rfl, Or.inr fun parent hmade => hparent ⟨parent, hmade⟩, ?_⟩
        rw [hnotFound entry.1 fun parent hmem => ?_, hroots entry hentry]
        obtain ⟨current, hcurrent, hmade⟩ := (mem_foundParents hapart hedits).mp hmem
        obtain rfl : current = entry.2 := hone _ hcurrent entry hentry rfl
        exact hparent ⟨parent, hmade⟩

/-- Every job of a batch has a root: the end of its chain, or the job eight hops up. -/
theorem resolveEditRoots_spec (hapart : KeysApart table) (orders : ℕ → RowOrder)
    {jobs : List JobRow} (hone : ∀ row ∈ jobs, ∀ other ∈ jobs, row.1 = other.1 → row = other)
    {row : JobRow} (hrow : row ∈ jobs) :
    ∃ n ≤ JobTable.maxEditChain, ∃ root,
      (table.resolveEditRoots orders jobs).lookup row.1 = some root ∧ Chain table n row root ∧
        (n = JobTable.maxEditChain ∨ ∀ parent, ¬ MadeFrom table root parent) := by
  have honeKeyed : ∀ {rows : List JobRow}, rows ⊆ jobs →
      OneEach (rows.map fun row => (row.1, row)) := by
    intro rows hrows entry hentry other hother heq
    obtain ⟨row, hrow, rfl⟩ := List.mem_map.mp hentry
    obtain ⟨otherRow, hotherRow, rfl⟩ := List.mem_map.mp hother
    exact hone row (hrows hrow) otherRow (hrows hotherRow) heq
  have hself : ∀ row ∈ jobs, (jobs.map fun row => (row.1, row)).lookup row.1 = some row :=
    fun row hrow => lookup_of_mem (honeKeyed (List.Subset.refl _))
      (List.mem_map_of_mem (f := fun row : JobRow => (row.1, row)) hrow)
  -- Before the first hop every job is its own root, and the edits are pending.
  obtain ⟨hothers, hpending⟩ := followEdits_spec hapart orders JobTable.maxEditChain
    ((jobs.filter fun row => row.2.operations.isSome).map fun row => (row.1, row))
    (jobs.map fun row => (row.1, row)) (honeKeyed List.filter_sublist.subset)
    (fun entry hentry => by
      obtain ⟨row, hmem, rfl⟩ := List.mem_map.mp hentry
      exact Option.isSome_iff_ne_none.mp (List.mem_filter.mp hmem).2)
    (fun entry hentry => by
      obtain ⟨row, hmem, rfl⟩ := List.mem_map.mp hentry
      exact hself row (List.mem_filter.mp hmem).1)
  by_cases hupload : row.2.operations = none
  · refine ⟨0, Nat.zero_le _, row, ?_, rfl, Or.inr fun parent hmade => hmade.edit hupload⟩
    rw [JobTable.resolveEditRoots, hothers row.1 fun hmem => ?_, hself row hrow]
    obtain ⟨entry, hentry, heq⟩ := List.mem_map.mp hmem
    obtain ⟨other, hother, rfl⟩ := List.mem_map.mp hentry
    obtain ⟨hotherMem, hsome⟩ := List.mem_filter.mp hother
    obtain rfl := hone other hotherMem row hrow heq
    exact Option.isSome_iff_ne_none.mp hsome hupload
  · obtain ⟨n, hn, root, hchain, hend, hlookup⟩ := hpending (row.1, row)
      (List.mem_map_of_mem (List.mem_filter.mpr ⟨hrow, Option.isSome_iff_ne_none.mpr hupload⟩))
    exact ⟨n, hn, root, hlookup, hchain, hend⟩

theorem rootOf_spec (hapart : KeysApart table) (orders : ℕ → RowOrder) {jobs : List JobRow}
    (hone : ∀ row ∈ jobs, ∀ other ∈ jobs, row.1 = other.1 → row = other) {row : JobRow}
    (hrow : row ∈ jobs) :
    ∃ n ≤ JobTable.maxEditChain, Chain table n row
        (JobTable.rootOf (table.resolveEditRoots orders jobs) row) ∧
      (n = JobTable.maxEditChain ∨
        ∀ parent, ¬ MadeFrom table (JobTable.rootOf (table.resolveEditRoots orders jobs) row)
          parent) := by
  obtain ⟨n, hn, root, hlookup, hchain, hend⟩ := resolveEditRoots_spec hapart orders hone hrow
  rw [JobTable.rootOf, hlookup]
  exact ⟨n, hn, hchain, hend⟩

/-! ## One job alone -/

/-- What one hop finds for a job that is pending alone. -/
def parentAlone (table : JobTable) (order : RowOrder) (current : JobRow) : Option JobRow :=
  if current.2.operations = none then none
  else JobTable.editParent (table.editCandidates order [current]) current

/-- The furthest ancestor that is found for a job alone, one hop after another. -/
def walkAlone (table : JobTable) (orders : ℕ → RowOrder) : ℕ → JobRow → JobRow
  | 0, row => row
  | hops + 1, row =>
      match parentAlone table (orders hops) row with
      | none => row
      | some parent => walkAlone table orders hops parent

theorem parentAlone_iff (hapart : KeysApart table) {order : RowOrder} {current parent : JobRow} :
    parentAlone table order current = some parent ↔ MadeFrom table current parent := by
  unfold parentAlone
  split
  · next hupload => exact iff_of_false nofun fun hmade => hmade.edit hupload
  · next hedit => exact editParent_iff hapart (List.mem_singleton_self _) hedit parent

theorem walkAlone_eq (hapart : KeysApart table) (orders : ℕ → RowOrder) {n hops : ℕ}
    (hn : n ≤ hops) {row root : JobRow} (hchain : Chain table n row root)
    (hend : n = hops ∨ ∀ parent, ¬ MadeFrom table root parent) :
    walkAlone table orders hops row = root := by
  -- On the length of the chain; the walk has a hop for each of its jobs.
  induction n generalizing hops row with
  | zero =>
      obtain rfl : root = row := hchain
      cases hops with
      | zero => rfl
      | succ hops =>
          have hnone : parentAlone table (orders hops) root = none :=
            Option.eq_none_iff_forall_ne_some.mpr fun parent hparent =>
              hend.resolve_left (by omega) parent ((parentAlone_iff hapart).mp hparent)
          rw [walkAlone, hnone]
  | succ n ih =>
      obtain ⟨parent, hmade, hrest⟩ := hchain
      cases hops with
      | zero => omega
      | succ hops =>
          rw [walkAlone, (parentAlone_iff hapart).mpr hmade]
          exact ih (by omega) hrest (hend.imp_left (by omega))

theorem Chain.owner {n : ℕ} {row root : JobRow} (hchain : Chain table n row root) :
    root.2.ownerId = row.2.ownerId := by
  induction n generalizing row with
  | zero =>
      obtain rfl : root = row := hchain
      rfl
  | succ n ih =>
      obtain ⟨parent, hmade, hrest⟩ := hchain
      exact (ih hrest).trans hmade.owner

/-- Every job of a batch gets the root it would get alone, and none of another owner: the end
of its chain, or the job eight hops up. -/
theorem edit_roots (hapart : KeysApart table) (orders aloneOrders : ℕ → RowOrder)
    {jobs : List JobRow} (hone : ∀ row ∈ jobs, ∀ other ∈ jobs, row.1 = other.1 → row = other)
    {row : JobRow} (hrow : row ∈ jobs) :
    ∃ root, (table.resolveEditRoots orders jobs).lookup row.1 = some root ∧
      root = walkAlone table aloneOrders JobTable.maxEditChain row ∧
      root.2.ownerId = row.2.ownerId ∧
      ∃ n ≤ JobTable.maxEditChain, Chain table n row root ∧
        (n = JobTable.maxEditChain ∨ ∀ parent, ¬ MadeFrom table root parent) := by
  obtain ⟨n, hn, root, hlookup, hchain, hend⟩ := resolveEditRoots_spec hapart orders hone hrow
  exact ⟨root, hlookup, (walkAlone_eq hapart aloneOrders hn hchain hend).symm, hchain.owner,
    n, hn, hchain, hend⟩

/-- A done upload, and an edit of its output. -/
def doneUpload : Job where
  ownerId := 7
  filename := "clip.mp4"
  status := .done
  sourceKey := "uploads/1/clip.mp4"
  outputKey := some "outputs/1/clip.mp4"
  hlsStatus := .unavailable
  createdAt := 0
  updatedAt := 0
  checks := by decide

def oldEdit : Job where
  ownerId := 7
  filename := "clip.mp4"
  status := .done
  sourceKey := "outputs/1/clip.mp4"
  outputKey := some "outputs/2/clip.mp4"
  operations := some [.rotate 90]
  hlsStatus := .unavailable
  createdAt := 0
  updatedAt := 0
  checks := by decide

def editedTable : JobTable := ((∅ : JobTable).insert 1 doneUpload).insert 2 oldEdit

theorem keysApart_editedTable : KeysApart editedTable := by
  have hrows : ∀ {id : UUID} {job : Job}, editedTable.lookup id = some job →
      (id = 1 ∧ job = doneUpload) ∨ (id = 2 ∧ job = oldEdit) := by
    intro id job hjob
    by_cases hedit : id = 2
    · subst hedit
      exact .inr ⟨rfl, (Option.some.inj hjob).symm⟩
    · by_cases hupload : id = 1
      · subst hupload
        exact .inl ⟨rfl, (Option.some.inj hjob).symm⟩
      · rw [editedTable, AList.lookup_insert_ne hedit, AList.lookup_insert_ne hupload] at hjob
        exact absurd hjob nofun
  constructor
  · intro id other job upload hjob hupload
    rcases hrows hjob with ⟨rfl, rfl⟩ | ⟨rfl, rfl⟩ <;>
      rcases hrows hupload with ⟨rfl, rfl⟩ | ⟨rfl, rfl⟩ <;> decide
  · intro id other job output key hjob houtput hkey
    rcases hrows hjob with ⟨rfl, rfl⟩ | ⟨rfl, rfl⟩ <;>
      rcases hrows houtput with ⟨rfl, rfl⟩ | ⟨rfl, rfl⟩ <;> cases hkey <;> decide
  · intro id other upload output hupload houtput
    rcases hrows hupload with ⟨rfl, rfl⟩ | ⟨rfl, rfl⟩ <;>
      rcases hrows houtput with ⟨rfl, rfl⟩ | ⟨rfl, rfl⟩ <;> decide

theorem edit_roots_oldEdit :
    ∃ root, (editedTable.resolveEditRoots (fun _ => .byId) [(2, oldEdit), (1, doneUpload)]).lookup
        2 = some root ∧
      root = walkAlone editedTable (fun _ => .byId) JobTable.maxEditChain (2, oldEdit) ∧
      root.2.ownerId = 7 ∧
      ∃ n ≤ JobTable.maxEditChain, Chain editedTable n (2, oldEdit) root ∧
        (n = JobTable.maxEditChain ∨ ∀ parent, ¬ MadeFrom editedTable root parent) := by
  have hone : ∀ row ∈ [((2 : UUID), oldEdit), (1, doneUpload)],
      ∀ other ∈ [((2 : UUID), oldEdit), (1, doneUpload)], row.1 = other.1 → row = other := by
    decide
  exact edit_roots keysApart_editedTable (fun _ => .byId) (fun _ => .byId) hone
    (List.mem_cons_self ..)

/-! ## Whatever the keys are -/

/-- The loop finds rows of the table only. -/
theorem followEdits_rows (orders : ℕ → RowOrder) (hops : ℕ)
    (pending roots : List (UUID × JobRow))
    (hroots : ∀ entry ∈ roots, table.lookup entry.2.1 = some entry.2.2) :
    ∀ entry ∈ table.followEdits orders hops pending roots,
      table.lookup entry.2.1 = some entry.2.2 := by
  induction hops generalizing pending roots with
  | zero => exact hroots
  | succ hops ih =>
      by_cases hempty : pending = []
      · subst hempty
        exact hroots
      rw [followEdits_succ table orders hops hempty]
      refine ih _ _ fun entry hentry => ?_
      rcases List.mem_append.mp hentry with hfound | hold
      · obtain ⟨current, -, hparent⟩ := List.mem_filterMap.mp hfound
        obtain ⟨parent, hsome, rfl⟩ := Option.map_eq_some_iff.mp hparent
        obtain ⟨hcandidate, -⟩ := Option.filter_eq_some_iff.mp hsome
        rcases Option.or_eq_some_iff.mp hcandidate with hlast | ⟨-, hlast⟩
        all_goals
          obtain ⟨hmem, -⟩ := List.mem_filter.mp (List.mem_of_getLast? hlast)
          exact (JobTable.mem_query.mp hmem).1
      · exact hroots entry hold

/-- The root of a row of the table is a row of the table. -/
theorem rootOf_lookup (orders : ℕ → RowOrder) {row : JobRow}
    (hrow : table.lookup row.1 = some row.2) :
    table.lookup (JobTable.rootOf (table.resolveEditRoots orders [row]) row).1 =
      some (JobTable.rootOf (table.resolveEditRoots orders [row]) row).2 := by
  unfold JobTable.rootOf
  cases hlookup : (table.resolveEditRoots orders [row]).lookup row.1 with
  | none => exact hrow
  | some root =>
      have hmem : (row.1, root) ∈ table.resolveEditRoots orders [row] := by
        obtain ⟨before, after, heq, -⟩ := List.lookup_eq_some_iff.mp hlookup
        rw [heq]
        exact List.mem_append_right _ (List.mem_cons_self ..)
      refine followEdits_rows orders _ _ _ (fun entry hentry => ?_) _ hmem
      obtain rfl := List.mem_singleton.mp hentry
      exact hrow

end Repositories
end MediaPlayer
