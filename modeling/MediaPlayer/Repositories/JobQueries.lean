import MediaPlayer.Repositories.Jobs

/-!
# Reading the jobs table

The queries of `app/repositories/jobs.py` behind the pages of the jobs API: `get_job`,
`list_jobs`, `list_trash`, and `resolve_edit_roots` with its query per hop.

A query that asks for no order gives its rows in an order of the database's own
(`RowOrder`).

* `mem_query`, `query_congr` — a query gives the rows that meet its condition, and nothing
  of it depends on any other row.
* `followEdits` — the loop of `resolve_edit_roots`.
* `ownRow` — what a statement with an owner sees of a row; no such statement sees more.
-/

namespace MediaPlayer
namespace Repositories

open Library Models

/-- A row with its id. -/
abbrev JobRow := UUID × Job

/-- The order the database gives rows in when a query asks for none: any order, which may be
another for other rows. -/
structure RowOrder where
  arrange : List JobRow → List JobRow
  perm : ∀ rows, (arrange rows).Perm rows

/-- The rows by id. -/
def RowOrder.byId : RowOrder := ⟨fun rows => rows, fun rows => .refl rows⟩

namespace JobTable

variable {table : JobTable} {order : RowOrder} {p : JobRow → Bool}

/-- All rows, by id. -/
def rowsById (table : JobTable) : List JobRow :=
  (table.entries.map fun row => (row.1, row.2)).insertionSort fun a b => a.1 ≤ b.1

/-- `SELECT ... WHERE p`. -/
def query (table : JobTable) (order : RowOrder) (p : JobRow → Bool) : List JobRow :=
  order.arrange (table.rowsById.filter p)

theorem mem_rowsById {row : JobRow} :
    row ∈ table.rowsById ↔ table.lookup row.1 = some row.2 := by
  unfold rowsById
  rw [List.mem_insertionSort, List.mem_map]
  constructor
  · rintro ⟨entry, hentry, rfl⟩
    exact AList.mem_lookup_iff.mpr hentry
  · exact fun hlookup => ⟨⟨row.1, row.2⟩, AList.mem_lookup_iff.mp hlookup, rfl⟩

theorem mem_query {row : JobRow} :
    row ∈ table.query order p ↔ table.lookup row.1 = some row.2 ∧ p row = true := by
  unfold query
  rw [(order.perm _).mem_iff, List.mem_filter, mem_rowsById]

theorem pairwise_rowsById (table : JobTable) :
    table.rowsById.Pairwise fun a b => a.1 < b.1 := by
  have hsorted : table.rowsById.Pairwise fun a b => a.1 ≤ b.1 :=
    List.pairwise_insertionSort (fun a b : JobRow => a.1 ≤ b.1) _
  have hnodup : (table.rowsById.map (·.1)).Nodup := by
    refine ((List.perm_insertionSort _ _).map _).nodup_iff.mpr ?_
    rw [List.map_map]
    exact table.nodupKeys
  exact hsorted.imp₂ (fun a b hle hne => lt_of_le_of_ne hle hne) (List.pairwise_map.mp hnodup)

/-- A query gives no row twice. -/
theorem nodup_query (table : JobTable) (order : RowOrder) (p : JobRow → Bool) :
    ((table.query order p).map (·.1)).Nodup := by
  refine ((order.perm _).map _).nodup_iff.mpr ?_
  have hpairwise := (pairwise_rowsById table).sublist (List.filter_sublist (p := p))
  exact List.pairwise_map.mpr (hpairwise.imp fun hlt => hlt.ne)

/-- Two tables that agree on the rows a query may select answer it alike. -/
theorem query_congr {a b : JobTable} (order : RowOrder)
    (hsame : ∀ row : JobRow, p row = true →
      (a.lookup row.1 = some row.2 ↔ b.lookup row.1 = some row.2)) :
    a.query order p = b.query order p := by
  have hmem : ∀ row, row ∈ a.rowsById.filter p ↔ row ∈ b.rowsById.filter p := by
    intro row
    simp only [List.mem_filter, mem_rowsById]
    exact and_congr_left fun hp => hsame row hp
  have hpairwise : ∀ table : JobTable,
      (table.rowsById.filter p).Pairwise fun a b => a.1 < b.1 :=
    fun table => (pairwise_rowsById table).sublist List.filter_sublist
  have hnodup : ∀ table : JobTable, (table.rowsById.filter p).Nodup :=
    fun table => (hpairwise table).imp fun hlt heq => absurd (congrArg Prod.fst heq) hlt.ne
  have hperm := (List.perm_ext_iff_of_nodup (hnodup a) (hnodup b)).mpr hmem
  unfold query
  rw [hperm.eq_of_pairwise (fun _ _ _ _ hlt hgt => absurd (hlt.trans hgt) (lt_irrefl _))
    (hpairwise a) (hpairwise b)]

end JobTable

/-! ## What an owner sees of a row -/

/-- The row, if it is the owner's. -/
def ownRow (ownerId : UUID) (row : Option Job) : Option Job :=
  row.filter fun job => job.ownerId = ownerId

theorem ownRow_eq_some {ownerId : UUID} {row : Option Job} {job : Job} :
    ownRow ownerId row = some job ↔ row = some job ∧ job.ownerId = ownerId := by
  simp [ownRow, Option.filter_eq_some_iff]

theorem ownRow_of_own {ownerId : UUID} {job : Job} (howner : job.ownerId = ownerId) :
    ownRow ownerId (some job) = some job :=
  ownRow_eq_some.mpr ⟨rfl, howner⟩

theorem ownRow_of_foreign {ownerId : UUID} {job : Job} (howner : job.ownerId ≠ ownerId) :
    ownRow ownerId (some job) = none := by
  simp [ownRow, howner]

theorem trashJob_ownRow (ownerId : UUID) (now : Timestamp) (row : Option Job) :
    trashJob ownerId now (ownRow ownerId row) = trashJob ownerId now row := by
  cases row with
  | none => rfl
  | some job =>
      by_cases howner : job.ownerId = ownerId
      · rw [ownRow_of_own howner]
      · simp [ownRow_of_foreign howner, trashJob, howner]

theorem restoreJob_ownRow (ownerId : UUID) (row : Option Job) :
    restoreJob ownerId (ownRow ownerId row) = restoreJob ownerId row := by
  cases row with
  | none => rfl
  | some job =>
      by_cases howner : job.ownerId = ownerId
      · rw [ownRow_of_own howner]
      · simp [ownRow_of_foreign howner, restoreJob, howner]

theorem prepareRetry_ownRow (jobId ownerId : UUID) (now : Timestamp) (row : Option Job) :
    prepareRetry jobId ownerId now (ownRow ownerId row) = prepareRetry jobId ownerId now row := by
  cases row with
  | none => rfl
  | some job =>
      by_cases howner : job.ownerId = ownerId
      · rw [ownRow_of_own howner]
      · simp [ownRow_of_foreign howner, prepareRetry, howner]

namespace JobTable

/-! ## One row, and pages of rows -/

/-- `get_job`.  An owner does not see another's row and, unless the caller asks for it, no
row in the trash. -/
def getJob (table : JobTable) (jobId : UUID) (ownerId : Option UUID)
    (includeTrashed : Bool) : Option Job :=
  (table.lookup jobId).filter fun job =>
    ownerId.all (· = job.ownerId) ∧
      ¬ (ownerId.isSome ∧ job.deletedAt.isSome ∧ ¬ includeTrashed)

theorem getJob_ownRow (table : JobTable) (jobId ownerId : UUID) (includeTrashed : Bool) :
    table.getJob jobId (some ownerId) includeTrashed =
      (ownRow ownerId (table.lookup jobId)).filter fun job =>
        job.deletedAt = none ∨ includeTrashed = true := by
  cases hrow : table.lookup jobId with
  | none => simp [getJob, ownRow, hrow]
  | some job =>
      by_cases howner : job.ownerId = ownerId
      · cases includeTrashed <;>
          simp [getJob, ownRow, hrow, howner, Option.filter, Option.isSome_iff_ne_none]
      · simp [getJob, ownRow, hrow, howner, Ne.symm howner, Option.filter]

theorem deleteJob_ownRow (table : JobTable) (jobId ownerId : UUID) :
    table.deleteJob jobId (some ownerId) =
      (ownRow ownerId (table.lookup jobId)).map fun job => (job, table.erase jobId) := by
  cases hrow : table.lookup jobId with
  | none => simp [deleteJob, ownRow, hrow]
  | some job =>
      by_cases howner : job.ownerId = ownerId
      · simp [deleteJob, ownRow, hrow, howner, Option.filter]
      · simp [deleteJob, ownRow, hrow, howner, Ne.symm howner]

/-- `ORDER BY key DESC, id LIMIT limit OFFSET offset`. -/
def page (rows : List JobRow) (key : Job → Timestamp) (limit offset : ℕ) : List JobRow :=
  ((rows.insertionSort fun a b =>
    key b.2 < key a.2 ∨ key a.2 = key b.2 ∧ a.1 ≤ b.1).drop offset).take limit

theorem mem_of_mem_page {rows : List JobRow} {key : Job → Timestamp} {limit offset : ℕ}
    {row : JobRow} (hrow : row ∈ page rows key limit offset) : row ∈ rows :=
  (List.mem_insertionSort _).mp (List.mem_of_mem_drop (List.mem_of_mem_take hrow))

theorem nodup_page {rows : List JobRow} (hrows : (rows.map (·.1)).Nodup)
    (key : Job → Timestamp) (limit offset : ℕ) :
    ((page rows key limit offset).map (·.1)).Nodup := by
  have hsorted := ((List.perm_insertionSort (fun a b : JobRow =>
    key b.2 < key a.2 ∨ key a.2 = key b.2 ∧ a.1 ≤ b.1) rows).map (·.1)).nodup_iff.mpr hrows
  exact hsorted.sublist (List.Sublist.map _
    ((List.take_sublist limit _).trans (List.drop_sublist offset _)))

/-- `list_jobs`; no owner is every owner. -/
def listJobs (table : JobTable) (order : RowOrder) (ownerId : Option UUID)
    (limit offset : ℕ) : List JobRow :=
  page (table.query order fun row =>
    row.2.deletedAt = none ∧ ownerId.all (· = row.2.ownerId)) (·.createdAt) limit offset

/-- `list_trash`. -/
def listTrash (table : JobTable) (order : RowOrder) (ownerId : UUID) (limit offset : ℕ) :
    List JobRow :=
  page (table.query order fun row => row.2.ownerId = ownerId ∧ row.2.deletedAt ≠ none)
    (·.deletedAt.getD 0) limit offset

/-! ## The original of an edit -/

/-- `MAX_EDIT_CHAIN`. -/
def maxEditChain : ℕ := 8

/-- The query of one hop: the uploads and the outputs the pending jobs may be edits of, of
any of their owners. -/
def editCandidates (table : JobTable) (order : RowOrder) (pending : List JobRow) :
    List JobRow :=
  table.query order fun row =>
    row.2.ownerId ∈ pending.map (·.2.ownerId) ∧
      ((row.2.operations = none ∧ row.2.sourceKey ∈ pending.map (·.2.sourceKey)) ∨
        row.2.outputKey.any (· ∈ pending.map (·.2.sourceKey)))

/-- The parent of one job among them.  Of two rows with one key the later one is in the
dictionary. -/
def editParent (candidates : List JobRow) (current : JobRow) : Option JobRow :=
  let upload := (candidates.filter fun row =>
    row.2.operations = none ∧ row.2.sourceKey = current.2.sourceKey).getLast?
  let output := (candidates.filter fun row =>
    row.2.outputKey = some current.2.sourceKey ∧ current.2.sourceKey ≠ "").getLast?
  (upload.or output).filter fun parent =>
    parent.2.ownerId = current.2.ownerId ∧ parent.1 ≠ current.1

/-- The loop, hop by hop: `pending` are the furthest ancestors found of the jobs whose chain
goes on, `roots` the furthest found of every job, latest first. -/
def followEdits (table : JobTable) (orders : ℕ → RowOrder) :
    ℕ → List (UUID × JobRow) → List (UUID × JobRow) → List (UUID × JobRow)
  | 0, _, roots => roots
  | hops + 1, pending, roots =>
      if pending.isEmpty then roots
      else
        let candidates := table.editCandidates (orders hops) (pending.map (·.2))
        let found := pending.filterMap fun entry =>
          (editParent candidates entry.2).map fun parent => (entry.1, parent)
        followEdits table orders hops (found.filter fun entry => entry.2.2.operations.isSome)
          (found ++ roots)

/-- `resolve_edit_roots`. -/
def resolveEditRoots (table : JobTable) (orders : ℕ → RowOrder) (jobs : List JobRow) :
    List (UUID × JobRow) :=
  followEdits table orders maxEditChain
    ((jobs.filter fun row => row.2.operations.isSome).map fun row => (row.1, row))
    (jobs.map fun row => (row.1, row))

/-- `roots[job.id]`. -/
def rootOf (roots : List (UUID × JobRow)) (row : JobRow) : JobRow :=
  (roots.lookup row.1).getD row

end JobTable

end Repositories
end MediaPlayer
