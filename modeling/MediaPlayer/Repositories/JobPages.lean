import Mathlib.Data.Prod.Lex
import MediaPlayer.Library.Paging
import MediaPlayer.Repositories.JobQueries

/-!
# The pages of a list of jobs

`list_jobs` and `list_trash`, read page by page.

* `rowPlace` — the place of a row: the later timestamp first, and the id breaks ties.
* `Listing` — the rows a condition selects, each once and by their places; there is one.
* `pages_list_every_row` — the pages make up the listing, in whatever order the database holds
  the rows at each of the queries.
-/

namespace MediaPlayer
namespace Repositories

open Library Models

/-- What `ORDER BY key DESC, id` compares; no two rows of a table have the same. -/
def rowPlace (key : Job → Timestamp) (row : JobRow) : Timestampᵒᵈ ×ₗ UUID :=
  toLex (OrderDual.toDual (key row.2), row.1)

theorem rowPlace_le_iff {key : Job → Timestamp} {a b : JobRow} :
    rowPlace key a ≤ rowPlace key b ↔
      key b.2 < key a.2 ∨ key a.2 = key b.2 ∧ a.1 ≤ b.1 := by
  unfold rowPlace
  rw [Prod.Lex.toLex_le_toLex]
  rfl

/-- The places tell the ids. -/
theorem rowPlace_lt_of_le {key : Job → Timestamp} {a b : JobRow}
    (hle : rowPlace key a ≤ rowPlace key b) (hne : a.1 ≠ b.1) :
    rowPlace key a < rowPlace key b := by
  refine lt_of_le_of_ne hle fun heq => hne ?_
  exact congrArg (fun place => (ofLex place).2) heq

/-- The rows a condition selects, each once, by their places. -/
structure Listing (table : JobTable) (p : JobRow → Prop) (key : Job → Timestamp)
    (rows : List JobRow) : Prop where
  sorted : rows.Pairwise fun a b => rowPlace key a < rowPlace key b
  nodup : (rows.map (·.1)).Nodup
  mem : ∀ row, row ∈ rows ↔ table.lookup row.1 = some row.2 ∧ p row

section

variable {table : JobTable} {p : JobRow → Prop} {key : Job → Timestamp}

/-- A condition has one listing. -/
theorem Listing.unique {rows others : List JobRow} (h : Listing table p key rows)
    (h' : Listing table p key others) : rows = others := by
  have hperm : rows.Perm others :=
    (List.perm_ext_iff_of_nodup h.nodup.of_map h'.nodup.of_map).mpr fun row =>
      (h.mem row).trans (h'.mem row).symm
  refine hperm.eq_of_pairwise (fun a b _ _ hlt hgt => ?_) h.sorted h'.sorted
  exact absurd (hlt.trans hgt) (lt_irrefl _)

/-- The rows of a query, all on one page. -/
def sortedRows (key : Job → Timestamp) (rows : List JobRow) : List JobRow :=
  rows.insertionSort fun a b => key b.2 < key a.2 ∨ key a.2 = key b.2 ∧ a.1 ≤ b.1

theorem page_eq (rows : List JobRow) (limit offset : ℕ) :
    JobTable.page rows key limit offset = ((sortedRows key rows).drop offset).take limit := rfl

theorem pairwise_sortedRows (rows : List JobRow) :
    (sortedRows key rows).Pairwise fun a b => rowPlace key a ≤ rowPlace key b := by
  have htotal : Std.Total fun a b : JobRow =>
      key b.2 < key a.2 ∨ key a.2 = key b.2 ∧ a.1 ≤ b.1 :=
    ⟨fun a b => by
      rw [← rowPlace_le_iff, ← rowPlace_le_iff]
      exact le_total _ _⟩
  have htrans : IsTrans JobRow fun a b =>
      key b.2 < key a.2 ∨ key a.2 = key b.2 ∧ a.1 ≤ b.1 :=
    ⟨fun a b c hab hbc => by
      rw [← rowPlace_le_iff] at hab hbc ⊢
      exact hab.trans hbc⟩
  exact (List.pairwise_insertionSort _ rows).imp rowPlace_le_iff.mpr

theorem listing_sortedRows (table : JobTable) (order : RowOrder) (key : Job → Timestamp)
    (p : JobRow → Prop) [DecidablePred p] :
    Listing table p key (sortedRows key (table.query order fun row => p row)) := by
  have hperm : (sortedRows key (table.query order fun row => p row)).Perm
      (table.query order fun row => p row) := List.perm_insertionSort _ _
  have hnodup := (hperm.map (·.1)).nodup_iff.mpr (JobTable.nodup_query table order _)
  refine ⟨?_, hnodup, fun row => ?_⟩
  · exact (pairwise_sortedRows _).imp₂ (fun a b hle hne => rowPlace_lt_of_le hle hne)
      (List.pairwise_map.mp hnodup)
  · rw [hperm.mem_iff, JobTable.mem_query, decide_eq_true_iff]

/-- The pages of a query, read to the first that is empty. -/
theorem Listing.readPages_eq {rows : List JobRow} [DecidablePred p]
    (h : Listing table p key rows) (orders : ℕ → RowOrder) {limit fuel : ℕ} (hlimit : 1 ≤ limit)
    (hfuel : rows.length < fuel) :
    readPages (fun n => JobTable.page (table.query (orders n) fun row => p row) key limit
      (n * limit)) fuel 0 = some rows := by
  have hpages : ∀ n, JobTable.page (table.query (orders n) fun row => p row) key limit
      (n * limit) = (rows.drop (n * limit)).take limit := by
    intro n
    rw [page_eq, (listing_sortedRows table (orders n) key p).unique h]
  have hall : rows.drop (0 * limit) = rows := by rw [Nat.zero_mul, List.drop_zero]
  have hread := readPages_slices (n := 0) hlimit hpages (hall.symm ▸ hfuel)
  exact hall ▸ hread

end

/-- What `list_jobs` selects; no owner is every owner. -/
def Listed (ownerId : Option UUID) (row : JobRow) : Prop :=
  row.2.deletedAt = none ∧ ∀ owner ∈ ownerId, row.2.ownerId = owner

/-- What `list_trash` selects. -/
def InTrash (ownerId : UUID) (row : JobRow) : Prop :=
  row.2.ownerId = ownerId ∧ row.2.deletedAt ≠ none

/-- The time of a row in the trash. -/
def trashedAt (job : Job) : Timestamp := job.deletedAt.getD 0

theorem Listing.congr {table : JobTable} {p q : JobRow → Prop} {key : Job → Timestamp}
    {rows : List JobRow} (h : Listing table p key rows) (hsame : ∀ row, p row ↔ q row) :
    Listing table q key rows :=
  ⟨h.sorted, h.nodup, fun row => (h.mem row).trans (and_congr_right fun _ => hsame row)⟩

theorem listed_iff {ownerId : Option UUID} {row : JobRow} :
    row.2.deletedAt = none ∧ ownerId.all (· = row.2.ownerId) ↔ Listed ownerId row := by
  cases ownerId with
  | none => simp [Listed]
  | some owner => simp [Listed, eq_comm]

/-- Page after page until one is empty, a list of jobs gives every row it selects, and no row
twice; the order is one, whatever the size of a page and the orders of the database are. -/
theorem pages_list_every_row (table : JobTable) :
    (∀ ownerId, ∃ rows, Listing table (Listed ownerId) (·.createdAt) rows ∧
      ∀ (orders : ℕ → RowOrder) (limit fuel : ℕ), 1 ≤ limit → rows.length < fuel →
        readPages (fun n => table.listJobs (orders n) ownerId limit (n * limit)) fuel 0 =
          some rows) ∧
    ∀ ownerId, ∃ rows, Listing table (InTrash ownerId) trashedAt rows ∧
      ∀ (orders : ℕ → RowOrder) (limit fuel : ℕ), 1 ≤ limit → rows.length < fuel →
        readPages (fun n => table.listTrash (orders n) ownerId limit (n * limit)) fuel 0 =
          some rows := by
  constructor
  · intro ownerId
    have hlisting := listing_sortedRows table .byId (·.createdAt) fun row =>
      row.2.deletedAt = none ∧ ownerId.all (· = row.2.ownerId)
    refine ⟨_, hlisting.congr fun row => listed_iff, fun orders limit fuel hlimit hfuel => ?_⟩
    exact hlisting.readPages_eq orders hlimit hfuel
  · intro ownerId
    have hlisting := listing_sortedRows table .byId trashedAt fun row =>
      row.2.ownerId = ownerId ∧ row.2.deletedAt ≠ none
    refine ⟨_, hlisting, fun orders limit fuel hlimit hfuel => ?_⟩
    exact hlisting.readPages_eq orders hlimit hfuel

/-! ## Two uploads of one transaction -/

def RowOrder.reversed : RowOrder := ⟨List.reverse, List.reverse_perm⟩

def tiedJob : Job where
  ownerId := 7
  filename := "demo.mp4"
  sourceKey := "uploads/demo.mp4"
  createdAt := 5
  updatedAt := 5
  checks := by
    constructor <;> simp

def tiedTable : JobTable := (JobTable.put ∅ 1 (some tiedJob)).put 2 (some tiedJob)

/-- The database holds them the other way round at every second query. -/
def turningOrders (n : ℕ) : RowOrder := if n % 2 = 0 then .byId else .reversed

theorem pages_list_every_row_tied :
    ∃ rows, Listing tiedTable (Listed (some 7)) (·.createdAt) rows ∧
      readPages (fun n => tiedTable.listJobs (turningOrders n) (some 7) 1 (n * 1))
        (rows.length + 1) 0 = some rows := by
  obtain ⟨rows, hlisting, hread⟩ := (pages_list_every_row tiedTable).1 (some 7)
  exact ⟨rows, hlisting, hread turningOrders 1 _ (by decide) (Nat.lt_succ_self _)⟩

example : (readPages (fun n => tiedTable.listJobs (turningOrders n) none 1 (n * 1)) 3 0).map
    (·.map (·.1)) = some [1, 2] := by decide

end Repositories
end MediaPlayer
