import MediaPlayer.Library.Parties
import MediaPlayer.Services.Security

/-!
# The user repository

`app/repositories/users.py`.  The table carries its unique index on the email, so that whatever
is done to it leaves one account for an address.

* `createUser_some` — a new account takes an address that was free.
* `getUserByEmail_eq_some` — the account of an address is the one that has it.
-/

namespace MediaPlayer
namespace Repositories

open Library Models Services

/-- `ix_users_email`: no two rows have one address. -/
def UniqueEmail (rows : Parties UUID User) : Prop :=
  ∀ i j a b, rows.lookup i = some a → rows.lookup j = some b → a.email = b.email → i = j

/-- A row may be written if no other row has its address. -/
theorem UniqueEmail.insert {rows : Parties UUID User} (hrows : UniqueEmail rows) {userId : UUID}
    {row : User} (hfree : ∀ i a, i ≠ userId → rows.lookup i = some a → a.email ≠ row.email) :
    UniqueEmail (rows.insert userId row) := by
  intro i j a b ha hb heq
  by_cases hi : i = userId
  · by_cases hj : j = userId
    · exact hi.trans hj.symm
    · subst hi
      rw [AList.lookup_insert] at ha
      rw [AList.lookup_insert_ne hj] at hb
      obtain rfl := Option.some.inj ha
      exact absurd heq.symm (hfree j b hj hb)
  · rw [AList.lookup_insert_ne hi] at ha
    by_cases hj : j = userId
    · subst hj
      rw [AList.lookup_insert] at hb
      obtain rfl := Option.some.inj hb
      exact absurd heq (hfree i a hi ha)
    · rw [AList.lookup_insert_ne hj] at hb
      exact hrows i j a b ha hb heq

/-- The table, with its index. -/
structure UserTable where
  rows : Parties UUID User := ∅
  uniqueEmail : UniqueEmail rows

namespace UserTable

/-- `get_user`. -/
def getUser (table : UserTable) (userId : UUID) : Option User := table.rows.lookup userId

/-- The rows that are left when some are deleted. -/
def keep (table : UserTable) (p : UUID → Bool) : UserTable where
  rows := Parties.filter table.rows fun userId _ => p userId
  uniqueEmail i j a b ha hb := by
    rw [Parties.lookup_filter] at ha hb
    exact table.uniqueEmail i j a b (Option.filter_eq_some_iff.mp ha).1
      (Option.filter_eq_some_iff.mp hb).1

/-- The role of an account is changed by hand, in the database. -/
def setRole (table : UserTable) (userId : UUID) (role : UserRole) : UserTable :=
  match hrow : table.rows.lookup userId with
  | none => table
  | some row =>
      { rows := table.rows.insert userId { row with role := role }
        uniqueEmail := table.uniqueEmail.insert fun i a hi ha heq =>
          hi (table.uniqueEmail i userId a row ha hrow heq) }

end UserTable

variable (lib : Primitives)

/-- `email.strip().lower()`. -/
def normalizeEmail (email : String) : String := lib.lower (strip email)

/-- Whether the index refuses the address. -/
def UserTable.taken (table : UserTable) (email : String) : Bool :=
  table.rows.entries.any fun row => row.2.email = email

theorem UserTable.not_taken {table : UserTable} {email : String}
    (hfree : ¬table.taken email = true) {userId : UUID} {row : User}
    (hrow : table.rows.lookup userId = some row) : row.email ≠ email := by
  intro heq
  refine hfree (List.any_eq_true.mpr ⟨⟨userId, row⟩, AList.mem_lookup_iff.mp hrow, ?_⟩)
  exact decide_eq_true heq

/-- `create_user`; `none` for the `IntegrityError` of a second row with the address, or of an id
that is taken. -/
def createUser (table : UserTable) (userId : UUID) (email passwordHash : String)
    (now : Timestamp) : Option UserTable :=
  if hfree : table.taken (normalizeEmail lib email) = true ∨
      (table.rows.lookup userId).isSome then none
  else some {
    rows := table.rows.insert userId
      { email := normalizeEmail lib email, passwordHash := passwordHash, createdAt := now }
    uniqueEmail := table.uniqueEmail.insert fun _ _ _ ha =>
      UserTable.not_taken (fun htaken => hfree (.inl htaken)) ha }

/-- `get_user_by_email`. -/
def getUserByEmail (table : UserTable) (email : String) : Option (UUID × User) :=
  (table.rows.entries.find? fun row => row.2.email = normalizeEmail lib email).map
    fun row => (row.1, row.2)

variable {lib} {table after : UserTable}

/-- The account of an address is the one that has it. -/
theorem getUserByEmail_eq_some {email : String} {userId : UUID} {row : User} :
    getUserByEmail lib table email = some (userId, row) ↔
      table.getUser userId = some row ∧ row.email = normalizeEmail lib email := by
  have hhas : ∀ found : Sigma fun _ : UUID => User,
      (table.rows.entries.find? fun row => row.2.email = normalizeEmail lib email) = some found →
      table.getUser found.1 = some found.2 ∧ found.2.email = normalizeEmail lib email := by
    intro found hfound
    have hemail := List.find?_some hfound
    exact ⟨AList.mem_lookup_iff.mpr (List.mem_of_find?_eq_some hfound), of_decide_eq_true hemail⟩
  constructor
  · intro hget
    obtain ⟨found, hfound, hpair⟩ := Option.map_eq_some_iff.mp hget
    obtain ⟨rfl, rfl⟩ := Prod.mk.inj hpair
    exact hhas found hfound
  · rintro ⟨hrow, hemail⟩
    have hmem : (⟨userId, row⟩ : Sigma fun _ : UUID => User) ∈ table.rows.entries :=
      AList.mem_lookup_iff.mp hrow
    have hsome : (table.rows.entries.find? fun row : Sigma fun _ : UUID => User =>
        row.2.email = normalizeEmail lib email).isSome :=
      List.find?_isSome.mpr ⟨_, hmem, decide_eq_true hemail⟩
    obtain ⟨found, hfound⟩ := Option.isSome_iff_exists.mp hsome
    obtain ⟨hother, hsame⟩ := hhas found hfound
    -- No other row has the address.
    obtain ⟨other, found⟩ := found
    obtain rfl := table.uniqueEmail other userId _ _ hother hrow (hsame.trans hemail.symm)
    obtain rfl := Option.some.inj (hother.symm.trans hrow)
    exact Option.map_eq_some_iff.mpr ⟨_, hfound, rfl⟩

theorem UserTable.keep_getUser {p : UUID → Bool} {userId : UUID} {row : User}
    (hrow : (table.keep p).getUser userId = some row) :
    table.getUser userId = some row ∧ p userId = true := by
  have hfiltered := (Parties.lookup_filter (fun userId _ => p userId) userId).symm.trans hrow
  exact Option.filter_eq_some_iff.mp hfiltered

/-- Only the role of an account is changed by hand. -/
theorem UserTable.setRole_getUser {changed userId : UUID} {role : UserRole} {row : User}
    (hrow : (table.setRole changed role).getUser userId = some row) :
    ∃ before, table.getUser userId = some before ∧ row.email = before.email ∧
      row.passwordHash = before.passwordHash := by
  unfold UserTable.setRole at hrow
  split at hrow
  · exact ⟨row, hrow, rfl, rfl⟩
  · rename_i before hbefore
    refine Parties.forall_insert (p := fun userId row => ∃ before,
      table.getUser userId = some before ∧ row.email = before.email ∧
        row.passwordHash = before.passwordHash) (fun other found _ hfound => ?_) ?_ userId row hrow
    · exact ⟨found, hfound, rfl, rfl⟩
    · exact ⟨before, hbefore, rfl, rfl⟩

theorem UserTable.setRole_keeps {changed userId : UUID} {role : UserRole}
    (hrow : (table.setRole changed role).getUser userId = none) : table.getUser userId = none := by
  unfold UserTable.setRole at hrow
  split at hrow
  · exact hrow
  · unfold UserTable.getUser at hrow ⊢
    by_cases hsame : userId = changed
    · subst hsame
      rw [AList.lookup_insert] at hrow
      cases hrow
    · exact (AList.lookup_insert_ne hsame).symm.trans hrow

/-- A new account: its address was free, and nothing else has changed. -/
theorem createUser_some {userId : UUID} {email passwordHash : String} {now : Timestamp}
    (hcreate : createUser lib table userId email passwordHash now = some after) :
    table.getUser userId = none ∧
      after.rows = table.rows.insert userId
        { email := normalizeEmail lib email, passwordHash := passwordHash, createdAt := now } := by
  unfold createUser at hcreate
  split at hcreate
  · cases hcreate
  · rename_i hfree
    obtain rfl := Option.some.inj hcreate
    exact ⟨Option.not_isSome_iff_eq_none.mp fun h => hfree (.inr h), rfl⟩

end Repositories
end MediaPlayer
