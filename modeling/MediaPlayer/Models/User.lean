import MediaPlayer.Models.Job

/-!
# Users

`User` of `app/models/user.py`.  `ck_users_role` is the type of the roles; the index on the
email is a condition of the table, not of a row.
-/

namespace MediaPlayer
namespace Models

/-- `UserRole`. -/
inductive UserRole
  | user
  | operator
  deriving DecidableEq, Repr

/-- The text stored for a role. -/
def UserRole.value : UserRole → String
  | user => "user"
  | operator => "operator"

/-- A row of the table, without its id. -/
structure User where
  email : String
  passwordHash : String
  role : UserRole := .user
  createdAt : Timestamp := 0
  deriving DecidableEq

end Models
end MediaPlayer
