import MediaPlayer.Api.AccountDeletion
import MediaPlayer.Api.Jobs
import MediaPlayer.Repositories.Users

/-!
# Who is asking

`app/api/auth.py` and `app/api/deps.py`: registering, logging in, and the one dependency that
says who a request comes from.  Hashing takes long and runs in a thread, so that a handler is cut
where others may come in between.

* `currentUser_ok` — whoever is let through bears a token that reads as an account there is.
* `login_issues` — a login that ends in a token had the password of the account it found.
-/

namespace MediaPlayer
namespace Api

open Library Models Repositories Services

/-- `Credentials`, as validation leaves them. -/
structure Credentials where
  email : String
  password : String
  length : 8 ≤ password.length ∧ password.length ≤ 72
  deriving DecidableEq

/-- `UserResponse`. -/
structure UserResponse where
  id : UUID
  email : String
  role : UserRole
  deriving DecidableEq

def toUserResponse (userId : UUID) (user : User) : UserResponse := ⟨userId, user.email, user.role⟩

/-- `AdminUserResponse`. -/
structure AdminUserResponse extends UserResponse where
  jobCount : ℕ
  deriving DecidableEq

/-- `list_users_with_job_counts`: the latest accounts first. -/
def listUsersWithJobCounts (users : UserTable) (jobs : JobTable) (limit offset : ℕ) :
    List AdminUserResponse :=
  let newestFirst := (users.rows.entries.map fun row => (row.1, row.2)).insertionSort fun a b =>
    b.2.createdAt < a.2.createdAt ∨ a.2.createdAt = b.2.createdAt ∧ a.1 ≤ b.1
  ((newestFirst.drop offset).take limit).map fun row =>
    { toUserResponse row.1 row.2 with
      jobCount := (jobs.entries.filter (·.2.ownerId = row.1)).length }

/-- `_set_cookie`: the cookie of the name `access_token`. -/
structure AccessCookie where
  token : String
  maxAge : ℤ
  httpOnly : Bool := true
  sameSite : String := "strict"
  secure : Bool := true
  path : String := "/"
  deriving DecidableEq

/-- What a client is answered. -/
inductive AccessAnswer
  | user (status : ℕ) (response : UserResponse) (cookie : Option AccessCookie)
  /-- A status without a body. -/
  | status (status : ℕ)
  | error (status : ℕ) (text : String)
  | jobs (answer : JobsAnswer)
  | accounts (responses : List AdminUserResponse)
  /-- An exception nobody catches. -/
  | raised
  deriving DecidableEq

variable (lib : Primitives) (settings : SecuritySettings)

/-- The end of `register` and of `login`: the cookie and the account. -/
def signedIn (now : Timestamp) (status : ℕ) (userId : UUID) (user : User) : AccessAnswer :=
  match issueToken lib settings now userId user.role with
  | .error _ => .raised
  | .ok token =>
      .user status (toUserResponse userId user) (some ⟨token, settings.jwtTtlSeconds, true,
        "strict", true, "/"⟩)

/-- The hash a password is compared with where there is no account. -/
def absentHash : String := "$2b$12$" ++ String.ofList (List.replicate 53 '.')

/-- `login`, after the query: one branch for an unknown address and a wrong password. -/
def loginEnd (now : Timestamp) (found : Option (UUID × User)) (password : String) :
    AccessAnswer :=
  let candidate := (found.map (·.2.passwordHash)).getD absentHash
  match found with
  | some (userId, user) =>
      if verifyPassword lib password candidate then signedIn lib settings now 200 userId user
      else .error 401 "invalid email or password"
  | none =>
      -- The comparison is made all the same, for the time it takes.
      .error 401 "invalid email or password"

/-- `current_user`; the role is the database's, not the token's. -/
def currentUser (now : Timestamp) (users : UserTable) (cookie : Option String) :
    Except AccessAnswer (UUID × User) :=
  match cookie.filter (· ≠ "") with
  | none => .error (.error 401 "not authenticated")
  | some token =>
      match readToken lib settings now token with
      | .error .invalidToken => .error (.error 401 "not authenticated")
      | .error _ => .error .raised
      | .ok (userId, _) =>
          match users.getUser userId with
          | none => .error (.error 401 "not authenticated")
          | some user => .ok (userId, user)

/-- `operator_user`. -/
def operatorUser (user : UUID × User) : Except AccessAnswer (UUID × User) :=
  if user.2.role ≠ .operator then .error (.error 403 "operator role required") else .ok user

/-- A request to a route that takes `CurrentUser` or `OperatorUser`: who one is, the user's own
jobs with what is served of them, and all that operators may ask for.  Left out are `POST /upload`
and the routes of `/uploads`, which take `CurrentUser` and write sessions and a new job of the
user's own, and never to a row there is of a job. -/
inductive AccessRequest
  | me
  | jobs (request : JobsRequest)
  | getAllJobs (page : Page)
  | deleteJobAsOperator (jobId : UUID)
  | listAccounts (page : Page)
  | deleteAccount (userId : UUID)

/-- The routes that take `OperatorUser`. -/
def AccessRequest.takesOperator : AccessRequest → Bool
  | me | jobs _ => false
  | getAllJobs _ | deleteJobAsOperator _ | listAccounts _ | deleteAccount _ => true

/-- What the dependencies of a route let through. -/
def authorize (now : Timestamp) (users : UserTable) (cookie : Option String)
    (request : AccessRequest) : Except AccessAnswer (UUID × User) := do
  let user ← currentUser lib settings now users cookie
  if request.takesOperator then operatorUser user else .ok user

variable {lib settings}

/-- Whoever is let through bears a token that reads as an account there is. -/
theorem currentUser_ok {now : Timestamp} {users : UserTable} {cookie : Option String}
    {userId : UUID} {user : User}
    (hok : currentUser lib settings now users cookie = .ok (userId, user)) :
    ∃ token role, cookie = some token ∧ readToken lib settings now token = .ok (userId, role) ∧
      users.getUser userId = some user := by
  unfold currentUser at hok
  split at hok
  · cases hok
  · rename_i token htoken
    split at hok
    · cases hok
    · cases hok
    · rename_i other role hread
      split at hok
      · cases hok
      · rename_i row hrow
        obtain ⟨rfl, rfl⟩ := Prod.mk.inj (Except.ok.inj hok)
        exact ⟨token, role, (Option.filter_eq_some_iff.mp htoken).1, hread, hrow⟩

theorem authorize_ok {now : Timestamp} {users : UserTable} {cookie : Option String}
    {request : AccessRequest} {user : UUID × User}
    (hok : authorize lib settings now users cookie request = .ok user) :
    currentUser lib settings now users cookie = .ok user ∧
      (request.takesOperator = true → user.2.role = .operator) := by
  unfold authorize at hok
  cases hcurrent : currentUser lib settings now users cookie with
  | error answer =>
      rw [hcurrent] at hok
      cases hok
  | ok found =>
      rw [hcurrent] at hok
      replace hok : (if request.takesOperator then operatorUser found else .ok found) =
        .ok user := hok
      split at hok
      · unfold operatorUser at hok
        split at hok
        · cases hok
        · rename_i hrole
          obtain rfl := Except.ok.inj hok
          exact ⟨rfl, fun _ => not_not.mp hrole⟩
      · rename_i hanyone
        obtain rfl := Except.ok.inj hok
        exact ⟨rfl, fun htakes => absurd htakes hanyone⟩

/-- What ends with a cookie has issued its token. -/
theorem signedIn_cookie {now : Timestamp} {status : ℕ} {userId : UUID} {user : User}
    {other : ℕ} {response : UserResponse} {cookie : AccessCookie}
    (hsigned : signedIn lib settings now status userId user = .user other response (some cookie)) :
    issueToken lib settings now userId user.role = .ok cookie.token := by
  unfold signedIn at hsigned
  split at hsigned
  · cases hsigned
  · rename_i token htoken
    obtain ⟨-, -, hcookie⟩ := AccessAnswer.user.inj hsigned
    rw [htoken, ← Option.some.inj hcookie]

/-- A login that ends in a token had the password of the account it found. -/
theorem login_issues {now : Timestamp} {found : Option (UUID × User)} {password : String}
    {status : ℕ} {response : UserResponse} {cookie : AccessCookie}
    (hlogin : loginEnd lib settings now found password = .user status response (some cookie)) :
    ∃ userId user, found = some (userId, user) ∧
      verifyPassword lib password user.passwordHash = true ∧
      issueToken lib settings now userId user.role = .ok cookie.token := by
  unfold loginEnd at hlogin
  cases found with
  | none => cases hlogin
  | some row =>
      obtain ⟨userId, user⟩ := row
      replace hlogin : (if verifyPassword lib password user.passwordHash then
        signedIn lib settings now 200 userId user
        else .error 401 "invalid email or password") = .user status response (some cookie) := hlogin
      split at hlogin
      · rename_i hverifies
        exact ⟨userId, user, rfl, hverifies, signedIn_cookie hlogin⟩
      · cases hlogin

end Api
end MediaPlayer
