import MediaPlayer.Api.Auth
import MediaPlayer.Api.OwnerView

/-!
# Requests and the accounts they act for

Any number of registrations, logins and requests, interleaved; operators delete jobs and accounts,
and roles are changed by hand in the database.  A request is cut where others may come in between:
around the hashing of a password, and between `current_user` and the route.

* `AccessRuns.Guarded` — what is known of the tokens and of every party that is under way.
* `access_controlled` — who acts for whom, and what a step does to whose rows.
-/

namespace MediaPlayer
namespace Api

open Library Models Repositories Services

/-- Who may take the next step. -/
inductive AccessParty
  /-- `register`, with the password hashed. -/
  | hashed (credentials : Credentials) (passwordHash : String)
  /-- `register`, after its commit. -/
  | created (userId : UUID) (credentials : Credentials)
  /-- `login`, after its query. -/
  | found (user : Option (UUID × User)) (credentials : Credentials)
  /-- A request that was let through, as `user` was at the time `since`. -/
  | acting (user : UUID × User) (since : Timestamp) (token : String) (request : AccessRequest)
  | answered (answer : AccessAnswer)

/-- A token that was handed out, and what was presented for it; nobody reads it. -/
structure IssuedToken where
  token : String
  userId : UUID
  role : UserRole
  credentials : Credentials
  time : Timestamp

structure AccessRuns where
  users : UserTable
  uploads : UploadTable := ∅
  jobs : JobTable := ∅
  store : AccountStore
  clock : Timestamp
  parties : Parties ℕ AccessParty := ∅
  issued : List IssuedToken := []
  /-- The ids that were ever drawn for an account. -/
  drawn : List UUID := []

inductive AccessAction
  | tick (now : Timestamp)
  | register (party : ℕ) (credentials : Credentials) (salt : String)
  /-- The row of a registration is committed. -/
  | insert (party : ℕ) (userId : UUID) (out : CallOutcome)
  /-- The end of a registration. -/
  | finish (party : ℕ)
  | login (party : ℕ) (credentials : Credentials)
  /-- The end of a login. -/
  | compare (party : ℕ)
  | request (party : ℕ) (cookie : Option String) (request : AccessRequest)
  /-- The route of a request that was let through. -/
  | serve (party : ℕ) (world : World) (accountWorld : AccountWorld)
  | setRole (userId : UUID) (role : UserRole)

namespace AccessRuns

section System

variable (lib : Primitives) (settings : SecuritySettings) (jobsSettings : JobsSettings)

/-- A party has moved. -/
def move (s : AccessRuns) (party : ℕ) (next : AccessParty) : AccessRuns :=
  { s with parties := s.parties.insert party next }

/-- A party is answered, with a token if there is one in the answer. -/
def answer (s : AccessRuns) (party : ℕ) (userId : UUID) (role : UserRole)
    (credentials : Credentials) (answer : AccessAnswer) : AccessRuns :=
  match answer with
  | .user _ _ (some cookie) =>
      { s.move party (.answered answer) with
        issued := s.issued ++ [⟨cookie.token, userId, role, credentials, s.clock⟩] }
  | _ => s.move party (.answered answer)

/-- What `delete_account` starts from. -/
def accounts (s : AccessRuns) : Accounts where
  users := s.users.rows.keys.toFinset
  uploads := s.uploads
  jobs := s.jobs

/-- The route of a request that was let through. -/
def serve (s : AccessRuns) (party : ℕ) (user : UUID × User) (world : World)
    (accountWorld : AccountWorld) : AccessRequest → AccessRuns
  | .me => s.move party (.answered (.user 200 (toUserResponse user.1 user.2) none))
  | .jobs request =>
      let reply := handle jobsSettings user.1 world s.jobs request
      { s.move party (.answered (.jobs reply.answer)) with jobs := reply.table s.jobs }
  | .getAllJobs page =>
      s.move party (.answered (.jobs (getAllJobs jobsSettings world s.jobs page).answer))
  | .deleteJobAsOperator jobId =>
      let reply := deleteJobByIdAsOperator s.jobs jobId
      { s.move party (.answered (.jobs reply.answer)) with jobs := reply.table s.jobs }
  | .listAccounts page =>
      s.move party (.answered (.accounts
        (listUsersWithJobCounts s.users s.jobs page.limit page.offset)))
  | .deleteAccount userId =>
      let reply := deleteAccount accountWorld user.1 userId s.accounts s.store
      { s.move party (.answered ((reply.error.map (AccessAnswer.error reply.status)).getD
          (.status reply.status))) with
        users := s.users.keep (· ∈ reply.accounts.users)
        uploads := reply.accounts.uploads
        jobs := reply.accounts.jobs
        store := reply.store }

/-- One atomic step. -/
def step (s : AccessRuns) : AccessAction → Option AccessRuns
  | .tick now => if s.clock ≤ now then some { s with clock := now } else none
  | .register party credentials salt =>
      match s.parties.lookup party with
      | some _ => none
      | none =>
          match hashPassword lib salt credentials.password with
          | .error _ => some (s.move party (.answered .raised))
          | .ok passwordHash => some (s.move party (.hashed credentials passwordHash))
  | .insert party userId out =>
      match s.parties.lookup party with
      | some (.hashed credentials passwordHash) =>
          if userId ∈ s.drawn then none
          else
            match createUser lib s.users userId credentials.email passwordHash s.clock with
            | none => some (s.move party (.answered (.status 409)))
            | some users => some
                { s.move party (out.next (.created userId credentials) (.answered .raised)) with
                  users := out.effect (fun _ => users) s.users
                  drawn := userId :: s.drawn }
      | _ => none
  | .finish party =>
      match s.parties.lookup party with
      | some (.created userId credentials) =>
          match s.users.getUser userId with
          | none => some (s.move party (.answered .raised))
          | some user => some (s.answer party userId user.role credentials
              (signedIn lib settings s.clock 201 userId user))
      | _ => none
  | .login party credentials =>
      match s.parties.lookup party with
      | some _ => none
      | none => some (s.move party
          (.found (getUserByEmail lib s.users credentials.email) credentials))
  | .compare party =>
      match s.parties.lookup party with
      | some (.found none credentials) => some (s.move party
          (.answered (loginEnd lib settings s.clock none credentials.password)))
      | some (.found (some user) credentials) =>
          some (s.answer party user.1 user.2.role credentials
            (loginEnd lib settings s.clock (some user) credentials.password))
      | _ => none
  | .request party cookie request =>
      match s.parties.lookup party with
      | some _ => none
      | none =>
          match authorize lib settings s.clock s.users cookie request with
          | .error answer => some (s.move party (.answered answer))
          | .ok user => some (s.move party (.acting user s.clock (cookie.getD "") request))
  | .serve party world accountWorld =>
      match s.parties.lookup party with
      | some (.acting user _ _ request) =>
          -- The id of a new job is fresh.
          if (s.jobs.lookup world.newJobId).isNone then
            some (s.serve jobsSettings party user world accountWorld request)
          else none
      | _ => none
  | .setRole userId role => some { s with users := s.users.setRole userId role }

end System

end AccessRuns

/-- The system, with the accounts there are at the beginning and no token. -/
def accessSystem (lib : Primitives) (settings : SecuritySettings) (jobsSettings : JobsSettings) :
    StepSystem AccessRuns AccessAction where
  init s := s.parties = ∅ ∧ s.issued = [] ∧
    ∀ userId user, s.users.getUser userId = some user → userId ∈ s.drawn
  step := AccessRuns.step lib settings jobsSettings

/-- Without the secret nobody makes a token: one that decodes was handed out. -/
def Unforged (lib : Primitives) (settings : SecuritySettings) (s : AccessRuns) :
    AccessAction → Prop
  | .request _ (some token) _ =>
      (lib.decode token settings.jwtSecret settings.jwtAlgorithm s.clock).isSome →
        ∃ entry ∈ s.issued, entry.token = token
  | _ => True

namespace AccessRuns

variable {lib : Primitives} {settings : SecuritySettings} {jobsSettings : JobsSettings}
  {s t u : AccessRuns}

/-! ## What is known -/

/-- Whoever presented the credentials knows the address and the password of the account, if it
is there. -/
def Presented (lib : Primitives) (s : AccessRuns) (userId : UUID) (credentials : Credentials) :
    Prop :=
  ∀ row, s.users.getUser userId = some row → row.email = normalizeEmail lib credentials.email ∧
    verifyPassword lib credentials.password row.passwordHash = true

/-- The account is who it was, if it is there. -/
def SameAccount (s : AccessRuns) (userId : UUID) (before : User) : Prop :=
  ∀ row, s.users.getUser userId = some row →
    row.email = before.email ∧ row.passwordHash = before.passwordHash

/-- A token that was handed out. -/
structure Known (lib : Primitives) (settings : SecuritySettings) (s : AccessRuns)
    (entry : IssuedToken) : Prop where
  past : entry.time ≤ s.clock
  issued : issueToken lib settings entry.time entry.userId entry.role = .ok entry.token
  drawn : entry.userId ∈ s.drawn
  presented : Presented lib s entry.userId entry.credentials

/-- A request that was let through: it bears a live token, got by somebody who knew the account's
address and password, and an operator is one by the database. -/
structure Admitted (lib : Primitives) (settings : SecuritySettings) (s : AccessRuns)
    (user : UUID × User) (since : Timestamp) (token : String) (request : AccessRequest) :
    Prop where
  operator : request.takesOperator = true → user.2.role = .operator
  bearer : ∃ entry ∈ s.issued, entry.token = token ∧ entry.userId = user.1 ∧
    entry.time ≤ since ∧ since < entry.time + settings.jwtTtlSeconds * 1000000 ∧
    user.2.email = normalizeEmail lib entry.credentials.email ∧
    verifyPassword lib entry.credentials.password user.2.passwordHash = true

/-- What is known of a party. -/
def PartyKnown (lib : Primitives) (settings : SecuritySettings) (s : AccessRuns) :
    AccessParty → Prop
  | .hashed credentials passwordHash =>
      verifyPassword lib credentials.password passwordHash = true
  | .created userId credentials => userId ∈ s.drawn ∧ Presented lib s userId credentials
  | .found none _ => True
  | .found (some user) credentials => user.1 ∈ s.drawn ∧
      user.2.email = normalizeEmail lib credentials.email ∧ SameAccount s user.1 user.2
  | .acting user since token request => Admitted lib settings s user since token request
  | .answered _ => True

structure Guarded (lib : Primitives) (settings : SecuritySettings) (s : AccessRuns) : Prop where
  parties : ∀ party p, s.parties.lookup party = some p → PartyKnown lib settings s p
  issued : ∀ entry ∈ s.issued, Known lib settings s entry
  users : ∀ userId row, s.users.getUser userId = some row → userId ∈ s.drawn

/-! ## Earlier and later -/

/-- What holds between an earlier and a later state: nothing that was handed out is taken back,
no id is drawn twice, and an account keeps its address and its password. -/
structure Later (s t : AccessRuns) : Prop where
  clock : s.clock ≤ t.clock
  issued : ∀ entry ∈ s.issued, entry ∈ t.issued
  drawn : ∀ userId ∈ s.drawn, userId ∈ t.drawn
  accounts : ∀ userId ∈ s.drawn, ∀ row, t.users.getUser userId = some row →
    ∃ before, s.users.getUser userId = some before ∧ row.email = before.email ∧
      row.passwordHash = before.passwordHash

theorem Later.of_same (hclock : s.clock ≤ t.clock) (hissued : ∀ entry ∈ s.issued, entry ∈ t.issued)
    (hdrawn : t.drawn = s.drawn) (husers : t.users = s.users) : Later s t := by
  refine ⟨hclock, hissued, fun _ h => hdrawn ▸ h, fun userId _ row hrow => ?_⟩
  rw [husers] at hrow
  exact ⟨row, hrow, rfl, rfl⟩

theorem Later.presented (h : Later s t) {userId : UUID} {credentials : Credentials}
    (hdrawn : userId ∈ s.drawn) (hpresented : Presented lib s userId credentials) :
    Presented lib t userId credentials := by
  intro row hrow
  obtain ⟨before, hbefore, hemail, hhash⟩ := h.accounts userId hdrawn row hrow
  rw [hemail, hhash]
  exact hpresented before hbefore

theorem Later.known (h : Later s t) {entry : IssuedToken} (hknown : Known lib settings s entry) :
    Known lib settings t entry :=
  ⟨hknown.past.trans h.clock, hknown.issued, h.drawn _ hknown.drawn,
    h.presented hknown.drawn hknown.presented⟩

theorem Later.admitted (h : Later s t) {user : UUID × User} {since : Timestamp} {token : String}
    {request : AccessRequest} (hadmitted : Admitted lib settings s user since token request) :
    Admitted lib settings t user since token request := by
  obtain ⟨entry, hentry, hbearer⟩ := hadmitted.bearer
  exact ⟨hadmitted.operator, entry, h.issued entry hentry, hbearer⟩

theorem Later.partyKnown (h : Later s t) {p : AccessParty}
    (hknown : PartyKnown lib settings s p) : PartyKnown lib settings t p := by
  cases p with
  | hashed credentials passwordHash => exact hknown
  | created userId credentials => exact ⟨h.drawn _ hknown.1, h.presented hknown.1 hknown.2⟩
  | found user credentials =>
      cases user with
      | none => trivial
      | some user =>
          obtain ⟨hdrawn, hemail, hsame⟩ := hknown
          refine ⟨h.drawn _ hdrawn, hemail, fun row hrow => ?_⟩
          obtain ⟨before, hbefore, hrowEmail, hrowHash⟩ := h.accounts user.1 hdrawn row hrow
          rw [hrowEmail, hrowHash]
          exact hsame before hbefore
  | acting user since token request => exact h.admitted hknown
  | answered answer => trivial

/-- What was known stays known; what is new has to be. -/
theorem Guarded.later (hs : Guarded lib settings s) (h : Later s t)
    (hparties : ∀ party p, t.parties.lookup party = some p →
      s.parties.lookup party = some p ∨ PartyKnown lib settings t p)
    (hissued : ∀ entry ∈ t.issued, entry ∈ s.issued ∨ Known lib settings t entry)
    (husers : ∀ userId row, t.users.getUser userId = some row → userId ∈ t.drawn) :
    Guarded lib settings t where
  parties party p hp := (hparties party p hp).elim
    (fun hold => h.partyKnown (hs.parties party p hold)) id
  issued entry hentry := (hissued entry hentry).elim
    (fun hold => h.known (hs.issued entry hold)) id
  users := husers

/-! ## One step -/

/-- What a step comes to. -/
inductive Stepped (lib : Primitives) (settings : SecuritySettings) (jobsSettings : JobsSettings)
    (s : AccessRuns) : AccessRuns → Prop
  | tick {now : Timestamp} (hnow : s.clock ≤ now) :
      Stepped lib settings jobsSettings s { s with clock := now }
  | moved {party : ℕ} {p : AccessParty} (hp : PartyKnown lib settings s p) :
      Stepped lib settings jobsSettings s (s.move party p)
  | issued {party : ℕ} {answer : AccessAnswer} {entry : IssuedToken}
      (hentry : Known lib settings s entry) :
      Stepped lib settings jobsSettings s
        { s.move party (.answered answer) with issued := s.issued ++ [entry] }
  | inserted {party : ℕ} {p : AccessParty} {userId : UUID} {users : UserTable}
      (hdrawn : userId ∉ s.drawn)
      (husers : ∀ id row, users.getUser id = some row → id ≠ userId →
        s.users.getUser id = some row)
      (hkept : ∀ id, users.getUser id = none → s.users.getUser id = none)
      (hp : PartyKnown lib settings
        { s.move party p with users := users, drawn := userId :: s.drawn } p) :
      Stepped lib settings jobsSettings s
        { s.move party p with users := users, drawn := userId :: s.drawn }
  | served {party : ℕ} {user : UUID × User} {since : Timestamp} {token : String}
      {request : AccessRequest} {world : World} (accountWorld : AccountWorld)
      (hacting : s.parties.lookup party = some (.acting user since token request))
      (hfresh : s.jobs.lookup world.newJobId = none) :
      Stepped lib settings jobsSettings s
        (s.serve jobsSettings party user world accountWorld request)
  | setRole (userId : UUID) (role : UserRole) :
      Stepped lib settings jobsSettings s { s with users := s.users.setRole userId role }

/-- An answer that ends a registration or a login. -/
theorem stepped_answer {party : ℕ} {userId : UUID} {role : UserRole} {credentials : Credentials}
    {answer : AccessAnswer}
    (hcookie : ∀ status response cookie, answer = .user status response (some cookie) →
      Known lib settings s ⟨cookie.token, userId, role, credentials, s.clock⟩) :
    Stepped lib settings jobsSettings s (s.answer party userId role credentials answer) := by
  unfold AccessRuns.answer
  split
  · exact .issued (hcookie _ _ _ rfl)
  · exact .moved trivial

/-- The row of a registration. -/
theorem inserted_known {userId : UUID} {credentials : Credentials} {passwordHash : String}
    {users : UserTable}
    (hverifies : verifyPassword lib credentials.password passwordHash = true)
    (hcreate : createUser lib s.users userId credentials.email passwordHash s.clock =
      some users) {t : AccessRuns} (ht : t.users = users) :
    Presented lib t userId credentials := by
  intro row hrow
  have hinserted : users.rows.lookup userId = some
      { email := normalizeEmail lib credentials.email, passwordHash := passwordHash,
        createdAt := s.clock } := by
    rw [(createUser_some hcreate).2]
    exact AList.lookup_insert _
  rw [ht] at hrow
  obtain rfl := Option.some.inj (hinserted.symm.trans hrow)
  exact ⟨rfl, hverifies⟩

/-- Whoever is let through bears a token that was handed out for the account. -/
theorem admitted_of_authorize (hlib : lib.Lawful) (hs : Guarded lib settings s) {party : ℕ}
    {cookie : Option String} {request : AccessRequest} {user : UUID × User}
    (hunforged : Unforged lib settings s (.request party cookie request))
    (hauthorized : authorize lib settings s.clock s.users cookie request = .ok user) :
    Admitted lib settings s user s.clock (cookie.getD "") request := by
  obtain ⟨hcurrent, hoperator⟩ := authorize_ok hauthorized
  obtain ⟨token, role, rfl, hread, hrow⟩ := currentUser_ok hcurrent
  obtain ⟨entry, hentry, rfl⟩ := hunforged (readToken_ok hread)
  have hknown := hs.issued entry hentry
  have hissued : readToken lib settings s.clock _ = _ := readToken_issueToken hlib hknown.issued
  rw [hread] at hissued
  split at hissued
  · rename_i hlive
    obtain ⟨hsame, -⟩ := Prod.mk.inj (Except.ok.inj hissued)
    rw [hsame] at hrow
    refine ⟨hoperator, entry, hentry, rfl, hsame.symm, hknown.past, ?_,
      hknown.presented user.2 hrow⟩
    exact hlive.2.trans_le (Int.ediv_mul_le _ (by decide))
  · cases hissued

theorem step_cases (hlib : lib.Lawful) (hs : Guarded lib settings s) {a : AccessAction}
    (hunforged : Unforged lib settings s a)
    (hstep : AccessRuns.step lib settings jobsSettings s a = some t) :
    Stepped lib settings jobsSettings s t := by
  cases a with
  | tick now =>
      obtain ⟨hnow, hsome⟩ := Option.ite_none_right_eq_some.mp hstep
      obtain rfl := Option.some.inj hsome
      exact .tick hnow
  | register party credentials salt =>
      simp only [AccessRuns.step] at hstep
      split at hstep
      · cases hstep
      · split at hstep
        · obtain rfl := Option.some.inj hstep
          exact .moved trivial
        · rename_i passwordHash hhash
          obtain rfl := Option.some.inj hstep
          exact .moved (verifyPassword_hashPassword hlib hhash)
  | insert party userId out =>
      simp only [AccessRuns.step] at hstep
      split at hstep
      · rename_i credentials passwordHash hparty
        have hverifies : verifyPassword lib credentials.password passwordHash = true :=
          hs.parties party _ hparty
        split at hstep
        · cases hstep
        · rename_i hdrawn
          split at hstep
          · obtain rfl := Option.some.inj hstep
            exact .moved trivial
          · rename_i users hcreate
            obtain rfl := Option.some.inj hstep
            refine .inserted hdrawn ?_ ?_ ?_
            · intro other row hrow hother
              refine CallOutcome.effect_of (p := fun users : UserTable =>
                users.getUser other = some row → s.users.getUser other = some row)
                (fun hold => hold) (fun hnew => ?_) out hrow
              unfold UserTable.getUser at hnew
              rw [(createUser_some hcreate).2, AList.lookup_insert_ne hother] at hnew
              exact hnew
            · intro other hnone
              refine CallOutcome.effect_of (p := fun users : UserTable =>
                users.getUser other = none → s.users.getUser other = none)
                (fun hold => hold) (fun hnew => ?_) out hnone
              unfold UserTable.getUser at hnew ⊢
              rw [(createUser_some hcreate).2] at hnew
              by_cases hother : other = userId
              · subst hother
                rw [AList.lookup_insert] at hnew
                cases hnew
              · rwa [AList.lookup_insert_ne hother] at hnew
            · cases out with
              | returned =>
                  exact ⟨List.mem_cons_self, inserted_known hverifies hcreate rfl⟩
              | raisedBefore | raisedAfter => trivial
      · cases hstep
  | finish party =>
      simp only [AccessRuns.step] at hstep
      split at hstep
      · rename_i userId credentials hparty
        obtain ⟨hdrawn, hpresented⟩ := hs.parties party _ hparty
        split at hstep
        · obtain rfl := Option.some.inj hstep
          exact .moved trivial
        · obtain rfl := Option.some.inj hstep
          refine stepped_answer fun status response cookie hanswer => ?_
          exact ⟨le_refl _, signedIn_cookie hanswer, hdrawn, hpresented⟩
      · cases hstep
  | login party credentials =>
      simp only [AccessRuns.step] at hstep
      split at hstep
      · cases hstep
      · obtain rfl := Option.some.inj hstep
        cases hfound : getUserByEmail lib s.users credentials.email with
        | none => exact .moved trivial
        | some user =>
            obtain ⟨hrow, hemail⟩ := getUserByEmail_eq_some.mp hfound
            refine .moved ⟨hs.users user.1 user.2 hrow, hemail, fun row hsame => ?_⟩
            obtain rfl := Option.some.inj (hrow.symm.trans hsame)
            exact ⟨rfl, rfl⟩
  | compare party =>
      simp only [AccessRuns.step] at hstep
      split at hstep
      · obtain rfl := Option.some.inj hstep
        exact .moved trivial
      · rename_i user credentials hparty
        obtain ⟨hdrawn, hemail, hsame⟩ := hs.parties party _ hparty
        obtain rfl := Option.some.inj hstep
        refine stepped_answer fun status response cookie hanswer => ?_
        obtain ⟨userId, row, hfound, hverifies, hissue⟩ := login_issues hanswer
        obtain rfl := Option.some.inj hfound
        refine ⟨le_refl _, hissue, hdrawn, fun now hnow => ?_⟩
        obtain ⟨hnowEmail, hnowHash⟩ := hsame now hnow
        rw [hnowEmail, hnowHash]
        exact ⟨hemail, hverifies⟩
      · cases hstep
  | request party cookie request =>
      simp only [AccessRuns.step] at hstep
      split at hstep
      · cases hstep
      · split at hstep
        · obtain rfl := Option.some.inj hstep
          exact .moved trivial
        · rename_i user hauthorized
          obtain rfl := Option.some.inj hstep
          exact .moved (admitted_of_authorize hlib hs hunforged hauthorized)
  | serve party world accountWorld =>
      simp only [AccessRuns.step] at hstep
      split at hstep
      · rename_i user since token request hparty
        obtain ⟨hfresh, hsome⟩ := Option.ite_none_right_eq_some.mp hstep
        obtain rfl := Option.some.inj hsome
        exact .served accountWorld hparty (Option.isNone_iff_eq_none.mp hfresh)
      · cases hstep
  | setRole userId role =>
      obtain rfl := Option.some.inj hstep
      exact .setRole userId role

/-! ## What the routes leave -/

/-- `delete_account` changes nothing, or everything goes that is the account's. -/
theorem deleteAccount_accounts (world : AccountWorld) (operator userId : UUID)
    (accounts : Accounts) (store : AccountStore) :
    (deleteAccount world operator userId accounts store).accounts = accounts ∨
      userId ≠ operator ∧ (deleteAccount world operator userId accounts store).accounts =
        withoutAccount userId accounts := by
  by_cases hrefused : userId = operator ∨ userId ∉ accounts.users
  · exact .inl (deleteAccount_refused world store hrefused).2.1
  · obtain ⟨hoperator, huser⟩ := not_or.mp hrefused
    obtain ⟨-, -, -, ⟨-, -, hsame⟩ | ⟨-, -, hleft⟩⟩ :=
      deleteAccount_found world store hoperator (not_not.mp huser)
    · exact .inl hsame
    · rw [hleft]
      exact CallOutcome.effect_of (p := fun after => after = accounts ∨
        userId ≠ operator ∧ after = withoutAccount userId accounts) (.inl rfl)
        (.inr ⟨hoperator, rfl⟩) world.commit

/-- What a request of `user` may do to the rows of the jobs. -/
inductive RowsTouched (user : UUID) : AccessRequest → JobTable → JobTable → Prop
  | same {request : AccessRequest} {before : JobTable} : RowsTouched user request before before
  /-- The rows of another owner stay as they are. -/
  | own {before after : JobTable} (asked : JobsRequest)
      (hforeign : ∀ jobId,
        foreignRow user (after.lookup jobId) = foreignRow user (before.lookup jobId)) :
      RowsTouched user (.jobs asked) before after
  /-- The one row goes that an operator asked for. -/
  | byOperator {before : JobTable} (jobId : UUID) :
      RowsTouched user (.deleteJobAsOperator jobId) before (before.erase jobId)
  /-- The rows of all but the deleted account stay as they are. -/
  | account {before after : JobTable} (owner : UUID)
      (hforeign : ∀ jobId,
        foreignRow owner (after.lookup jobId) = foreignRow owner (before.lookup jobId)) :
      RowsTouched user (.deleteAccount owner) before after

theorem RowsTouched.of_eq {user : UUID} {request : AccessRequest} {before after : JobTable}
    (hsame : after = before) : RowsTouched user request before after :=
  hsame ▸ .same

section Serve

variable {party : ℕ} {user : UUID × User} {world : World} (accountWorld : AccountWorld)
  {request : AccessRequest}

/-- A route takes accounts away at most. -/
theorem serve_getUser {userId : UUID} {row : User}
    (hrow : (s.serve jobsSettings party user world accountWorld request).users.getUser userId =
      some row) : s.users.getUser userId = some row := by
  cases request with
  | me | jobs | getAllJobs | deleteJobAsOperator | listAccounts => exact hrow
  | deleteAccount other => exact (UserTable.keep_getUser hrow).1

/-- The account a route takes away is the one that was to be deleted, and not the operator's. -/
theorem serve_gone {userId : UUID} {row : User} (hrow : s.users.getUser userId = some row)
    (hgone : (s.serve jobsSettings party user world accountWorld request).users.getUser userId =
      none) : request = .deleteAccount userId ∧ userId ≠ user.1 := by
  cases request with
  | me | jobs | getAllJobs | deleteJobAsOperator | listAccounts =>
      exact absurd (hrow.symm.trans hgone) (by simp)
  | deleteAccount other =>
      have hmem : userId ∈ s.accounts.users :=
        List.mem_toFinset.mpr (AList.lookup_isSome.mp (Option.isSome_iff_exists.mpr ⟨row, hrow⟩))
      have hleft : userId ∉
          (deleteAccount accountWorld user.1 other s.accounts s.store).accounts.users := by
        intro hin
        have hkept := (@Parties.lookup_filter _ _ _ s.users.rows (fun userId _ =>
          decide (userId ∈ (deleteAccount accountWorld user.1 other s.accounts
            s.store).accounts.users)) userId).symm.trans hgone
        rw [show s.users.rows.lookup userId = some row from hrow] at hkept
        simp [hin] at hkept
      obtain hsame | ⟨hother, hwithout⟩ :=
        deleteAccount_accounts accountWorld user.1 other s.accounts s.store
      · rw [hsame] at hleft
        exact absurd hmem hleft
      · rw [hwithout] at hleft
        have heq : userId = other := by
          by_contra hne
          exact hleft (Finset.mem_erase.mpr ⟨hne, hmem⟩)
        exact ⟨by rw [heq], by rw [heq]; exact hother⟩

/-- The operators' route takes one row away, if it is there. -/
theorem deleteJobByIdAsOperator_table (jobs : JobTable) (jobId : UUID) :
    (deleteJobByIdAsOperator jobs jobId).table jobs = jobs ∨
      (deleteJobByIdAsOperator jobs jobId).table jobs = jobs.erase jobId := by
  unfold deleteJobByIdAsOperator deleteJobAndStorage
  split
  · exact .inl rfl
  · exact .inr rfl

/-- A route writes the rows of whoever it acts for, or takes away those of the deleted account or
the one an operator asked for. -/
theorem serve_jobs (hfresh : s.jobs.lookup world.newJobId = none) :
    RowsTouched user.1 request s.jobs
      (s.serve jobsSettings party user world accountWorld request).jobs := by
  cases request with
  | me | getAllJobs | listAccounts => exact .same
  | jobs request => exact .own request (handle_keeps_foreign hfresh)
  | deleteJobAsOperator jobId =>
      obtain hsame | herased := deleteJobByIdAsOperator_table s.jobs jobId
      · exact .of_eq hsame
      · have hjobs : (s.serve jobsSettings party user world accountWorld
            (.deleteJobAsOperator jobId)).jobs = s.jobs.erase jobId := herased
        rw [hjobs]
        exact .byOperator jobId
  | deleteAccount other =>
      obtain hsame | ⟨-, hwithout⟩ :=
        deleteAccount_accounts accountWorld user.1 other s.accounts s.store
      · exact .of_eq (congrArg Accounts.jobs hsame)
      · refine .account other fun jobId => ?_
        have hjobs : (s.serve jobsSettings party user world accountWorld
            (.deleteAccount other)).jobs =
            Parties.filter s.jobs fun _ job => job.ownerId ≠ other :=
          congrArg Accounts.jobs hwithout
        rw [hjobs, Parties.lookup_filter]
        unfold foreignRow
        cases s.jobs.lookup jobId with
        | none => rfl
        | some job => simp

end Serve

/-! ## Runs -/

theorem Guarded.move_later (hs : Guarded lib settings s) {party : ℕ} {p : AccessParty}
    (h : Later s t) (hparties : t.parties = s.parties.insert party p)
    (hp : PartyKnown lib settings t p)
    (hissued : ∀ entry ∈ t.issued, entry ∈ s.issued ∨ Known lib settings t entry)
    (husers : ∀ userId row, t.users.getUser userId = some row → userId ∈ t.drawn) :
    Guarded lib settings t := by
  refine hs.later h (fun other q hq => ?_) hissued husers
  rw [hparties] at hq
  exact Parties.forall_insert (p := fun other q => s.parties.lookup other = some q ∨
    PartyKnown lib settings t q) (fun _ _ _ hold => .inl hold) (.inr hp) other q hq

theorem Stepped.later (h : Stepped lib settings jobsSettings s t) : Later s t := by
  cases h with
  | tick hnow => exact .of_same hnow (fun _ => id) rfl rfl
  | moved hp => exact .of_same (le_refl _) (fun _ => id) rfl rfl
  | issued hentry =>
      exact .of_same (le_refl _) (fun _ h => List.mem_append_left _ h) rfl rfl
  | inserted hdrawn husers hkept hp =>
      refine ⟨le_refl _, fun _ => id, fun _ => List.mem_cons_of_mem _, ?_⟩
      intro other hother row hrow
      exact ⟨row, husers other row hrow fun heq => hdrawn (heq ▸ hother), rfl, rfl⟩
  | @served party user since token request world accountWorld hacting hfresh =>
      have husers : ∀ userId row, (s.serve jobsSettings party user world accountWorld
          request).users.getUser userId = some row → s.users.getUser userId = some row :=
        fun _ _ => serve_getUser accountWorld
      cases request with
      | me | jobs | getAllJobs | deleteJobAsOperator | listAccounts | deleteAccount =>
          exact ⟨le_refl _, fun _ => id, fun _ => id, fun userId _ row hrow =>
            ⟨row, husers userId row hrow, rfl, rfl⟩⟩
  | setRole changed role =>
      exact ⟨le_refl _, fun _ => id, fun _ => id, fun userId _ row hrow =>
        UserTable.setRole_getUser hrow⟩

theorem Guarded.stepped (hs : Guarded lib settings s)
    (h : Stepped lib settings jobsSettings s t) : Guarded lib settings t := by
  have hlater := h.later
  cases h with
  | tick hnow => exact hs.later hlater (fun _ _ => .inl) (fun _ => .inl) hs.users
  | moved hp => exact hs.move_later hlater rfl (hlater.partyKnown hp) (fun _ => .inl) hs.users
  | issued hentry =>
      refine hs.move_later hlater rfl trivial (fun entry hmem => ?_) hs.users
      obtain hold | hnew := List.mem_append.mp hmem
      · exact .inl hold
      · obtain rfl := List.mem_singleton.mp hnew
        exact .inr (hlater.known hentry)
  | @inserted party p userId users hdrawn husers hkept hp =>
      refine hs.move_later hlater rfl hp (fun _ => .inl) fun other row hrow => ?_
      by_cases hother : other = userId
      · exact hother ▸ List.mem_cons_self
      · exact List.mem_cons_of_mem _ (hs.users other row (husers other row hrow hother))
  | @served party user since token request world accountWorld hacting hfresh =>
      cases request with
      | me | jobs | getAllJobs | deleteJobAsOperator | listAccounts =>
          exact hs.move_later hlater rfl trivial (fun _ => .inl) hs.users
      | deleteAccount other =>
          exact hs.move_later hlater rfl trivial (fun _ => .inl) fun userId row hrow =>
            hs.users userId row (UserTable.keep_getUser hrow).1
  | setRole changed role =>
      refine hs.later hlater (fun _ _ => .inl) (fun _ => .inl) fun userId row hrow => ?_
      obtain ⟨before, hbefore, -⟩ := UserTable.setRole_getUser hrow
      exact hs.users userId before hbefore

theorem guarded_of_reachable (hlib : lib.Lawful)
    (hs : (accessSystem lib settings jobsSettings).ReachableUnder (Unforged lib settings) s) :
    Guarded lib settings s := by
  refine hs.invariant (Guarded lib settings) ?_ fun s a t _ hs ha hstep =>
    hs.stepped (step_cases hlib hs ha hstep)
  rintro s ⟨hparties, hissued, husers⟩
  refine ⟨fun party p hp => ?_, fun entry hentry => ?_, husers⟩
  · rw [hparties] at hp
    exact absurd hp (by simp)
  · rw [hissued] at hentry
    exact absurd hentry List.not_mem_nil

/-- Who acts for whom, and what a step does to whose rows. -/
structure AccessControlled (lib : Primitives) (settings : SecuritySettings)
    (jobsSettings : JobsSettings) (s : AccessRuns) : Prop where
  /-- A request is let through for the bearer of a live token alone. -/
  admitted : ∀ party user since token request,
    s.parties.lookup party = some (.acting user since token request) →
      Admitted lib settings s user since token request
  /-- It goes by the account as the database has it at that moment. -/
  current : ∀ party cookie request t, AccessRuns.step lib settings jobsSettings s
      (.request party cookie request) = some t → ∀ user since token asked,
    t.parties.lookup party = some (.acting user since token asked) →
      s.users.getUser user.1 = some user.2 ∧ since = s.clock
  /-- A job's row changes only by a request that acts for its owner, by the operators' deletion of
  the job, or by that of its owner's account. -/
  rows : ∀ a t, Unforged lib settings s a →
    AccessRuns.step lib settings jobsSettings s a = some t → t.jobs = s.jobs ∨
      ∃ party user since token request,
        s.parties.lookup party = some (.acting user since token request) ∧
        RowsTouched user.1 request s.jobs t.jobs
  /-- An account keeps its address and its password until somebody else, who was let through as
  an operator, deletes it. -/
  accounts : ∀ a t, Unforged lib settings s a →
    AccessRuns.step lib settings jobsSettings s a = some t →
      ∀ userId row, s.users.getUser userId = some row →
        (∃ later, t.users.getUser userId = some later ∧ later.email = row.email ∧
          later.passwordHash = row.passwordHash) ∨
        ∃ party user since token, userId ≠ user.1 ∧
          s.parties.lookup party = some (.acting user since token (.deleteAccount userId))
  /-- Then it never comes back. -/
  gone : ∀ a t, Unforged lib settings s a →
    AccessRuns.step lib settings jobsSettings s a = some t →
      ∀ userId ∈ s.drawn, s.users.getUser userId = none → t.users.getUser userId = none

theorem Stepped.accounts (hs : Guarded lib settings s)
    (h : Stepped lib settings jobsSettings s t) {userId : UUID} {row : User}
    (hrow : s.users.getUser userId = some row) :
    (∃ later, t.users.getUser userId = some later ∧ later.email = row.email ∧
      later.passwordHash = row.passwordHash) ∨
    ∃ party user since token, userId ≠ user.1 ∧
      s.parties.lookup party = some (.acting user since token (.deleteAccount userId)) := by
  cases hafter : t.users.getUser userId with
  | some later =>
      obtain ⟨before, hbefore, hemail, hhash⟩ :=
        h.later.accounts userId (hs.users userId row hrow) later hafter
      obtain rfl := Option.some.inj (hrow.symm.trans hbefore)
      exact .inl ⟨later, rfl, hemail, hhash⟩
  | none =>
      cases h with
      | tick | moved | issued => exact absurd (hrow.symm.trans hafter) (by simp)
      | inserted hdrawn husers hkept hp =>
          exact absurd (hrow.symm.trans (hkept userId hafter)) (by simp)
      | served accountWorld hacting hfresh =>
          obtain ⟨rfl, hother⟩ := serve_gone accountWorld hrow hafter
          exact .inr ⟨_, _, _, _, hother, hacting⟩
      | setRole changed role =>
          exact absurd (hrow.symm.trans (UserTable.setRole_keeps hafter)) (by simp)

theorem Stepped.rows (h : Stepped lib settings jobsSettings s t) : t.jobs = s.jobs ∨
    ∃ party user since token request,
      s.parties.lookup party = some (.acting user since token request) ∧
      RowsTouched user.1 request s.jobs t.jobs := by
  cases h with
  | tick | moved | issued | inserted | setRole => exact .inl rfl
  | served accountWorld hacting hfresh =>
      exact .inr ⟨_, _, _, _, _, hacting, serve_jobs accountWorld hfresh⟩

/-- The account of a request that was let through is read at that moment. -/
theorem acting_current {party : ℕ} {cookie : Option String} {request : AccessRequest}
    (hstep : AccessRuns.step lib settings jobsSettings s (.request party cookie request) = some t)
    {user : UUID × User} {since : Timestamp} {token : String} {asked : AccessRequest}
    (hacting : t.parties.lookup party = some (.acting user since token asked)) :
    s.users.getUser user.1 = some user.2 ∧ since = s.clock := by
  have hmoved : ∀ p : AccessParty, (s.move party p).parties.lookup party = some p :=
    fun p => AList.lookup_insert _
  simp only [AccessRuns.step] at hstep
  split at hstep
  · cases hstep
  · split at hstep
    · obtain rfl := Option.some.inj hstep
      exact absurd ((hmoved _).symm.trans hacting) (by simp)
    · rename_i admitted hauthorized
      obtain rfl := Option.some.inj hstep
      obtain ⟨rfl, rfl, -, -⟩ :=
        AccessParty.acting.inj (Option.some.inj ((hmoved _).symm.trans hacting))
      obtain ⟨token, role, -, -, hrow⟩ := currentUser_ok (authorize_ok hauthorized).1
      exact ⟨hrow, rfl⟩

/-- In every run in which nobody forges a token, whatever requests, registrations, logins and
deletions are under way: a request acts for an account only with a token that is not older than
its lifetime, handed out to somebody who presented the account's address and a password that
verifies against its hash, and as an operator only if the database says so; the rows of an owner
are changed by nobody else but an operator who deletes the job or the account; and an account that
is deleted never comes back. -/
theorem access_controlled (hlib : lib.Lawful) (settings : SecuritySettings)
    (jobsSettings : JobsSettings)
    (hs : (accessSystem lib settings jobsSettings).ReachableUnder (Unforged lib settings) s) :
    AccessControlled lib settings jobsSettings s := by
  have hguarded : Guarded lib settings s := guarded_of_reachable hlib hs
  refine ⟨fun party user since token request => hguarded.parties party _, ?_, ?_, ?_, ?_⟩
  · intro party cookie request t hstep user since token asked hacting
    exact acting_current hstep hacting
  · intro a t hunforged hstep
    exact (step_cases hlib hguarded hunforged hstep).rows
  · intro a t hunforged hstep userId row hrow
    exact (step_cases hlib hguarded hunforged hstep).accounts hguarded hrow
  · intro a t hunforged hstep userId hdrawn hnone
    have hlater := (step_cases hlib hguarded hunforged hstep).later
    cases hafter : t.users.getUser userId with
    | none => rfl
    | some row =>
        obtain ⟨before, hbefore, -⟩ := hlater.accounts userId hdrawn row hafter
        exact absurd (hnone.symm.trans hbefore) (by simp)

end AccessRuns

/-! ## A library to run with -/

/-- A whole number as a text that can be read back. -/
def signedDigits (z : ℤ) : List Char :=
  (if z < 0 then '-' else '+') :: Nat.toDigits 10 z.natAbs

def readSigned : List Char → ℤ
  | '-' :: digits => -(Nat.ofDigitChars 10 digits 0 : ℤ)
  | _ :: digits => Nat.ofDigitChars 10 digits 0
  | [] => 0

theorem readSigned_signedDigits (z : ℤ) : readSigned (signedDigits z) = z := by
  unfold signedDigits
  by_cases hz : z < 0
  · rw [if_pos hz]
    show -((Nat.ofDigitChars 10 (Nat.toDigits 10 z.natAbs) 0 : ℕ) : ℤ) = z
    rw [Nat.ofDigitChars_ten_toDigits]
    omega
  · rw [if_neg hz]
    show ((Nat.ofDigitChars 10 (Nat.toDigits 10 z.natAbs) 0 : ℕ) : ℤ) = z
    rw [Nat.ofDigitChars_ten_toDigits]
    omega

/-- A library whose tokens are the claims in plain text, and whose hashes are the passwords. -/
def plainLibrary : Primitives where
  hashpw encoded _ := String.ofList (encoded.toList.map fun byte => Char.ofNat byte.toNat)
  checkpw encoded hash :=
    some (hash = String.ofList (encoded.toList.map fun byte => Char.ofNat byte.toNat))
  encode claims _ _ := String.ofList ([' '].intercalate [(claims.sub.getD "").toList,
    (claims.role.getD "").toList, signedDigits claims.iat, signedDigits claims.exp])
  decode token _ _ now :=
    match token.toList.splitOn ' ' with
    | [sub, role, iat, exp] =>
        let claims : TokenClaims := ⟨some (String.ofList sub), some (String.ofList role),
          readSigned iat, readSigned exp⟩
        if claims.iat * 1000000 ≤ now ∧ now < claims.exp * 1000000 then some claims else none
    | _ => none
  lower := id

theorem plainLibrary_lawful : plainLibrary.Lawful where
  checkpw encoded salt _ := congrArg some (decide_eq_true rfl)
  decode userId role iat exp secret algorithm now := by
    have hdigits : ∀ n : ℕ, ' ' ∉ Nat.toDigits 10 n := fun n hmem =>
      absurd (Nat.isDigit_of_mem_toDigits (by omega) (by omega) hmem) (by decide)
    have hsigned : ∀ z : ℤ, ' ' ∉ signedDigits z := fun z hmem => by
      unfold signedDigits at hmem
      obtain hsign | hmem := List.mem_cons.mp hmem
      · split at hsign <;> exact absurd hsign (by decide)
      · exact hdigits _ hmem
    have hrole : ' ' ∉ role.value.toList := by cases role <;> decide
    have hsplit : ([' '].intercalate [(toString userId).toList, role.value.toList,
        signedDigits iat, signedDigits exp]).splitOn ' ' =
        [(toString userId).toList, role.value.toList, signedDigits iat, signedDigits exp] := by
      refine List.splitOn_intercalate ' ' ?_ (by simp)
      intro part hpart
      simp only [List.mem_cons, List.not_mem_nil, or_false] at hpart
      obtain rfl | rfl | rfl | rfl := hpart
      · rw [show (toString userId).toList = Nat.toDigits 10 userId from Nat.toList_repr]
        exact hdigits userId
      · exact hrole
      · exact hsigned iat
      · exact hsigned exp
    simp only [plainLibrary, Option.getD_some, String.toList_ofList, hsplit, String.ofList_toList,
      readSigned_signedDigits]

/-- One operator, and nobody signed in. -/
def oneOperator : AccessRuns where
  users := ⟨(∅ : Parties UUID User).insert 1 ⟨"op@example.org", "open sesame", .operator, 0⟩,
    UniqueEmail.insert (fun _ _ _ _ hrow => absurd hrow (by simp)) fun _ _ _ hrow =>
      absurd hrow (by simp)⟩
  store := ⟨[], []⟩
  clock := 0
  drawn := [1]

def plainSettings : SecuritySettings where
  jwtSecret := "0123456789abcdef0123456789abcdef"

def operatorCredentials : Credentials where
  email := " op@example.org"
  password := "open sesame"
  length := by decide

/-- Whether a token that is presented was handed out. -/
def presentsIssued (s : AccessRuns) : AccessAction → Bool
  | .request _ (some token) _ => s.issued.any fun entry => entry.token = token
  | _ => true

theorem presentsIssued_unforged {s : AccessRuns} {a : AccessAction}
    (ha : presentsIssued s a = true) : Unforged plainLibrary plainSettings s a := by
  cases a with
  | request party cookie request =>
      cases cookie with
      | none => trivial
      | some token =>
          intro _
          obtain ⟨entry, hentry, hsame⟩ := List.any_eq_true.mp ha
          exact ⟨entry, hentry, of_decide_eq_true hsame⟩
  | tick | register | insert | finish | login | compare | serve | setRole => trivial

/-- Whether the party was let through to delete the job, whoever owns it. -/
def AccessParty.deletes (jobId : UUID) : AccessParty → Bool
  | .acting _ _ _ (.deleteJobAsOperator asked) => asked = jobId
  | _ => false

/-- The operator logs in, and five seconds later is let through to delete somebody's job. -/
theorem access_controlled_operator :
    ∃ (s : AccessRuns) (user : UUID × User) (since : Timestamp) (token : String),
      s.parties.lookup 1 = some (.acting user since token (.deleteJobAsOperator 7)) ∧
        user.2.role = .operator ∧ AccessRuns.Admitted plainLibrary plainSettings s user since
          token (.deleteJobAsOperator 7) := by
  have hinit : (accessSystem plainLibrary plainSettings {}).init oneOperator := by
    refine ⟨rfl, rfl, fun userId row hrow => ?_⟩
    by_cases hone : userId = 1
    · exact hone ▸ List.mem_cons_self
    · exact absurd ((AList.lookup_insert_ne hone).symm.trans hrow) (by simp)
  have hrun : ((accessSystem plainLibrary plainSettings {}).runUnder
      (fun s a => presentsIssued s a = true) oneOperator
      [.login 0 operatorCredentials, .compare 0, .tick 5000000,
        .request 1 (some "1 operator +0 +1800") (.deleteJobAsOperator 7)]).any
      (fun s => (s.parties.lookup 1).any (·.deletes 7)) = true := by decide +kernel
  obtain ⟨s, hs, hacting⟩ := StepSystem.ReachableUnder.exists_of_runUnder (.init hinit) _ _ hrun
  have hcontrolled := AccessRuns.access_controlled plainLibrary_lawful plainSettings {}
    (hs.mono fun _ _ => presentsIssued_unforged)
  obtain ⟨p, hparty, hdeletes⟩ := (Option.any_eq_true _ _).mp hacting
  cases p with
  | acting user since token request =>
      cases request with
      | deleteJobAsOperator jobId =>
          obtain rfl : jobId = 7 := of_decide_eq_true hdeletes
          have hadmitted := hcontrolled.admitted 1 user since token _ hparty
          exact ⟨s, user, since, token, hparty, hadmitted.operator rfl, hadmitted⟩
      | me | jobs | getAllJobs | listAccounts | deleteAccount =>
          exact absurd hdeletes Bool.false_ne_true
  | hashed | created | found | answered => exact absurd hdeletes Bool.false_ne_true

end Api
end MediaPlayer
