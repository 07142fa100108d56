import MediaPlayer.Library.Text
import MediaPlayer.Models.User

/-!
# Passwords and tokens

`app/services/security.py`.  bcrypt and PyJWT are parameters (`Primitives`), and `Lawful` is
what the code relies on of them.

* `verifyPassword_hashPassword` — a password verifies against its own hash.
* `readToken_issueToken` — a token is read back while it lives, and refused before and after.
-/

namespace MediaPlayer
namespace Services

open Library Models

/-- The claims of a token: those that `issue_token` sets.  Times are in seconds; a token of
somebody else may lack a claim. -/
structure TokenClaims where
  sub : Option String
  role : Option String
  iat : ℤ
  exp : ℤ
  deriving DecidableEq

/-- bcrypt, PyJWT and `str.lower`. -/
structure Primitives where
  /-- `bcrypt.hashpw`. -/
  hashpw : (encoded : ByteArray) → (salt : String) → String
  /-- `bcrypt.checkpw`; `none` where it raises. -/
  checkpw : (encoded : ByteArray) → (hash : String) → Option Bool
  /-- `jwt.encode`. -/
  encode : TokenClaims → (secret algorithm : String) → String
  /-- `jwt.decode` at a time; `none` where it raises a `PyJWTError`. -/
  decode : (token secret algorithm : String) → (now : Timestamp) → Option TokenClaims
  lower : String → String

/-- What the two libraries document. -/
structure Primitives.Lawful (lib : Primitives) : Prop where
  /-- A hash is that of its password. -/
  checkpw : ∀ encoded salt, encoded.size ≤ 72 →
    lib.checkpw encoded (lib.hashpw encoded salt) = some true
  /-- A signed token is decoded from the second it was issued until it expires. -/
  decode : ∀ (userId : UUID) (role : UserRole) (iat exp : ℤ) secret algorithm now,
    lib.decode (lib.encode ⟨some (toString userId), some role.value, iat, exp⟩ secret algorithm)
        secret algorithm now =
      if iat * 1000000 ≤ now ∧ now < exp * 1000000 then
        some ⟨some (toString userId), some role.value, iat, exp⟩
      else none

/-- The settings the tokens depend on. -/
structure SecuritySettings where
  jwtSecret : String := ""
  jwtAlgorithm : String := "HS256"
  jwtTtlSeconds : ℤ := 1800

/-- What the functions raise. -/
inductive SecurityError
  | invalidToken
  /-- `ValueError`. -/
  | value (message : String)
  /-- `RuntimeError`. -/
  | runtime (message : String)
  deriving DecidableEq

/-- `MIN_SECRET_BYTES`. -/
def minSecretBytes : ℕ := 32

variable (lib : Primitives) (settings : SecuritySettings)

/-- `_checked_settings`. -/
def checkedSettings : Except SecurityError SecuritySettings :=
  if settings.jwtSecret = "" then .error (.runtime "JWT_SECRET is not set")
  else if settings.jwtSecret.toUTF8.size < minSecretBytes then
    .error (.runtime (s!"JWT_SECRET must be at least {minSecretBytes} bytes; " ++
      "generate one with `openssl rand -base64 48`"))
  else .ok settings

/-- `hash_password`; `salt` is what `bcrypt.gensalt` draws. -/
def hashPassword (salt password : String) : Except SecurityError String :=
  if 72 < password.toUTF8.size then .error (.value "password must be at most 72 bytes")
  else .ok (lib.hashpw password.toUTF8 salt)

/-- `verify_password`: a hash that is none verifies nothing. -/
def verifyPassword (password passwordHash : String) : Bool :=
  (lib.checkpw password.toUTF8 passwordHash).getD false

/-- `str(user_id)`, the text of an id. -/
def uuidText (userId : UUID) : String := toString userId

/-- `UUID(text)`; `none` where it raises. -/
def parseUuid (text : String) : Option UUID :=
  if text.toList ≠ [] ∧ text.toList.all Char.isDigit then
    some (Nat.ofDigitChars 10 text.toList 0)
  else none

/-- `issue_token`. -/
def issueToken (now : Timestamp) (userId : UUID) (role : UserRole) :
    Except SecurityError String := do
  let settings ← checkedSettings settings
  let claims : TokenClaims :=
    { sub := some (uuidText userId)
      role := some role.value
      iat := now / 1000000
      exp := (now + settings.jwtTtlSeconds * 1000000) / 1000000 }
  pure (lib.encode claims settings.jwtSecret settings.jwtAlgorithm)

/-- `read_token`. -/
def readToken (now : Timestamp) (token : String) : Except SecurityError (UUID × String) := do
  let settings ← checkedSettings settings
  match lib.decode token settings.jwtSecret settings.jwtAlgorithm now with
  | none => .error .invalidToken
  | some claims =>
      match claims.sub.bind parseUuid, claims.role with
      | some userId, some role => .ok (userId, role)
      | _, _ => .error .invalidToken

variable {lib settings}

theorem checkedSettings_ok {checked : SecuritySettings}
    (hchecked : checkedSettings settings = .ok checked) : checked = settings := by
  unfold checkedSettings at hchecked
  split at hchecked
  · cases hchecked
  · split at hchecked
    · cases hchecked
    · exact (Except.ok.inj hchecked).symm

/-- An id is read back from its text. -/
theorem parseUuid_uuidText (userId : UUID) : parseUuid (uuidText userId) = some userId := by
  have htext : (uuidText userId).toList = Nat.toDigits 10 userId := Nat.toList_repr
  have hdigits : (Nat.toDigits 10 userId).all Char.isDigit = true :=
    List.all_eq_true.mpr fun c hc => Nat.isDigit_of_mem_toDigits (by omega) (by omega) hc
  unfold parseUuid
  rw [htext, if_pos ⟨Nat.toDigits_ne_nil, hdigits⟩, Nat.ofDigitChars_ten_toDigits]

/-- A password verifies against its own hash. -/
theorem verifyPassword_hashPassword (hlib : lib.Lawful) {salt password passwordHash : String}
    (hhash : hashPassword lib salt password = .ok passwordHash) :
    verifyPassword lib password passwordHash = true := by
  unfold hashPassword at hhash
  split at hhash
  · cases hhash
  · rename_i hshort
    obtain rfl := Except.ok.inj hhash
    unfold verifyPassword
    rw [hlib.checkpw _ _ (Nat.le_of_not_lt hshort), Option.getD_some]

/-- What is read was decoded. -/
theorem readToken_ok {now : Timestamp} {token : String} {read : UUID × String}
    (hread : readToken lib settings now token = .ok read) :
    (lib.decode token settings.jwtSecret settings.jwtAlgorithm now).isSome := by
  unfold readToken at hread
  cases hchecked : checkedSettings settings with
  | error e =>
      rw [hchecked] at hread
      cases hread
  | ok checked =>
      rw [hchecked] at hread
      replace hread : (match lib.decode token checked.jwtSecret checked.jwtAlgorithm now with
        | none => Except.error SecurityError.invalidToken
        | some claims =>
            match claims.sub.bind parseUuid, claims.role with
            | some userId, some role => .ok (userId, role)
            | _, _ => .error .invalidToken) = .ok read := hread
      rw [checkedSettings_ok hchecked] at hread
      cases hdecode : lib.decode token settings.jwtSecret settings.jwtAlgorithm now with
      | none =>
          rw [hdecode] at hread
          cases hread
      | some claims => rfl

/-- A token names the account it was issued for, and only while it lives. -/
theorem readToken_issueToken (hlib : lib.Lawful) {issued now : Timestamp} {userId : UUID}
    {role : UserRole} {token : String} (hissue : issueToken lib settings issued userId role =
      .ok token) :
    readToken lib settings now token =
      if issued / 1000000 * 1000000 ≤ now ∧
          now < (issued + settings.jwtTtlSeconds * 1000000) / 1000000 * 1000000 then
        .ok (userId, role.value)
      else .error .invalidToken := by
  unfold issueToken at hissue
  unfold readToken
  cases hchecked : checkedSettings settings with
  | error e =>
      rw [hchecked] at hissue
      cases hissue
  | ok checked =>
      obtain rfl := checkedSettings_ok hchecked
      rw [hchecked] at hissue
      obtain rfl := Except.ok.inj hissue
      show (match lib.decode _ checked.jwtSecret checked.jwtAlgorithm now with
        | none => Except.error SecurityError.invalidToken
        | some claims =>
            match claims.sub.bind parseUuid, claims.role with
            | some userId, some role => .ok (userId, role)
            | _, _ => .error .invalidToken) = _
      rw [show uuidText userId = toString userId from rfl, hlib.decode]
      by_cases hlive : issued / 1000000 * 1000000 ≤ now ∧
          now < (issued + checked.jwtTtlSeconds * 1000000) / 1000000 * 1000000
      · rw [if_pos hlive, if_pos hlive]
        simp only [Option.bind_some]
        rw [show parseUuid (toString userId) = some userId from parseUuid_uuidText userId]
      · rw [if_neg hlive, if_neg hlive]

end Services
end MediaPlayer
