import Runscope.Python.Dumps
import Runscope.System

/-!
Accounts, passwords and access tokens (`security.py`, `api/auth.py`), and what
the commands of the API ask of their users.

The password hasher and the signing of tokens are those of packages.
-/

namespace Runscope

open Transact

/-- A row of `users`. -/
structure Account where
  id : Uuid
  email : String
  passwordHash : String
  role : Role
  deriving DecidableEq

def Role.value : Role → String
  | viewer => "viewer"
  | researcher => "researcher"
  | administrator => "administrator"

/-- The account as a command sees it. -/
def Account.user (account : Account) : User := ⟨account.id, account.role⟩

abbrev Accounts := Table Account.id

/-- `pwdlib` and `jwt` with the algorithm HS256; tokens are what `jwt.encode`
returns. -/
structure Packages (Token : Type) where
  /-- `PasswordHash.verify(password, hash)` -/
  verify : String → String → Except Exc Bool
  /-- `jwt.encode(payload, key)` -/
  encode : Record → String → Token
  /-- `jwt.decode(token, key, issuer=issuer)` at an instant. -/
  decode : Token → String → String → Time → Except Exc Record

structure AuthSettings where
  jwtSecret : String
  jwtIssuer : String
  accessTokenMinutes : ℤ

/-- `Authorization: <scheme> <credentials>` -/
structure Credentials (Token : Type) where
  scheme : String
  credentials : Token

structure SignInRequest where
  email : String
  password : String
  password_length : 8 ≤ password.length ∧ password.length ≤ 128

structure TokenResponse (Token : Type) where
  accessToken : Token
  expiresIn : ℤ
  user : Account

section Authentication

variable {Token : Type} (rt : Runtime) (packages : Packages Token) (settings : AuthSettings)

def normalizeEmail (email : String) : String := rt.lower (rt.strip email)

/-- A `datetime` of a payload, as `jwt.encode` writes it: whole seconds. -/
def timestamp (time : Time) : ℤ := time / 1000000

/-- The payload of a token and the seconds it is good for. -/
def accessTokenPayload (user : Account) (now : Time) : Record :=
  [("sub", .uuid user.id), ("role", .str user.role.value), ("iss", .str settings.jwtIssuer),
    ("iat", .int (timestamp now)),
    ("exp", .int (timestamp (now + seconds (60 * settings.accessTokenMinutes))))]

def createAccessToken (user : Account) (now : Time) : Token × ℤ :=
  (packages.encode (accessTokenPayload settings user now) settings.jwtSecret,
    60 * settings.accessTokenMinutes)

def invalidCredentials : Exc :=
  .app {
    code := "invalid_credentials"
    message := "Email or password is incorrect"
    statusCode := 401
    details := [] }

def signIn (accounts : Accounts) (body : SignInRequest) (now : Time) :
    Except Exc (TokenResponse Token) := do
  match accounts.rows.find? fun account => account.email = normalizeEmail rt body.email with
  | none => .error invalidCredentials
  | some user =>
    if ← packages.verify body.password user.passwordHash then
      let (token, expiresIn) := createAccessToken packages settings user now
      .ok ⟨token, expiresIn, user⟩
    else .error invalidCredentials

/-- `UUID(payload["sub"])` -/
def subject (payload : Record) : Except Exc Uuid :=
  match payload.get? "sub" with
  | none => .error (.key "sub")
  | some (.uuid id) => .ok id
  | some (.str _) => .error (.other "ValueError")
  | some .null => .error (.other "TypeError")
  | some _ => .error (.other "AttributeError")

/-- `except (InvalidTokenError, KeyError, TypeError, ValueError)` -/
def refusesToken : Exc → Bool
  | .key _ => true
  | .other name => name ∈ ["InvalidTokenError", "TypeError", "ValueError"]
  | _ => false

def invalidAccessToken : Exc :=
  .app {
    code := "invalid_access_token"
    message := "Access token is invalid or expired"
    statusCode := 401
    details := [] }

/-- `get_current_user`; the role in the token is not read. -/
def getCurrentUser (accounts : Accounts) (credentials : Option (Credentials Token)) (now : Time) :
    Except Exc Account := do
  match credentials with
  | none => .error authenticationRequired
  | some credentials =>
    if rt.lower credentials.scheme ≠ "bearer" then .error authenticationRequired
    else
      match packages.decode credentials.credentials settings.jwtSecret settings.jwtIssuer now >>=
        subject with
      | .error e => .error (if refusesToken e then invalidAccessToken else e)
      | .ok userId =>
        match accounts.get? userId with
        | none => .error invalidAccessToken
        | some user => .ok user
where
  authenticationRequired : Exc :=
    .app {
      code := "authentication_required"
      message := "Authentication is required"
      statusCode := 401
      details := [] }

end Authentication

/-- `require_roles(*allowed)` -/
def requireRoles (allowed : List Role) (user : Account) : Except Exc Account :=
  if user.role ∉ allowed then
    .error (.app {
      code := "permission_denied"
      message := "Your role does not permit this action"
      statusCode := 403
      details := [("required_roles", .nested (.ofList (Python.dumps (allowed.map Role.value))))] })
  else .ok user

/-- The requests that start a session of their own (`api/runs.py`,
`api/workers.py`). -/
inductive Command where
  | createRun (body : RunCreate)
  | cancelRun (runId : Uuid)
  | retryRun (runId : Uuid) (body : RunRetryRequest)
  | updateRunMetadata (runId : Uuid) (body : RunMetadataUpdate)
  | registerWorker (name : String) (totals : WorkerTotals)
  | heartbeat (workerId : Uuid)

namespace Command

/-- `ResearcherUser` or `AdministratorUser` -/
def allowed : Command → List Role
  | createRun _ | cancelRun _ | retryRun .. | updateRunMetadata .. => [.researcher, .administrator]
  | registerWorker .. | heartbeat _ => [.administrator]

/-- The session that serves the command. -/
def kind (rt : Runtime) (correlationId : RequestId) (user : Account) : Command → Kind
  | createRun body => .createRun body user.id correlationId
  | cancelRun runId => .cancelRun runId user.user correlationId
  | retryRun runId body => .retryRun runId body user.user correlationId
  | updateRunMetadata runId body => .updateRunMetadata runId body user.user
  | registerWorker name totals => .registerWorker (rt.strip name) totals
  | heartbeat workerId => .heartbeat workerId

end Command

end Runscope
