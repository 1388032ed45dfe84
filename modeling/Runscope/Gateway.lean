import Runscope.Authorship
import Runscope.Security
import Runscope.Transact.Outcomes

/-!
The API in front of the sessions: who is served, and whose name the sessions
of the commands bear.

Accounts are written by no request, but by seeding and by operators, who may
change them in any way at any time.
-/

namespace Runscope

open Transact RunStatus

/-- The accounts, the access tokens that were handed out, and the sessions. -/
structure Gateway (Token : Type) where
  accounts : Accounts
  issued : List Token
  cluster : Cluster

/-- In whose name a session acts that only a command starts. -/
def Kind.actor : Kind → Option Uuid
  | .createRun _ createdBy _ => some createdBy
  | .retryRun _ _ user _ | .cancelRun _ user _ | .updateRunMetadata _ _ user => some user.id
  | _ => none

/-- What `jwt.decode` asks of the claims of an access token that was signed
with the key. -/
structure Standing (payload : Record) (issuer : String) (now : Time) : Prop where
  issuer : payload.get? "iss" = some (.str issuer)
  issued : ∀ n, payload.get? "iat" = some (.int n) → seconds n ≤ now
  unexpired : ∀ n, payload.get? "exp" = some (.int n) → now < seconds n

/-- The payload of an access token is read back while it stands. -/
structure Packages.Lawful {Token : Type} (packages : Packages Token) (auth : AuthSettings) :
    Prop where
  decode_encode : ∀ (account : Account) (issuedAt now : Time) (payload : Record),
    packages.decode (packages.encode (accessTokenPayload auth account issuedAt) auth.jwtSecret)
        auth.jwtSecret auth.jwtIssuer now = .ok payload ↔
      payload = accessTokenPayload auth account issuedAt ∧
        Standing (accessTokenPayload auth account issuedAt) auth.jwtIssuer now

namespace Gateway

variable {Token : Type}

def start (accounts : Accounts) (templates : Table TrainingTemplate.id) : Gateway Token where
  accounts := accounts
  issued := []
  cluster := .initial (.empty templates)

/-- What happens next at the API or behind it. -/
inductive Deed (Token : Type) where
  | signIn (body : SignInRequest) (clock : Time)
  | request (credentials : Option (Credentials Token)) (command : Command) (clock : Time)
      (correlationId : RequestId)
  | administer (accounts : Accounts)
  /-- A session goes on, or one that needs no user starts or is lost. -/
  | act (a : Action Kind Input)

/-- Whether the session may go on, start or be lost by itself. -/
def permits : Action Kind Input → Bool
  | .spawn κ => κ.actor.isNone
  | _ => true

section Steps

variable (rt : Runtime) (packages : Packages Token) (auth : AuthSettings) (settings : Settings)

/-- The user whom a command is run for. -/
def serve (g : Gateway Token) (credentials : Option (Credentials Token)) (command : Command)
    (clock : Time) : Except Exc Account :=
  getCurrentUser rt packages auth g.accounts credentials clock >>= requireRoles command.allowed

def step (g : Gateway Token) : Deed Token → Option (Gateway Token)
  | .signIn body clock =>
      match Runscope.signIn rt packages auth g.accounts body clock with
      | .ok response => some { g with issued := g.issued ++ [response.accessToken] }
      | .error _ => some g
  | .request credentials command clock correlationId =>
      match g.serve rt packages auth credentials command clock with
      | .ok user => (g.cluster.step (system rt settings)
          (.spawn (command.kind rt correlationId user))).map fun w => { g with cluster := w }
      | .error _ => some g
  | .administer accounts => some { g with accounts := accounts }
  | .act a =>
      if permits a then (g.cluster.step (system rt settings) a).map fun w => { g with cluster := w }
      else none

/-- Nobody else knows the secret: a token that is ever accepted was handed
out. -/
def Genuine (g : Gateway Token) (credentials : Option (Credentials Token)) : Prop :=
  ∀ c now payload, credentials = some c →
    packages.decode c.credentials auth.jwtSecret auth.jwtIssuer now = .ok payload →
    c.credentials ∈ g.issued

def Moves (d : Deed Token) (g g' : Gateway Token) : Prop :=
  g.step rt packages auth settings d = some g' ∧
    ∀ credentials command clock correlationId,
      d = .request credentials command clock correlationId → g.Genuine packages auth credentials

/-- From the first accounts on, whatever happens. -/
def Reached (g₀ g : Gateway Token) : Prop :=
  Chain (Moves rt packages auth settings) (fun _ => True) g₀ g

/-- A token issued at an instant is accepted at another one. -/
def Fresh (issuedAt now : Time) : Prop :=
  seconds (timestamp issuedAt) ≤ now ∧
    now < seconds (timestamp issuedAt + 60 * auth.accessTokenMinutes)

/-- Someone with the password of the account has signed in and was handed the
token. -/
def SignedIn (g₀ g : Gateway Token) (id : Uuid) (token : Token) (issuedAt : Time) : Prop :=
  Once (Moves rt packages auth settings) g₀ (fun d g₁ _ => ∃ body account,
    d = .signIn body issuedAt ∧ account ∈ g₁.accounts.rows ∧ account.id = id ∧
    account.email = normalizeEmail rt body.email ∧
    packages.verify body.password account.passwordHash = .ok true ∧
    token = (createAccessToken packages auth account issuedAt).1) g

end Steps

/-! ### Who is served -/

section Requests

variable {rt : Runtime} {packages : Packages Token} {auth : AuthSettings} {accounts : Accounts}

theorem getCurrentUser_eq_ok {credentials : Option (Credentials Token)} {now : Time}
    {user : Account} :
    getCurrentUser rt packages auth accounts credentials now = .ok user ↔
      ∃ c payload, credentials = some c ∧ rt.lower c.scheme = "bearer" ∧
        packages.decode c.credentials auth.jwtSecret auth.jwtIssuer now = .ok payload ∧
        payload.get? "sub" = some (.uuid user.id) ∧ accounts.get? user.id = some user := by
  constructor
  · intro h
    cases credentials with
    | none => cases h
    | some c =>
        by_cases hscheme : rt.lower c.scheme = "bearer"
        case neg => simp [getCurrentUser, hscheme] at h
        simp only [getCurrentUser, hscheme, ne_eq, not_true_eq_false, if_false] at h
        cases hdecode : packages.decode c.credentials auth.jwtSecret auth.jwtIssuer now with
        | error e => simp [hdecode, bind, Except.bind] at h
        | ok payload =>
            cases hsubject : subject payload with
            | error e => simp [hdecode, hsubject, bind, Except.bind] at h
            | ok userId =>
                simp only [hdecode, hsubject, bind, Except.bind] at h
                split at h
                · cases h
                · rename_i found hget
                  cases h
                  obtain rfl : user.id = userId := Table.key_of_get? hget
                  refine ⟨c, payload, rfl, hscheme, hdecode, ?_, hget⟩
                  simp only [subject] at hsubject
                  split at hsubject <;> simp_all
  · rintro ⟨c, payload, rfl, hscheme, hdecode, hsub, hget⟩
    have hsubject : subject payload = .ok user.id := by simp [subject, hsub]
    simp [getCurrentUser, hscheme, hdecode, hsubject, hget, bind, Except.bind]

theorem requireRoles_eq_ok {allowed : List Role} {user account : Account} :
    requireRoles allowed user = .ok account ↔ user = account ∧ account.role ∈ allowed := by
  by_cases hrole : user.role ∈ allowed
  · simp only [requireRoles, hrole, not_true_eq_false, if_false, Except.ok.injEq]
    constructor
    · rintro rfl
      exact ⟨rfl, hrole⟩
    · exact And.left
  · simp only [requireRoles, hrole, not_false_eq_true, if_true, reduceCtorEq, false_iff]
    rintro ⟨rfl, hallowed⟩
    exact hrole hallowed

theorem serve_eq_ok {g : Gateway Token} {credentials : Option (Credentials Token)}
    {command : Command} {clock : Time} {user : Account} :
    g.serve rt packages auth credentials command clock = .ok user ↔
      getCurrentUser rt packages auth g.accounts credentials clock = .ok user ∧
        user.role ∈ command.allowed := by
  cases hcurrent : getCurrentUser rt packages auth g.accounts credentials clock with
  | error e => simp [serve, hcurrent, bind, Except.bind]
  | ok current =>
      simp only [serve, hcurrent, bind, Except.bind, requireRoles_eq_ok, Except.ok.injEq]

theorem signIn_eq_ok {body : SignInRequest} {now : Time} {response : TokenResponse Token}
    (h : signIn rt packages auth accounts body now = .ok response) :
    ∃ account ∈ accounts.rows, account.email = normalizeEmail rt body.email ∧
      packages.verify body.password account.passwordHash = .ok true ∧
      response.accessToken = (createAccessToken packages auth account now).1 := by
  unfold signIn at h
  split at h
  · cases h
  · rename_i account hfind
    have hemail := List.find?_some hfind
    refine ⟨account, List.mem_of_find?_eq_some hfind, of_decide_eq_true hemail, ?_⟩
    cases hverify : packages.verify body.password account.passwordHash with
    | error e => simp [hverify, bind, Except.bind] at h
    | ok verified =>
        cases verified with
        | false => simp [hverify, bind, Except.bind] at h
        | true =>
            simp only [hverify, bind, Except.bind, if_true] at h
            cases h
            exact ⟨rfl, rfl⟩

theorem timestamp_later (time : Time) (n : ℤ) :
    timestamp (time + seconds n) = timestamp time + n :=
  Int.add_mul_ediv_right _ _ (by decide)

theorem standing_accessToken {account : Account} {issuedAt now : Time} :
    Standing (accessTokenPayload auth account issuedAt) auth.jwtIssuer now ↔
      Fresh auth issuedAt now := by
  have hissued : (accessTokenPayload auth account issuedAt).get? "iat" =
      some (.int (timestamp issuedAt)) := rfl
  have hexpires : (accessTokenPayload auth account issuedAt).get? "exp" =
      some (.int (timestamp issuedAt + 60 * auth.accessTokenMinutes)) := by
    rw [← timestamp_later]
    rfl
  constructor
  · rintro ⟨-, hiat, hexp⟩
    exact ⟨hiat _ hissued, hexp _ hexpires⟩
  · rintro ⟨hiat, hexp⟩
    refine ⟨rfl, fun n hn => ?_, fun n hn => ?_⟩
    · obtain rfl : timestamp issuedAt = n := by simpa [hissued] using hn
      exact hiat
    · obtain rfl : timestamp issuedAt + 60 * auth.accessTokenMinutes = n := by
        simpa [hexpires] using hn
      exact hexp

theorem decode_accessToken (hlawful : packages.Lawful auth) {account : Account}
    {issuedAt now : Time} {payload : Record} :
    packages.decode (packages.encode (accessTokenPayload auth account issuedAt) auth.jwtSecret)
      auth.jwtSecret auth.jwtIssuer now = .ok payload ↔
        payload = accessTokenPayload auth account issuedAt ∧ Fresh auth issuedAt now := by
  rw [hlawful.decode_encode, standing_accessToken]

end Requests

/-! ### Runs -/

section Runs

variable {rt : Runtime} {packages : Packages Token} {auth : AuthSettings} {settings : Settings}
  {accounts : Accounts} {templates : Table TrainingTemplate.id} {g g' : Gateway Token}
  {d : Deed Token} {token : Token} {pid : ℕ} {κ : Kind}

/-- What a deed does to the sessions and to the tokens. -/
theorem step_cases (h : g.step rt packages auth settings d = some g') :
    (g'.cluster = g.cluster ∨
      (∃ a, d = .act a ∧ permits a ∧ g.cluster.step (system rt settings) a = some g'.cluster) ∨
      ∃ credentials command clock correlationId user,
        d = .request credentials command clock correlationId ∧
        g.serve rt packages auth credentials command clock = .ok user ∧
        g.cluster.step (system rt settings) (.spawn (command.kind rt correlationId user)) =
          some g'.cluster) ∧
    (g'.issued = g.issued ∨ ∃ body clock response, d = .signIn body clock ∧
      Runscope.signIn rt packages auth g.accounts body clock = .ok response ∧
      g'.issued = g.issued ++ [response.accessToken]) := by
  cases d with
  | signIn body clock =>
      simp only [step] at h
      split at h
      · rename_i response hresponse
        cases h
        exact ⟨.inl rfl, .inr ⟨body, clock, response, rfl, hresponse, rfl⟩⟩
      · cases h
        exact ⟨.inl rfl, .inl rfl⟩
  | request credentials command clock correlationId =>
      simp only [step] at h
      split at h
      · rename_i user hserve
        obtain ⟨w, hstep, rfl⟩ := Option.map_eq_some_iff.mp h
        exact ⟨.inr (.inr ⟨credentials, command, clock, correlationId, user, rfl, hserve, hstep⟩),
          .inl rfl⟩
      · cases h
        exact ⟨.inl rfl, .inl rfl⟩
  | administer accounts =>
      cases h
      exact ⟨.inl rfl, .inl rfl⟩
  | act a =>
      simp only [step, Option.ite_none_right_eq_some] at h
      obtain ⟨hpermits, h⟩ := h
      obtain ⟨w, hstep, rfl⟩ := Option.map_eq_some_iff.mp h
      exact ⟨.inr (.inl ⟨a, rfl, hpermits, hstep⟩), .inl rfl⟩

theorem Reached.reachable
    (h : Reached rt packages auth settings (.start accounts templates) g) :
    Reachable rt settings templates g.cluster := by
  refine Chain.preserves (P := fun g : Gateway Token => Reachable rt settings templates g.cluster)
    (fun d g g' _ hstep hreach => ?_) h .refl
  rcases (step_cases hstep.1).1 with hsame | ⟨a, -, -, hstep⟩ | ⟨_, _, _, _, _, -, -, hstep⟩
  · rwa [hsame]
  · exact hreach.step hstep
  · exact hreach.step hstep

/-- Every token was handed out at a sign-in. -/
theorem Reached.signedIn
    (h : Reached rt packages auth settings (.start accounts templates) g)
    (hissued : token ∈ g.issued) : ∃ id issuedAt,
      SignedIn rt packages auth settings (.start accounts templates) g id token issuedAt := by
  have honce := Chain.once (P := fun g => token ∈ g.issued) h (by simp [start]) hissued
  obtain ⟨d, g₁, g₂, hbefore, hmoves, ⟨hnot, hnow⟩, hafter⟩ := honce
  rcases (step_cases hmoves.1).2 with hsame | ⟨body, clock, response, rfl, hresponse, hadded⟩
  · exact absurd (hsame ▸ hnow) hnot
  · obtain ⟨account, haccount, hemail, hverify, htoken⟩ := signIn_eq_ok hresponse
    have hnew : token = response.accessToken := by
      rw [hadded, List.mem_append, List.mem_singleton] at hnow
      exact hnow.resolve_left hnot
    exact ⟨account.id, clock, _, g₁, g₂, hbefore, hmoves,
      ⟨body, account, rfl, haccount, rfl, hemail, hverify, hnew.trans htoken⟩, hafter⟩

/-- What the token of a sign-in says. -/
theorem SignedIn.token_eq {g₀ : Gateway Token} {id : Uuid} {issuedAt : Time}
    (h : SignedIn rt packages auth settings g₀ g id token issuedAt) :
    ∃ account : Account, account.id = id ∧
      token = packages.encode (accessTokenPayload auth account issuedAt) auth.jwtSecret := by
  obtain ⟨_, _, _, -, -, ⟨_, account, -, -, hid, -, -, htoken⟩, -⟩ := h
  exact ⟨account, hid, htoken⟩

/-- What a command asks for: an account with the right role at the moment, and
a token that was handed out for it and has not expired. -/
structure Entitled (rt : Runtime) (packages : Packages Token) (auth : AuthSettings)
    (settings : Settings) (g₀ g : Gateway Token) (credentials : Option (Credentials Token))
    (command : Command) (clock : Time) (user : Account) : Prop where
  account : g.accounts.get? user.id = some user
  allowed : user.role ∈ command.allowed
  token : ∃ c issuedAt, credentials = some c ∧ rt.lower c.scheme = "bearer" ∧
    Fresh auth issuedAt clock ∧
      SignedIn rt packages auth settings g₀ g user.id c.credentials issuedAt

theorem Reached.serve_eq_ok (hlawful : packages.Lawful auth)
    (h : Reached rt packages auth settings (.start accounts templates) g)
    {credentials : Option (Credentials Token)} (hgenuine : g.Genuine packages auth credentials)
    {command : Command} {clock : Time} {user : Account} :
    g.serve rt packages auth credentials command clock = .ok user ↔
      Entitled rt packages auth settings (.start accounts templates) g credentials command clock
        user := by
  rw [Gateway.serve_eq_ok, getCurrentUser_eq_ok]
  constructor
  · rintro ⟨⟨c, payload, rfl, hscheme, haccepted, hsub, hget⟩, hrole⟩
    obtain ⟨id, issuedAt, hsigned⟩ := h.signedIn (hgenuine c clock payload rfl haccepted)
    obtain ⟨account, rfl, htoken⟩ := hsigned.token_eq
    rw [htoken, decode_accessToken hlawful] at haccepted
    obtain ⟨rfl, hfresh⟩ := haccepted
    have hid : account.id = user.id := Value.uuid.inj (Option.some.inj hsub)
    exact ⟨hget, hrole, c, issuedAt, rfl, hscheme, hfresh, hid ▸ hsigned⟩
  · rintro ⟨hget, hrole, c, issuedAt, rfl, hscheme, hfresh, hsigned⟩
    obtain ⟨account, hid, htoken⟩ := hsigned.token_eq
    refine ⟨⟨c, accessTokenPayload auth account issuedAt, rfl, hscheme, ?_, ?_, hget⟩, hrole⟩
    · rw [htoken, decode_accessToken hlawful]
      exact ⟨rfl, hfresh⟩
    · rw [← hid]
      rfl

theorem Command.actor_kind {command : Command} {correlationId : RequestId} {user : Account}
    {u : Uuid} (h : (command.kind rt correlationId user).actor = some u) : user.id = u := by
  cases command with
  | registerWorker | heartbeat => cases h
  | _ => exact Option.some.inj h

/-- The session was started for a request of the user, who was entitled to it
then. -/
def Served (rt : Runtime) (packages : Packages Token) (auth : AuthSettings) (settings : Settings)
    (g₀ g : Gateway Token) (pid : ℕ) (κ : Kind) (u : Uuid) : Prop :=
  Once (Moves rt packages auth settings) g₀ (fun d g₁ _ =>
    ∃ credentials command clock correlationId user,
      d = .request credentials command clock correlationId ∧ pid = g₁.cluster.procs.length ∧
      κ = command.kind rt correlationId user ∧ user.id = u ∧
      Entitled rt packages auth settings g₀ g₁ credentials command clock user) g

theorem Reached.served (hlawful : packages.Lawful auth)
    (h : Reached rt packages auth settings (.start accounts templates) g) {q : Process}
    (hq : g.cluster.procs[pid]? = some q) {u : Uuid} (hactor : q.kind.actor = some u) :
    Served rt packages auth settings (.start accounts templates) g pid q.kind u := by
  have honce := Chain.once (P := fun g : Gateway Token =>
    ∃ q', g.cluster.procs[pid]? = some q' ∧ q'.kind = q.kind) h (by simp [start, World.initial])
    ⟨q, hq, rfl⟩
  refine honce.imp fun d g₁ g₂ hbefore hmoves hnew => ?_
  obtain ⟨hnot, q₂, hq₂, hkind⟩ := hnew
  have hreached : Reached rt packages auth settings (.start accounts templates) g₁ := hbefore
  have hstarted {a : Action Kind Input}
      (hstep : g₁.cluster.step (system rt settings) a = some g₂.cluster) :
      a = .spawn q₂.kind ∧ pid = g₁.cluster.procs.length :=
    (World.kind_before hstep hq₂).resolve_left fun hold =>
      hnot (by obtain ⟨q₁, hq₁, hsame⟩ := hold; exact ⟨q₁, hq₁, hsame.trans hkind⟩)
  rcases (step_cases hmoves.1).1 with hsame | ⟨a, rfl, hpermits, hstep⟩ |
    ⟨credentials, command, clock, correlationId, user, rfl, hserve, hstep⟩
  · exact absurd ⟨q₂, hsame ▸ hq₂, hkind⟩ hnot
  · obtain ⟨rfl, -⟩ := hstarted hstep
    simp [permits, hkind, hactor] at hpermits
  · obtain ⟨hspawn, hpid⟩ := hstarted hstep
    have hκ : q.kind = command.kind rt correlationId user := by
      rw [← hkind]
      exact (Action.spawn.inj hspawn).symm
    rw [hκ] at hactor
    refine ⟨credentials, command, clock, correlationId, user, rfl, hpid, hκ,
      Command.actor_kind hactor, ?_⟩
    exact (hreached.serve_eq_ok hlawful (hmoves.2 credentials command clock correlationId rfl)).mp
      hserve

/-- A request starts the session of its command in the name of a user if the
user is entitled to it, and otherwise changes nothing. The role counts that
the account has now, not the one it had at the sign-in. -/
theorem requests_entitled (hlawful : packages.Lawful auth)
    (h : Reached rt packages auth settings (.start accounts templates) g)
    {credentials : Option (Credentials Token)} (hgenuine : g.Genuine packages auth credentials)
    (command : Command) (clock : Time) (correlationId : RequestId) :
    (∀ user, Entitled rt packages auth settings (.start accounts templates) g credentials command
        clock user →
      g.step rt packages auth settings (.request credentials command clock correlationId) =
        some { g with cluster := { g.cluster with procs := g.cluster.procs ++
          [⟨command.kind rt correlationId user,
            (command.kind rt correlationId user).code rt settings, .fresh⟩] } }) ∧
    ((∀ user, ¬ Entitled rt packages auth settings (.start accounts templates) g credentials command
        clock user) →
      g.step rt packages auth settings (.request credentials command clock correlationId) =
        some g) := by
  constructor
  · intro user hentitled
    have hserve := (h.serve_eq_ok hlawful hgenuine).mpr hentitled
    have hadmits : (system rt settings).admits (command.kind rt correlationId user)
        g.cluster.state := by
      cases command <;> exact trivial
    simp only [step, hserve, World.step, if_pos hadmits, Option.map_some]
    rfl
  · intro hnone
    cases hserve : g.serve rt packages auth credentials command clock with
    | error e => simp [step, hserve]
    | ok user => exact absurd ((h.serve_eq_ok hlawful hgenuine).mp hserve) (hnone user)

/-- Who creates a run, retries one or asks to cancel one has signed in with the
password of the account in whose name it is done, not longer ago than its token
is good for, and had a role that permits it when the request was made. -/
theorem history_authenticated (hlawful : packages.Lawful auth)
    (h : Reached rt packages auth settings (.start accounts templates) g) {r : Uuid}
    {previous target : RunStatus}
    (hx : (some previous, some target) ∈ g.cluster.state.db.transitionsOf r)
    (hcommand : (previous, target) ∈ [(draft, queued), (running, cancelling)]) :
    ∃ (pid : ℕ) (q : Process) (u : Uuid), g.cluster.procs[pid]? = some q ∧
      .transition (some previous) (some target) ∈ entries r q.session.committed ∧
      (target = queued → ∃ run, g.cluster.state.db.runs.get? r = some run ∧ run.createdBy = u) ∧
      (target = cancelling → ∃ user correlationId, q.kind = .cancelRun r user correlationId ∧
        user.id = u ∧ g.cluster.state.db.Controlled user r) ∧
      Served rt packages auth settings (.start accounts templates) g pid q.kind u := by
  have hreach := h.reachable
  obtain ⟨_, _, heq, pid, q, l, hq, hentry, hallows, hmakes, hcreated⟩ := hreach.authored _ hx
  obtain ⟨rfl, rfl⟩ : previous = _ ∧ target = _ := by simpa using heq
  cases hmakes with
  | create =>
      obtain ⟨run, hget, hprovenance⟩ := hcreated rfl
      have hactor : q.kind.actor = some run.createdBy := by
        revert hprovenance
        cases q.kind <;> simp +contextual [Kind.provenance, Kind.actor, Run.provenance]
      exact ⟨pid, q, run.createdBy, hq, hentry, fun _ => ⟨run, hget, rfl⟩, by simp,
        h.served hlawful hq hactor⟩
  | requestCancel =>
      obtain ⟨user, correlationId, hkind⟩ := cancelRun_of_allows hallows
      have hdone : q.session.committed ≠ [] := by
        intro hnone
        rw [hnone] at hentry
        cases hentry
      have hcontrols : g.cluster.state.db.Controlled user r :=
        hreach.controlled (List.mem_of_getElem? hq) (by rw [hkind]; rfl) hdone
      exact ⟨pid, q, user.id, hq, hentry, by simp,
        fun _ => ⟨user, correlationId, hkind, rfl, hcontrols⟩,
        h.served hlawful hq (by rw [hkind]; rfl)⟩
  | assign | requeue | start => simp at hcommand
  | finish _ _ _ hpair =>
      revert hpair hcommand
      cases previous <;> cases target <;> simp

end Runs

/-! ### Small runs -/

section Exec

variable [DecidableEq Token] (rt : Runtime) (packages : Packages Token) (auth : AuthSettings)
  (settings : Settings)

/-- The tokens that are presented are some that were handed out. -/
def presents (g : Gateway Token) : Deed Token → Bool
  | .request (some c) .. => c.credentials ∈ g.issued
  | _ => true

def exec (g : Gateway Token) : List (Deed Token) → Option (Gateway Token)
  | [] => some g
  | d :: ds =>
    if g.presents d then
      match g.step rt packages auth settings d with
      | none => none
      | some g' => g'.exec ds
    else none

theorem Reached.of_exec {g₀ g g' : Gateway Token} {ds : List (Deed Token)}
    (h : Reached rt packages auth settings g₀ g)
    (hexec : g.exec rt packages auth settings ds = some g') :
    Reached rt packages auth settings g₀ g' := by
  induction ds generalizing g with
  | nil => exact Option.some.inj hexec ▸ h
  | cons d ds ih =>
      simp only [exec, Option.ite_none_right_eq_some] at hexec
      obtain ⟨hpresents, hexec⟩ := hexec
      split at hexec
      case h_1 => cases hexec
      case h_2 g₁ hstep =>
        refine ih (Chain.trans h (.single d trivial ⟨hstep, ?_⟩)) hexec
        rintro credentials command clock correlationId rfl c now payload rfl -
        exact of_decide_eq_true hpresents

end Exec

end Gateway

namespace Demo

/-- What `decode` asks of a payload. -/
def stands (payload : Record) (issuer : String) (now : Time) : Bool :=
  payload.get? "iss" = some (.str issuer) ∧
    (∀ x ∈ payload.get? "iat", ∀ n ∈ wholeSeconds x, seconds n ≤ now) ∧
      ∀ x ∈ payload.get? "exp", ∀ n ∈ wholeSeconds x, now < seconds n
where
  wholeSeconds : Value → Option ℤ
    | .int n => some n
    | _ => none

theorem stands_iff {payload : Record} {issuer : String} {now : Time} :
    stands payload issuer now ↔ Standing payload issuer now := by
  have hint (x : Value) (n : ℤ) : n ∈ stands.wholeSeconds x ↔ x = .int n := by
    cases x <;> simp [stands.wholeSeconds, eq_comm]
  simp only [stands, hint, decide_eq_true_eq]
  constructor
  · rintro ⟨hissuer, hissued, hexpires⟩
    exact ⟨hissuer, fun n hn => hissued _ hn n rfl, fun n hn => hexpires _ hn n rfl⟩
  · rintro ⟨hissuer, hissued, hexpires⟩
    refine ⟨hissuer, ?_, ?_⟩
    · rintro x hx n rfl
      exact hissued n hx
    · rintro x hx n rfl
      exact hexpires n hx

/-- A signed payload, and the key it is signed with. -/
def packages : Packages (Record × String) where
  verify password hash := .ok (password = hash)
  encode payload key := (payload, key)
  decode token key issuer now :=
    if token.2 = key ∧ stands token.1 issuer now then .ok token.1
    else .error (.other "InvalidTokenError")

def auth : AuthSettings := ⟨"secret", "runscope", 30⟩

theorem packages_lawful : packages.Lawful auth := by
  refine ⟨fun account issuedAt now payload => ?_⟩
  have hdecode : packages.decode
      (packages.encode (accessTokenPayload auth account issuedAt) auth.jwtSecret) auth.jwtSecret
        auth.jwtIssuer now =
      if stands (accessTokenPayload auth account issuedAt) auth.jwtIssuer now then
        .ok (accessTokenPayload auth account issuedAt)
      else .error (.other "InvalidTokenError") := by
    simp [packages]
  rw [hdecode, ← stands_iff]
  split
  · next hstands => simp [hstands, eq_comm]
  · next hstands => simp [hstands]

def account (role : Role) : Account := ⟨5, "researcher@runscope.dev", "ResearcherDemo123!", role⟩

def accounts (role : Role) : Accounts := ⟨[account role], List.nodup_singleton _⟩

def signInRequest : SignInRequest where
  email := "researcher@runscope.dev"
  password := "ResearcherDemo123!"
  password_length := by decide

def credentials : Credentials (Record × String) :=
  ⟨"bearer", (createAccessToken packages auth (account .researcher) 10).1⟩

def gateway : Gateway (Record × String) := .start (accounts .researcher) templates

def gatewayExec (ds : List (Gateway.Deed (Record × String))) : Option (Gateway (Record × String)) :=
  gateway.exec runtime packages auth settings ds

theorem gateway_reached {ds : List (Gateway.Deed (Record × String))}
    {P : Gateway (Record × String) → Bool} (h : (gatewayExec ds).any P) :
    ∃ g, Gateway.Reached runtime packages auth settings gateway g ∧ P g := by
  obtain ⟨g, hg, hP⟩ := (Option.any_eq_true _ _).mp h
  exact ⟨g, Gateway.Reached.of_exec _ _ _ _ .refl hg, hP⟩

/-- A researcher signs in and submits a run. -/
def requested : List (Gateway.Deed (Record × String)) :=
  .signIn signInRequest 10 :: .request (some credentials) (.createRun slow) 20 requestId ::
    (steps 0 200 10).map .act

/-- A researcher signs in and becomes a viewer. -/
def demoted : List (Gateway.Deed (Record × String)) :=
  [.signIn signInRequest 10, .administer (accounts .viewer)]

end Demo

/-- The token of a researcher who has become a viewer is of no use. -/
theorem Gateway.requests_entitled_demoted : ∃ g, Gateway.Reached Demo.runtime Demo.packages Demo.auth
      Demo.settings Demo.gateway g ∧ Demo.credentials.credentials ∈ g.issued ∧
    g.step Demo.runtime Demo.packages Demo.auth Demo.settings
      (.request (some Demo.credentials) (.createRun Demo.slow) 20 Demo.requestId) = some g := by
  have h : (Demo.gatewayExec Demo.demoted).any fun g =>
      g.accounts.rows = [Demo.account .viewer] ∧ Demo.credentials.credentials ∈ g.issued := by
    decide +kernel
  obtain ⟨g, hreached, hlast⟩ := Demo.gateway_reached h
  obtain ⟨haccounts, hissued⟩ := of_decide_eq_true hlast
  have hgenuine : g.Genuine Demo.packages Demo.auth (some Demo.credentials) := by
    rintro c now payload ⟨⟩ -
    exact hissued
  refine ⟨g, hreached, hissued, (Gateway.requests_entitled Demo.packages_lawful hreached hgenuine
    (.createRun Demo.slow) 20 Demo.requestId).2 fun user hentitled => ?_⟩
  have hmem := Table.mem_of_get? hentitled.account
  rw [haccounts, List.mem_singleton] at hmem
  have hallowed := hentitled.allowed
  rw [hmem] at hallowed
  simp [Demo.account, Command.allowed] at hallowed

/-- The run was submitted by the researcher who has signed in. -/
theorem Gateway.history_authenticated_submitted : ∃ g, Gateway.Reached Demo.runtime Demo.packages
      Demo.auth Demo.settings Demo.gateway g ∧
    (some draft, some queued) ∈ g.cluster.state.db.transitionsOf 201 ∧
    ∃ (pid : ℕ) (q : Process) (u : Uuid), g.cluster.procs[pid]? = some q ∧ Gateway.Served
      Demo.runtime Demo.packages Demo.auth Demo.settings Demo.gateway g pid q.kind u := by
  have h : (Demo.gatewayExec Demo.requested).any fun g =>
      (some draft, some queued) ∈ g.cluster.state.db.transitionsOf 201 := by decide +kernel
  obtain ⟨g, hreached, hlast⟩ := Demo.gateway_reached h
  have hx := of_decide_eq_true hlast
  obtain ⟨pid, q, u, hq, -, -, -, hserved⟩ :=
    Gateway.history_authenticated Demo.packages_lawful hreached hx (by simp)
  exact ⟨g, hreached, hx, pid, q, u, hq, hserved⟩

end Runscope
