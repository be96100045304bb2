import Waygate.Theory.Graph.RecursiveUnion

/-!
# The Token Endpoint

Calls of the token endpoint and of the dashboard's session revoke, over the two tables
they share, each in as many places as it has gaps between statements.

Statements run as under READ COMMITTED. A transaction holds the rows it has written
until it commits, and an update that meets a held row waits and then tests its condition
again. Only `revoke_chain` can meet one after its own start, so it alone has two places:
`replay`, before its snapshot, and `chaining`, after. Session locks are held until the
end of the transaction. The database and the gateway read one clock. Random values come
with the action that draws them, and one that is already a key fails the insert.

## Main definitions

* `Call`, `advance`
* `State`: The clock, the tables, the calls, and what was done.
* `step`, `run`: An action, and an interleaving of them.
-/

namespace Waygate.As

structure Authority where
  sub : String
  email : Option String
  groups : List String
  scopes : List String
  clientId : String
  tenantId : String
  deriving DecidableEq, Repr

structure IssuedCode extends Authority where
  code : String
  redirectUri : String
  codeChallenge : String
  expiresAt : Int
  deriving DecidableEq, Repr

structure RefreshToken extends Authority where
  token : String
  rotatedFrom : Option String
  expiresAt : Int
  revokedAt : Option Int
  deriving DecidableEq, Repr

structure AccessTokenClaims where
  iss : String
  sub : String
  aud : String
  iat : Int
  exp : Int
  email : Option String
  groups : List String
  scope : String
  clientId : Option String
  tenant : Option String
  deriving DecidableEq, Repr

structure TokenRequest where
  code : Option String
  codeVerifier : Option String
  redirectUri : Option String
  clientId : Option String
  refreshToken : Option String
  deriving DecidableEq, Repr

inductive TokenError
  | missingCode
  | missingCodeVerifier
  | missingRedirectUri
  | missingClientId
  | missingRefreshToken
  | invalidCode
  | redirectUriMismatch
  | clientIdMismatch
  | pkceFailed
  | invalidRefresh
  | internal
  deriving DecidableEq, Repr

/-- The configuration, with the two functions that are not the gateway's own:
    the PKCE digest in its base64url form, and the database's text hash. -/
structure AsState where
  issuer : String
  audience : String
  accessTokenTtl : Int
  refreshTokenTtl : Int
  s256 : String → String
  hashtext : String → Int

structure CodeRequest where
  code : String
  codeVerifier : String
  redirectUri : String
  clientId : String
  deriving DecidableEq, Repr

def TokenRequest.forCode (req : TokenRequest) : Except TokenError CodeRequest :=
  match req.code, req.codeVerifier, req.redirectUri, req.clientId with
  | none, _, _, _ => .error .missingCode
  | _, none, _, _ => .error .missingCodeVerifier
  | _, _, none, _ => .error .missingRedirectUri
  | _, _, _, none => .error .missingClientId
  | some code, some verifier, some uri, some client => .ok ⟨code, verifier, uri, client⟩

def mintAccessToken (env : AsState) (a : Authority) (now : Int) : AccessTokenClaims where
  iss := env.issuer
  sub := a.sub
  aud := env.audience
  iat := now
  exp := now + env.accessTokenTtl
  email := a.email
  groups := a.groups
  scope := " ".intercalate a.scopes
  clientId := some a.clientId
  tenant := some a.tenantId

def mintRefresh (env : AsState) (a : Authority) (rotatedFrom : Option String) (value : String)
    (now : Int) : RefreshToken where
  toAuthority := a
  token := value
  rotatedFrom := rotatedFrom
  expiresAt := now + env.refreshTokenTtl
  revokedAt := none

inductive Work
  | rotateRefresh (access : AccessTokenClaims) (predecessor : String) (successor : RefreshToken)
  | revokeByClientSub (clientId sub : String)
  deriving DecidableEq, Repr

def Work.sessionLock (env : AsState) : Work → Int × Int
  | .rotateRefresh _ _ successor => (env.hashtext successor.clientId, env.hashtext successor.sub)
  | .revokeByClientSub clientId sub => (env.hashtext clientId, env.hashtext sub)

def Work.selects (now : Int) : Work → RefreshToken → Bool
  | .rotateRefresh _ predecessor _, r => r.token == predecessor && r.revokedAt.isNone
  | .revokeByClientSub clientId sub, r =>
    r.clientId == clientId && r.sub == sub && r.revokedAt.isNone && decide (now < r.expiresAt)

/-- Where a call is. `redeemed` has taken its code, `found` and `replay` have read
    their row, and the last four places are those of a transaction: about to begin,
    waiting for its lock, holding it, and with its update done. -/
inductive Call
  | authCode (req : CodeRequest)
  | redeemed (req : CodeRequest) (issued : IssuedCode)
  | refresh (token : String)
  | found (rt : RefreshToken)
  | replay (token : String)
  | chaining (now : Int) (token : String) (rows : List String)
  | opening (work : Work)
  | begun (now : Int) (work : Work)
  | locked (now : Int) (work : Work)
  | written (now : Int) (work : Work) (rows : List String)
  | failed (error : TokenError)
  | finished
  deriving DecidableEq, Repr

def Call.sessionLock (env : AsState) : Call → List (Int × Int)
  | .locked _ work | .written _ work _ => [work.sessionLock env]
  | _ => []

def Call.rowLocks : Call → List String
  | .written _ _ rows => rows
  | _ => []

inductive Source
  | code (req : CodeRequest) (issued : IssuedCode)
  | refresh (token : String)
  deriving DecidableEq, Repr

/-- What has been done: a pair was issued, a `revoke_chain` returned, a session
    revoke committed while the pair had the tokens it lists. -/
inductive Event
  | issued (source : Source) (rt : RefreshToken) (access : AccessTokenClaims)
  | chainRevoked (token : String)
  | sessionRevoked (clientId sub : String) (tokens : List String)
  deriving DecidableEq, Repr

structure State where
  clock : Int
  codes : List IssuedCode
  refresh : List RefreshToken
  calls : List Call
  log : List Event
  deriving DecidableEq, Repr

def State.put (s : State) (i : Nat) (c : Call) : State := { s with calls := s.calls.set i c }

def State.rowsHeld (s : State) (rows : List String) : Bool :=
  s.calls.any (fun c => c.rowLocks.any (fun t => rows.contains t))

def State.sessionHeld (env : AsState) (s : State) (key : Int × Int) : Bool :=
  s.calls.any (fun c => (c.sessionLock env).contains key)

/-- The code's row, if it is there and live, and the table without it. -/
def takeCode (now : Int) (code : String) (codes : List IssuedCode) :
    Option IssuedCode × List IssuedCode :=
  let live := fun c : IssuedCode => c.code == code && decide (now < c.expiresAt)
  (codes.find? live, codes.filter (fun c => !live c))

def checkCode (env : AsState) (req : CodeRequest) (issued : IssuedCode) :
    Except TokenError Unit :=
  if issued.redirectUri ≠ req.redirectUri then .error .redirectUriMismatch
  else if issued.clientId ≠ req.clientId then .error .clientIdMismatch
  else if env.s256 req.codeVerifier ≠ issued.codeChallenge then .error .pkceFailed
  else .ok ()

def named (rows : List RefreshToken) (token : String) : List String :=
  (rows.filter (fun r => r.token == token)).map (·.token)

def rotatedTo (rows : List RefreshToken) (token : String) : List String :=
  (rows.filter (fun r => r.rotatedFrom == some token)).map (·.token)

/-- The query's `chain`. Rotations form a forest, where `UNION ALL` ends and
    selects what `UNION` would. -/
def chain (rows : List RefreshToken) (token : String) : List String :=
  Reach.recursiveUnion (rotatedTo rows) (rows.length + 1) (named rows token).dedup
    (named rows token).dedup

def revokeRow (now : Int) (tokens : List String) (r : RefreshToken) : RefreshToken :=
  if r.revokedAt = none ∧ r.token ∈ tokens then { r with revokedAt := some now } else r

def revokeRows (now : Int) (tokens : List String) (rows : List RefreshToken) :
    List RefreshToken :=
  rows.map (revokeRow now tokens)

def commit (s : State) (i : Nat) (now : Int) (rows : List String) : Work → State
  | .rotateRefresh access predecessor successor =>
    if successor.token ∈ s.refresh.map (·.token) then s.put i (.failed .internal)
    else
      { s.put i .finished with
        refresh := revokeRows now rows s.refresh ++ [successor]
        log := s.log ++ [.issued (.refresh predecessor) successor access] }
  | .revokeByClientSub clientId sub =>
    { s.put i .finished with
      refresh := revokeRows now rows s.refresh
      log := s.log ++ [.sessionRevoked clientId sub
        ((s.refresh.filter (fun r => r.clientId == clientId && r.sub == sub)).map (·.token))] }

/-- The next statement of the call at `i`. A call that has to wait stays. -/
def advance (env : AsState) (s : State) (i : Nat) (value : String) : Call → State
  | .authCode req =>
    match (takeCode s.clock req.code s.codes).1 with
    | none => s.put i (.failed .invalidCode)
    | some issued =>
      { s.put i (match checkCode env req issued with
          | .error e => .failed e
          | .ok () => .redeemed req issued) with
        codes := (takeCode s.clock req.code s.codes).2 }
  | .redeemed req issued =>
    if value ∈ s.refresh.map (·.token) then s.put i (.failed .internal)
    else
      { s.put i .finished with
        refresh := s.refresh ++ [mintRefresh env issued.toAuthority none value s.clock]
        log := s.log ++ [.issued (.code req issued)
          (mintRefresh env issued.toAuthority none value s.clock)
          (mintAccessToken env issued.toAuthority s.clock)] }
  | .refresh token =>
    match s.refresh.find? (fun r => r.token == token) with
    | none => s.put i (.failed .invalidRefresh)
    | some rt => s.put i (if rt.revokedAt.isSome then .replay token else .found rt)
  | .found rt =>
    if rt.expiresAt < s.clock then s.put i (.failed .invalidRefresh)
    else
      s.put i (.opening (.rotateRefresh (mintAccessToken env rt.toAuthority s.clock) rt.token
        (mintRefresh env rt.toAuthority (some rt.token) value s.clock)))
  | .replay token =>
    s.put i (.chaining s.clock token ((s.refresh.filter (fun r =>
      (chain s.refresh token).contains r.token && r.revokedAt.isNone)).map (·.token)))
  | .chaining now token rows =>
    if s.rowsHeld rows then s
    else
      { s.put i (.failed .invalidRefresh) with
        refresh := revokeRows now rows s.refresh
        log := s.log ++ [.chainRevoked token] }
  | .opening work => s.put i (.begun s.clock work)
  | .begun now work =>
    if s.sessionHeld env (work.sessionLock env) then s else s.put i (.locked now work)
  | .locked now work =>
    let rows := (s.refresh.filter (work.selects now)).map (·.token)
    if s.rowsHeld rows then s
    else
      match work, rows with
      -- The predecessor was revoked before the lock was given.
      | .rotateRefresh .., [] => s.put i (.failed .invalidRefresh)
      | _, _ => s.put i (.written now work rows)
  | .written now work rows => commit s i now rows work
  | .failed _ => s
  | .finished => s

/-- What can happen next. `abort` ends a call where it is: its connection is lost,
    or the database rolls its transaction back. -/
inductive Action
  | tick (n : Nat)
  | authCode (req : TokenRequest)
  | refresh (req : TokenRequest)
  | revokeByClientSub (clientId sub : String)
  | advance (i : Nat) (value : String)
  | abort (i : Nat)
  deriving DecidableEq, Repr

def State.submit (s : State) (c : Call) : State := { s with calls := s.calls ++ [c] }

def step (env : AsState) (s : State) : Action → State
  | .tick n => { s with clock := s.clock + n }
  | .authCode req =>
    s.submit (match req.forCode with
      | .error e => .failed e
      | .ok r => .authCode r)
  | .refresh req =>
    s.submit (match req.refreshToken with
      | none => .failed .missingRefreshToken
      | some token => .refresh token)
  | .revokeByClientSub clientId sub => s.submit (.opening (.revokeByClientSub clientId sub))
  | .advance i value =>
    match s.calls[i]? with
    | none => s
    | some c => advance env s i value c
  | .abort i => s.put i (.failed .internal)

def run (env : AsState) (s : State) (actions : List Action) : State :=
  actions.foldl (step env) s

end Waygate.As
