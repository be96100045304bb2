import Mathlib.Data.List.Basic

/-!
# DPoP Proofs

How `waygate-transfer` checks a proof and claims its `jti`. Instants are nanoseconds
since the Unix epoch. The JWT, URL and hash libraries are parameters. A call checks the
proof at the time its replica read before it looked anything up, and claims it when its
insert reaches the database. The sweep deletes by the database clock.

## Main definitions

* `verify`: The check.
* `claimDpopJti`, `sweepExpired`: The replay table.
* `System`, `step`: Calls that interleave.
-/

namespace Waygate.Transfer

inductive DpopError where
  | configuration | malformed | header | signature | claims | requestBinding | stale
  | accessTokenBinding | replay
  deriving DecidableEq

inductive Algorithm where
  | hs256 | hs384 | hs512 | es256 | es384 | rs256 | rs384 | rs512 | ps256 | ps384 | ps512 | edDSA

def asymmetricAlgorithm : Algorithm → Bool
  | .hs256 | .hs384 | .hs512 => false
  | _ => true

structure Jwk where
  isOctetKey : Bool
  thumbprint : String

structure Header where
  typ : Option String
  alg : Algorithm
  (jku x5u : Option String)
  (x5c crit : Option (List String))
  jwk : Option Jwk

structure DpopClaims where
  (jti htm htu : String)
  iat : Int
  ath : Option String

structure Url where
  (scheme username path : String)
  (password hostStr query fragment : Option String)

structure Libraries (Key : Type) where
  decodeHeader : String → Option Header
  fromJwk : Jwk → Option Key
  decode : String → Key → Algorithm → Option DpopClaims
  parseUrl : String → Option Url
  urlToString : Url → String
  /-- The unpadded base64url of the SHA-256 digest. -/
  tokenHash : String → String

structure UnclaimedDpopProof where
  (jkt jti : String)
  replayExpiresAt : Int
  deriving DecidableEq

structure DpopVerifier where
  maxAge : Int
  futureSkew : Int
  maxAge_pos : 0 < maxAge
  futureSkew_nonneg : 0 ≤ futureSkew

def DpopVerifier.new (maxAge futureSkew : Int) : Except DpopError DpopVerifier :=
  if h : maxAge ≤ 0 ∨ futureSkew < 0 then .error .configuration
  else .ok ⟨maxAge, futureSkew, by omega, by omega⟩

def isLoopback (url : Url) : Bool :=
  url.hostStr ∈ ["localhost", "127.0.0.1", "[::1]", "::1"].map some

def fromUnixTimestamp (seconds : Int) : Except DpopError Int :=
  if -377705116800 ≤ seconds ∧ seconds ≤ 253402300799 then .ok (seconds * 1000000000)
  else .error .claims

section Verify

variable {Key : Type} (lib : Libraries Key) (verifier : DpopVerifier)

def canonicalHtu (value : String) : Except DpopError String :=
  match lib.parseUrl value with
  | none => .error .requestBinding
  | some url =>
    if url.scheme ≠ "https" ∧ ¬(url.scheme = "http" ∧ isLoopback url) then .error .requestBinding
    else if url.username ≠ "" ∨ url.password.isSome then .error .requestBinding
    else .ok (lib.urlToString { url with query := none, fragment := none })

def verify (proofJwt requestMethod requestUri : String) (accessToken : Option String)
    (now : Int) : Except DpopError UnclaimedDpopProof := do
  let header ← (lib.decodeHeader proofJwt).elim (.error .malformed) .ok
  if header.typ ≠ some "dpop+jwt" ∨ !asymmetricAlgorithm header.alg then throw .header
  if header.jku.isSome ∨ header.x5u.isSome ∨ header.x5c.isSome ∨ header.crit.isSome then
    throw .header
  let jwk ← header.jwk.elim (.error .header) .ok
  if jwk.isOctetKey then throw .header
  let key ← (lib.fromJwk jwk).elim (.error .header) .ok
  let claims ← (lib.decode proofJwt key header.alg).elim (.error .signature) .ok
  if claims.jti = "" ∨ 200 < claims.jti.utf8ByteSize then throw .claims
  if claims.htm.map Char.toLower ≠ requestMethod.map Char.toLower then throw .requestBinding
  let htu ← canonicalHtu lib claims.htu
  if htu ≠ (← canonicalHtu lib requestUri) then throw .requestBinding
  let issuedAt ← fromUnixTimestamp claims.iat
  if now + verifier.futureSkew < issuedAt ∨ issuedAt < now - verifier.maxAge then throw .stale
  if claims.ath ≠ accessToken.map lib.tokenHash then throw .accessTokenBinding
  return {
    jkt := jwk.thumbprint
    jti := claims.jti
    replayExpiresAt := issuedAt + verifier.maxAge + verifier.futureSkew }

inductive AuthorityError where
  | grantUnavailable
  | credentialUnavailable
  | dpop (error : DpopError)

/-- A call, with what the store answers its lookup: the helper key of the grant
    that was found, or whether a key has a pending grant. -/
inductive Call where
  | exchangeCredential (stored : Option String)
  | exchangeCredentialForFile (pending : String → Bool)
  | authorizeRequest (stored : Option String) (credential : String)

/-- What comes before `claim_proof` in the three calls. -/
def Call.check (call : Call) (proofJwt requestMethod requestUri : String) (now : Int) :
    Except AuthorityError UnclaimedDpopProof :=
  let verified := fun token =>
    (verify lib verifier proofJwt requestMethod requestUri token now).mapError .dpop
  match call with
  | .exchangeCredential none => throw .grantUnavailable
  | .exchangeCredential (some helperJkt) => do
    let unclaimed ← verified none
    if unclaimed.jkt ≠ helperJkt then throw .grantUnavailable
    return unclaimed
  | .exchangeCredentialForFile pending => do
    let unclaimed ← verified none
    if !pending unclaimed.jkt then throw .grantUnavailable
    return unclaimed
  | .authorizeRequest none _ => throw .credentialUnavailable
  | .authorizeRequest (some helperJkt) credential => do
    let unclaimed ← verified (some credential)
    if unclaimed.jkt ≠ helperJkt then throw .credentialUnavailable
    return unclaimed

end Verify

/-- A row of `file_transfer_dpop_replays`, whose key is `(helper_jkt, jti)`. -/
structure ReplayRow where
  (helperJkt jti : String)
  expiresAt : Int

def claimDpopJti (table : List ReplayRow) (helperJkt jti : String) (expiresAt : Int) :
    List ReplayRow × Bool :=
  if table.any (fun row => row.helperJkt = helperJkt ∧ row.jti = jti) then (table, false)
  else (⟨helperJkt, jti, expiresAt⟩ :: table, true)

def sweepExpired (table : List ReplayRow) (now : Int) : List ReplayRow :=
  table.filter (fun row => now < row.expiresAt)

structure System where
  now : Int
  table : List ReplayRow := []
  /-- The calls that are to claim their proof, each with the time of its check. -/
  checked : List (UnclaimedDpopProof × Int) := []
  /-- The proofs that passed `claim_proof`, the last one first. -/
  claimed : List UnclaimedDpopProof := []

inductive Action where
  /-- A replica whose clock shows `clock` takes a call up to `claim_proof`. -/
  | check (call : Call) (proofJwt requestMethod requestUri : String) (clock : Int)
  | claimProof (call : Nat)
  | sweep
  | elapse (time : Nat)

variable {Key : Type} (lib : Libraries Key) (verifier : DpopVerifier)

def step (s : System) : Action → System
  | .check call proofJwt requestMethod requestUri clock =>
    match call.check lib verifier proofJwt requestMethod requestUri clock with
    | .ok unclaimed => { s with checked := s.checked ++ [(unclaimed, clock)] }
    | .error _ => s
  | .claimProof i =>
    match s.checked[i]? with
    | none => s
    | some (proof, _) =>
      let (table, inserted) := claimDpopJti s.table proof.jkt proof.jti proof.replayExpiresAt
      { s with
        table
        checked := s.checked.eraseIdx i
        claimed := if inserted then proof :: s.claimed else s.claimed }
  | .sweep => { s with table := sweepExpired s.table s.now }
  | .elapse time => { s with now := s.now + time }

end Waygate.Transfer
