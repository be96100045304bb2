import Mathlib.Algebra.Order.Field.Basic
import Mathlib.Algebra.Order.Floor.Ring
import Mathlib.Data.List.AList
import Waygate.Core.Primitive

/-!
# Rate Limits

The token buckets of `waygate-quota`. Token counts and seconds are elements of an
ordered field, where the source has `f64`. A bucket is the counter row of a policy and a
bucket key. A transaction's `now()` is its start time. Its writes are its own until it
commits, and a statement on a row that another transaction has written waits. Any
statement may fail, which drops the transaction.

## Main definitions

* `upsert`, `check`
* `applicablePolicies`: The policies that govern a call.
* `System`, `step`, `run`: Transactions that interleave.
-/

namespace Waygate

namespace Quota

inductive QuotaAction where
  | call
  | sideEffectingCall
  | costBearing
  | discovery
  deriving DecidableEq

def QuotaAction.asStr : QuotaAction → String
  | .call => "call"
  | .sideEffectingCall => "side_effecting_call"
  | .costBearing => "cost_bearing"
  | .discovery => "discovery"

structure QuotaContext where
  tenantId : String
  principalSub : Option String
  clientId : Option String
  server : String
  fqTool : String

inductive QuotaError where
  | sqlx
  | rateLimited (policyId : Uuid) (name : String) (retryAfterSeconds : Nat)
  deriving DecidableEq

section Policies

variable (K : Type)

structure RateLimitPolicy where
  id : Uuid
  tenantId : String
  name : String
  scope : String
  scopeValue : Option String
  action : String
  bucketCapacity : Int
  refillPerSecond : K

/-- The policies of the table, under its primary key and its checks. -/
structure PolicyTable [Zero K] [LE K] where
  policies : List (RateLimitPolicy K)
  ids : (policies.map RateLimitPolicy.id).Nodup
  capacity : ∀ p ∈ policies, 1 ≤ p.bucketCapacity
  refill : ∀ p ∈ policies, 0 ≤ p.refillPerSecond

structure ApplicablePolicy where
  policyId : Uuid
  name : String
  scope : String
  bucketKey : String
  capacity : K
  refillPerSecond : K

structure Counter where
  tokensRemaining : K
  lastRefill : K
  deriving DecidableEq

end Policies

abbrev Bucket := Uuid × String

section Service

variable {K : Type} [Field K] [LinearOrder K]

def ApplicablePolicy.bucket (app : ApplicablePolicy K) : Bucket :=
  (app.policyId, app.bucketKey)

def bucketKey (scope : String) (ctx : QuotaContext) : Option String :=
  if scope = "tenant" then some ctx.tenantId
  else if scope = "principal" then ctx.principalSub
  else if scope = "client" then ctx.clientId
  else if scope = "server" then some ctx.server
  else if scope = "tool" then some ctx.fqTool
  else none

/-- A policy with the bucket it governs the call by, when its scope applies. -/
def resolvePolicy (ctx : QuotaContext) (p : RateLimitPolicy K) : Option (ApplicablePolicy K) :=
  (bucketKey p.scope ctx).bind (fun key =>
    if p.scopeValue.any (fun required => required != key) then none
    else some
      { policyId := p.id
        name := p.name
        scope := p.scope
        bucketKey := key
        capacity := (p.bucketCapacity : K)
        refillPerSecond := p.refillPerSecond })

def applicablePolicies (table : PolicyTable K) (ctx : QuotaContext) (actions : List QuotaAction) :
    List (ApplicablePolicy K) :=
  ((table.policies.filter (fun p => p.tenantId == ctx.tenantId
    && (actions.map QuotaAction.asStr).contains p.action)).mergeSort
      (fun a b => decide (a.id ≤ b.id))).filterMap (resolvePolicy ctx)

/-- `LEAST(capacity, tokens + elapsed * refill)`. -/
def tokensNow (capacity refill now : K) (row : Counter K) : K :=
  min capacity (row.tokensRemaining + (now - row.lastRefill) * refill)

/-- The conditional upsert. A missing row is a full bucket. -/
def upsert (capacity refill now : K) : Option (Counter K) → Option (Counter K)
  | none => some { tokensRemaining := capacity - 1, lastRefill := now }
  | some row =>
    if 1 ≤ tokensNow capacity refill now row then
      some { tokensRemaining := tokensNow capacity refill now row - 1, lastRefill := now }
    else none

/-- The seconds until the bucket has a token, by the gateway's own clock. -/
def computeRetryAfterSeconds [FloorRing K] (clock : K) (cur : Option (Counter K)) (refill : K) :
    Nat :=
  match cur with
  | none => 1
  | some row =>
    if refill ≤ 0 then 3600
    else
      let needed := 1 - (row.tokensRemaining + (clock - row.lastRefill) * refill)
      if needed ≤ 0 then 1
      else (max 1 (min 3600 ⌈needed / refill⌉)).toNat

def denial [FloorRing K] (clock : K) (app : ApplicablePolicy K) (cur : Option (Counter K)) :
    QuotaError :=
  .rateLimited app.policyId app.name (computeRetryAfterSeconds clock cur app.refillPerSecond)

/-- The probe. What its reads of a bucket see is given: the row, and the time. -/
def check [FloorRing K] (table : PolicyTable K) (read : Bucket → K × Option (Counter K)) (clock : K)
    (ctx : QuotaContext) (actions : List QuotaAction) : Except QuotaError Unit :=
  if actions.isEmpty then .ok ()
  else (applicablePolicies table ctx actions).forM (fun app =>
    match read app.bucket with
    | (_, none) => .ok ()
    | (now, some row) =>
      if tokensNow app.capacity app.refillPerSecond now row + app.refillPerSecond < 1 then
        .error (denial clock app (some row))
      else .ok ())

/-- An open transaction: its start time, the policies still to debit, and what
    it has written. -/
structure Tx (K : Type) where
  now : K
  remaining : List (ApplicablePolicy K)
  writes : List (Bucket × Counter K)

/-- One thing that happens: a call begins, runs its next statement, commits, or
    fails, or a probe is made. -/
inductive Action (K : Type) where
  | begin (id : Nat) (now : K) (ctx : QuotaContext) (actions : List QuotaAction)
  | statement (id : Nat) (clock : K)
  | commit (id : Nat)
  | fail (id : Nat)
  | probe (now clock : K) (ctx : QuotaContext) (actions : List QuotaAction)

/-- The committed counters, the open transactions, and what has happened: the
    debits in the order they were committed, and what the calls and the probes
    returned. -/
structure System (K : Type) where
  counters : Bucket → Option (Counter K)
  txs : AList (fun _ : Nat => Tx K)
  debits : List (Bucket × K)
  results : List (Nat × Except QuotaError Unit)
  probes : List (Except QuotaError Unit)

namespace System

def locked (s : System K) (id : Nat) (bucket : Bucket) : Bool :=
  s.txs.keys.any (fun i => i != id
    && (s.txs.lookup i).any (fun tx => tx.writes.any (fun w => w.1 == bucket)))

/-- The row a statement sees: the transaction's own, or the committed one. -/
def visible (s : System K) (tx : Tx K) (bucket : Bucket) : Option (Counter K) :=
  (tx.writes.lookup bucket).or (s.counters bucket)

def finish (s : System K) (id : Nat) (result : Except QuotaError Unit) : System K :=
  { s with txs := s.txs.erase id, results := s.results ++ [(id, result)] }

def put (s : System K) (id : Nat) (tx : Tx K) : System K :=
  { s with txs := s.txs.insert id tx }

def step [FloorRing K] (table : PolicyTable K) (s : System K) : Action K → System K
  | .begin id now ctx actions =>
    if id ∈ s.txs then s
    else
      let applicable := if actions.isEmpty then [] else applicablePolicies table ctx actions
      if applicable.isEmpty then s.finish id (.ok ())
      else s.put id { now := now, remaining := applicable, writes := [] }
  | .statement id clock =>
    match s.txs.lookup id with
    | some { now := now, remaining := app :: rest, writes := writes } =>
      let tx : Tx K := { now := now, remaining := app :: rest, writes := writes }
      if s.locked id app.bucket then s
      else match upsert app.capacity app.refillPerSecond now (s.visible tx app.bucket) with
        | some row =>
          s.put id { now := now, remaining := rest, writes := (app.bucket, row) :: writes }
        | none => s.finish id (.error (denial clock app (s.visible tx app.bucket)))
    | _ => s
  | .commit id =>
    match s.txs.lookup id with
    | some { now := now, remaining := [], writes := writes } =>
      { s.finish id (.ok ()) with
        counters := fun bucket => (writes.lookup bucket).or (s.counters bucket)
        debits := s.debits ++ writes.reverse.map (fun w => (w.1, now)) }
    | _ => s
  | .fail id => if id ∈ s.txs then s.finish id (.error .sqlx) else s
  | .probe now clock ctx actions =>
    let read := fun bucket => (now, s.counters bucket)
    { s with probes := s.probes ++ [check table read clock ctx actions] }

def run [FloorRing K] (table : PolicyTable K) (s : System K) (actions : List (Action K)) :
    System K :=
  actions.foldl (step table) s

end System

end Service

end Quota

end Waygate
