import Mathlib.Data.List.Dedup

/-!
# The Hourly Rollup

`rollup_once` of `rollup.rs` recomputes every bucket of `audit_rollup_hourly` from the
watermark on, and then moves the watermark to two hours before its transaction began.
Each statement sees what is committed when it starts, and the row lock on
`audit_rollup_state` is held to the end of the transaction.

## Main definitions

* `aggregate`
* `Phase`, `Db`: A worker, and the tables.
* `step`, `run`: A statement, and an interleaving of them.
-/

namespace Waygate.Rollup

def HOUR : Int := 3600000000

/-- `SAFETY_LAG_HOURS`. -/
def LAG : Int := 2 * HOUR

/-- `date_trunc('hour', ts)`. -/
def truncHour (ts : Int) : Int := ts / HOUR * HOUR

structure Key where
  tenantId : String
  bucketHour : Int
  server : Option String
  tool : Option String
  outcome : String
  category : String
  riskLevel : Option String
  pii : Option Bool
  deriving DecidableEq

structure AuditRow where
  tenantId : String
  ts : Int
  server : Option String
  tool : Option String
  outcome : String
  category : Option String
  riskLevel : Option String
  pii : Option Bool
  reason : Option String

def AuditRow.key (r : AuditRow) : Key :=
  { r with bucketHour := truncHour r.ts, category := r.category.getD "invocation" }

def AuditRow.counts (r : AuditRow) : Bool := r.reason ≠ some "pre_call"

structure RollupRow where
  key : Key
  n : Nat
  deriving DecidableEq

/-- `$1 IS NULL OR t >= $1`. -/
def inWindow (finalizedHour : Option Int) (t : Int) : Bool :=
  finalizedHour.all (fun f => f ≤ t)

/-- `SELECT .. count(*) FROM audit_log WHERE .. GROUP BY ..`. -/
def aggregate (finalizedHour : Option Int) (log : List AuditRow) : List RollupRow :=
  let rows := log.filter (fun r => inWindow finalizedHour r.ts && r.counts)
  (rows.map AuditRow.key).dedup.map (fun k => ⟨k, rows.countP (fun r => r.key = k)⟩)

/-- Where a worker is in its transaction. `now` is when the transaction began; what
    it has written so far no one else sees. -/
inductive Phase where
  | begun (now : Int)
  | locked (now : Int) (finalizedHour : Option Int)
  | deleted (now : Int) (finalizedHour : Option Int) (rollup : List RollupRow)
  -- The rows that were visible to the aggregation are kept to speak of them.
  | aggregated (now : Int) (rollup : List RollupRow) (visible : List AuditRow)
  | ended

structure Db where
  now : Int
  auditLog : List AuditRow
  rollup : List RollupRow
  finalizedHour : Option Int
  lock : Option Nat
  workers : List Phase

/-- The tables as the migration leaves them. -/
def Db.new (now : Int) : Db := ⟨now, [], [], none, none, []⟩

inductive Action where
  | tick (micros : Nat)
  | insert (row : AuditRow)
  | begin
  | lock (i : Nat)
  | delete (i : Nat)
  | aggregate (i : Nat)
  | commit (i : Nat)
  | abort (i : Nat)

def Db.put (s : Db) (i : Nat) (p : Phase) : Db := { s with workers := s.workers.set i p }

def step (s : Db) : Action → Db
  | .tick micros => { s with now := s.now + micros }
  | .insert row => { s with auditLog := s.auditLog ++ [row] }
  | .begin => { s with workers := s.workers ++ [.begun s.now] }
  | .lock i => match s.workers[i]?, s.lock with
    | some (.begun now), none => { s with lock := some i }.put i (.locked now s.finalizedHour)
    | _, _ => s
  | .delete i => match s.workers[i]? with
    | some (.locked now finalizedHour) => s.put i (.deleted now finalizedHour
        (s.rollup.filter (fun r => !inWindow finalizedHour r.key.bucketHour)))
    | _ => s
  | .aggregate i => match s.workers[i]? with
    | some (.deleted now finalizedHour rollup) => s.put i
        (.aggregated now (rollup ++ Rollup.aggregate finalizedHour s.auditLog) s.auditLog)
    | _ => s
  -- The watermark is written by the statement before the commit.
  | .commit i => match s.workers[i]? with
    | some (.aggregated now rollup _) =>
      { s with rollup, finalizedHour := some (truncHour (now - LAG)), lock := none }.put i .ended
    | _ => s
  | .abort i => { s with lock := if s.lock = some i then none else s.lock }.put i .ended

def run (now : Int) (actions : List Action) : Db := actions.foldl step (.new now)

end Waygate.Rollup
