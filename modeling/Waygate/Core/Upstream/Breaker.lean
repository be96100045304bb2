import Mathlib.Algebra.Order.Ring.Nat
import Mathlib.Data.List.AList

/-!
# The Circuit Breaker

The circuit breaker of an upstream, from `waygate-upstream`: its state under the mutex,
and any number of callers that hold permits. Each operation takes the lock once, so it
is one step, and reads the instant under it. Instants and durations count nanoseconds.

## Main definitions

* `State`: The state under the mutex.
* `acquire`, `onSuccess`, `onFailure`: The operations.
* `System`, `step`, `run`: Callers that interleave.
-/

namespace Waygate

namespace Upstream

structure BreakerConfig where
  failureThreshold : Nat
  openDuration : Nat
  u32 : failureThreshold < 2 ^ 32

def BreakerConfig.default : BreakerConfig :=
  { failureThreshold := 5
    openDuration := 30 * 1000000000
    u32 := by decide }

inductive BreakerState where
  | closed
  | opened
  | halfOpen
  deriving DecidableEq

inductive BreakerError where
  | opened
  | probeInFlight
  deriving DecidableEq

structure State where
  state : BreakerState
  failures : Nat
  openedAt : Option Nat
  probeRunning : Bool
  deriving DecidableEq

def State.new : State :=
  { state := .closed
    failures := 0
    openedAt := none
    probeRunning := false }

structure Permit where
  wasProbe : Bool
  deriving DecidableEq

def State.elapsed (g : State) (now : Nat) : Nat :=
  (g.openedAt.map (now - ·)).getD 0

def acquire (cfg : BreakerConfig) (now : Nat) (g : State) : Except BreakerError Permit × State :=
  match g.state with
  | .closed => (.ok { wasProbe := false }, g)
  | .opened =>
    if cfg.openDuration ≤ g.elapsed now then
      (.ok { wasProbe := true }, { g with state := .halfOpen, probeRunning := true })
    else (.error .opened, g)
  | .halfOpen =>
    if g.probeRunning then (.error .probeInFlight, g)
    else (.ok { wasProbe := true }, { g with probeRunning := true })

def reset : State :=
  { state := .closed
    failures := 0
    openedAt := none
    probeRunning := false }

/-- The flag says whether a probe has closed the breaker. -/
def onSuccess (wasProbe : Bool) (g : State) : Bool × State :=
  (wasProbe && g.state == .halfOpen && g.probeRunning,
    { state := .closed
      failures := 0
      openedAt := none
      probeRunning := if wasProbe then false else g.probeRunning })

def releaseProbe (g : State) : State :=
  { g with probeRunning := false }

/-- `u32::saturating_add`. -/
def saturatingAdd (a b : Nat) : Nat :=
  min (a + b) (2 ^ 32 - 1)

/-- The flag says whether the breaker was opened, which wakes those who wait to
    reconnect. -/
def onFailure (cfg : BreakerConfig) (now : Nat) (wasProbe : Bool) (g : State) : Bool × State :=
  if wasProbe then
    (true,
      { state := .opened
        failures := cfg.failureThreshold
        openedAt := some now
        probeRunning := false })
  else
    let failures := saturatingAdd g.failures 1
    if cfg.failureThreshold ≤ failures then
      (g.state != .opened,
        { g with failures := failures, state := .opened, openedAt := some now })
    else (false, { g with failures := failures })

namespace Permit

def success (p : Permit) (g : State) : Bool × State :=
  onSuccess p.wasProbe g

def failure (cfg : BreakerConfig) (now : Nat) (p : Permit) (g : State) : Bool × State :=
  onFailure cfg now p.wasProbe g

def neutral (p : Permit) (g : State) : State :=
  if p.wasProbe then releaseProbe g else g

def drop (cfg : BreakerConfig) (now : Nat) (p : Permit) (g : State) : Bool × State :=
  onFailure cfg now p.wasProbe g

end Permit

/-- What a thread does. A permit is named by the number of permits granted
    before it. -/
inductive Op where
  | acquire
  | success (id : Nat)
  | failure (id : Nat)
  | neutral (id : Nat)
  | drop (id : Nat)
  | reset

structure Event where
  time : Nat
  op : Op

/-- The breaker, the permits that are neither reported nor dropped, and how many
    were granted. -/
structure System where
  breaker : State
  permits : AList (fun _ : Nat => Permit)
  granted : Nat

namespace System

def new : System :=
  { breaker := State.new
    permits := ∅
    granted := 0 }

def report (s : System) (id : Nat) (effect : Permit → State) : System :=
  match s.permits.lookup id with
  | some p => { s with breaker := effect p, permits := s.permits.erase id }
  | none => s

def step (cfg : BreakerConfig) (s : System) (e : Event) : System :=
  match e.op with
  | .acquire =>
    match acquire cfg e.time s.breaker with
    | (.ok p, g) =>
      { breaker := g
        permits := s.permits.insert s.granted p
        granted := s.granted + 1 }
    | (.error _, g) => { s with breaker := g }
  | .success id => s.report id (fun p => (p.success s.breaker).2)
  | .failure id => s.report id (fun p => (p.failure cfg e.time s.breaker).2)
  | .neutral id => s.report id (fun p => p.neutral s.breaker)
  | .drop id => s.report id (fun p => (p.drop cfg e.time s.breaker).2)
  | .reset => { s with breaker := Upstream.reset }

def run (cfg : BreakerConfig) (s : System) (events : List Event) : System :=
  events.foldl (step cfg) s

end System

end Upstream

end Waygate
