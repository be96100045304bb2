import Waygate.Core.Authz.BreakGlass

/-!
# Overrides Under Concurrent Calls

The decorated gate of `break_glass_gate.rs` with any number of calls under way over one
table of tokens. A call that the inner gate denies lists the candidates, claims them one
by one, records the use, and answers, each in a step of its own. An id that was drawn
once is not drawn again.

## Main definitions

* `GateSystem`
* `Stage`, `Call`: Where a call is.
* `step`, `run`: A step, and an interleaving of them.
-/

namespace Waygate

namespace Authz

inductive Stage where
  | listing
  | walking (rest : List BreakGlassToken)
  | recording (token : BreakGlassToken)
  | recorded (token : BreakGlassToken)

structure Call where
  facts : Facts
  reason : String
  policyIds : List String
  reasons : List String
  stage : Stage

def Call.denial (c : Call) : AuthzVerdict :=
  .deny c.reason c.policyIds c.reasons

/-- What has happened. An answer comes with the token it used. -/
inductive Entry where
  | recorded (call : Nat) (event : Audit.AuditEvent)
  | answered (call : Nat) (facts : Facts) (verdict : AuthzVerdict)
      (token : Option BreakGlassToken) (now : OffsetDateTime)
  | probed (facts : Facts) (verdict : ProbeVerdict)
  | discovered (verdict : AuthzVerdict)

/-- The table, every token ever minted, the calls under way, how many calls were
    made, and the log. -/
structure GateSystem where
  store : List BreakGlassToken
  minted : List BreakGlassToken
  calls : AList (fun _ : Nat => Call)
  begun : Nat
  log : List Entry

/-- A step of an administrator, of a caller that asks, or of a call. -/
inductive GateAction where
  | mint (token : BreakGlassToken)
  | delete (tenantId : String) (tokenId : Uuid)
  | mayCall (principal : Principal) (tool : ToolFacts)
  | probe (run : BreakGlassRun) (facts : Facts)
  | begin (now : OffsetDateTime) (facts : Facts)
  | advance (call : Nat) (run : BreakGlassRun) (eventId : Uuid)

namespace GateSystem

def empty : GateSystem :=
  { store := []
    minted := []
    calls := ∅
    begun := 0
    log := [] }

def answer (s : GateSystem) (call : Nat) (c : Call) (verdict : AuthzVerdict)
    (token : Option BreakGlassToken) (now : OffsetDateTime) : GateSystem :=
  { s with
    calls := s.calls.erase call
    log := s.log ++ [.answered call c.facts verdict token now] }

def goTo (s : GateSystem) (call : Nat) (c : Call) (stage : Stage) : GateSystem :=
  { s with calls := s.calls.insert call { c with stage := stage } }

def withStore (s : GateSystem) (store : List BreakGlassToken) : GateSystem :=
  { s with store := store }

def note (s : GateSystem) (entry : Entry) : GateSystem :=
  { s with log := s.log ++ [entry] }

def advance (debugStr : String → String) (s : GateSystem) (call : Nat) (c : Call)
    (run : BreakGlassRun) (eventId : Uuid) : GateSystem :=
  match c.stage with
  | .listing =>
    match candidates run c.facts s.store with
    | none => s.answer call c c.denial none run.now
    | some listed => s.goTo call c (.walking listed)
  | .walking [] => s.answer call c c.denial none run.now
  | .walking (token :: rest) =>
    if applicable c.facts token then
      match claimWithFault (run.claimFault token.id) run.now token.id s.store with
      | (some claimed, store) => (s.withStore store).goTo call c (.recording claimed)
      | (none, store) => (s.withStore store).goTo call c (.walking rest)
    else s.goTo call c (.walking rest)
  | .recording token =>
    if run.recordFails then s.answer call c c.denial none run.now
    else
      let event := breakGlassUse debugStr eventId run.now c.facts token c.reason
      (s.note (.recorded call event)).goTo call c (.recorded token)
  | .recorded token => s.answer call c (.allow []) (some token) run.now

def step (inner : InnerGate) (debugStr : String → String) (s : GateSystem) :
    GateAction → GateSystem
  | .mint token =>
    if s.minted.any (fun t => t.id == token.id) then s
    else
      { s with
        store := mintToken token s.store
        minted := s.minted ++ [{ token with usedAt := none }] }
  | .delete tenantId tokenId => s.withStore (deleteToken tenantId tokenId s.store)
  | .mayCall principal tool =>
    s.note (.discovered (BreakGlassGate.mayCallTool inner principal tool))
  | .probe run facts =>
    s.note (.probed facts (BreakGlassGate.probeToolCall inner run s.store facts))
  | .begin now facts =>
    match inner.authorizeToolCall facts with
    | .deny reason policyIds reasons =>
      { s with
        calls := s.calls.insert s.begun ⟨facts, reason, policyIds, reasons, .listing⟩
        begun := s.begun + 1 }
    | verdict =>
      { s with
        begun := s.begun + 1
        log := s.log ++ [.answered s.begun facts verdict none now] }
  | .advance call run eventId =>
    match s.calls.lookup call with
    | some c => s.advance debugStr call c run eventId
    | none => s

def run (inner : InnerGate) (debugStr : String → String) (actions : List GateAction) :
    GateSystem :=
  actions.foldl (step inner debugStr) empty

end GateSystem

end Authz

end Waygate
