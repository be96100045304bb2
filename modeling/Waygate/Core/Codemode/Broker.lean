import Waygate.Core.Codemode.Store

/-!
# The Broker of Code Mode

The worker of a durable execution in the `direct` profile, from `waygate-server`. A call
with side effects is dispatched only after the claim was confirmed, and its outcome is
journaled even after a cancellation.

Between two steps of a worker the store may do anything. The answers to the runner, the
console and the artifacts are left out. The connectors, their arguments and the
name-based identifiers of calls are parameters.

## Main definitions

* `nestedInvocationHierarchy`, `Worker.act`, `System`
* `Place`, `Worker`: Where a worker is.
* `System.step`, `System.run`: A step, and an interleaving of them.
-/

namespace Waygate

namespace Codemode

open Audit (InvocationHierarchy u32ToLeBytes uuidText)

def CONFINEMENT_PROFILE : String := "linux-seccomp-v1"

/-- The document of an execution in the `direct` profile. An execution with direct
    authority does not replay effects after it loses its worker. -/
def durableExecutionProfile (timeoutSeconds : Nat) (profileConfinement : Json)
    (persistResult : Bool) (sourceAuthority : Option Json) : Json :=
  .object
    ([("name", .string "direct"),
      ("timeout_seconds", .number (toString timeoutSeconds)),
      ("confinement_profile", .string CONFINEMENT_PROFILE),
      ("profile_confinement", profileConfinement),
      ("resumable", .bool false),
      ("result_storage", .string (if persistResult then "allow" else "disabled"))]
    ++ sourceAuthority.toList.map (fun authority => ("source_authority", authority)))

structure AdmittedCall where
  server : String
  tool : String
  sideEffects : Bool

inductive RunnerFrame where
  | ready
  | call (callId : String) (arguments : Json)
  | complete (result : Json)
  | pause (checkpoint : Json)
  | artifact (value : Json)
  | failed
  | console
  | consoleTruncated

/-- What is the same for every attempt: `admittedCall` looks a call up and puts its
    arguments in the form that was pinned, and fails when it has none. -/
structure Broker where
  newV5 : Uuid → List UInt8 → Uuid
  admittedCall : String → Json → Option AdmittedCall
  persistContent : Bool
  claimLease : Nat
  artifactBytes : Nat
  artifactTotalBytes : Nat
  artifactsPerAttempt : Nat

/-- `u32::try_from(n).ok().and_then(NonZeroU32::new)`. -/
def nonZeroU32 (n : Int) : Option NonZeroU32 :=
  if n.toNat < 4294967296 then
    if h : UInt32.ofNat n.toNat ≠ 0 then some ⟨UInt32.ofNat n.toNat, h⟩ else none
  else none

/-- `NonZeroU32::get().to_be_bytes()`. -/
def u32ToBeBytes (v : NonZeroU32) : List UInt8 :=
  (u32ToLeBytes v).reverse

/-- `i32::try_from(n).ok()`. -/
def i32 (n : Nat) : Option Int :=
  if n ≤ 2147483647 then some n else none

/-- The attempt is the epoch of the claim. -/
def nestedInvocationHierarchy (b : Broker) (claim : ExecutionClaim) (calls : Nat) :
    Option InvocationHierarchy := do
  let step ← nonZeroU32 calls
  let attempt ← nonZeroU32 claim.epoch
  some
    { parentExecutionId := claim.executionId
      step := step
      callId := b.newV5 claim.executionId (u32ToBeBytes step)
      attempt := attempt }

def executionEventWithAttempt (kind : ExecutionEventKind) (step : Option Nat)
    (callId : Option Uuid) (attempt : Option Nat) (detail : Json) : NewExecutionEvent :=
  { kind := kind
    stepNumber := step.bind i32
    callId := callId
    attempt := attempt.bind i32
    detail := detail }

def executionEvent (kind : ExecutionEventKind) (step : Option Nat) (callId : Option Uuid)
    (detail : Json) : NewExecutionEvent :=
  executionEventWithAttempt kind step callId (step.map (fun _ => 1)) detail

/-- A call of the runner, under way. It is bound to no connector when it was
    refused. -/
structure PendingCall where
  step : Nat
  hierarchy : InvocationHierarchy
  admitted : Option AdmittedCall

def PendingCall.sideEffects (call : PendingCall) : Bool :=
  call.admitted.any AdmittedCall.sideEffects

def PendingCall.detail (call : PendingCall) : Json :=
  match call.admitted with
  | some admitted => .object
      [("server", .string admitted.server), ("tool", .string admitted.tool),
       ("side_effects", .bool admitted.sideEffects)]
  | none => .object [("binding_refused", .bool true)]

def PendingCall.event (call : PendingCall) (kind : ExecutionEventKind) : NewExecutionEvent :=
  executionEventWithAttempt kind (some call.step) (some call.hierarchy.callId)
    (some call.hierarchy.attempt.val.toNat) call.detail

inductive Ended where
  | completed (result : Json)
  | paused (checkpoint : Json)
  | failed

inductive Place where
  | reading
  | starting (call : PendingCall)
  | confirming (call : PendingCall)
  | ready (call : PendingCall)
  | invoking (call : PendingCall)
  | observed (call : PendingCall) (succeeded : Bool)
  | emitting (artifactId : Uuid) (value : Json)
  | ended (outcome : Ended)

structure Worker where
  claim : ExecutionClaim
  calls : Nat
  artifacts : Nat
  artifactBytes : Nat
  phase : Place

def Worker.new (claim : ExecutionClaim) : Worker :=
  { claim := claim, calls := 0, artifacts := 0, artifactBytes := 0, phase := .reading }

namespace Worker

variable (b : Broker) (w : Worker)

def fail : Worker :=
  { w with phase := .ended .failed }

def startCall (callId : String) (arguments : Json) : Worker :=
  match nestedInvocationHierarchy b w.claim (w.calls + 1) with
  | none => { w with calls := w.calls + 1, phase := .ended .failed }
  | some hierarchy =>
    { w with
      calls := w.calls + 1
      phase := .starting
        { step := w.calls + 1
          hierarchy := hierarchy
          admitted := b.admittedCall callId arguments } }

def startArtifact (minted : Uuid) (value : Json) : Worker :=
  let bytes := (String.ofList value.text).utf8ByteSize
  let total := w.artifactBytes + bytes
  if !b.persistContent || decide (b.artifactBytes < bytes) || decide (b.artifactTotalBytes < total)
      || decide (b.artifactsPerAttempt ≤ w.artifacts) then w.fail
  else { w with artifactBytes := total, phase := .emitting minted value }

def handle (minted : Uuid) : RunnerFrame → Worker
  | .call callId arguments => w.startCall b callId arguments
  | .complete result => { w with phase := .ended (.completed result) }
  | .pause checkpoint =>
    if b.persistContent then { w with phase := .ended (.paused checkpoint) } else w.fail
  | .artifact value => w.startArtifact b minted value
  | .console | .consoleTruncated => w
  | .failed | .ready => w.fail

end Worker

def PendingCall.begun (call : PendingCall) : Place :=
  match call.admitted with
  | some admitted => if admitted.sideEffects then .confirming call else .ready call
  | none => .observed call false

/-- What is done once the loop has ended. A result is kept only when the execution
    asks for it. -/
inductive Settlement where
  | succeed (resultPayload : Option Json)
  | pause
  | fail (reasonCode : String)
  | cancel (reasonCode : String)

def Worker.counts (w : Worker) : Json :=
  .object [("connector_calls", .number (toString w.calls)),
    ("artifacts", .number (toString w.artifacts))]

def reasonDetail (reasonCode : String) : Json :=
  .object [("reason_code", .string reasonCode)]

def Worker.settlement (w : Worker) (outcome : Ended) : Settlement → Option ExecutionTransition
  | .succeed resultPayload =>
    match outcome with
    | .completed _ => some
        { origin := [.running]
          target := .succeeded
          event := executionEvent .succeeded none none w.counts
          terminalReasonCode := none
          resultMetadata := some w.counts
          resultPayload := resultPayload
          resumeContext := none }
    | _ => none
  | .pause =>
    match outcome with
    | .paused checkpoint => some
        { origin := [.running]
          target := .waitingForResume
          event := executionEvent .waitingForResume none none w.counts
          terminalReasonCode := none
          resultMetadata := some w.counts
          resultPayload := none
          resumeContext := some (.object [("checkpoint", checkpoint)]) }
    | _ => none
  | .fail reasonCode => some
      { origin := [.running]
        target := .failed
        event := executionEvent .failed none none (reasonDetail reasonCode)
        terminalReasonCode := some reasonCode
        resultMetadata := none
        resultPayload := none
        resumeContext := none }
  | .cancel reasonCode => some
      { origin := [.running]
        target := .cancelled
        event := executionEvent .cancelled none none (reasonDetail reasonCode)
        terminalReasonCode := some reasonCode
        resultMetadata := none
        resultPayload := none
        resumeContext := none }

inductive Entry where
  | event (event : ExecutionEvent)
  | confirmed (hierarchy : InvocationHierarchy)
  | dispatch (hierarchy : InvocationHierarchy) (sideEffects : Bool)
  | cancellation

inductive WorkerAction where
  | read (frame : RunnerFrame) (minted : Uuid)
  | append (now : Int)
  | confirm (now : Int)
  | dispatch
  | renewClaimForEffect (now : Int)
  | answer (succeeded : Bool)
  | abort
  | settle (settlement : Settlement) (now : Int)

def Response.isAccepted : Response → Bool
  | .accepted yes => yes
  | _ => false

/-- An operation that the loop goes on after only if it is accepted. -/
def Worker.attempt (w : Worker) (s : Tables) (now : Int) (op : Op) (next : Worker)
    (entries : Tables → List Entry) : Worker × Tables × List Entry :=
  let (res, t) := effect s now op
  if res.isAccepted then (next, t, entries t) else (w.fail, t, [])

def appended (s t : Tables) : List Entry :=
  (t.events.drop s.events.length).map .event

def outcomeKind (succeeded : Bool) : ExecutionEventKind :=
  if succeeded then .connectorCallSucceeded else .connectorCallFailed

def artifactEvent (artifactId : Uuid) (value : Json) : NewExecutionEvent :=
  executionEvent .artifactEmitted none none (.object
    [("artifact_id", .string (uuidText artifactId)), ("value", value)])

/-- One step of a worker, if it is at the place for it. An attempt may be dropped
    anywhere, and it may run out of time. -/
def Worker.act (b : Broker) (s : Tables) (w : Worker) (action : WorkerAction) :
    Option (Worker × Tables × List Entry) :=
  match action, w.phase with
  | .read frame minted, .reading => some (w.handle b minted frame, s, [])
  | .append now, .starting call =>
    some (w.attempt s now (.appendEvent w.claim (call.event .connectorCallStarted))
      { w with phase := call.begun } (appended s))
  | .append now, .observed call succeeded =>
    let event := call.event (outcomeKind succeeded)
    some (w.attempt s now
      (if call.sideEffects then .appendEffectOutcome w.claim event
        else .appendEvent w.claim event)
      { w with phase := .reading } (appended s))
  | .append now, .emitting artifactId value =>
    some (w.attempt s now (.appendEvent w.claim (artifactEvent artifactId value))
      { w with artifacts := w.artifacts + 1, phase := .reading } (appended s))
  | .confirm now, .confirming call =>
    some (w.attempt s now (.renew w.claim b.claimLease) { w with phase := .ready call }
      (fun _ => [.confirmed call.hierarchy]))
  | .dispatch, .ready call =>
    some ({ w with phase := .invoking call }, s, [.dispatch call.hierarchy call.sideEffects])
  | .renewClaimForEffect now, .invoking call =>
    if call.sideEffects then
      some (w, (effect s now (.renewEffectLease w.claim b.claimLease)).2, [])
    else none
  | .answer succeeded, .invoking call =>
    some ({ w with phase := .observed call succeeded }, s, [])
  | .settle settlement now, .ended outcome =>
    (w.settlement outcome settlement).map (fun t =>
      (w, (effect s now (.transition w.claim t)).2, []))
  | .abort, .ended _ => none
  | .abort, _ => some (w.fail, s, [])
  | _, _ => none

/-- One execution: the tables, its workers in the order they were granted it, and
    what was done in order. `submitted` says that its row was inserted. -/
structure System where
  tables : Tables
  workers : List Worker
  log : List Entry
  submitted : Bool

def System.empty : System :=
  { tables := Tables.empty, workers := [], log := [], submitted := false }

inductive Action where
  | store (call : Call)
  | worker (i : Nat) (action : WorkerAction)

def Tables.present (s : Tables) (id : Uuid) : Bool :=
  s.executions.any (fun r => r.execution.id == id)

def Tables.cancelRequested (s : Tables) (id : Uuid) : Bool :=
  s.executions.any (fun r => r.execution.id == id && r.execution.cancellationRequestedAt.isSome)

/-- The store is used by others as well, and what it grants on the execution has a
    worker. -/
def System.step (b : Broker) (id : Uuid) (s : System) : Action → System
  | .store call =>
    let (res, t) := effect s.tables call.now call.op
    { tables := t
      workers := s.workers
        ++ ((granted res).toList.filter (fun c => c.executionId == id)).map Worker.new
      log := s.log
        ++ if t.cancelRequested id && !s.tables.cancelRequested id then [.cancellation] else []
      submitted := s.submitted || t.present id }
  | .worker i action =>
    match s.workers[i]? with
    | none => s
    | some w =>
      match w.act b s.tables action with
      | none => s
      | some (w', t, entries) =>
        { s with tables := t, workers := s.workers.set i w', log := s.log ++ entries }

def System.run (b : Broker) (id : Uuid) (actions : List Action) : System :=
  actions.foldl (System.step b id) System.empty

end Codemode

end Waygate
