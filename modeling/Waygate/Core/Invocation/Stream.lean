import Waygate.Core.Audit.Retention
import Waygate.Core.Llm.ChatStream
import Waygate.Core.Llm.Stream

/-!
# The Stream of an Inference Call

The stream a client reads, from `waygate-mcp`. What happens between two awaits is one
step, and the stream may be dropped at any await. A write that is awaited either
completes or, when the stream is dropped first, writes nothing. On drop, an outcome that
is not yet written is written as a cancellation by a spawned task; without a runtime
nothing is written. Of the outcome rows only what differs is kept. The parser of JSON is
a parameter.

## Main definitions

* `StreamCacheAgg`, `buildBody`: The observed chunks, and the body that is cached.
* `syntheticReplayStream`: The replay of a body.
* `State`, `step`, `run`: The stream, a step, and a run.
-/

namespace Waygate

namespace Invocation

open Audit (AuditOutcome)
open Json (ofNat)
open Llm

structure InvocationChunk where
  event : Json
  eventName : Option String
  terminal : Bool

section Cache

structure ChoiceAcc where
  role : Option String := none
  content : String := ""
  finishReason : Option Json := none

structure StreamCacheAgg where
  id : Option String := none
  model : Option String := none
  choices : List (Nat × ChoiceAcc) := []
  usage : Option Json := none
  unsupported : Bool := false
  observedBytes : Nat := 0

def MAX_STREAM_CACHE_BYTES : Nat := 1024 * 1024

def present (v : Option Json) : Option Json :=
  v.filter (fun v => match v with | .null => false | _ => true)

/-- Only a role, and content that is text, can be replayed. -/
def supportedField (field : String × Json) : Bool :=
  if field.1 = "role" then true
  else if field.1 = "content" then
    match field.2 with
    | .string _ => true
    | .null => true
    | _ => false
  else false

def ChoiceAcc.observeField (acc : ChoiceAcc) (field : String × Json) : ChoiceAcc :=
  match field.2 with
  | .string s =>
    if field.1 = "role" then { acc with role := some s }
    else if field.1 = "content" then { acc with content := acc.content ++ s }
    else acc
  | _ => acc

/-- `entry(index).or_default()` of an ordered map, updated. -/
def updateEntry (index : Nat) (f : ChoiceAcc → ChoiceAcc) :
    List (Nat × ChoiceAcc) → List (Nat × ChoiceAcc)
  | [] => [(index, f {})]
  | (k, acc) :: rest =>
    if index = k then (k, f acc) :: rest
    else if index < k then (index, f {}) :: (k, acc) :: rest
    else (k, acc) :: updateEntry index f rest

namespace StreamCacheAgg

def discard : StreamCacheAgg :=
  { unsupported := true }

def observeChoice (agg : StreamCacheAgg) (choice : Json) : StreamCacheAgg :=
  let delta := ((choice.get "delta").bind Json.asObject).getD []
  { agg with
    choices := updateEntry ((u64Field choice "index").getD 0)
      (fun acc => delta.foldl ChoiceAcc.observeField
        { acc with finishReason := (present (choice.get "finish_reason")).or acc.finishReason })
      agg.choices
    unsupported := agg.unsupported || delta.any (fun field => !supportedField field) }

/-- The identity that is seen first stays, and the usage that is seen last. -/
def observeEvent (agg : StreamCacheAgg) (event : Json) : StreamCacheAgg :=
  let agg := { agg with
    id := agg.id.or (strField event "id")
    model := agg.model.or (strField event "model")
    usage := (present (event.get "usage")).or agg.usage }
  let agg := ((arrayField event "choices").getD []).foldl observeChoice agg
  if agg.unsupported then discard else agg

/-- A chunk is charged whole, and one that does not fit ends the collecting. -/
def observe (agg : StreamCacheAgg) (event : Json) : StreamCacheAgg :=
  let size := (asBytes event.toText).length
  if agg.unsupported then agg
  else if MAX_STREAM_CACHE_BYTES - agg.observedBytes < size then discard
  else ({ agg with observedBytes := agg.observedBytes + size }).observeEvent event

def buildChoice (entry : Nat × ChoiceAcc) : Json :=
  .object
    [("index", ofNat entry.1),
      ("message", .object [("role", .string (entry.2.role.getD "assistant")),
        ("content", .string entry.2.content)]),
      ("finish_reason", entry.2.finishReason.getD .null)]

def buildBody (agg : StreamCacheAgg) : Option Json :=
  if agg.unsupported || agg.choices.isEmpty then none
  else some (.object
    ([("id", .string (agg.id.getD "")), ("object", .string "chat.completion"),
      ("model", .string (agg.model.getD "")),
      ("choices", .array (agg.choices.map buildChoice))]
      ++ (agg.usage.map (fun usage => ("usage", usage))).toList))

end StreamCacheAgg

def replayChunk (body : Json) (choices : List Json) (usage : List (String × Json)) :
    InvocationChunk :=
  { event := .object ([("id", .string ((strField body "id").getD "")),
      ("object", .string "chat.completion.chunk"),
      ("model", .string ((strField body "model").getD "")), ("choices", .array choices)] ++ usage)
    eventName := none
    terminal := false }

def replayChoice (index : Nat) (delta : List (String × Json)) (finishReason : Json) : Json :=
  .object [("index", ofNat index), ("delta", .object delta), ("finish_reason", finishReason)]

/-- The role, the whole content and the calls of a stored choice, in one delta. -/
def replayDelta (choice : Json) : List (String × Json) :=
  let msg := choice.get "message"
  [("role", .string ((msg.bind (strField · "role")).getD "assistant"))]
    ++ ((present (msg.bind (Json.get · "content"))).map (Prod.mk "content")).toList
    ++ ((msg.bind (arrayField · "tool_calls")).map (fun calls => ("tool_calls",
      .array (calls.zipIdx.map (fun call =>
        .object (Json.insert "index" (ofNat call.2) (call.1.asObject.getD []))))))).toList

def syntheticReplayStream (body : Json) : List InvocationChunk :=
  ((arrayField body "choices").getD []).zipIdx.flatMap (fun choice =>
    [replayChunk body [replayChoice choice.2 (replayDelta choice.1) .null] [],
      replayChunk body [replayChoice choice.2 [] ((choice.1.get "finish_reason").getD .null)] []])
  ++ ((present (body.get "usage")).map (fun usage =>
    replayChunk body [] [("usage", usage)])).toList
  ++ [{ event := .string "[DONE]", eventName := none, terminal := true }]

structure StreamCacheTee where
  canonical : String
  principalIssuer : Option String
  ttl : Nat
  provider : String
  agg : StreamCacheAgg

end Cache

section Rows

inductive Ending where
  | done
  | failed (reason : String)

structure OutcomeRow where
  outcome : AuditOutcome
  reason : Option String
  deriving DecidableEq

def Ending.row : Ending → OutcomeRow
  | .done => ⟨.success, none⟩
  | .failed reason => ⟨.executionError, some reason⟩

def cancelledRow : OutcomeRow :=
  ⟨.executionError, some "stream cancelled by client before completion"⟩

structure LlmUsageRow where
  tenantId : String
  principalSub : Option String
  modelAlias : String
  provider : LlmProvider
  providerAccountId : Option String
  modelServed : Option String
  inboundSurface : Surface
  inputTokens : Option Nat
  outputTokens : Option Nat
  cachedReadTokens : Option Nat
  cacheWriteTokens : Option Nat
  reasoningTokens : Option Nat
  finishReason : Option FinishReason
  refusal : Bool
  gatewayCacheHit : Bool

def buildUsageRow (record : InferenceRecord) (tenantId : String) (principalSub : Option String)
    (modelAlias : String) : LlmUsageRow :=
  { tenantId := tenantId
    principalSub := principalSub
    modelAlias := modelAlias
    provider := record.provider
    providerAccountId := record.providerAccountId
    modelServed := record.modelServed
    inboundSurface := record.inboundSurface
    inputTokens := record.usage.input
    -- Embeddings generate nothing, and are priced by their input.
    outputTokens :=
      if record.inboundSurface = .embeddings ∧ record.usage.input.isSome then some 0
      else record.usage.output
    cachedReadTokens := record.usage.cachedRead
    cacheWriteTokens := record.usage.cacheWrite
    reasoningTokens := record.usage.reasoning
    finishReason := record.finishReason
    refusal := record.refusal
    gatewayCacheHit := record.gatewayCacheHit }

structure CacheStoreRequest where
  canonicalRequest : String
  tenantId : String
  principalIssuer : Option String
  principalSub : Option String
  modelAlias : String
  modelServed : Option String
  provider : String
  body : Json
  ttl : Nat

inductive LlmFailurePhase where
  | dispatch
  | stream
  | abandoned

end Rows

section Inputs

inductive ClientFraming where
  /-- `/v1/chat/completions`. -/
  | chatChunks
  /-- `/v1/responses`. -/
  | responses
  /-- `/v1/messages`. -/
  | nativeRelay
  deriving DecidableEq

structure StreamFinalize where
  recordBase : InferenceRecord
  /-- Whether there is a sink for usage rows. -/
  usage : Bool
  tenantId : String
  principalSub : Option String
  modelAlias : String
  cacheStore : Option StreamCacheTee
  framing : ClientFraming

def countField (name : String) (count : Option Nat) : List (String × Json) :=
  (count.map (fun n => (name, ofNat n))).toList

def chatUsageFromRecord (record : InferenceRecord) : Option Json :=
  let u := record.usage
  if [u.input, u.output, u.cachedRead, u.cacheWrite, u.reasoning].all Option.isNone then none
  else
    let total := u.input.bind (fun i => u.output.map (fun o => (i + o) % 2 ^ 64))
    let inputDetails := countField "cached_tokens" u.cachedRead
      ++ countField "cache_write_tokens" u.cacheWrite
    let outputDetails := countField "reasoning_tokens" u.reasoning
    some (.object (countField "prompt_tokens" u.input ++ countField "completion_tokens" u.output
      ++ countField "total_tokens" total
      ++ (if inputDetails.isEmpty then [] else [("prompt_tokens_details", .object inputDetails)])
      ++ (if outputDetails.isEmpty then []
        else [("completion_tokens_details", .object outputDetails)])))

end Inputs

inductive Phase where
  | waiting
  | writing (ending : Ending)
  | recording (row : LlmUsageRow)
  | storing (request : CacheStoreRequest)
  | ended
  | dropped

structure State where
  fin : StreamFinalize
  translator : StreamTranslator
  responsesLifter : Option ChatStreamToResponses
  cacheStore : Option StreamCacheTee
  pending : List InvocationChunk := []
  finished : Bool := false
  telemetryFinished : Bool := false
  phase : Phase := .waiting
  audit : List OutcomeRow := []
  usage : List LlmUsageRow := []
  cache : List CacheStoreRequest := []
  failures : List LlmFailurePhase := []
  /-- What the client has read. An error has its reason. -/
  items : List (Except String InvocationChunk) := []

inductive Action where
  | poll
  /-- `frames.next()` is ready: a frame, an error, or the end of the frames. -/
  | frame (next : Option (Except String String))
  | written
  /-- The stream is dropped, with or without a runtime. -/
  | drop (runtime : Bool)

namespace State

/-- `finalizing_inference_stream`. -/
def start (fin : StreamFinalize) : State :=
  { fin := fin
    translator := .forRecord fin.recordBase
    responsesLifter :=
      if fin.framing = .responses ∧ fin.recordBase.upstreamProtocol ≠ .openAiResponses then
        some {}
      else none
    cacheStore := fin.cacheStore }

def recordFailure (st : State) (phase : LlmFailurePhase) : State :=
  if st.telemetryFinished then st
  else { st with telemetryFinished := true, failures := st.failures ++ [phase] }

/-- Chunks of which the last is terminal, if they are the end. -/
def marked (done : Bool) (events : List (Option String × Json)) : List InvocationChunk :=
  events.zipIdx.map (fun e =>
    { event := e.1.2, eventName := e.1.1, terminal := done && e.2 + 1 == events.length })

/-- A Responses caller of another upstream: the chunks are lifted. -/
def liftedChunks (lifter : ChatStreamToResponses) (step : StreamStep) (record : InferenceRecord) :
    ChatStreamToResponses × List InvocationChunk :=
  let pushed := lifter.pushAll step.chunks
  let events := marked false (pushed.2.map (fun e => (some e.1, e.2)))
  if step.done then
    let ended := pushed.1.finish (chatUsageFromRecord record)
    (ended.1, events ++ marked true (ended.2.map (fun e => (some e.1, e.2))))
  else (pushed.1, events)

/-- A caller who speaks the upstream's protocol: the frame is relayed. What is not
    JSON is a keepalive. -/
def relayedChunks (parse : String → Option Json) (data : String) (done : Bool) :
    List InvocationChunk :=
  (parse (trim data)).toList.map (fun event =>
    { event := event, eventName := strField event "type", terminal := done })

def enqueue (parse : String → Option Json) (st : State) (data : String) (step : StreamStep) :
    State :=
  match st.responsesLifter with
  | some lifter =>
    let lifted := liftedChunks lifter step st.translator.snapshot
    { st with responsesLifter := some lifted.1, pending := st.pending ++ lifted.2 }
  | none =>
    if st.fin.framing ≠ .chatChunks then
      { st with pending := st.pending ++ relayedChunks parse data step.done }
    else
      { st with
        cacheStore := st.cacheStore.map (fun tee =>
          { tee with agg := step.chunks.foldl StreamCacheAgg.observe tee.agg })
        pending := st.pending ++ marked step.done (step.chunks.map (fun e => (none, e))) }

/-- A frame: it is translated, and at the end the outcome is to be written. -/
def receive (parse : String → Option Json) (st : State) (data : String) : State :=
  let pushed := st.translator.push parse data
  let st := ({ st with translator := pushed.1 }).enqueue parse data pushed.2
  if pushed.2.done then { st with telemetryFinished := true, phase := .writing .done } else st

def fail (st : State) (reason : String) : State :=
  { st.recordFailure .stream with phase := .writing (.failed reason) }

def next (parse : String → Option Json) (st : State) : Option (Except String String) → State
  | some (.ok data) => st.receive parse data
  | some (.error reason) => st.fail reason
  | none => st.fail "provider stream closed before the completion sentinel"

def cacheRequest (st : State) (tee : StreamCacheTee) (body : Json) : CacheStoreRequest :=
  { canonicalRequest := tee.canonical
    tenantId := st.fin.tenantId
    principalIssuer := tee.principalIssuer
    principalSub := st.fin.principalSub
    modelAlias := st.fin.modelAlias
    modelServed := st.translator.snapshot.modelServed
    provider := tee.provider
    body := body
    ttl := tee.ttl }

def storeCompletion (st : State) : State :=
  match st.cacheStore.bind (fun tee => tee.agg.buildBody.map (st.cacheRequest tee)) with
  | some request => { st with phase := .storing request }
  | none => { st with phase := .waiting }

def recordUsage (st : State) : State :=
  if st.fin.usage then
    { st with phase := .recording (buildUsageRow st.translator.snapshot st.fin.tenantId
        st.fin.principalSub st.fin.modelAlias) }
  else st.storeCompletion

/-- The write that is awaited completes, and the stream goes on to the next. -/
def written (st : State) : Option State :=
  match st.phase with
  | .writing .done =>
    some ({ st with audit := st.audit ++ [Ending.done.row], finished := true }).recordUsage
  | .writing (.failed reason) =>
    some { st with
      audit := st.audit ++ [(Ending.failed reason).row]
      finished := true
      items := st.items ++ [.error reason]
      phase := .waiting }
  | .recording row => some ({ st with usage := st.usage ++ [row] }).storeCompletion
  | .storing request => some { st with cache := st.cache ++ [request], phase := .waiting }
  | _ => none

/-- The loop up to the next await: what is pending is read first, also after the
    end. The state that goes away at the end has been finished. -/
def poll (st : State) : Option State :=
  match st.phase, st.pending with
  | .waiting, chunk :: rest =>
    some { st with pending := rest, items := st.items ++ [.ok chunk] }
  | .waiting, [] =>
    some (if st.finished then { st.recordFailure .abandoned with phase := .ended } else st)
  | _, _ => none

/-- `Drop`. -/
def drop (st : State) (runtime : Bool) : State :=
  let st := st.recordFailure .abandoned
  if st.finished || !runtime then { st with phase := .dropped }
  else { st with audit := st.audit ++ [cancelledRow], phase := .dropped }

def step (parse : String → Option Json) (st : State) : Action → Option State
  | .poll => st.poll
  | .frame next =>
    match st.phase, st.pending, st.finished with
    | .waiting, [], false => some (st.next parse next)
    | _, _, _ => none
  | .written => st.written
  | .drop runtime =>
    match st.phase with
    | .ended => none
    | .dropped => none
    | _ => some (st.drop runtime)

def run (parse : String → Option Json) (st : State) (actions : List Action) : Option State :=
  actions.foldlM (step parse) st

end State

end Invocation

end Waygate
