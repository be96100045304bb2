import Waygate.Core.Llm.Response
import Waygate.Core.Primitive

/-!
# Streamed Responses

The translators of a provider's events: each event becomes any number of chunks of a
chat completion, and updates the record. What is blank or not JSON is a keepalive. The
parser is a parameter. Counters are natural numbers where the source has `u64`.

## Main definitions

* `AnthropicStreamTranslator`, `GeminiStreamTranslator`, `ResponsesStreamTranslator`: The
  translators.
* `StreamTranslator`, `push`: Any of them, and a frame.
-/

namespace Waygate

namespace Llm

open Json (ofNat ofOption)

section Frames

structure StreamStep where
  chunks : List Json := []
  done : Bool := false

/-- `str::trim`. -/
def trim (s : String) : String :=
  String.ofList ((s.toList.dropWhile whiteSpace).reverse.dropWhile whiteSpace).reverse

def decode (parse : String → Option Json) (data : String) : Option Json :=
  if trim data = "" then none else parse (trim data)

def eventType (ev : Json) : String :=
  (strField ev "type").getD ""

def chatChunk (id model : Option String) (delta : Json) (finishReason : Option String) : Json :=
  .object
    [("id", .string (id.getD "")), ("object", .string "chat.completion.chunk"),
      ("model", .string (model.getD "")),
      ("choices", .array [.object [("index", ofNat 0), ("delta", delta),
        ("finish_reason", ofOption .string finishReason)]])]

def doneChunk : Json :=
  .string "[DONE]"

def roleDelta : Json :=
  .object [("role", .string "assistant")]

def contentDelta (text : String) : Json :=
  .object [("content", .string text)]

def toolCallDelta (index : Nat) (id name arguments : String) : Json :=
  .object [("tool_calls", .array [.object
    [("index", ofNat index), ("id", .string id), ("type", .string "function"),
      ("function", .object [("name", .string name), ("arguments", .string arguments)])]])]

def argumentsDelta (index : Nat) (arguments : String) : Json :=
  .object [("tool_calls", .array [.object
    [("index", ofNat index), ("function", .object [("arguments", .string arguments)])]])]

end Frames

section OpenAi

structure OpenAiChatStreamAggregator where
  record : InferenceRecord

namespace OpenAiChatStreamAggregator

def new (base : InferenceRecord) : OpenAiChatStreamAggregator :=
  { record := { base with upstreamProtocol := .openAiChat } }

def observe (t : OpenAiChatStreamAggregator) (chunk : Json) : OpenAiChatStreamAggregator :=
  let choice := (arrayField chunk "choices").bind List.head?
  let reason := choice.bind (strField · "finish_reason")
  -- The first identity that is seen stays. Usage is null before the last chunk.
  let usage := match chunk.get "usage" with
    | some .null => none
    | usage => usage.map tokenUsageFrom
  let record := { t.record with
    modelServed := t.record.modelServed.or (strField chunk "model")
    upstreamRequestId := t.record.upstreamRequestId.or (strField chunk "id")
    systemFingerprint := t.record.systemFingerprint.or (strField chunk "system_fingerprint") }
    |>.withUsage usage
    |>.withFinish (reason = some "content_filter") (reason.map normalizeFinishReason)
  if ((choice.bind (Json.get · "delta")).bind (strField · "refusal")).any (· ≠ "") then
    { record := { record with refusal := true } }
  else { record := record }

def observeData (parse : String → Option Json) (t : OpenAiChatStreamAggregator) (data : String) :
    OpenAiChatStreamAggregator :=
  if trim data = "" ∨ trim data = "[DONE]" then t
  else match parse (trim data) with
    | some chunk => t.observe chunk
    | none => t

/-- The client speaks the same protocol, so a frame is passed on as it is. -/
def push (parse : String → Option Json) (t : OpenAiChatStreamAggregator) (data : String) :
    OpenAiChatStreamAggregator × StreamStep :=
  (t.observeData parse data,
    { chunks := [(parse (trim data)).getD (.string data)], done := trim data = "[DONE]" })

end OpenAiChatStreamAggregator

end OpenAi

section Anthropic

/-- A call that is being streamed. A call of the forced tool is text. -/
structure AnthropicToolBlock where
  toolIndex : Nat
  emulated : Bool

structure AnthropicStreamTranslator where
  record : InferenceRecord
  id : Option String
  model : Option String
  toolBlocks : List (Nat × AnthropicToolBlock)
  nextToolIndex : Nat
  hasToolCalls : Bool
  emulatedPresent : Bool
  emulation : Bool

namespace AnthropicStreamTranslator

def new (base : InferenceRecord) : AnthropicStreamTranslator :=
  { record := { base with upstreamProtocol := .anthropicMessages }
    id := none
    model := none
    toolBlocks := []
    nextToolIndex := 0
    hasToolCalls := false
    emulatedPresent := false
    emulation := base.inboundSurface ≠ .anthropicMessages }

def chunk (t : AnthropicStreamTranslator) (delta : Json) (finishReason : Option String) : Json :=
  chatChunk t.id t.model delta finishReason

/-- The prompt's counts arrive with the start, the output's with the end. -/
def withPromptUsage (record : InferenceRecord) : Option Json → InferenceRecord
  | some usage =>
    let u := anthropicTokenUsageFrom usage
    { record with
      usage := { record.usage with
        input := u.input, cachedRead := u.cachedRead, cacheWrite := u.cacheWrite }
      providerPromptCache := promptCache u }
  | none => record

def messageStart (t : AnthropicStreamTranslator) (ev : Json) :
    AnthropicStreamTranslator × StreamStep :=
  let t := match ev.get "message" with
    | some msg =>
      { t with
        id := strField msg "id"
        model := strField msg "model"
        record := withPromptUsage { t.record with
          modelServed := t.record.modelServed.or (strField msg "model")
          upstreamRequestId := t.record.upstreamRequestId.or (strField msg "id") }
          (msg.get "usage") }
    | none => t
  (t, { chunks := [t.chunk roleDelta none] })

def blockIndex (ev : Json) : Nat :=
  (u64Field ev "index").getD 0

def contentBlockStart (t : AnthropicStreamTranslator) (ev : Json) :
    AnthropicStreamTranslator × StreamStep :=
  match ev.get "content_block" with
  | some cb =>
    if hasType "tool_use" cb then
      let name := (strField cb "name").getD ""
      if t.emulation ∧ name = STRUCTURED_OUTPUT_TOOL_NAME then
        -- No header: the arguments are the answer, and stream as content.
        ({ t with
          emulatedPresent := true
          toolBlocks := (blockIndex ev, { toolIndex := 0, emulated := true }) :: t.toolBlocks },
          {})
      else
        let t' := { t with
          nextToolIndex := t.nextToolIndex + 1
          hasToolCalls := true
          toolBlocks := (blockIndex ev, { toolIndex := t.nextToolIndex, emulated := false })
            :: t.toolBlocks }
        (t', { chunks := [t'.chunk
          (toolCallDelta t.nextToolIndex ((strField cb "id").getD "") name "") none] })
    else (t, {})
  | none => (t, {})

def contentBlockDelta (t : AnthropicStreamTranslator) (ev : Json) : StreamStep :=
  let delta := ev.get "delta"
  let type := delta.bind (strField · "type")
  if type = some "text_delta" then
    match delta.bind (strField · "text") with
    | some text => { chunks := [t.chunk (contentDelta text) none] }
    | none => {}
  else if type = some "input_json_delta" then
    let partialJson := (delta.bind (strField · "partial_json")).getD ""
    match t.toolBlocks.lookup (blockIndex ev) with
    | some block =>
      if block.emulated then { chunks := [t.chunk (contentDelta partialJson) none] }
      else { chunks := [t.chunk (argumentsDelta block.toolIndex partialJson) none] }
    | none => {}
  else {}

def messageDelta (t : AnthropicStreamTranslator) (ev : Json) :
    AnthropicStreamTranslator × StreamStep :=
  let outputTokens := (ev.get "usage").bind (u64Field · "output_tokens")
  let withOutput := fun record : InferenceRecord => match outputTokens with
    | some out => { record with usage := { record.usage with output := some out } }
    | none => record
  match (ev.get "delta").bind (strField · "stop_reason") with
  | some reason =>
    -- A structured answer stops with a call, but the client received a completion.
    let finish := if t.emulatedPresent = true ∧ reason = "tool_use" then
        (FinishReason.stop, "stop")
      else (normalizeAnthropicStopReason reason, anthropicStopReasonToOpenai reason)
    ({ t with
        record := withOutput (t.record.withFinish (reason = "refusal") (some finish.1)) },
      { chunks := [t.chunk (.object []) (some finish.2)] })
  | none => ({ t with record := withOutput t.record }, {})

/-- `push`, for an event. -/
def observe (t : AnthropicStreamTranslator) (ev : Json) :
    AnthropicStreamTranslator × StreamStep :=
  if eventType ev = "message_start" then t.messageStart ev
  else if eventType ev = "content_block_start" then t.contentBlockStart ev
  else if eventType ev = "content_block_delta" then (t, t.contentBlockDelta ev)
  else if eventType ev = "message_delta" then t.messageDelta ev
  else if eventType ev = "message_stop" then (t, { chunks := [doneChunk], done := true })
  else (t, {})

end AnthropicStreamTranslator

end Anthropic

section Gemini

structure GeminiStreamTranslator where
  record : InferenceRecord
  started : Bool
  nextToolIndex : Nat
  hasToolCalls : Bool

namespace GeminiStreamTranslator

def new (base : InferenceRecord) : GeminiStreamTranslator :=
  { record := { base with upstreamProtocol := .gemini }
    started := false
    nextToolIndex := 0
    hasToolCalls := false }

def chunk (t : GeminiStreamTranslator) (delta : Json) (finishReason : Option String) : Json :=
  chatChunk t.record.upstreamRequestId t.record.modelServed delta finishReason

def identify (t : GeminiStreamTranslator) (ev : Json) : GeminiStreamTranslator :=
  { t with record := { t.record with
    modelServed := t.record.modelServed.or (strField ev "modelVersion")
    upstreamRequestId := t.record.upstreamRequestId.or (strField ev "responseId") } }

def callChunk (t : GeminiStreamTranslator) (fc : Json) (index : Nat) : Json :=
  t.chunk (toolCallDelta index ("call_" ++ Nat.repr index) ((strField fc "name").getD "")
    (argumentsText fc "args")) none

/-- How a turn ends: calls end it as calls, but a filter still wins. -/
def finishOf (hasToolCalls : Bool) (reason : String) : FinishReason × String :=
  if hasToolCalls = true ∧ normalizeGeminiFinishReason reason ≠ .contentFilter then
    (.toolUse, "tool_calls")
  else (normalizeGeminiFinishReason reason, geminiFinishReasonToOpenai reason)

def observe (t : GeminiStreamTranslator) (ev : Json) : GeminiStreamTranslator × StreamStep :=
  let t := t.identify ev
  let role := if t.started then [] else [t.chunk roleDelta none]
  let parts := (geminiParts ev).getD []
  let text := String.join (parts.filterMap (strField · "text"))
  let content := if text = "" then [] else [t.chunk (contentDelta text) none]
  let calls := parts.filterMap (Json.get · "functionCall")
  let callChunks := (calls.zipIdx t.nextToolIndex).map (fun p => t.callChunk p.1 p.2)
  let t := { t with
    started := true
    nextToolIndex := t.nextToolIndex + calls.length
    hasToolCalls := t.hasToolCalls || !calls.isEmpty
    record := t.record.withUsage ((ev.get "usageMetadata").map geminiTokenUsageFrom) }
  match (geminiCandidate ev).bind (strField · "finishReason") with
  | some reason =>
    let finish := finishOf t.hasToolCalls reason
    ({ t with
        record := t.record.withFinish (normalizeGeminiFinishReason reason = .contentFilter)
          (some finish.1) },
      { chunks := role ++ content ++ callChunks
          ++ [t.chunk (.object []) (some finish.2), doneChunk]
        done := true })
  | none => (t, { chunks := role ++ content ++ callChunks })

end GeminiStreamTranslator

end Gemini

section Responses

structure ResponsesStreamTranslator where
  record : InferenceRecord
  started : Bool
  toolItems : List (String × Nat)
  nextToolIndex : Nat
  hasToolCalls : Bool

namespace ResponsesStreamTranslator

def new (base : InferenceRecord) : ResponsesStreamTranslator :=
  { record := { base with upstreamProtocol := .openAiResponses }
    started := false
    toolItems := []
    nextToolIndex := 0
    hasToolCalls := false }

def chunk (t : ResponsesStreamTranslator) (delta : Json) (finishReason : Option String) : Json :=
  chatChunk t.record.upstreamRequestId t.record.modelServed delta finishReason

/-- The first identity that is seen in a nested response stays. -/
def recordIdentity (t : ResponsesStreamTranslator) : Option Json → ResponsesStreamTranslator
  | some resp =>
    { t with record := { t.record with
      modelServed := t.record.modelServed.or (strField resp "model")
      upstreamRequestId := t.record.upstreamRequestId.or (strField resp "id") } }
  | none => t

def outputItemAdded (t : ResponsesStreamTranslator) (ev : Json) :
    ResponsesStreamTranslator × List Json :=
  match ev.get "item" with
  | some item =>
    if hasType "function_call" item then
      let t' := { t with
        nextToolIndex := t.nextToolIndex + 1
        hasToolCalls := true
        toolItems := ((strField item "id").getD "", t.nextToolIndex) :: t.toolItems }
      (t', [t'.chunk (toolCallDelta t.nextToolIndex ((strField item "call_id").getD "")
        ((strField item "name").getD "") "") none])
    else (t, [])
  | none => (t, [])

def argumentsDeltaChunks (t : ResponsesStreamTranslator) (ev : Json) : List Json :=
  match t.toolItems.lookup ((strField ev "item_id").getD ""), strField ev "delta" with
  | some toolIndex, some delta => [t.chunk (argumentsDelta toolIndex delta) none]
  | _, _ => []

def finishOf (hasToolCalls : Bool) (finish : FinishReason) : FinishReason :=
  if hasToolCalls = true ∧ finish ≠ .contentFilter then .toolUse else finish

def terminal (t : ResponsesStreamTranslator) (ev : Json) :
    ResponsesStreamTranslator × List Json :=
  match ev.get "response" with
  | some r =>
    let t := { t with
      record := t.record.withUsage ((r.get "usage").map responsesTokenUsageFrom) }
    match responsesFinish r with
    | some finish =>
      ({ t with
          record := t.record.withFinish (finish = .contentFilter)
            (some (finishOf t.hasToolCalls finish)) },
        [t.chunk (.object []) (some (finishReasonOpenaiStr (finishOf t.hasToolCalls finish)))])
    | none => (t, [])
  | none => (t, [])

def observe (t : ResponsesStreamTranslator) (ev : Json) :
    ResponsesStreamTranslator × StreamStep :=
  let t := t.recordIdentity (ev.get "response")
  let role := if t.started then [] else [t.chunk roleDelta none]
  let t := { t with started := true }
  if eventType ev = "response.output_text.delta" then
    let content := match strField ev "delta" with
      | some text => if text = "" then [] else [t.chunk (contentDelta text) none]
      | none => []
    (t, { chunks := role ++ content })
  else if eventType ev = "response.output_item.added" then
    let added := t.outputItemAdded ev
    (added.1, { chunks := role ++ added.2 })
  else if eventType ev = "response.function_call_arguments.delta" then
    (t, { chunks := role ++ t.argumentsDeltaChunks ev })
  else if eventType ev = "response.completed" ∨ eventType ev = "response.incomplete" then
    let ended := t.terminal ev
    (ended.1, { chunks := role ++ ended.2 ++ [doneChunk], done := true })
  else (t, { chunks := role })

end ResponsesStreamTranslator

end Responses

section Translator

inductive StreamTranslator where
  | openAi (t : OpenAiChatStreamAggregator)
  | anthropic (t : AnthropicStreamTranslator)
  | gemini (t : GeminiStreamTranslator)
  | responses (t : ResponsesStreamTranslator)

namespace StreamTranslator

def forRecord (base : InferenceRecord) : StreamTranslator :=
  match base.upstreamProtocol with
  | .anthropicMessages => .anthropic (.new base)
  | .gemini => .gemini (.new base)
  | .openAiResponses => .responses (.new base)
  | .openAiChat => .openAi (.new base)

variable (parse : String → Option Json)

/-- A translator is stepped by the event of a frame, if it has one. -/
def pushEvent {T : Type} (observe : T → Json → T × StreamStep) (t : T) (data : String) :
    T × StreamStep :=
  match decode parse data with
  | some ev => observe t ev
  | none => (t, {})

def push (t : StreamTranslator) (data : String) : StreamTranslator × StreamStep :=
  match t with
  | .openAi t => Prod.map .openAi id (t.push parse data)
  | .anthropic t =>
    Prod.map .anthropic id (pushEvent parse AnthropicStreamTranslator.observe t data)
  | .gemini t => Prod.map .gemini id (pushEvent parse GeminiStreamTranslator.observe t data)
  | .responses t =>
    Prod.map .responses id (pushEvent parse ResponsesStreamTranslator.observe t data)

def snapshot : StreamTranslator → InferenceRecord
  | .openAi t => t.record
  | .anthropic t => t.record
  | .gemini t => t.record
  | .responses t => t.record

/-- The frames of a stream one after another, with the chunks for all of them. -/
def pushAll : StreamTranslator → List String → StreamTranslator × List Json
  | t, [] => (t, [])
  | t, data :: rest =>
    let step := t.push parse data
    let after := pushAll step.1 rest
    (after.1, step.2.chunks ++ after.2)

end StreamTranslator

end Translator

end Llm

end Waygate
