import Waygate.Core.Json
import Waygate.Core.Llm.Record

/-!
# Provider Responses

The bodies of the four upstream protocols, read for the record and translated to the
body of a chat completion. A call of the forced tool `STRUCTURED_OUTPUT_TOOL_NAME` is a
structured answer: the input of the call is the text, and there is no call.

## Main definitions

* `extractAnthropicMessages`, `extractGemini`, `extractOpenaiResponses`: The records.
* `anthropicResponseToOpenaiChat`: A translation to a chat body.
-/

namespace Waygate

namespace Llm

open Json (ofNat ofOption)

def STRUCTURED_OUTPUT_TOOL_NAME : String :=
  "__gateway_structured_output__"

section Fields

def strField (v : Json) (key : String) : Option String :=
  (v.get key).bind Json.asStr

def u64Field (v : Json) (key : String) : Option Nat :=
  (v.get key).bind Json.asU64

def arrayField (v : Json) (key : String) : Option (List Json) :=
  (v.get key).bind Json.asArray

/-- `u64::checked_add`. -/
def checkedAdd (a b : Nat) : Option Nat :=
  if a + b < 2 ^ 64 then some (a + b) else none

/-- Add the classes that were reported apart, unless the sum overflows. -/
def addReportedSubsets (primary : Option Nat) (subsets : List (Option Nat)) : Option Nat :=
  primary.bind (fun count => (subsets.filterMap id).foldlM checkedAdd count)

end Fields

section Usage

def tokenUsageFrom (usage : Json) : TokenUsage :=
  { input := u64Field usage "prompt_tokens"
    output := u64Field usage "completion_tokens"
    cachedRead := (usage.get "prompt_tokens_details").bind (u64Field · "cached_tokens")
    cacheWrite := (usage.get "prompt_tokens_details").bind (u64Field · "cache_write_tokens")
    reasoning := (usage.get "completion_tokens_details").bind (u64Field · "reasoning_tokens") }

def anthropicTokenUsageFrom (usage : Json) : TokenUsage :=
  { input := addReportedSubsets (u64Field usage "input_tokens")
      [u64Field usage "cache_read_input_tokens", u64Field usage "cache_creation_input_tokens"]
    output := u64Field usage "output_tokens"
    cachedRead := u64Field usage "cache_read_input_tokens"
    cacheWrite := u64Field usage "cache_creation_input_tokens"
    reasoning := none }

def geminiTokenUsageFrom (um : Json) : TokenUsage :=
  { input := u64Field um "promptTokenCount"
    output := addReportedSubsets (u64Field um "candidatesTokenCount")
      [u64Field um "thoughtsTokenCount"]
    cachedRead := u64Field um "cachedContentTokenCount"
    cacheWrite := none
    reasoning := u64Field um "thoughtsTokenCount" }

def responsesTokenUsageFrom (usage : Json) : TokenUsage :=
  { input := u64Field usage "input_tokens"
    output := u64Field usage "output_tokens"
    cachedRead := (usage.get "input_tokens_details").bind (u64Field · "cached_tokens")
    cacheWrite := (usage.get "input_tokens_details").bind (u64Field · "cache_write_tokens")
    reasoning := (usage.get "output_tokens_details").bind (u64Field · "reasoning_tokens") }

def promptCache (usage : TokenUsage) : Option Bool :=
  usage.cachedRead.map (fun c => 0 < c)

end Usage

section Reasons

def normalizeFinishReason (s : String) : FinishReason :=
  if s = "stop" then .stop
  else if s = "length" then .length
  else if s = "tool_calls" ∨ s = "function_call" then .toolUse
  else if s = "content_filter" then .contentFilter
  else .other

def normalizeAnthropicStopReason (s : String) : FinishReason :=
  if s = "end_turn" ∨ s = "stop_sequence" then .stop
  else if s = "max_tokens" then .length
  else if s = "tool_use" then .toolUse
  else if s = "refusal" then .contentFilter
  else .other

def anthropicStopReasonToOpenai (s : String) : String :=
  if s = "end_turn" ∨ s = "stop_sequence" then "stop"
  else if s = "max_tokens" then "length"
  else if s = "tool_use" then "tool_calls"
  else if s = "refusal" then "content_filter"
  else "stop"

def geminiFiltered (s : String) : Prop :=
  s ∈ ["SAFETY", "RECITATION", "BLOCKLIST", "PROHIBITED_CONTENT", "SPII"]

instance geminiFiltered.decidable (s : String) : Decidable (geminiFiltered s) :=
  inferInstanceAs (Decidable (s ∈ _))

def normalizeGeminiFinishReason (s : String) : FinishReason :=
  if s = "STOP" then .stop
  else if s = "MAX_TOKENS" then .length
  else if geminiFiltered s then .contentFilter
  else .other

def geminiFinishReasonToOpenai (s : String) : String :=
  if s = "STOP" then "stop"
  else if s = "MAX_TOKENS" then "length"
  else if geminiFiltered s then "content_filter"
  else "stop"

def incompleteReason (resp : Json) : Option String :=
  (resp.get "incomplete_details").bind (strField · "reason")

def responsesFinish (resp : Json) : Option FinishReason :=
  if strField resp "status" = some "completed" then some .stop
  else if strField resp "status" = some "incomplete" then
    some (if incompleteReason resp = some "max_output_tokens" then .length
      else if incompleteReason resp = some "content_filter" then .contentFilter
      else .other)
  else none

def finishReasonOpenaiStr : FinishReason → String
  | .stop | .other | .error => "stop"
  | .length => "length"
  | .toolUse => "tool_calls"
  | .contentFilter => "content_filter"

end Reasons

section Calls

def hasType (kind : String) (b : Json) : Bool :=
  strField b "type" = some kind

def isEmulated (b : Json) : Bool :=
  hasType "tool_use" b && strField b "name" = some STRUCTURED_OUTPUT_TOOL_NAME

def chatToolCall (id name arguments : String) : Json :=
  .object
    [("id", .string id), ("type", .string "function"),
      ("function", .object [("name", .string name), ("arguments", .string arguments)])]

def argumentsText (v : Json) (key : String) : String :=
  ((v.get key).map Json.toText).getD "\x7b\x7d"

def anthropicToolCalls (blocks : Option (List Json)) : List Json :=
  (blocks.getD []).filter (hasType "tool_use") |>.map (fun b =>
    chatToolCall ((strField b "id").getD "") ((strField b "name").getD "")
      (argumentsText b "input"))

/-- The calls of a Gemini body have no ids, and get some in order. -/
def geminiToolCalls (parts : Option (List Json)) : List Json :=
  ((parts.getD []).filterMap (Json.get · "functionCall")).zipIdx.map (fun p =>
    chatToolCall ("call_" ++ Nat.repr p.2) ((strField p.1 "name").getD "")
      (argumentsText p.1 "args"))

def responsesToolCalls (output : Option (List Json)) : List Json :=
  (output.getD []).filter (hasType "function_call") |>.map (fun it =>
    chatToolCall ((strField it "call_id").getD "") ((strField it "name").getD "")
      ((strField it "arguments").getD ""))

/-- `candidates[0]`. -/
def geminiCandidate (resp : Json) : Option Json :=
  (arrayField resp "candidates").bind List.head?

/-- `candidates[0].content.parts`. -/
def geminiParts (resp : Json) : Option (List Json) :=
  ((geminiCandidate resp).bind (Json.get · "content")).bind (arrayField · "parts")

end Calls

section Extract

namespace InferenceRecord

def withUsage (base : InferenceRecord) : Option TokenUsage → InferenceRecord
  | some usage => { base with usage := usage, providerPromptCache := promptCache usage }
  | none => base

def withFinish (base : InferenceRecord) (refused : Bool) :
    Option FinishReason → InferenceRecord
  | some finish => { base with refusal := base.refusal || refused, finishReason := some finish }
  | none => base

/-- Calls end a turn as calls, but a filter still wins. -/
def withToolCalls (base : InferenceRecord) (toolCalls : List Json) : InferenceRecord :=
  if base.finishReason ≠ some .contentFilter ∧ toolCalls.isEmpty = false then
    { base with finishReason := some .toolUse }
  else base

end InferenceRecord

def extractOpenaiChat (base : InferenceRecord) (response : Json) : InferenceRecord :=
  let choice := (arrayField response "choices").bind List.head?
  let reason := choice.bind (strField · "finish_reason")
  let recorded := { base with
    upstreamProtocol := .openAiChat
    modelServed := strField response "model"
    upstreamRequestId := strField response "id"
    systemFingerprint := strField response "system_fingerprint" }
    |>.withUsage ((response.get "usage").map tokenUsageFrom)
    |>.withFinish (reason = some "content_filter") (reason.map normalizeFinishReason)
  -- A refusal may come with a normal stop.
  if ((choice.bind (Json.get · "message")).bind (strField · "refusal")).any (· ≠ "") then
    { recorded with refusal := true }
  else recorded

def isStructuredOutputEmulation (response : Json) : Bool :=
  ((arrayField response "content").getD []).any isEmulated

def extractAnthropicMessages (base : InferenceRecord) (response : Json) : InferenceRecord :=
  let reason := strField response "stop_reason"
  let recorded := { base with
    upstreamProtocol := .anthropicMessages
    modelServed := strField response "model"
    upstreamRequestId := strField response "id" }
    |>.withUsage ((response.get "usage").map anthropicTokenUsageFrom)
    |>.withFinish (reason = some "refusal") (reason.map normalizeAnthropicStopReason)
  -- A structured answer stops with a call, but the client receives a completion.
  if recorded.finishReason = some .toolUse ∧ recorded.inboundSurface ≠ .anthropicMessages
      ∧ isStructuredOutputEmulation response = true then
    { recorded with finishReason := some .stop }
  else recorded

def extractGemini (base : InferenceRecord) (response : Json) : InferenceRecord :=
  let finish := ((geminiCandidate response).bind (strField · "finishReason")).map
    normalizeGeminiFinishReason
  { base with
    upstreamProtocol := .gemini
    modelServed := strField response "modelVersion"
    upstreamRequestId := strField response "responseId" }
    |>.withUsage ((response.get "usageMetadata").map geminiTokenUsageFrom)
    |>.withFinish (finish = some FinishReason.contentFilter) finish
    |>.withToolCalls (geminiToolCalls (geminiParts response))

def extractOpenaiResponses (base : InferenceRecord) (response : Json) : InferenceRecord :=
  let finish := responsesFinish response
  { base with
    upstreamProtocol := .openAiResponses
    modelServed := strField response "model"
    upstreamRequestId := strField response "id" }
    |>.withUsage ((response.get "usage").map responsesTokenUsageFrom)
    |>.withFinish (finish = some FinishReason.contentFilter) finish
    |>.withToolCalls (responsesToolCalls (arrayField response "output"))

end Extract

section Translate

/-- The message of a chat body: no text beside calls is `null`. -/
def chatMessage (contentText : String) (toolCalls : List Json) : Json :=
  .object ([("role", .string "assistant"),
      ("content", if contentText = "" ∧ toolCalls.isEmpty = false then .null
        else .string contentText)]
    ++ (if toolCalls.isEmpty then [] else [("tool_calls", .array toolCalls)]))

def chatChoices (message : Json) (finishReason : Option String) : Json :=
  .array [.object [("index", ofNat 0), ("message", message),
    ("finish_reason", ofOption .string finishReason)]]

def chatUsage (prompt completion total : Option Nat) : Json :=
  .object [("prompt_tokens", ofOption ofNat prompt),
    ("completion_tokens", ofOption ofNat completion), ("total_tokens", ofOption ofNat total)]

def chatBody (id model : Option Json) (choices : Json) (usage : Option Json) : Json :=
  .object ((id.map (Prod.mk "id")).toList ++ [("object", .string "chat.completion")]
    ++ (model.map (Prod.mk "model")).toList ++ [("choices", choices)]
    ++ (usage.map (Prod.mk "usage")).toList)

def reportedUsage (prompt completion total : Option Nat) : Option Json :=
  if prompt.isSome ∨ completion.isSome then some (chatUsage prompt completion total) else none

def sumCounts (add : Nat → Nat → Option Nat) (prompt completion : Option Nat) : Option Nat :=
  match prompt, completion with
  | some p, some c => add p c
  | _, _ => none

/-- `p + c` on 64 bits. -/
def plainAdd (p c : Nat) : Option Nat :=
  some ((p + c) % 2 ^ 64)

def anthropicResponseToOpenaiChat (resp : Json) : Json :=
  let blocks := arrayField resp "content"
  let finishReason := (strField resp "stop_reason").map anthropicStopReasonToOpenai
  let usage := (resp.get "usage").bind (fun usage =>
    let normalized := anthropicTokenUsageFrom usage
    reportedUsage normalized.input normalized.output
      (sumCounts checkedAdd normalized.input normalized.output))
  match (blocks.getD []).find? isEmulated with
  | some b =>
    -- A structured answer reads as a normal completion, not a tool call.
    chatBody (resp.get "id") (resp.get "model")
      (chatChoices (chatMessage (((b.get "input").getD (.object [])).toText) []) (some "stop"))
      usage
  | none =>
    let contentText := String.join (((blocks.getD []).filter (hasType "text")).filterMap
      (strField · "text"))
    let toolCalls := anthropicToolCalls blocks
    chatBody (resp.get "id") (resp.get "model")
      (chatChoices (chatMessage contentText toolCalls)
        (if toolCalls.isEmpty then finishReason else some "tool_calls"))
      usage

def geminiResponseToOpenaiChat (resp : Json) : Json :=
  let parts := geminiParts resp
  let contentText := String.join ((parts.getD []).filterMap (strField · "text"))
  let toolCalls := geminiToolCalls parts
  let finishReason := ((geminiCandidate resp).bind (strField · "finishReason")).map
    geminiFinishReasonToOpenai
  chatBody (resp.get "responseId") (resp.get "modelVersion")
    (chatChoices (chatMessage contentText toolCalls)
      (if toolCalls.isEmpty then finishReason else some "tool_calls"))
    ((resp.get "usageMetadata").bind (fun um =>
      let normalized := geminiTokenUsageFrom um
      reportedUsage normalized.input normalized.output
        ((u64Field um "totalTokenCount").or
          (sumCounts checkedAdd normalized.input normalized.output))))

def responsesTexts (output : List Json) : List String :=
  ((((output.filter (hasType "message")).filterMap (arrayField · "content")).flatten).filter
    (hasType "output_text")).filterMap (strField · "text")

def openaiResponsesToOpenaiChat (resp : Json) : Json :=
  let output := arrayField resp "output"
  let contentText := String.join (responsesTexts (output.getD []))
  let toolCalls := responsesToolCalls output
  let finishReason := (responsesFinish resp).map finishReasonOpenaiStr
  chatBody (resp.get "id") (resp.get "model")
    (chatChoices (chatMessage contentText toolCalls)
      (if toolCalls.isEmpty then finishReason else some "tool_calls"))
    ((resp.get "usage").bind (fun usage =>
      let prompt := u64Field usage "input_tokens"
      let completion := u64Field usage "output_tokens"
      reportedUsage prompt completion
        ((u64Field usage "total_tokens").or (sumCounts plainAdd prompt completion))))

end Translate

end Llm

end Waygate
