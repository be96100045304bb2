import Waygate.Core.Llm.Response

/-!
# Canonical Responses

Every provider's body is folded into one shape, and each client surface is rendered from
it. The shape is that of the Responses protocol.

## Main definitions

* `CanonicalResponse`: The shape.
* `openaiResponsesToCanonicalResponse`, `canonicalResponseToResponses`: A Responses body in
  and out.
* `canonicalResponseToOpenaiChat`: The chat body.
-/

namespace Waygate.Llm

open Json (ofNat ofOption)

section Shape

inductive IncompleteReason where
  | maxOutputTokens
  | contentFilter
  | other
  deriving DecidableEq

inductive ResponseStatus where
  | completed
  | incomplete (reason : IncompleteReason)
  | inProgress
  | failed
  deriving DecidableEq

inductive OutputContentPart where
  | outputText (text : String) (extra : List (String × Json))
  | unknown (v : Json)

inductive OutputItem where
  | message (id : Option String) (content : List OutputContentPart) (extra : List (String × Json))
  | functionCall (callId name arguments : String) (extra : List (String × Json))
  | reasoning (raw : Json)
  | unknown (v : Json)

structure Usage where
  input : Option Nat
  output : Option Nat
  total : Option Nat
  cachedRead : Option Nat
  cacheWrite : Option Nat
  reasoning : Option Nat
  deriving DecidableEq

/-- `Usage::from`. -/
def Usage.ofTokens (tokens : TokenUsage) : Usage :=
  { input := tokens.input
    output := tokens.output
    total := sumCounts checkedAdd tokens.input tokens.output
    cachedRead := tokens.cachedRead
    cacheWrite := tokens.cacheWrite
    reasoning := tokens.reasoning }

structure CanonicalResponse where
  id : Option String
  model : Option String
  createdAt : Option Nat
  status : ResponseStatus
  refusal : Bool
  output : List OutputItem
  usage : Option Usage
  extra : List (String × Json)

end Shape

section Chat

def OutputItem.texts : OutputItem → List String
  | .message _ content _ => content.filterMap (fun part => match part with
      | .outputText text _ => some text
      | .unknown _ => none)
  | _ => []

def OutputItem.chatToolCall? : OutputItem → Option Json
  | .functionCall callId name arguments _ => some (chatToolCall callId name arguments)
  | _ => none

def CanonicalResponse.contentText (resp : CanonicalResponse) : String :=
  String.join (resp.output.flatMap OutputItem.texts)

def CanonicalResponse.toolCalls (resp : CanonicalResponse) : List Json :=
  resp.output.filterMap OutputItem.chatToolCall?

def statusToFinishReason : ResponseStatus → Option String
  | .completed => some "stop"
  | .incomplete .maxOutputTokens => some "length"
  | .incomplete .contentFilter => some "content_filter"
  | .incomplete .other => some "stop"
  | .inProgress => none
  | .failed => none

def canonicalResponseToOpenaiChat (resp : CanonicalResponse) : Json :=
  chatBody (resp.id.map .string) (resp.model.map .string)
    (chatChoices (chatMessage resp.contentText resp.toolCalls)
      (if resp.toolCalls.isEmpty then statusToFinishReason resp.status else some "tool_calls"))
    (resp.usage.bind (fun usage => reportedUsage usage.input usage.output usage.total))

end Chat

section Folds

def anthropicStopReasonToStatus (s : String) : ResponseStatus :=
  if s = "max_tokens" then .incomplete .maxOutputTokens
  else if s = "refusal" then .incomplete .contentFilter
  else .completed

def messageOf (texts : List String) : List OutputItem :=
  if texts.isEmpty then [] else [.message none (texts.map (OutputContentPart.outputText · [])) []]

def anthropicToCanonicalResponse (resp : Json) : CanonicalResponse :=
  let blocks := (arrayField resp "content").getD []
  let stopReason := strField resp "stop_reason"
  let emulated := blocks.find? isEmulated
  { id := strField resp "id"
    model := strField resp "model"
    createdAt := none
    status := match emulated with
      | some _ => .completed
      | none => (stopReason.map anthropicStopReasonToStatus).getD .inProgress
    refusal := stopReason = some "refusal"
    output := match emulated with
      | some b =>
        [.message none [.outputText (((b.get "input").getD (.object [])).toText) []] []]
      | none =>
        messageOf ((blocks.filter (hasType "text")).filterMap (strField · "text"))
        ++ (blocks.filter (hasType "tool_use")).map (fun b =>
          .functionCall ((strField b "id").getD "") ((strField b "name").getD "")
            (argumentsText b "input") [])
    usage := (resp.get "usage").map (fun u => .ofTokens (anthropicTokenUsageFrom u))
    extra := [] }

def geminiFinishReasonToStatus (s : String) : ResponseStatus :=
  if s = "MAX_TOKENS" then .incomplete .maxOutputTokens
  else if geminiFiltered s then .incomplete .contentFilter
  else .completed

def geminiToCanonicalResponse (resp : Json) : CanonicalResponse :=
  let parts := (geminiParts resp).getD []
  let finish := (geminiCandidate resp).bind (strField · "finishReason")
  { id := strField resp "responseId"
    model := strField resp "modelVersion"
    createdAt := none
    status := (finish.map geminiFinishReasonToStatus).getD .inProgress
    refusal := finish.any (fun s => geminiFiltered s)
    output := messageOf (parts.filterMap (strField · "text"))
      ++ ((parts.filterMap (Json.get · "functionCall")).zipIdx.map (fun p =>
        .functionCall ("call_" ++ Nat.repr p.2) ((strField p.1 "name").getD "")
          (argumentsText p.1 "args") []))
    usage := (resp.get "usageMetadata").map (fun um =>
      let usage := Usage.ofTokens (geminiTokenUsageFrom um)
      { usage with total := (u64Field um "totalTokenCount").or usage.total })
    extra := [] }

def unmodeledFields (resp : Json) (consumed : List String) : List (String × Json) :=
  (resp.asObject.getD []).filter (fun field => !consumed.contains field.1)

def responsesContentPart (part : Json) : OutputContentPart :=
  if strField part "type" = some "output_text" then
    .outputText ((strField part "text").getD "") (unmodeledFields part ["type", "text"])
  else .unknown part

def responsesOutputItem (item : Json) : OutputItem :=
  if strField item "type" = some "message" then
    .message (strField item "id")
      (((arrayField item "content").getD []).map responsesContentPart)
      (unmodeledFields item ["type", "id", "role", "content"])
  else if strField item "type" = some "function_call" then
    .functionCall ((strField item "call_id").getD "") ((strField item "name").getD "")
      ((strField item "arguments").getD "")
      (unmodeledFields item ["type", "call_id", "name", "arguments"])
  else if strField item "type" = some "reasoning" then .reasoning item
  else .unknown item

def responsesStatusToCanonical (resp : Json) : ResponseStatus :=
  if strField resp "status" = some "completed" then .completed
  else if strField resp "status" = some "failed" then .failed
  else if strField resp "status" = some "incomplete" then
    .incomplete (if incompleteReason resp = some "max_output_tokens" then .maxOutputTokens
      else if incompleteReason resp = some "content_filter" then .contentFilter
      else .other)
  else .inProgress

def openaiResponsesToCanonicalResponse (resp : Json) : CanonicalResponse :=
  let status := responsesStatusToCanonical resp
  { id := strField resp "id"
    model := strField resp "model"
    createdAt := u64Field resp "created_at"
    status := status
    refusal := status = .incomplete .contentFilter
    output := ((arrayField resp "output").getD []).map responsesOutputItem
    usage := (resp.get "usage").map (fun u =>
      { input := u64Field u "input_tokens"
        output := u64Field u "output_tokens"
        total := (u64Field u "total_tokens").or
          (sumCounts plainAdd (u64Field u "input_tokens") (u64Field u "output_tokens"))
        cachedRead := (u.get "input_tokens_details").bind (u64Field · "cached_tokens")
        cacheWrite := (u.get "input_tokens_details").bind (u64Field · "cache_write_tokens")
        reasoning := (u.get "output_tokens_details").bind (u64Field · "reasoning_tokens") })
    extra := unmodeledFields resp
      ["id", "model", "created_at", "status", "incomplete_details", "output", "usage"] }

end Folds

section Responses

def contentPartToResponses : OutputContentPart → Json
  | .outputText text extra =>
    .object (Json.insert "text" (.string text)
      (Json.insert "type" (.string "output_text") extra))
  | .unknown v => v

def insertSome (name : String) (value : Option Json) (fields : List (String × Json)) :
    List (String × Json) :=
  match value with
  | some value => Json.insert name value fields
  | none => fields

def outputItemToResponses : OutputItem → Json
  | .message id content extra =>
    .object (Json.insert "content" (.array (content.map contentPartToResponses))
      (Json.insert "role" (.string "assistant")
        (insertSome "id" (id.map .string)
          (Json.insert "type" (.string "message") extra))))
  | .functionCall callId name arguments extra =>
    .object (Json.insert "arguments" (.string arguments)
      (Json.insert "name" (.string name)
        (Json.insert "call_id" (.string callId)
          (Json.insert "type" (.string "function_call") extra))))
  | .reasoning raw => raw
  | .unknown v => v

def usageToResponses (u : Usage) : Json :=
  let inputDetails := insertSome "cache_write_tokens" (u.cacheWrite.map ofNat)
    (insertSome "cached_tokens" (u.cachedRead.map ofNat) [])
  .object (insertSome "output_tokens_details"
    (u.reasoning.map (fun r => .object [("reasoning_tokens", ofNat r)]))
    (insertSome "input_tokens_details"
      (if inputDetails.isEmpty then none else some (.object inputDetails))
      (insertSome "total_tokens" (u.total.map ofNat)
        (insertSome "output_tokens" (u.output.map ofNat)
          (insertSome "input_tokens" (u.input.map ofNat) [])))))

/-- The status of a Responses body, and the reason of an incomplete one. -/
def statusToResponses : ResponseStatus → String × Option String
  | .completed => ("completed", none)
  | .inProgress => ("in_progress", none)
  | .failed => ("failed", none)
  | .incomplete .maxOutputTokens => ("incomplete", some "max_output_tokens")
  | .incomplete .contentFilter => ("incomplete", some "content_filter")
  | .incomplete .other => ("incomplete", some "other")

/-- What the hub does not model comes first, and the modelled fields over it. -/
def canonicalResponseToResponses (resp : CanonicalResponse) : Json :=
  let status := statusToResponses resp.status
  .object (insertSome "usage" (resp.usage.map usageToResponses)
    (Json.insert "output" (.array (resp.output.map outputItemToResponses))
      (insertSome "incomplete_details"
        (status.2.map (fun reason => .object [("reason", .string reason)]))
        (Json.insert "status" (.string status.1)
          (insertSome "model" (resp.model.map .string)
            (insertSome "created_at" (resp.createdAt.map ofNat)
              (Json.insert "object" (.string "response")
                (insertSome "id" (resp.id.map .string)
                  (resp.extra.foldl (fun fields field => Json.insert field.1 field.2 fields)
                    [])))))))))

end Responses

end Waygate.Llm
