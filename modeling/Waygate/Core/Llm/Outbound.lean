import Waygate.Core.Llm.Request
import Waygate.Core.Llm.Stream

/-!
# Outbound Bodies

A canonical request rendered as the body of an upstream protocol, for Gemini and for the
Responses API. What a body has no place for is an error.

## Main definitions

* `toolCallNames`
* `renderGemini`, `renderOpenaiResponses`: The two bodies.
-/

namespace Waygate

namespace Llm

open Json (ofNat)

namespace Outbound

section Parts

def textish : ContentPart → Bool
  | .text _ => true
  | .imageUrl _ => true
  | _ => false

def isCall : ContentPart → Bool
  | .toolUse .. => true
  | _ => false

def isResult : ContentPart → Bool
  | .toolResult .. => true
  | _ => false

def partitionParts (content : List ContentPart) :
    List ContentPart × List ContentPart × List ContentPart :=
  (content.filter textish, content.filter isCall, content.filter isResult)

/-- The arguments of a call as an object, which is empty where they are none. -/
def toolArgumentsObject (parse : String → Option Json) (arguments : String) : Json :=
  if trim arguments = "" then .object []
  else match parse arguments with
    | some (.object fields) => .object fields
    | _ => .object []

def callOf : ContentPart → Option (String × String)
  | .toolUse id name _ => some (id, name)
  | _ => none

/-- The names of the calls under their ids: a later call replaces an earlier one. -/
def toolCallNames (messages : List CanonicalMessage) : List (String × String) :=
  (messages.flatMap (fun m => m.content.filterMap callOf)).reverse

end Parts

section Gemini

def geminiPart (parse : String → Option Json) : ContentPart → Option Json
  | .text text => some (.object [("text", .string text)])
  | .imageUrl url => some (.object [("fileData", .object [("fileUri", .string url)])])
  | .toolUse _ name arguments => some (.object [("functionCall", .object
      [("name", .string name), ("args", toolArgumentsObject parse arguments)])])
  | .toolResult .. => none
  | .reasoning _ => none

def geminiParts (parse : String → Option Json) (parts : List ContentPart) : Json :=
  .array (parts.filterMap (geminiPart parse))

structure GeminiTurns where
  systemParts : List Json := []
  contents : List Json := []
  pendingFnResponses : List Json := []

def flushGeminiToolResults (turns : GeminiTurns) : GeminiTurns :=
  if turns.pendingFnResponses = [] then turns
  else
    { turns with
      contents := turns.contents
        ++ [.object [("role", .string "user"), ("parts", .array turns.pendingFnResponses)]]
      pendingFnResponses := [] }

def geminiSystemPart (turns : GeminiTurns) : ContentPart → Except TranslateError GeminiTurns
  | .text text =>
    .ok { turns with
      systemParts := turns.systemParts ++ [.object [("text", .string text)]] }
  | _ => .error (.unsupported "gemini" "non-text content in a system message")

def functionResponse (name content : String) : Json :=
  .object [("functionResponse", .object [("name", .string name),
    ("response", .object [("result", .string content)])])]

def geminiToolPart (names : List (String × String)) (turns : GeminiTurns) :
    ContentPart → Except TranslateError GeminiTurns
  | .toolResult toolCallId content =>
    match names.lookup toolCallId with
    | some name =>
      .ok { turns with
        pendingFnResponses := turns.pendingFnResponses ++ [functionResponse name content] }
    | none => .error (.unsupported "gemini"
        "tool_result without a matching tool_use (no function name)")
  | _ => .ok turns

def geminiMessage (parse : String → Option Json) (names : List (String × String))
    (turns : GeminiTurns) (m : CanonicalMessage) : Except TranslateError GeminiTurns :=
  let turns := if m.role = .tool then turns else flushGeminiToolResults turns
  match m.role with
  | .system => m.content.foldlM geminiSystemPart turns
  | .tool => m.content.foldlM (geminiToolPart names) turns
  | role =>
    .ok { turns with
      contents := turns.contents ++ [.object
        [("role", .string (if role = .user then "user" else "model")),
          ("parts", geminiParts parse m.content)]] }

def geminiTools (tools : List CanonicalTool) : Json :=
  .array [.object [("functionDeclarations", .array (tools.map (fun t => .object
    ([("name", .string t.name)]
      ++ (t.description.map (fun d => ("description", Json.string d))).toList
      ++ [("parametersJsonSchema", t.parameters)]))))]]

def geminiToolConfig (tc : Option ToolChoice) : Option Json :=
  tc.map (fun tc => .object [("functionCallingConfig", .object (match tc with
    | .auto => [("mode", .string "AUTO")]
    | .none => [("mode", .string "NONE")]
    | .required => [("mode", .string "ANY")]
    | .function name =>
      [("mode", .string "ANY"), ("allowedFunctionNames", .array [.string name])]))])

def generationConfig (req : LlmRequest) : List (String × Json) :=
  (req.sampling.temperature.map (fun t => ("temperature", Json.number t))).toList
    ++ (req.sampling.topP.map (fun p => ("topP", Json.number p))).toList
    ++ (req.sampling.maxTokens.map (fun m => ("maxOutputTokens", ofNat m))).toList
    ++ (if req.sampling.stop = [] then []
      else [("stopSequences", .array (req.sampling.stop.map .string))])
    ++ (match req.responseFormat with
      | none => []
      | some .jsonObject => [("responseMimeType", .string "application/json")]
      | some (.jsonSchema _ _ _ schema) =>
        [("responseMimeType", .string "application/json"), ("responseJsonSchema", schema)])

def geminiBody (req : LlmRequest) (turns : GeminiTurns) : Json :=
  .object ([("contents", .array turns.contents)]
    ++ (if turns.systemParts = [] then []
      else [("systemInstruction", .object [("parts", .array turns.systemParts)])])
    ++ (if req.tools.isEmpty then []
      else ("tools", geminiTools req.tools)
        :: ((geminiToolConfig req.toolChoice).map (fun cfg => ("toolConfig", cfg))).toList)
    ++ (if (generationConfig req).isEmpty then []
      else [("generationConfig", .object (generationConfig req))]))

def renderGemini (parse : String → Option Json) (req : LlmRequest) :
    Except TranslateError Json :=
  if req.sampling.reasoningEffort.isSome then
    .error (.unsupported "gemini" "reasoning_effort")
  else do
    let turns ← req.messages.foldlM (geminiMessage parse (toolCallNames req.messages)) {}
    return geminiBody req (flushGeminiToolResults turns)

end Gemini

section Responses

def responsesSystemPart (text : String) : ContentPart → Except TranslateError String
  | .text t => .ok (text ++ t)
  | _ => .error (.unsupported "openai_responses" "non-text content in a system message")

def responsesSystemText (parts : List ContentPart) : Except TranslateError String :=
  parts.foldlM responsesSystemPart ""

def responsesPart (assistant : Bool) : ContentPart → Option Json
  | .text text => some (.object
      [("type", .string (if assistant then "output_text" else "input_text")),
        ("text", .string text)])
  | .imageUrl url => some (.object [("type", .string "input_image"), ("image_url", .string url)])
  | _ => none

def responsesContent (parts : List ContentPart) (assistant : Bool) : Json :=
  .array (parts.filterMap (responsesPart assistant))

def reasoningItem : ContentPart → Option Json
  | .reasoning raw => some raw
  | _ => none

def functionCallItem : ContentPart → Option Json
  | .toolUse id name arguments => some (.object [("type", .string "function_call"),
      ("call_id", .string id), ("name", .string name), ("arguments", .string arguments)])
  | _ => none

def functionCallOutputItem : ContentPart → Option Json
  | .toolResult toolCallId content => some (.object [("type", .string "function_call_output"),
      ("call_id", .string toolCallId), ("output", .string content)])
  | _ => none

/-- The items of a turn: what was reasoned, the message, and the calls. -/
def responsesTurn (content : List ContentPart) (assistant : Bool) : List Json :=
  let parts := partitionParts content
  content.filterMap reasoningItem
    ++ (if parts.1.isEmpty then []
      else [.object [("type", .string "message"),
        ("role", .string (if assistant then "assistant" else "user")),
        ("content", responsesContent parts.1 assistant)]])
    ++ parts.2.1.filterMap functionCallItem

structure ResponsesTurns where
  systemChunks : List String := []
  input : List Json := []

def responsesMessage (turns : ResponsesTurns) (m : CanonicalMessage) :
    Except TranslateError ResponsesTurns :=
  match m.role with
  | .system => do
      let text ← responsesSystemText m.content
      return { turns with systemChunks := turns.systemChunks ++ [text] }
  | .tool =>
    .ok { turns with input := turns.input ++ m.content.filterMap functionCallOutputItem }
  | role =>
    if (partitionParts m.content).2.2.isEmpty then
      .ok { turns with input := turns.input ++ responsesTurn m.content (role = .assistant) }
    else .error (.unsupported "openai_responses" "tool_result on a non-tool message")

def responsesTool (t : CanonicalTool) : Json :=
  .object ([("type", .string "function"), ("name", .string t.name)]
    ++ (t.description.map (fun d => ("description", Json.string d))).toList
    ++ [("parameters", t.parameters)]
    ++ (t.strict.map (fun s => ("strict", Json.bool s))).toList)

def responsesTools (tools : List CanonicalTool) : Json :=
  .array (tools.map responsesTool)

def responsesToolChoice : ToolChoice → Json
  | .auto => .string "auto"
  | .none => .string "none"
  | .required => .string "required"
  | .function name => .object [("type", .string "function"), ("name", .string name)]

def responsesTextFormat (rf : ResponseFormat) : Json :=
  .object [("format", .object (match rf with
    | .jsonObject => [("type", .string "json_object")]
    | .jsonSchema name description strict schema =>
      [("type", .string "json_schema"), ("name", .string name)]
        ++ (description.map (fun d => ("description", Json.string d))).toList
        ++ (strict.map (fun s => ("strict", Json.bool s))).toList
        ++ [("schema", schema)]))]

def present (fields : List (String × Option Json)) : List (String × Json) :=
  fields.filterMap (fun field => field.2.map (fun v => (field.1, v)))

def responsesBodyFields (req : LlmRequest) (model : String) (turns : ResponsesTurns) :
    List (String × Option Json) :=
  [("model", some (.string model)),
    ("input", some (.array turns.input)),
    ("instructions", if turns.systemChunks = [] then none
      else some (.string ("\n\n".intercalate turns.systemChunks))),
    ("tools", if req.tools.isEmpty then none else some (responsesTools req.tools)),
    ("tool_choice", if req.tools.isEmpty then none else req.toolChoice.map responsesToolChoice),
    ("parallel_tool_calls", req.parallelToolCalls.map .bool),
    ("temperature", req.sampling.temperature.map .number),
    ("top_p", req.sampling.topP.map .number),
    ("max_output_tokens", req.sampling.maxTokens.map ofNat),
    ("reasoning", req.sampling.reasoningEffort.map (fun effort =>
      .object [("effort", .string effort)])),
    ("text", req.responseFormat.map responsesTextFormat),
    ("previous_response_id", req.previousResponseId.map .string),
    ("store", req.store.map .bool),
    ("stream", if req.stream then some (.bool true) else none)]

def responsesBody (req : LlmRequest) (model : String) (turns : ResponsesTurns) : Json :=
  .object (present (responsesBodyFields req model turns))

def renderOpenaiResponses (req : LlmRequest) (model : String) : Except TranslateError Json := do
  let turns ← req.messages.foldlM responsesMessage {}
  return responsesBody req model turns

end Responses

end Outbound

end Llm

end Waygate
