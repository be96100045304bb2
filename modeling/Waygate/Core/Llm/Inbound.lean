import Waygate.Core.Llm.Request
import Waygate.Core.Llm.Stream

/-!
# Inbound Responses Requests

The body of a `/v1/responses` request, read into a canonical request. `serde_json` is
taken as it is: the number a literal is read as, and the message of a body that does not
have the fields of a request.

## Main definitions

* `ResponsesReq`: The fields of the body.
* `parseResponsesInput`: The items of the input.
* `parseResponses`: The whole body.
-/

namespace Waygate

namespace Llm

/-- What is taken of `serde_json`. -/
structure Serde where
  /-- The literal of the `f64` that a number is read as. -/
  nearest : String → String
  /-- A printed `f64` is read as itself. -/
  nearest_nearest : ∀ literal, nearest (nearest literal) = nearest literal
  message : Json → String

namespace Inbound

section Keys

def joined (keys : List String) : String :=
  ", ".intercalate (keys.mergeSort (fun a b => decide (a ≤ b)))

def rejectExtraKeysResponses (obj : List (String × Json)) (allowed : List String) (ctx : String) :
    Except TranslateError Unit :=
  let extra := (obj.map Prod.fst).filter (fun key => !allowed.contains key)
  if extra.isEmpty then .ok ()
  else .error (.unsupported "responses" (ctx ++ "." ++ joined extra))

def required {α : Type} (message : String) : Option α → Except TranslateError α
  | some a => .ok a
  | none => .error (.invalid message)

def optionally {α β : Type} (read : α → Except TranslateError β) :
    Option α → Except TranslateError (Option β)
  | none => .ok none
  | some a => (read a).map some

def optionalString (message : String) : Option Json → Except TranslateError (Option String) :=
  optionally (fun v => required message v.asStr)

/-- `as_bool`. -/
def asBool : Json → Option Bool
  | .bool b => some b
  | _ => none

def optionalBool (message : String) : Option Json → Except TranslateError (Option Bool) :=
  optionally (fun v => required message (asBool v))

end Keys

section Body

inductive ResponsesInput where
  | text (text : String)
  | items (items : List Json)

def readInput : Json → Option ResponsesInput
  | .string s => some (.text s)
  | .array items => some (.items items)
  | _ => none

def literalOf : Json → Option String
  | .number literal => some literal
  | _ => none

structure ResponsesReq where
  model : String
  input : Option ResponsesInput
  instructions : Option String
  temperature : Option String
  topP : Option String
  maxOutputTokens : Option Nat
  reasoning : Option Json
  text : Option Json
  tools : Option (List Json)
  toolChoice : Option Json
  parallelToolCalls : Option Bool
  previousResponseId : Option String
  store : Option Bool
  stream : Bool
  rest : List (String × Json)

def responsesFields : List String :=
  ["model", "input", "instructions", "temperature", "top_p", "max_output_tokens", "reasoning",
    "text", "tools", "tool_choice", "parallel_tool_calls", "previous_response_id", "store",
    "stream"]

/-- An optional field: it may be missing or null, and is otherwise read. -/
def optionalField {α : Type} (read : Json → Option α) : Option Json → Option (Option α)
  | none => some none
  | some .null => some none
  | some v => (read v).map some

/-- The field with a default other than null, so that null is not read. -/
def readStream : Option Json → Option Bool
  | none => some false
  | some v => asBool v

/-- `serde_json::from_value`, for the fields of a request. -/
def readResponsesReq (S : Serde) (body : Json) : Option ResponsesReq := do
  let fields ← body.asObject
  let model ← (fields.lookup "model").bind Json.asStr
  let input ← optionalField readInput (fields.lookup "input")
  let instructions ← optionalField Json.asStr (fields.lookup "instructions")
  let temperature ← optionalField literalOf (fields.lookup "temperature")
  let topP ← optionalField literalOf (fields.lookup "top_p")
  let maxOutputTokens ← optionalField Json.asU64 (fields.lookup "max_output_tokens")
  let reasoning ← optionalField some (fields.lookup "reasoning")
  let text ← optionalField some (fields.lookup "text")
  let tools ← optionalField Json.asArray (fields.lookup "tools")
  let toolChoice ← optionalField some (fields.lookup "tool_choice")
  let parallelToolCalls ← optionalField asBool (fields.lookup "parallel_tool_calls")
  let previousResponseId ← optionalField Json.asStr (fields.lookup "previous_response_id")
  let store ← optionalField asBool (fields.lookup "store")
  let stream ← readStream (fields.lookup "stream")
  return {
    model, input, instructions
    temperature := temperature.map S.nearest
    topP := topP.map S.nearest
    maxOutputTokens, reasoning, text, tools, toolChoice, parallelToolCalls, previousResponseId
    store, stream
    rest := fields.filter (fun field => !responsesFields.contains field.1) }

end Body

section Items

/-- The messages so far, and the parts of the assistant that are not yet a message. -/
structure InputTurns where
  messages : List CanonicalMessage
  pending : List ContentPart := []

def flushAssistant (turns : InputTurns) : InputTurns :=
  if turns.pending.isEmpty then turns
  else
    { messages := turns.messages ++ [{ role := .assistant, content := turns.pending }]
      pending := [] }

def parseResponsesContentPart (part : Json) : Except TranslateError ContentPart := do
  let obj ← required "content part must be an object" part.asObject
  let kind ← required "content part missing string `type`" ((obj.lookup "type").bind Json.asStr)
  if kind = "input_text" ∨ kind = "output_text" then do
    rejectExtraKeysResponses obj ["type", "text"] "content[text]"
    let text ← required "text part missing string `text`" ((obj.lookup "text").bind Json.asStr)
    return .text text
  else if kind = "input_image" then do
    rejectExtraKeysResponses obj ["type", "image_url"] "content[input_image]"
    let url ← required "input_image part missing string `image_url`"
      ((obj.lookup "image_url").bind Json.asStr)
    return .imageUrl url
  else .error (.unsupported "responses" ("content part type `" ++ kind ++ "`"))

def parseResponsesMessageContent : Option Json → Except TranslateError (List ContentPart)
  | none => .ok []
  | some (.string s) => .ok [.text s]
  | some (.array parts) => parts.mapM parseResponsesContentPart
  | some _ => .error (.invalid "message `content` must be a string or an array")

/-- Arguments that are not a text are printed. -/
def responsesArgumentsString : Option Json → String
  | none => ""
  | some (.string s) => s
  | some v => String.ofList v.text

def parseResponsesFunctionCall (obj : List (String × Json)) :
    Except TranslateError ContentPart := do
  rejectExtraKeysResponses obj ["type", "id", "call_id", "name", "arguments", "status"]
    "function_call"
  let id ← required "function_call missing string `call_id`"
    ((obj.lookup "call_id").bind Json.asStr)
  let name ← required "function_call missing string `name`" ((obj.lookup "name").bind Json.asStr)
  return .toolUse id name (responsesArgumentsString (obj.lookup "arguments"))

def outputText (part : Json) : Except TranslateError String := do
  let obj ← required "function_call_output content part must be an object" part.asObject
  let kind := (obj.lookup "type").bind Json.asStr
  if kind = some "output_text" ∨ kind = some "input_text" ∨ kind = some "text" then do
    rejectExtraKeysResponses obj ["type", "text"] "function_call_output.content"
    required "function_call_output text part missing string `text`"
      ((obj.lookup "text").bind Json.asStr)
  else .error (.unsupported "responses" "non-text content in a function_call_output")

def responsesOutputString : Option Json → Except TranslateError String
  | none => .ok ""
  | some (.string s) => .ok s
  | some (.array parts) => parts.foldlM (fun s p => (outputText p).map (s ++ ·)) ""
  | some _ => .error (.invalid "function_call_output `output` must be a string or an array")

def parseResponsesFunctionCallOutput (obj : List (String × Json)) :
    Except TranslateError CanonicalMessage := do
  rejectExtraKeysResponses obj ["type", "id", "call_id", "output", "status"]
    "function_call_output"
  let toolCallId ← required "function_call_output missing string `call_id`"
    ((obj.lookup "call_id").bind Json.asStr)
  let content ← responsesOutputString (obj.lookup "output")
  return { role := .tool, content := [.toolResult toolCallId content] }

/-- The type of an item, where a plain message may leave it out. -/
def itemKind (obj : List (String × Json)) : Except TranslateError String :=
  match obj.lookup "type" with
  | some (.string s) => .ok s
  | some _ => .error (.invalid "input item `type` must be a string")
  | none =>
    if (obj.lookup "role").isSome then .ok "message"
    else .error (.invalid "input item missing `type`")

def messageItem (turns : InputTurns) (role : String) (parts : List ContentPart) :
    Except TranslateError InputTurns :=
  if role = "assistant" then .ok { turns with pending := turns.pending ++ parts }
  else if role = "user" then
    .ok { flushAssistant turns with
      messages := (flushAssistant turns).messages ++ [{ role := .user, content := parts }] }
  else if role = "system" ∨ role = "developer" then
    .ok { flushAssistant turns with
      messages := (flushAssistant turns).messages ++ [{ role := .system, content := parts }] }
  else .error (.invalid ("unknown message role `" ++ role ++ "`"))

def parseResponsesItem (turns : InputTurns) (item : Json) : Except TranslateError InputTurns := do
  let obj ← required "input item must be an object" item.asObject
  let kind ← itemKind obj
  if kind = "message" then do
    rejectExtraKeysResponses obj ["type", "role", "content", "id", "status"] "message"
    let role ← required "message item missing string `role`" ((obj.lookup "role").bind Json.asStr)
    let parts ← parseResponsesMessageContent (obj.lookup "content")
    messageItem turns role parts
  else if kind = "function_call" then do
    let call ← parseResponsesFunctionCall obj
    return { turns with pending := turns.pending ++ [call] }
  else if kind = "function_call_output" then do
    let message ← parseResponsesFunctionCallOutput obj
    return { flushAssistant turns with
      messages := (flushAssistant turns).messages ++ [message] }
  else if kind = "reasoning" then
    return { turns with pending := turns.pending ++ [.reasoning item] }
  else .error (.unsupported "responses" ("input item type `" ++ kind ++ "`"))

def parseResponsesInput (items : List Json) (messages : List CanonicalMessage) :
    Except TranslateError (List CanonicalMessage) := do
  let turns ← items.foldlM parseResponsesItem { messages := messages }
  return (flushAssistant turns).messages

end Items

section Settings

def parseResponsesReasoning (r : Json) : Except TranslateError (Option String) := do
  let obj ← required "`reasoning` must be an object" r.asObject
  rejectExtraKeysResponses obj ["effort", "summary", "generate_summary"] "reasoning"
  optionalString "`reasoning.effort` must be a string" (obj.lookup "effort")

def parseResponsesTextFormat (text : Json) : Except TranslateError (Option ResponseFormat) := do
  let obj ← required "`text` must be an object" text.asObject
  rejectExtraKeysResponses obj ["format"] "text"
  match obj.lookup "format" with
  | none => return none
  | some f => do
      let format ← required "`text.format` must be an object" f.asObject
      let kind ← required "`text.format` missing string `type`"
        ((format.lookup "type").bind Json.asStr)
      if kind = "text" then do
        rejectExtraKeysResponses format ["type"] "text.format[text]"
        return none
      else if kind = "json_object" then do
        rejectExtraKeysResponses format ["type"] "text.format[json_object]"
        return some .jsonObject
      else if kind = "json_schema" then do
        rejectExtraKeysResponses format ["type", "name", "description", "strict", "schema"]
          "text.format"
        let name ← required "json_schema text.format missing string `name`"
          ((format.lookup "name").bind Json.asStr)
        let schema ← required "json_schema text.format missing `schema`" (format.lookup "schema")
        let strict ← optionalBool "json_schema text.format `strict` must be a boolean"
          (format.lookup "strict")
        let description ← optionalString
          "json_schema text.format `description` must be a string" (format.lookup "description")
        return some (.jsonSchema name description strict schema)
      else .error (.unsupported "responses" ("text.format type `" ++ kind ++ "`"))

def toolType : Option Json → Except TranslateError Unit
  | some (.string s) =>
    if s = "function" then .ok ()
    else .error (.unsupported "responses" ("tool type `" ++ s ++ "`"))
  | none => .error (.invalid "tool missing string `type`")
  | some _ => .error (.invalid "tool `type` must be a string")

def parseResponsesTool (t : Json) : Except TranslateError CanonicalTool := do
  let obj ← required "tool must be an object" t.asObject
  toolType (obj.lookup "type")
  rejectExtraKeysResponses obj ["type", "name", "description", "parameters", "strict"] "tool"
  let name ← required "function tool missing string `name`" ((obj.lookup "name").bind Json.asStr)
  if name = STRUCTURED_OUTPUT_TOOL_NAME then
    .error (.invalid ("`" ++ STRUCTURED_OUTPUT_TOOL_NAME ++ "` is a reserved tool name"))
  else do
    let description ← optionalString "function tool `description` must be a string"
      (obj.lookup "description")
    let strict ← optionalBool "function tool `strict` must be a boolean" (obj.lookup "strict")
    return {
      name, description
      parameters := (obj.lookup "parameters").getD (.object [])
      strict }

def parseResponsesToolChoice (tc : Json) : Except TranslateError ToolChoice :=
  match tc with
  | .string s =>
    if s = "auto" then .ok .auto
    else if s = "none" then .ok .none
    else if s = "required" then .ok .required
    else .error (.unsupported "responses" ("tool_choice `" ++ s ++ "`"))
  | .object o => do
      let kind ← required "object tool_choice must have a string `type`"
        ((o.lookup "type").bind Json.asStr)
      if kind = "function" then do
        rejectExtraKeysResponses o ["type", "name"] "tool_choice"
        let name ← required "tool_choice function missing string `name`"
          ((o.lookup "name").bind Json.asStr)
        return .function name
      else .error (.unsupported "responses" ("tool_choice type `" ++ kind ++ "`"))
  | _ => .error (.invalid "tool_choice must be a string or an object")

end Settings

section Request

def instructionMessages (instructions : Option String) : List CanonicalMessage :=
  (instructions.map (fun instr =>
    { role := .system, content := [.text instr] : CanonicalMessage })).toList

def inputMessages (req : ResponsesReq) : Except TranslateError (List CanonicalMessage) :=
  match req.input with
  | some (.text t) =>
    .ok (instructionMessages req.instructions ++ [{ role := .user, content := [.text t] }])
  | some (.items items) => parseResponsesInput items (instructionMessages req.instructions)
  | none => .ok (instructionMessages req.instructions)

def parseResponsesMessages (req : ResponsesReq) :
    Except TranslateError (List CanonicalMessage) := do
  let messages ← inputMessages req
  if messages.isEmpty then
    .error (.invalid "a Responses request must carry `input` or `instructions`")
  else return messages

def checkResponsesReq (req : ResponsesReq) : Except TranslateError Unit :=
  if trim req.model = "" then .error (.invalid "`model` must not be empty")
  else if req.rest.isEmpty then .ok ()
  else .error (.unsupported "responses" (joined (req.rest.map Prod.fst)))

def parseResponses (S : Serde) (body : Json) : Except TranslateError LlmRequest := do
  let req ← required (S.message body) (readResponsesReq S body)
  checkResponsesReq req
  let messages ← parseResponsesMessages req
  let reasoningEffort ← optionally parseResponsesReasoning req.reasoning
  let responseFormat ← optionally parseResponsesTextFormat req.text
  let tools ← (req.tools.getD []).mapM parseResponsesTool
  let toolChoice ← optionally parseResponsesToolChoice req.toolChoice
  if toolChoice.isSome && tools.isEmpty then
    .error (.invalid "`tool_choice` requires at least one tool")
  else return {
    inboundSurface := .responses
    modelRequested := req.model
    messages
    sampling := {
      temperature := req.temperature
      topP := req.topP
      maxTokens := req.maxOutputTokens
      reasoningEffort := reasoningEffort.join }
    tools, toolChoice
    parallelToolCalls := req.parallelToolCalls
    responseFormat := responseFormat.join
    previousResponseId := req.previousResponseId
    store := req.store
    stream := req.stream }

end Request

end Inbound

end Llm

end Waygate
