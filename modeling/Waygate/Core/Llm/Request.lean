import Waygate.Core.Llm.Response

/-!
# Canonical Requests

The request that the client surfaces are read into and the upstream bodies are rendered
from. A floating-point number is kept as the literal `serde_json` prints it with.

## Main definitions

* `ContentPart`, `CanonicalMessage`, `LlmRequest`: A part, a message, and a request.
-/

namespace Waygate.Llm

inductive TranslateError where
  | invalid (message : String)
  | unsupported (surface param : String)
  deriving DecidableEq

inductive Role where
  | system
  | user
  | assistant
  | tool
  deriving DecidableEq

inductive ContentPart where
  | text (text : String)
  | imageUrl (url : String)
  /-- The arguments are the text the provider sent. -/
  | toolUse (id name arguments : String)
  | toolResult (toolCallId content : String)
  /-- An item of an earlier turn, passed on as it is. -/
  | reasoning (raw : Json)

structure CanonicalMessage where
  role : Role
  content : List ContentPart

structure Sampling where
  temperature : Option String := none
  topP : Option String := none
  maxTokens : Option Nat := none
  stop : List String := []
  seed : Option Int := none
  reasoningEffort : Option String := none

inductive ResponseFormat where
  | jsonObject
  | jsonSchema (name : String) (description : Option String) (strict : Option Bool)
      (schema : Json)

structure CanonicalTool where
  name : String
  description : Option String
  parameters : Json
  strict : Option Bool

inductive ToolChoice where
  | auto
  | none
  | required
  | function (name : String)

structure LlmRequest where
  inboundSurface : Surface
  modelRequested : String
  messages : List CanonicalMessage
  sampling : Sampling
  tools : List CanonicalTool
  toolChoice : Option ToolChoice
  parallelToolCalls : Option Bool
  responseFormat : Option ResponseFormat
  previousResponseId : Option String
  store : Option Bool
  stream : Bool

end Waygate.Llm
