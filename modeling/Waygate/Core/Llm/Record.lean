/-!
# The Inference Record

What the gateway keeps of an inference: which provider and model served it, the tokens
it took by class, and how it ended. A class a provider did not report is `none`, which
is not a reported zero.

## Main definitions

* `TokenUsage`, `InferenceRecord`: The tokens, and the record.
-/

namespace Waygate.Llm

inductive LlmProvider where
  | openAi
  | anthropic
  | google
  | openRouter
  deriving DecidableEq

inductive Surface where
  | chatCompletions
  | responses
  | embeddings
  | imagesGenerations
  | imagesEdits
  | audioSpeech
  | audioResource
  | realtime
  | anthropicMessages
  deriving DecidableEq

inductive UpstreamProtocol where
  | openAiResponses
  | openAiChat
  | anthropicMessages
  | gemini
  deriving DecidableEq

inductive FinishReason where
  | stop
  | length
  | toolUse
  | contentFilter
  | error
  | other
  deriving DecidableEq

structure TokenUsage where
  input : Option Nat := none
  output : Option Nat := none
  cachedRead : Option Nat := none
  cacheWrite : Option Nat := none
  reasoning : Option Nat := none
  deriving DecidableEq

structure InferenceRecord where
  provider : LlmProvider
  credentialLabel : String
  providerAccountId : Option String
  modelRequested : String
  modelServed : Option String
  inboundSurface : Surface
  upstreamProtocol : UpstreamProtocol
  usage : TokenUsage
  finishReason : Option FinishReason
  refusal : Bool
  ttftMs : Option Nat
  totalMs : Option Nat
  gatewayCacheHit : Bool
  providerPromptCache : Option Bool
  upstreamRequestId : Option String
  systemFingerprint : Option String
  deriving DecidableEq

/-- `InferenceRecord::new`. -/
def InferenceRecord.new (provider : LlmProvider) (credentialLabel modelRequested : String)
    (inboundSurface : Surface) (upstreamProtocol : UpstreamProtocol) : InferenceRecord :=
  { provider := provider
    credentialLabel := credentialLabel
    providerAccountId := none
    modelRequested := modelRequested
    modelServed := none
    inboundSurface := inboundSurface
    upstreamProtocol := upstreamProtocol
    usage := {}
    finishReason := none
    refusal := false
    ttftMs := none
    totalMs := none
    gatewayCacheHit := false
    providerPromptCache := none
    upstreamRequestId := none
    systemFingerprint := none }

end Waygate.Llm
