import Mathlib.Tactic.Tauto
import Waygate.Theory.Llm.Surfaces

/-!
# The Record, Streamed or Unary

What a stream leaves in the record is what the body would have left. The surface a
client speaks makes no difference, although it decides whether a call of the forced tool
is one.

## Main definitions

* `extract`: The record of a body.

## Theorems

* `snapshot_eq_extract`
* `anthropicRecord_eq`, `geminiRecord_eq`, `responsesRecord_eq`: The three protocols.
-/

namespace Waygate.Llm

section Record

/-- Nothing of a response is recorded yet. -/
structure InferenceRecord.Fresh (base : InferenceRecord) : Prop where
  modelServed : base.modelServed = none
  upstreamRequestId : base.upstreamRequestId = none
  usage : base.usage = {}
  providerPromptCache : base.providerPromptCache = none
  finishReason : base.finishReason = none
  refusal : base.refusal = false

def extract (base : InferenceRecord) (body : Json) : InferenceRecord :=
  match base.upstreamProtocol with
  | .anthropicMessages => extractAnthropicMessages base body
  | .gemini => extractGemini base body
  | .openAiResponses => extractOpenaiResponses base body
  | .openAiChat => extractOpenaiChat base body

def Ended (protocol : UpstreamProtocol) (body : Json) : Prop :=
  match protocol with
  | .anthropicMessages => (strField body "stop_reason").isSome
  | .gemini => (finishReasonOf body).isSome
  | .openAiResponses => (responsesFinish body).isSome
  | .openAiChat => True

variable {base : InferenceRecord} {body : Json} {frames : List String}

theorem normalizeAnthropicStopReason_toolUse (reason : String) :
    normalizeAnthropicStopReason reason = .toolUse ↔ reason = "tool_use" := by
  grind [normalizeAnthropicStopReason]

theorem anthropic_usage_eq (h : base.usage = {}) (usage : Option Json) :
    withOutput (AnthropicStreamTranslator.withPromptUsage base usage)
        (usage.bind (u64Field · "output_tokens"))
      = base.withUsage (usage.map anthropicTokenUsageFrom) := by
  cases usage with
  | none => rfl
  | some u =>
    simp only [AnthropicStreamTranslator.withPromptUsage, h, Option.bind_some, Option.map_some,
      InferenceRecord.withUsage, anthropicTokenUsageFrom]
    cases u64Field u "output_tokens" <;> rfl

theorem withOutput_withFinish (record : InferenceRecord) (refused : Bool)
    (finish : Option FinishReason) (out : Option Nat) :
    withOutput (record.withFinish refused finish) out
      = (withOutput record out).withFinish refused finish := by
  cases out <;> cases finish <;> rfl

theorem withUsage_fields (record : InferenceRecord) (usage : Option TokenUsage) :
    (record.withUsage usage).finishReason = record.finishReason
      ∧ (record.withUsage usage).inboundSurface = record.inboundSurface := by
  cases usage <;> exact ⟨rfl, rfl⟩

theorem anthropicRecord_eq (hfresh : base.Fresh) (body : Json) :
    anthropicRecord base (base.inboundSurface ≠ .anthropicMessages
        && ((arrayField body "content").getD []).any isEmulated) body
      = extractAnthropicMessages base body := by
  unfold anthropicRecord extractAnthropicMessages
  rw [withOutput_withFinish, anthropic_usage_eq (by exact hfresh.usage), hfresh.modelServed,
    hfresh.upstreamRequestId, Option.none_or, Option.none_or]
  dsimp only
  generalize hrecord : InferenceRecord.withUsage _ _ = record
  have hfinish : record.finishReason = none := by
    rw [← hrecord, (withUsage_fields _ _).1]
    exact hfresh.finishReason
  have hsurface : record.inboundSurface = base.inboundSurface := by
    rw [← hrecord, (withUsage_fields _ _).2]
  cases strField body "stop_reason" with
  | none => simp [InferenceRecord.withFinish, hfinish]
  | some reason =>
    simp only [Option.map_some, InferenceRecord.withFinish, Option.some.injEq,
      normalizeAnthropicStopReason_toolUse, hsurface, anthropicFinish,
      isStructuredOutputEmulation]
    by_cases hcall : reason = "tool_use"
    · grind
    · rw [if_neg (fun h => hcall h.2), if_neg (fun h => hcall h.1)]

theorem geminiRecord_eq (hfresh : base.Fresh) (hended : (finishReasonOf body).isSome) :
    geminiRecord base body = extractGemini base body := by
  rcases Option.isSome_iff_exists.mp hended with ⟨reason, hreason⟩
  have hcalls : (geminiToolCalls (geminiParts body)).isEmpty
      = (functionCalls (partsOf body)).isEmpty := by
    rw [geminiToolCalls, List.isEmpty_map, Bool.eq_iff_iff, List.isEmpty_iff, List.isEmpty_iff,
      List.zipIdx_eq_nil_iff]
    rfl
  unfold geminiRecord geminiEnd extractGemini
  rw [hfresh.modelServed, hfresh.upstreamRequestId, Option.none_or, Option.none_or]
  dsimp only
  have hfinish : (geminiCandidate body).bind (strField · "finishReason") = some reason := hreason
  rw [hreason, hfinish]
  simp only [Option.map_some, InferenceRecord.withFinish, InferenceRecord.withToolCalls, hcalls,
    GeminiStreamTranslator.finishOf, Option.some.injEq, ne_eq]
  cases (functionCalls (partsOf body)).isEmpty with
  | true => simp
  | false =>
    by_cases hfilter : normalizeGeminiFinishReason reason = .contentFilter <;> simp [hfilter]

theorem responsesRecord_eq (hfresh : base.Fresh) (hended : (responsesFinish body).isSome) :
    responsesRecord base body = extractOpenaiResponses base body := by
  rcases Option.isSome_iff_exists.mp hended with ⟨finish, hfinish⟩
  unfold responsesRecord responsesEnd extractOpenaiResponses
  rw [hfresh.modelServed, hfresh.upstreamRequestId, Option.none_or, Option.none_or]
  dsimp only
  rw [hfinish]
  simp only [Option.map_some, InferenceRecord.withFinish, InferenceRecord.withToolCalls,
    responsesToolCalls_isEmpty, ResponsesStreamTranslator.finishOf, Option.some.injEq, ne_eq]
  cases ((arrayField body "output").getD []).any (hasType "function_call") with
  | false => simp
  | true => by_cases hfilter : finish = .contentFilter <;> simp [hfilter]

/-- The record at the end of a stream is that of the body, on every surface. -/
theorem snapshot_eq_extract (parse : String → Option Json) (hfresh : base.Fresh)
    (hended : Ended base.upstreamProtocol body)
    (hstream : ProviderStream base.upstreamProtocol body (frames.filterMap (decode parse))) :
    ((StreamTranslator.forRecord base).pushAll parse frames).1.snapshot = extract base body := by
  unfold StreamTranslator.forRecord extract
  generalize base.upstreamProtocol = protocol at hstream hended
  cases hstream with
  | anthropic h =>
    rw [pushAll_eq AnthropicStreamTranslator.observe parse (fun t data => rfl)]
    exact (anthropic_run base h).2.trans (anthropicRecord_eq hfresh body)
  | gemini h =>
    rw [pushAll_eq GeminiStreamTranslator.observe parse (fun t data => rfl)]
    exact (gemini_run base h).2.trans (geminiRecord_eq hfresh hended)
  | responses h =>
    rw [pushAll_eq ResponsesStreamTranslator.observe parse (fun t data => rfl)]
    exact (responses_run base h).2.trans (responsesRecord_eq hfresh hended)

theorem snapshot_eq_extract_native :
    ((StreamTranslator.forRecord (.new .anthropic "key" "m" .anthropicMessages
        .anthropicMessages)).pushAll Json.fromText (callFrames "max_tokens")).1.snapshot
      = extract (.new .anthropic "key" "m" .anthropicMessages .anthropicMessages)
        (callBody "max_tokens") := by
  refine snapshot_eq_extract _ ⟨rfl, rfl, rfl, rfl, rfl, rfl⟩ ?_ ?_
  · exact rfl
  · rw [callFrames_decode "max_tokens" (by decide +kernel)]
    exact .anthropic (callEvents_stream "max_tokens")

end Record

end Waygate.Llm
