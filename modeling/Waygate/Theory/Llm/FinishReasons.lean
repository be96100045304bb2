import Waygate.Theory.Llm.Snapshot

/-!
# The Reason in the Body and the Reason on Record

A client reads how a turn ended in the chat body that the hub renders, and the record
keeps it for accounting. The record of a Gemini or Responses body lets a filter win;
that of an Anthropic message takes its stop reason as it is, unless that is a call and
the forced tool was called.

## Main definitions

* `FinishAgrees`: The condition.

## Theorems

* `finish_recorded_iff`
* `anthropic_recorded`, `gemini_recorded`, `responses_recorded`: The three protocols.
-/

namespace Waygate.Llm

def FinishAgrees (protocol : UpstreamProtocol) (body : Json) : Prop :=
  match protocol with
  | .anthropicMessages =>
    let blocks := (arrayField body "content").getD []
    if blocks.any isEmulated then
      strField body "stop_reason" ≠ some "max_tokens" ∧ strField body "stop_reason" ≠ some "refusal"
    else strField body "stop_reason" = some "tool_use" ↔ blocks.filter (hasType "tool_use") ≠ []
  | protocol => Agrees protocol body

section Recorded

variable {base : InferenceRecord} {body : Json}

theorem anthropic_recorded {reason : String} (hreason : strField body "stop_reason" = some reason)
    (hsurface : base.inboundSurface ≠ .anthropicMessages) :
    (extractAnthropicMessages base body).finishReason
      = some (if reason = "tool_use" ∧ ((arrayField body "content").getD []).any isEmulated then
        .stop else normalizeAnthropicStopReason reason) := by
  unfold extractAnthropicMessages
  simp only [hreason, Option.map_some, InferenceRecord.withFinish, withUsage_fields,
    Option.some.injEq, normalizeAnthropicStopReason_toolUse, isStructuredOutputEmulation, ne_eq,
    hsurface, not_false_eq_true, true_and]
  split <;> rfl

theorem gemini_recorded {reason : String} (hreason : finishReasonOf body = some reason) :
    (extractGemini base body).finishReason
      = some (if ¬ geminiFiltered reason ∧ functionCalls (partsOf body) ≠ [] then .toolUse
        else normalizeGeminiFinishReason reason) := by
  have hfinish : (geminiCandidate body).bind (strField · "finishReason") = some reason := hreason
  have hcalls : (geminiToolCalls (geminiParts body)).isEmpty = false
      ↔ functionCalls (partsOf body) ≠ [] := by
    rw [geminiToolCalls, List.isEmpty_map, List.isEmpty_eq_false_iff, ne_eq,
      List.zipIdx_eq_nil_iff]
    rfl
  unfold extractGemini
  simp only [hfinish, Option.map_some, InferenceRecord.withFinish, InferenceRecord.withToolCalls,
    ne_eq, Option.some.injEq, gemini_filtered_iff, hcalls]
  split <;> rfl

theorem responses_recorded {finish : FinishReason} (hfinish : responsesFinish body = some finish) :
    (extractOpenaiResponses base body).finishReason
      = some (ResponsesStreamTranslator.finishOf
        (((arrayField body "output").getD []).any (hasType "function_call")) finish) := by
  unfold extractOpenaiResponses ResponsesStreamTranslator.finishOf
  simp only [hfinish, InferenceRecord.withFinish, InferenceRecord.withToolCalls,
    responsesToolCalls_isEmpty, ne_eq, Option.some.injEq]
  cases ((arrayField body "output").getD []).any (hasType "function_call") <;>
    cases finish <;> rfl

end Recorded

/-- The reason a client reads is the one on record, exactly when they agree. -/
theorem finish_recorded_iff {base : InferenceRecord} {body : Json}
    (hprotocol : base.upstreamProtocol ≠ .openAiChat)
    (hsurface : base.upstreamProtocol = .anthropicMessages →
      base.inboundSurface ≠ .anthropicMessages)
    (hended : Ended base.upstreamProtocol body) :
    (readBody (unaryBody base.upstreamProtocol body)).finish
        = (extract base body).finishReason.map finishReasonOpenaiStr
      ↔ FinishAgrees base.upstreamProtocol body := by
  unfold extract
  change (unaryAnswer base.upstreamProtocol body).finish = _ ↔ _
  generalize base.upstreamProtocol = protocol at hprotocol hsurface hended
  cases protocol with
  | anthropicMessages =>
    rcases Option.isSome_iff_exists.mp hended with ⟨reason, hreason⟩
    rw [anthropic_recorded hreason (hsurface rfl)]
    simp only [FinishAgrees, hreason]
    by_cases hforced : ((arrayField body "content").getD []).any isEmulated = true
    · rcases List.any_eq_true.mp hforced with ⟨b, hb, hcall⟩
      rcases Option.isSome_iff_exists.mp (List.find?_isSome.mpr ⟨b, hb, hcall⟩) with ⟨b, hb⟩
      rw [anthropic_unary_forced rfl hb, hforced]
      simp only [Transcript.Answer.ofList, and_true, if_true, Option.map_some, Option.some.injEq]
      grind [normalizeAnthropicStopReason, finishReasonOpenaiStr]
    · rw [anthropic_unary rfl (Bool.eq_false_iff.mpr hforced)]
      simp only [Transcript.Answer.ofList, hforced, hreason, Option.bind_some]
      grind [normalizeAnthropicStopReason, finishReasonOpenaiStr, anthropicStopReasonToStatus,
        statusToFinishReason]
  | gemini =>
    rcases Option.isSome_iff_exists.mp hended with ⟨reason, hreason⟩
    rw [gemini_recorded hreason, gemini_unary]
    simp only [FinishAgrees, Agrees, GeminiAgrees, Transcript.Answer.ofList, hreason,
      Option.bind_some, ← gemini_finish_status]
    grind [normalizeGeminiFinishReason, finishReasonOpenaiStr, geminiFinishReasonToOpenai]
  | openAiResponses =>
    rcases Option.isSome_iff_exists.mp hended with ⟨finish, hfinish⟩
    have hiff := responses_finish_iff
      (((arrayField body "output").getD []).any (hasType "function_call")) body
    rw [hfinish] at hiff
    rw [responses_recorded hfinish, responses_unary]
    exact eq_comm.trans hiff
  | openAiChat => exact absurd rfl hprotocol

def chatRecord : InferenceRecord :=
  .new .anthropic "key" "m" .chatCompletions .anthropicMessages

theorem finish_recorded_call :
    (readBody (unaryBody .anthropicMessages (callBody "tool_use"))).finish
      = (extract chatRecord (callBody "tool_use")).finishReason.map finishReasonOpenaiStr := by
  refine (@finish_recorded_iff chatRecord _ (by decide) (fun _ => by decide) ?_).mpr ?_
  · exact rfl
  · change FinishAgrees .anthropicMessages _
    rw [FinishAgrees, if_neg (by decide)]
    exact iff_of_true rfl (List.cons_ne_nil _ _)

/-- A call that was cut off is a call to the client and a matter of length on record. -/
theorem finish_recorded_cut :
    (readBody (unaryBody .anthropicMessages (callBody "max_tokens"))).finish = some "tool_calls"
      ∧ (extract chatRecord (callBody "max_tokens")).finishReason = some .length :=
  ⟨rfl, rfl⟩

end Waygate.Llm
