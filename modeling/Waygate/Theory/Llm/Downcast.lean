import Waygate.Theory.Llm.Surfaces

/-!
# The Hub and the Translators

A provider's body becomes a chat body through the hub, and by a translator of its own.
They agree, except where an Anthropic message stopped for a call that it does not have:
the translator reports `tool_calls` and the hub, which keeps only a status, `stop`.
Identities are taken to be strings.

## Theorems

* `unaryBody_eq_translated_iff`
* `anthropic_translated_iff`, `gemini_translated`, `responses_translated`: The three
  protocols.
-/

namespace Waygate.Llm

open List

section Bodies

def translatedBody (protocol : UpstreamProtocol) (body : Json) : Json :=
  match protocol with
  | .anthropicMessages => anthropicResponseToOpenaiChat body
  | .gemini => geminiResponseToOpenaiChat body
  | .openAiResponses => openaiResponsesToOpenaiChat body
  | .openAiChat => body

def identityKeys : UpstreamProtocol → String × String
  | .gemini => ("responseId", "modelVersion")
  | _ => ("id", "model")

def AbsentOrString (body : Json) (key : String) : Prop :=
  body.get key = none ∨ ∃ s, body.get key = some (.string s)

theorem AbsentOrString.eq {body : Json} {key : String} (h : AbsentOrString body key) :
    (strField body key).map .string = body.get key := by
  rcases h with hnone | ⟨s, hs⟩
  · rw [strField, hnone]
    rfl
  · rw [strField, hs]
    rfl

end Bodies

section Translators

variable {body : Json}

theorem chat_congr {id id' model model' usage usage' : Option Json} {text text' : String}
    {calls calls' : List Json} {finish finish' : Option String} (hid : id = id')
    (hmodel : model = model') (htext : text = text') (hcalls : calls = calls')
    (husage : usage = usage') :
    chatBody id model (chatChoices (chatMessage text calls) finish) usage
        = chatBody id' model' (chatChoices (chatMessage text' calls') finish') usage'
      ↔ finish = finish' := by
  subst hid hmodel htext hcalls husage
  constructor
  · intro h
    have hread := congrArg readBody h
    rw [readBody_chatBody, readBody_chatBody, Transcript.Answer.ofList_inj] at hread
    exact hread.2.2
  · intro h
    rw [h]

theorem anthropic_usage (usage : Option Json) :
    (usage.map (fun u => Usage.ofTokens (anthropicTokenUsageFrom u))).bind
        (fun usage => reportedUsage usage.input usage.output usage.total)
      = usage.bind (fun usage => reportedUsage (anthropicTokenUsageFrom usage).input
        (anthropicTokenUsageFrom usage).output
        (sumCounts checkedAdd (anthropicTokenUsageFrom usage).input
          (anthropicTokenUsageFrom usage).output)) := by
  cases usage <;> rfl

theorem anthropic_translated_plain (hid : AbsentOrString body "id")
    (hmodel : AbsentOrString body "model")
    (h : ((arrayField body "content").getD []).find? isEmulated = none) :
    canonicalResponseToOpenaiChat (anthropicToCanonicalResponse body)
        = anthropicResponseToOpenaiChat body
      ↔ ¬ (strField body "stop_reason" = some "tool_use"
        ∧ ((arrayField body "content").getD []).any (hasType "tool_use") = false) := by
  set blocks := (arrayField body "content").getD [] with hblocks
  have houtput := anthropic_output hblocks.symm h
  have hempty : (anthropicToolCalls (arrayField body "content")).isEmpty = true
      ↔ blocks.any (hasType "tool_use") = false := by
    rw [anthropicToolCalls, List.isEmpty_map, List.isEmpty_iff, List.filter_eq_nil_iff,
      any_eq_false]
  have hcalls : (anthropicToCanonicalResponse body).toolCalls
      = anthropicToolCalls (arrayField body "content") :=
    toolCalls_messageOf _ _ _ _ _ houtput
  rw [canonicalResponseToOpenaiChat, hcalls, anthropic_status hblocks.symm h,
    anthropicResponseToOpenaiChat]
  simp only [← hblocks, h]
  refine (chat_congr hid.eq hmodel.eq (contentText_messageOf _ _ _ _ _ houtput) rfl
    (anthropic_usage _)).trans ?_
  by_cases hnone : blocks.any (hasType "tool_use") = false
  · rw [if_pos (hempty.mpr hnone), if_pos (hempty.mpr hnone)]
    have hfinish := anthropic_finish_iff (strField body "stop_reason") []
    simp only [if_true, ne_eq, not_true_eq_false, iff_false] at hfinish
    rw [eq_comm, hfinish]
    simp [hnone]
  · rw [if_neg (mt hempty.mp hnone), if_neg (mt hempty.mp hnone)]
    simp [hnone]

theorem anthropic_translated_iff (hid : AbsentOrString body "id")
    (hmodel : AbsentOrString body "model") :
    canonicalResponseToOpenaiChat (anthropicToCanonicalResponse body)
        = anthropicResponseToOpenaiChat body
      ↔ ¬ (strField body "stop_reason" = some "tool_use"
        ∧ ((arrayField body "content").getD []).any (hasType "tool_use") = false) := by
  cases h : ((arrayField body "content").getD []).find? isEmulated with
  | none => exact anthropic_translated_plain hid hmodel h
  | some b =>
    -- The call of the forced tool is one.
    have hcall : ((arrayField body "content").getD []).any (hasType "tool_use") = true := by
      grind [isEmulated]
    refine iff_of_true ?_ (by simp [hcall])
    simp only [canonicalResponseToOpenaiChat, anthropicResponseToOpenaiChat,
      anthropicToCanonicalResponse, h]
    refine (chat_congr hid.eq hmodel.eq ?_ rfl (anthropic_usage _)).mpr rfl
    simp [CanonicalResponse.contentText, OutputItem.texts, String.join]

theorem gemini_translated (hid : AbsentOrString body "responseId")
    (hmodel : AbsentOrString body "modelVersion") :
    canonicalResponseToOpenaiChat (geminiToCanonicalResponse body)
      = geminiResponseToOpenaiChat body := by
  have houtput := gemini_output body
  have hcalls : (geminiToCanonicalResponse body).toolCalls
      = geminiToolCalls (geminiParts body) :=
    toolCalls_messageOf _ _ _ _ _ houtput
  have hstatus : statusToFinishReason (geminiToCanonicalResponse body).status
      = ((geminiCandidate body).bind (strField · "finishReason")).map
        geminiFinishReasonToOpenai := by
    simp only [geminiToCanonicalResponse]
    cases (geminiCandidate body).bind (strField · "finishReason") with
    | none => rfl
    | some reason => exact (gemini_finish_status reason).symm
  have husage : (geminiToCanonicalResponse body).usage.bind
      (fun usage => reportedUsage usage.input usage.output usage.total)
      = (body.get "usageMetadata").bind (fun um => reportedUsage (geminiTokenUsageFrom um).input
        (geminiTokenUsageFrom um).output ((u64Field um "totalTokenCount").or
          (sumCounts checkedAdd (geminiTokenUsageFrom um).input
            (geminiTokenUsageFrom um).output))) := by
    simp only [geminiToCanonicalResponse]
    cases body.get "usageMetadata" <;> rfl
  rw [canonicalResponseToOpenaiChat, hcalls, hstatus, husage, geminiResponseToOpenaiChat]
  exact (chat_congr hid.eq hmodel.eq (contentText_messageOf _ _ _ _ _ houtput) rfl rfl).mpr rfl

theorem responsesTexts_eq (items : List Json) :
    (responsesTexts items).flatMap String.toList = items.flatMap itemText := by
  unfold responsesTexts
  induction items with
  | nil => rfl
  | cons item rest ih =>
    rw [flatMap_cons, ← ih, itemText]
    by_cases hmessage : hasType "message" item = true
    · rw [filter_cons_of_pos hmessage, if_pos hmessage, filterMap_cons]
      cases arrayField item "content" with
      | none => rfl
      | some parts => grind [typed_texts]
    · rw [filter_cons_of_neg hmessage, if_neg hmessage]
      rfl

theorem responses_translated (hid : AbsentOrString body "id")
    (hmodel : AbsentOrString body "model") :
    canonicalResponseToOpenaiChat (openaiResponsesToCanonicalResponse body)
      = openaiResponsesToOpenaiChat body := by
  have htext : (openaiResponsesToCanonicalResponse body).contentText
      = String.join (responsesTexts ((arrayField body "output").getD [])) := by
    rw [← String.toList_inj, responses_contentText, String.toList_join, responsesTexts_eq]
  have hstatus : statusToFinishReason (openaiResponsesToCanonicalResponse body).status
      = (responsesFinish body).map finishReasonOpenaiStr := by
    have hfinish := (responses_finish_iff false body).mpr (Or.inl rfl)
    exact hfinish.symm.trans (congrArg (Option.map · _) (funext (fun _ => rfl)))
  have husage : (openaiResponsesToCanonicalResponse body).usage.bind
      (fun usage => reportedUsage usage.input usage.output usage.total)
      = (body.get "usage").bind (fun usage => reportedUsage (u64Field usage "input_tokens")
        (u64Field usage "output_tokens") ((u64Field usage "total_tokens").or
          (sumCounts plainAdd (u64Field usage "input_tokens")
            (u64Field usage "output_tokens")))) := by
    simp only [openaiResponsesToCanonicalResponse]
    cases body.get "usage" <;> rfl
  rw [canonicalResponseToOpenaiChat, responses_toolCalls, hstatus, husage,
    openaiResponsesToOpenaiChat]
  exact (chat_congr hid.eq hmodel.eq htext rfl rfl).mpr rfl

/-- The hub reproduces the translators, unless a message stopped for a call it does
    not have. -/
theorem unaryBody_eq_translated_iff (protocol : UpstreamProtocol)
    (hid : AbsentOrString body (identityKeys protocol).1)
    (hmodel : AbsentOrString body (identityKeys protocol).2) :
    unaryBody protocol body = translatedBody protocol body
      ↔ ¬ (protocol = .anthropicMessages ∧ strField body "stop_reason" = some "tool_use"
        ∧ ((arrayField body "content").getD []).any (hasType "tool_use") = false) := by
  cases protocol with
  | anthropicMessages =>
    simp only [true_and]
    exact anthropic_translated_iff hid hmodel
  | gemini => exact iff_of_true (gemini_translated hid hmodel) (by simp)
  | openAiResponses => exact iff_of_true (responses_translated hid hmodel) (by simp)
  | openAiChat => exact iff_of_true rfl (by simp)

theorem unaryBody_eq_translated_call :
    unaryBody .anthropicMessages (callBody "tool_use")
      = translatedBody .anthropicMessages (callBody "tool_use") :=
  (unaryBody_eq_translated_iff .anthropicMessages (Or.inr ⟨_, rfl⟩) (Or.inr ⟨_, rfl⟩)).mpr
    (by decide)

def calllessBody : Json :=
  .object
    [("id", .string "msg_1"), ("model", .string "m"),
      ("content", .array [.object [("type", .string "text"), ("text", .string "hi")]]),
      ("stop_reason", .string "tool_use")]

/-- The hub reports a stop where the translator reports a call. -/
theorem unaryBody_ne_translated_callless :
    (readBody (unaryBody .anthropicMessages calllessBody)).finish = some "stop"
      ∧ (readBody (translatedBody .anthropicMessages calllessBody)).finish
        = some "tool_calls" :=
  ⟨rfl, rfl⟩

end Translators

end Waygate.Llm
