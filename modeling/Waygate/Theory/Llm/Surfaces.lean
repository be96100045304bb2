import Waygate.Theory.Codec.JsonText
import Waygate.Theory.Llm.Anthropic
import Waygate.Theory.Llm.Gemini
import Waygate.Theory.Llm.Responses

/-!
# Streamed or Unary

The text and the calls of an answer are the same, streamed or not. The reason of the end
is not: a unary body with calls ends as `tool_calls`, while a stream reports what the
provider said, or lets a filter win.

## Main definitions

* `streamedAnswer`, `unaryAnswer`: The two answers.
* `Agrees`: The condition.

## Theorems

* `streamed_eq_unary_iff`, `streamed_ne_unary_cut`
* `anthropic_agrees_iff`, `gemini_agrees_iff`, `responses_agrees_iff`: The three protocols.
-/

namespace Waygate.Llm

open Transcript List

section Answers

inductive ProviderStream : UpstreamProtocol → Json → List Json → Prop
  | anthropic {body : Json} {evs : List Json} (h : AnthropicStream body evs) :
      ProviderStream .anthropicMessages body evs
  | gemini {body : Json} {evs : List Json} (h : GeminiStream body evs) :
      ProviderStream .gemini body evs
  | responses {body : Json} {evs : List Json} (h : ResponsesStream body evs) :
      ProviderStream .openAiResponses body evs

def streamedAnswer (parse : String → Option Json) (base : InferenceRecord)
    (frames : List String) : ChatAnswer :=
  assemble (((StreamTranslator.forRecord base).pushAll parse frames).2.map readChunk)

/-- The body a client receives. A chat body is passed on. -/
def unaryBody (protocol : UpstreamProtocol) (body : Json) : Json :=
  match protocol with
  | .anthropicMessages => canonicalResponseToOpenaiChat (anthropicToCanonicalResponse body)
  | .gemini => canonicalResponseToOpenaiChat (geminiToCanonicalResponse body)
  | .openAiResponses => canonicalResponseToOpenaiChat (openaiResponsesToCanonicalResponse body)
  | .openAiChat => body

def unaryAnswer (protocol : UpstreamProtocol) (body : Json) : ChatAnswer :=
  readBody (unaryBody protocol body)

/-- A message agrees if it stopped for a call exactly when it has one. A structured
    answer agrees if it is the only call, beside no text, and was not cut off. -/
def AnthropicAgrees (body : Json) : Prop :=
  let blocks := (arrayField body "content").getD []
  let calls := blocks.filter (hasType "tool_use")
  if blocks.any isEmulated then
    calls.length = 1
      ∧ (∀ b ∈ blocks, hasType "text" b = true → (strField b "text").getD "" = "")
      ∧ ∃ reason, strField body "stop_reason" = some reason ∧ reason ≠ "max_tokens"
        ∧ reason ≠ "refusal"
  else strField body "stop_reason" = some "tool_use" ↔ calls ≠ []

/-- Calls must not come with a filter's reason, or without any. -/
def GeminiAgrees (body : Json) : Prop :=
  functionCalls (partsOf body) = []
    ∨ ∃ reason, finishReasonOf body = some reason ∧ ¬ geminiFiltered reason

def ResponsesAgrees (body : Json) : Prop :=
  ((arrayField body "output").getD []).any (hasType "function_call") = false
    ∨ strField body "status" = some "completed"
    ∨ (strField body "status" = some "incomplete"
      ∧ incompleteReason body ≠ some "content_filter")

def Agrees (protocol : UpstreamProtocol) (body : Json) : Prop :=
  match protocol with
  | .anthropicMessages => AnthropicAgrees body
  | .gemini => GeminiAgrees body
  | .openAiResponses => ResponsesAgrees body
  | .openAiChat => True

end Answers

section Anthropic

variable {body : Json} {blocks : List Json}

theorem blocks_texts (h : ∀ b ∈ blocks, isEmulated b = false) :
    ((blocks.filter (hasType "text")).filterMap (strField · "text")).flatMap String.toList
      = blocks.flatMap (blockText true) := by
  rw [typed_texts]
  refine flatMap_congr (fun b hb => ?_)
  rw [blockText, h b hb]
  rfl

theorem blocks_calls (h : ∀ b ∈ blocks, isEmulated b = false) :
    (blocks.filter (hasType "tool_use")).map (fun b => (⟨some ((strField b "id").getD ""),
        some ((strField b "name").getD ""), (argumentsText b "input").toList⟩ : Call Char String))
      = blocks.filterMap (blockCall true) := by
  induction blocks with
  | nil => rfl
  | cons b rest ih => grind [blockCall, hasType]

/-- What the hub reads of a body without a structured answer: a message of its
    texts, and its calls. -/
theorem anthropic_output (hblocks : (arrayField body "content").getD [] = blocks)
    (h : blocks.find? isEmulated = none) :
    (anthropicToCanonicalResponse body).output
      = messageOf ((blocks.filter (hasType "text")).filterMap (strField · "text"))
        ++ (blocks.filter (hasType "tool_use")).map (fun b => .functionCall
          ((strField b "id").getD "") ((strField b "name").getD "")
          (argumentsText b "input") []) := by
  simp only [anthropicToCanonicalResponse, hblocks, h]

theorem anthropic_status (hblocks : (arrayField body "content").getD [] = blocks)
    (h : blocks.find? isEmulated = none) :
    statusToFinishReason (anthropicToCanonicalResponse body).status
      = (strField body "stop_reason").bind
        (fun reason => statusToFinishReason (anthropicStopReasonToStatus reason)) := by
  simp only [anthropicToCanonicalResponse, hblocks, h]
  cases strField body "stop_reason" <;> rfl

/-- The answer of a body without a structured answer. -/
theorem anthropic_unary (hblocks : (arrayField body "content").getD [] = blocks)
    (h : blocks.any isEmulated = false) :
    unaryAnswer .anthropicMessages body
      = .ofList (blocks.flatMap (blockText true)) (blocks.filterMap (blockCall true))
        (if blocks.filter (hasType "tool_use") = [] then
            (strField body "stop_reason").bind
              (fun reason => statusToFinishReason (anthropicStopReasonToStatus reason))
          else some "tool_calls") := by
  have hnone : ∀ b ∈ blocks, isEmulated b = false := by
    simpa using h
  have hfind : blocks.find? isEmulated = none := by
    simpa using h
  have houtput := anthropic_output hblocks hfind
  have hcalls := toolCalls_messageOf _ _ _ _ _ houtput
  rw [unaryAnswer, unaryBody, readBody_canonical, anthropic_status hblocks hfind,
    contentText_messageOf _ _ _ _ _ houtput, String.toList_join, blocks_texts hnone, hcalls,
    List.map_map, List.isEmpty_map, ← blocks_calls hnone]
  simp only [List.isEmpty_iff]
  rfl

theorem anthropic_unary_forced {b : Json} (hblocks : (arrayField body "content").getD [] = blocks)
    (h : blocks.find? isEmulated = some b) :
    unaryAnswer .anthropicMessages body
      = .ofList (argumentsText b "input").toList [] (some "stop") := by
  have htext : ((b.get "input").getD (.object [])).toText = argumentsText b "input" := by
    rw [argumentsText]
    cases b.get "input" with
    | none => rfl
    | some v => rfl
  rw [unaryAnswer, unaryBody, readBody_canonical]
  simp only [anthropicToCanonicalResponse, hblocks, h, CanonicalResponse.contentText,
    CanonicalResponse.toolCalls, htext]
  simp [OutputItem.texts, OutputItem.chatToolCall?, statusToFinishReason, String.join]
  rfl

theorem anthropicStopReason_status {reason : String} (h : reason ≠ "tool_use") :
    some (anthropicStopReasonToOpenai reason)
      = statusToFinishReason (anthropicStopReasonToStatus reason)
    ∧ anthropicStopReasonToOpenai reason ≠ "tool_calls" := by
  unfold anthropicStopReasonToOpenai anthropicStopReasonToStatus
  by_cases hstop : reason = "end_turn" ∨ reason = "stop_sequence"
  · rcases hstop with rfl | rfl <;> decide
  · by_cases hlength : reason = "max_tokens"
    · rw [hlength]
      decide
    · by_cases hrefusal : reason = "refusal"
      · rw [hrefusal]
        decide
      · rw [if_neg hstop, if_neg hlength, if_neg h, if_neg hrefusal, if_neg hlength,
          if_neg hrefusal]
        decide

theorem anthropic_finish_iff (stop : Option String) (calls : List Json) :
    stop.map anthropicStopReasonToOpenai
        = (if calls = [] then stop.bind
          (fun reason => statusToFinishReason (anthropicStopReasonToStatus reason))
          else some "tool_calls")
      ↔ (stop = some "tool_use" ↔ calls ≠ []) := by
  by_cases hcall : stop = some "tool_use"
  · grind [anthropicStopReasonToOpenai, anthropicStopReasonToStatus, statusToFinishReason]
  · cases stop with
    | none => by_cases hcalls : calls = [] <;> simp [hcalls]
    | some reason => grind [anthropicStopReason_status]

theorem anthropic_forced_finish_iff (stop : Option String) :
    stop.map (fun reason => (anthropicFinish true reason).2) = some "stop"
      ↔ ∃ reason, stop = some reason ∧ reason ≠ "max_tokens" ∧ reason ≠ "refusal" := by
  cases stop with
  | none => simp
  | some reason => grind [anthropicFinish, anthropicStopReasonToOpenai]

theorem append_append_eq_middle {α : Type} (xs ys zs : List α) :
    xs ++ (ys ++ zs) = ys ↔ xs = [] ∧ zs = [] := by
  constructor
  · intro h
    have hlength := congrArg List.length h
    simp only [length_append] at hlength
    exact ⟨length_eq_zero_iff.mp (by omega), length_eq_zero_iff.mp (by omega)⟩
  · rintro ⟨rfl, rfl⟩
    simp

theorem argumentsText_ne_nil {v : Json} {key : String}
    (h : ∀ input, v.get key = some input → input.Numeric) : (argumentsText v key).toList ≠ [] := by
  rw [argumentsText]
  cases hinput : v.get key with
  | none => decide
  | some input =>
    simp only [Option.map_some, Option.getD_some, Json.toText, String.toList_ofList]
    exact Json.text_ne_nil (h input hinput)

theorem block_silent_iff {b : Json} (h : ∀ v, b.get "input" = some v → v.Numeric) :
    blockText true b = [] ∧ blockCall true b = none
      ↔ hasType "tool_use" b = false
        ∧ (hasType "text" b = true → (strField b "text").getD "" = "") := by
  by_cases htext : hasType "text" b = true
  · have hcall : hasType "tool_use" b = false := hasType_ne htext (by decide)
    simp [blockText, blockCall, htext, hcall, String.toList_eq_nil_iff]
  · by_cases hcall : hasType "tool_use" b = true
    · grind [isEmulated, blockText, argumentsText_ne_nil, blockCall]
    · simp [blockText, blockCall, htext, hcall, isEmulated]

theorem blocks_silent_iff (h : ∀ b ∈ blocks, ∀ v, b.get "input" = some v → v.Numeric) :
    blocks.flatMap (blockText true) = [] ∧ blocks.filterMap (blockCall true) = []
      ↔ blocks.filter (hasType "tool_use") = []
        ∧ ∀ b ∈ blocks, hasType "text" b = true → (strField b "text").getD "" = "" := by
  rw [flatMap_eq_nil_iff, filterMap_eq_nil_iff, filter_eq_nil_iff, ← forall₂_and,
    ← forall₂_and]
  refine forall₂_congr (fun b hb => ?_)
  rw [block_silent_iff (h b hb), Bool.not_eq_true]

theorem anthropic_forced_iff {b : Json} (h : blocks.find? isEmulated = some b)
    (hnumeric : ∀ b ∈ blocks, ∀ v, b.get "input" = some v → v.Numeric) :
    blocks.flatMap (blockText true) = (argumentsText b "input").toList
        ∧ blocks.filterMap (blockCall true) = []
      ↔ (blocks.filter (hasType "tool_use")).length = 1
        ∧ ∀ c ∈ blocks, hasType "text" c = true → (strField c "text").getD "" = "" := by
  rcases find?_eq_some_iff_append.mp h with ⟨hforced, before, after, rfl, -⟩
  have hcall : hasType "tool_use" b = true := by
    rw [isEmulated, Bool.and_eq_true] at hforced
    exact hforced.1
  have htext : hasType "text" b = false := hasType_ne hcall (by decide)
  have hbefore := @blocks_silent_iff before (fun c hc => hnumeric c (by simp [hc]))
  have hafter := @blocks_silent_iff after (fun c hc => hnumeric c (by simp [hc]))
  have hwritten : blockText true b = (argumentsText b "input").toList := by
    simp [blockText, htext, hforced]
  have hnone : blockCall true b = none := by
    simp [blockCall, hforced]
  have hlength : ∀ xs ys : List Json, (xs ++ b :: ys).length = 1 ↔ xs = [] ∧ ys = [] := by
    intro xs ys
    rw [← length_eq_zero_iff, ← length_eq_zero_iff, length_append, length_cons]
    omega
  rw [flatMap_append, flatMap_cons, hwritten, append_append_eq_middle,
    filterMap_append, filterMap_cons_none hnone, append_eq_nil_iff,
    filter_append, filter_cons_of_pos hcall, hlength]
  constructor
  · grind
  · grind

theorem numeric_inputs (h : body.Numeric)
    (hblocks : (arrayField body "content").getD [] = blocks) :
    ∀ b ∈ blocks, ∀ v, b.get "input" = some v → v.Numeric := by
  intro b hb v hv
  rw [← hblocks, arrayField] at hb
  cases hcontent : body.get "content" with
  | none => simp [hcontent] at hb
  | some content =>
    cases harray : content.asArray with
    | none => simp [hcontent, harray] at hb
    | some items =>
      simp only [hcontent, Option.bind_some, harray, Option.getD_some] at hb
      exact ((h.get hcontent).of_mem harray hb).get hv

theorem anthropic_agrees_iff {evs : List Json} {base : InferenceRecord}
    (hsurface : base.inboundSurface = .chatCompletions) (hnumeric : body.Numeric)
    (h : AnthropicStream body evs) :
    assemble ((observeAll AnthropicStreamTranslator.observe (.new base) evs).2.map readChunk)
        = unaryAnswer .anthropicMessages body
      ↔ AnthropicAgrees body := by
  have hemulation : (decide (base.inboundSurface ≠ .anthropicMessages)) = true := by
    rw [hsurface]
    rfl
  rcases anthropic_run base h with ⟨⟨items, ds, hwrites, hcontent, hcalls, hdeltas⟩, -⟩
  rw [hemulation] at hcontent hcalls
  simp only [hemulation, Bool.true_and] at hdeltas
  set blocks := (arrayField body "content").getD [] with hblocks
  have hmap : (strField body "stop_reason").map (fun reason =>
      Delta.ending (anthropicFinish (blocks.any isEmulated) reason).2)
      = ((strField body "stop_reason").map (fun reason =>
        (anthropicFinish (blocks.any isEmulated) reason).2)).map
          (Delta.ending (α := Char) (β := String)) := by
    rw [Option.map_map]
    rfl
  rw [hdeltas, hmap, assemble_ending hwrites, hcontent, hcalls, AnthropicAgrees, ← hblocks]
  by_cases hforced : blocks.any isEmulated = true
  · rw [if_pos hforced, hforced]
    have hsome : (blocks.find? isEmulated).isSome = true := by
      rw [find?_isSome]
      simpa using hforced
    rcases Option.isSome_iff_exists.mp hsome with ⟨b, hb⟩
    rw [anthropic_unary_forced hblocks.symm hb, Answer.ofList_inj, anthropic_forced_finish_iff,
      ← and_assoc, anthropic_forced_iff hb (numeric_inputs hnumeric hblocks.symm), and_assoc]
  · have hnone := eq_false_of_ne_true hforced
    rw [if_neg hforced, hnone, anthropic_unary hblocks.symm hnone, Answer.ofList_inj]
    simp only [true_and]
    exact anthropic_finish_iff _ _

end Anthropic

section Gemini

variable {body : Json}

theorem gemini_output (body : Json) : (geminiToCanonicalResponse body).output
    = messageOf ((partsOf body).filterMap (strField · "text"))
      ++ (functionCalls (partsOf body)).zipIdx.map (fun p => .functionCall
        ("call_" ++ Nat.repr p.2) ((strField p.1 "name").getD "") (argumentsText p.1 "args") []) :=
  rfl

theorem gemini_unary (body : Json) :
    unaryAnswer .gemini body
      = .ofList ((partsOf body).flatMap partText)
        (((functionCalls (partsOf body)).zipIdx).map numberedCall)
        (if functionCalls (partsOf body) = [] then
            (finishReasonOf body).bind
              (fun reason => statusToFinishReason (geminiFinishReasonToStatus reason))
          else some "tool_calls") := by
  set resp := geminiToCanonicalResponse body with hresp
  have houtput := gemini_output body
  have hstatus : statusToFinishReason resp.status = (finishReasonOf body).bind
      (fun reason => statusToFinishReason (geminiFinishReasonToStatus reason)) := by
    have heq : resp.status
        = ((finishReasonOf body).map geminiFinishReasonToStatus).getD .inProgress := rfl
    rw [heq]
    cases finishReasonOf body <;> rfl
  have hcalls := toolCalls_messageOf _ _ _ _ _ houtput
  rw [unaryAnswer, unaryBody, readBody_canonical, ← hresp, hstatus,
    contentText_messageOf _ _ _ _ _ houtput, texts_eq, hcalls, List.map_map, List.isEmpty_map]
  simp only [List.isEmpty_iff, List.zipIdx_eq_nil_iff]
  rfl

theorem gemini_filtered_iff (reason : String) :
    normalizeGeminiFinishReason reason = .contentFilter ↔ geminiFiltered reason := by
  grind [normalizeGeminiFinishReason, geminiFiltered]

theorem gemini_finish_status (reason : String) :
    some (geminiFinishReasonToOpenai reason)
      = statusToFinishReason (geminiFinishReasonToStatus reason) := by
  grind [geminiFinishReasonToOpenai, geminiFinishReasonToStatus, statusToFinishReason,
    geminiFiltered]

theorem gemini_finish_iff (stop : Option String) (calls : List Json) :
    stop.map (fun reason => (GeminiStreamTranslator.finishOf (!calls.isEmpty) reason).2)
        = (if calls = [] then stop.bind
          (fun reason => statusToFinishReason (geminiFinishReasonToStatus reason))
          else some "tool_calls")
      ↔ calls = [] ∨ ∃ reason, stop = some reason ∧ ¬ geminiFiltered reason := by
  cases stop with
  | none => by_cases hcalls : calls = [] <;> simp [hcalls]
  | some reason =>
    unfold GeminiStreamTranslator.finishOf
    by_cases hcalls : calls = []
    · simp [hcalls, gemini_finish_status]
    · by_cases hfiltered : geminiFiltered reason
      · have hnormal := (gemini_filtered_iff reason).mpr hfiltered
        have hne : geminiFinishReasonToOpenai reason ≠ "tool_calls" := by
          grind [gemini_finish_status, geminiFinishReasonToStatus, statusToFinishReason]
        simp [hcalls, hfiltered, hnormal, hne]
      · have hnormal := mt (gemini_filtered_iff reason).mp hfiltered
        simp [hcalls, hfiltered, hnormal]

theorem gemini_agrees_iff {evs : List Json} (base : InferenceRecord) (h : GeminiStream body evs) :
    assemble ((observeAll GeminiStreamTranslator.observe (.new base) evs).2.map readChunk)
        = unaryAnswer .gemini body
      ↔ GeminiAgrees body := by
  rcases gemini_run base h with ⟨⟨items, ds, hwrites, hcontent, hcalls, hdeltas⟩, -⟩
  have hassembled : assemble (ds ++ geminiEnding (!(functionCalls (partsOf body)).isEmpty) body)
      = .ofList (contentOf items) (callsOf items) ((finishReasonOf body).map (fun reason =>
        (GeminiStreamTranslator.finishOf (!(functionCalls (partsOf body)).isEmpty) reason).2)) := by
    unfold geminiEnding
    cases finishReasonOf body with
    | none => exact assemble_of_writes hwrites (by simp)
    | some reason => exact assemble_ending hwrites (some _)
  rw [hdeltas, hassembled, hcontent, hcalls, gemini_unary, Answer.ofList_inj]
  simp only [true_and]
  exact gemini_finish_iff _ _

end Gemini

section Responses

variable {body : Json}

theorem item_texts (item : Json) :
    (responsesOutputItem item).texts.flatMap String.toList = itemText item := by
  unfold responsesOutputItem itemText
  by_cases hmessage : strField item "type" = some "message"
  · have htype : hasType "message" item = true := by simp [hasType, hmessage]
    rw [if_pos hmessage, if_pos htype, OutputItem.texts]
    induction (arrayField item "content").getD [] with
    | nil => rfl
    | cons part rest ih =>
      rw [flatMap_cons, ← ih, map_cons, filterMap_cons, responsesContentPart]
      by_cases htext : strField part "type" = some "output_text"
      · have hpart : hasType "output_text" part = true := by simp [hasType, htext]
        simp [htext, hpart]
      · have hpart : hasType "output_text" part = false := by simp [hasType, htext]
        simp [htext, hpart]
  · have htype : hasType "message" item = false := by simp [hasType, hmessage]
    rw [if_neg hmessage, htype, if_neg Bool.false_ne_true]
    split_ifs <;> rfl

theorem item_chatToolCall (item : Json) :
    (responsesOutputItem item).chatToolCall? = if hasType "function_call" item then
      some (chatToolCall ((strField item "call_id").getD "") ((strField item "name").getD "")
        ((strField item "arguments").getD ""))
      else none := by
  unfold responsesOutputItem
  by_cases hmessage : strField item "type" = some "message"
  · have htype : hasType "function_call" item = false := by simp [hasType, hmessage]
    rw [if_pos hmessage, htype, if_neg Bool.false_ne_true]
    rfl
  · by_cases hcall : strField item "type" = some "function_call"
    · have htype : hasType "function_call" item = true := by simp [hasType, hcall]
      rw [if_neg hmessage, if_pos hcall, if_pos htype]
      rfl
    · have htype : hasType "function_call" item = false := by simp [hasType, hcall]
      rw [if_neg hmessage, if_neg hcall, htype, if_neg Bool.false_ne_true]
      split_ifs <;> rfl

theorem responses_contentText (body : Json) :
    (openaiResponsesToCanonicalResponse body).contentText.toList
      = ((arrayField body "output").getD []).flatMap itemText := by
  rw [CanonicalResponse.contentText, String.toList_join]
  simp only [openaiResponsesToCanonicalResponse, flatMap_assoc, flatMap_map, item_texts]

theorem responses_toolCalls (body : Json) :
    (openaiResponsesToCanonicalResponse body).toolCalls
      = responsesToolCalls (arrayField body "output") := by
  rw [CanonicalResponse.toolCalls, responsesToolCalls]
  simp only [openaiResponsesToCanonicalResponse, filterMap_map]
  induction (arrayField body "output").getD [] with
  | nil => rfl
  | cons item rest ih =>
    rw [filterMap_cons, ih, Function.comp, item_chatToolCall]
    by_cases hcall : hasType "function_call" item = true
    · rw [if_pos hcall, filter_cons_of_pos hcall]
      rfl
    · rw [if_neg hcall, filter_cons_of_neg hcall]

theorem readCall_responses (items : List Json) :
    (responsesToolCalls (some items)).map readCall = items.filterMap itemCall := by
  rw [responsesToolCalls, map_map]
  induction items with
  | nil => rfl
  | cons item rest ih =>
    rw [Option.getD_some] at ih ⊢
    rw [filterMap_cons, ← ih, itemCall]
    by_cases hcall : hasType "function_call" item = true
    · rw [if_pos hcall, filter_cons_of_pos hcall]
      rfl
    · rw [if_neg hcall, filter_cons_of_neg hcall]

theorem responsesToolCalls_isEmpty (output : Option (List Json)) :
    (responsesToolCalls output).isEmpty = !(output.getD []).any (hasType "function_call") := by
  rw [responsesToolCalls, List.isEmpty_map, Bool.eq_iff_iff, List.isEmpty_iff,
    List.filter_eq_nil_iff, Bool.not_eq_true', List.any_eq_false]

theorem responses_unary (body : Json) :
    unaryAnswer .openAiResponses body
      = .ofList (((arrayField body "output").getD []).flatMap itemText)
        (((arrayField body "output").getD []).filterMap itemCall)
        (if ((arrayField body "output").getD []).any (hasType "function_call") then
            some "tool_calls"
          else statusToFinishReason (responsesStatusToCanonical body)) := by
  have hcalls : (responsesToolCalls (arrayField body "output")).map readCall
      = ((arrayField body "output").getD []).filterMap itemCall := by
    rw [← readCall_responses]
    rfl
  rw [unaryAnswer, unaryBody, readBody_canonical, responses_contentText, responses_toolCalls,
    hcalls, responsesToolCalls_isEmpty]
  cases ((arrayField body "output").getD []).any (hasType "function_call") <;> rfl

theorem responses_finish_iff (has : Bool) (body : Json) :
    (responsesFinish body).map (fun finish =>
        finishReasonOpenaiStr (ResponsesStreamTranslator.finishOf has finish))
        = (if has then some "tool_calls"
          else statusToFinishReason (responsesStatusToCanonical body))
      ↔ has = false ∨ strField body "status" = some "completed"
        ∨ (strField body "status" = some "incomplete"
          ∧ incompleteReason body ≠ some "content_filter") := by
  unfold responsesFinish responsesStatusToCanonical ResponsesStreamTranslator.finishOf
  by_cases hcompleted : strField body "status" = some "completed"
  · cases has <;> simp [hcompleted, finishReasonOpenaiStr, statusToFinishReason]
  · by_cases hincomplete : strField body "status" = some "incomplete"
    · by_cases hlength : incompleteReason body = some "max_output_tokens"
      · cases has <;> simp [hincomplete, hlength, finishReasonOpenaiStr, statusToFinishReason]
      · by_cases hfilter : incompleteReason body = some "content_filter"
        · cases has <;> simp [hincomplete, hfilter, finishReasonOpenaiStr, statusToFinishReason]
        · cases has <;>
            simp [hincomplete, hlength, hfilter, finishReasonOpenaiStr, statusToFinishReason]
    · by_cases hfailed : strField body "status" = some "failed"
      · cases has <;> simp [hfailed, statusToFinishReason]
      · cases has <;> simp [hcompleted, hincomplete, hfailed, statusToFinishReason]

theorem responses_agrees_iff {evs : List Json} (base : InferenceRecord)
    (h : ResponsesStream body evs) :
    assemble ((observeAll ResponsesStreamTranslator.observe (.new base) evs).2.map readChunk)
        = unaryAnswer .openAiResponses body
      ↔ ResponsesAgrees body := by
  rcases responses_run base h with ⟨⟨items, ds, hwrites, hcontent, hcalls, hdeltas⟩, -⟩
  have hassembled : ∀ has, assemble (ds ++ responsesEnding has body)
      = .ofList (contentOf items) (callsOf items) ((responsesFinish body).map (fun finish =>
        finishReasonOpenaiStr (ResponsesStreamTranslator.finishOf has finish))) := by
    intro has
    rw [responsesEnding, ← assemble_ending hwrites, Option.map_map]
    rfl
  rw [hdeltas, hassembled, hcontent, hcalls, responses_unary, Answer.ofList_inj]
  simp only [true_and]
  exact responses_finish_iff _ _

end Responses

section Main

variable {body : Json} {frames : List String}

/-- A client reads the same answer streamed or unary, exactly when they agree. -/
theorem streamed_eq_unary_iff (parse : String → Option Json) (base : InferenceRecord)
    (hsurface : base.inboundSurface = .chatCompletions) (hnumeric : body.Numeric)
    (hstream : ProviderStream base.upstreamProtocol body (frames.filterMap (decode parse))) :
    streamedAnswer parse base frames = unaryAnswer base.upstreamProtocol body
      ↔ Agrees base.upstreamProtocol body := by
  unfold streamedAnswer StreamTranslator.forRecord
  generalize base.upstreamProtocol = protocol at hstream
  cases hstream with
  | anthropic h =>
    rw [pushAll_eq AnthropicStreamTranslator.observe parse (fun t data => rfl)]
    exact anthropic_agrees_iff hsurface hnumeric h
  | gemini h =>
    rw [pushAll_eq GeminiStreamTranslator.observe parse (fun t data => rfl)]
    exact gemini_agrees_iff base h
  | responses h =>
    rw [pushAll_eq ResponsesStreamTranslator.observe parse (fun t data => rfl)]
    exact responses_agrees_iff base h

def promptUsage : Json :=
  .object [("input_tokens", Json.ofNat 11), ("output_tokens", Json.ofNat 1)]

def callBody (reason : String) : Json :=
  .object [("id", .string "msg_1"), ("model", .string "m"),
    ("content", .array [.object [("type", .string "text"), ("text", .string "Let me see.")],
      .object [("type", .string "tool_use"), ("id", .string "call_1"), ("name", .string "search"),
        ("input", .object [("q", .string "rain")])]]),
    ("stop_reason", .string reason),
    ("usage", .object [("input_tokens", Json.ofNat 11), ("output_tokens", Json.ofNat 7)])]

def blockEvent (kind : String) (index : Nat) (field : String) (value : List (String × Json)) :
    Json :=
  .object [("type", .string kind), ("index", Json.ofNat index), (field, .object value)]

def callEvents (reason : String) : List Json :=
  [.object [("type", .string "message_start"), ("message", .object [("id", .string "msg_1"),
      ("model", .string "m"), ("usage", promptUsage)])],
    .object [("type", .string "ping")],
    blockEvent "content_block_start" 0 "content_block" [("type", .string "text")],
    blockEvent "content_block_delta" 0 "delta" [("type", .string "text_delta"),
      ("text", .string "Let me ")],
    blockEvent "content_block_delta" 0 "delta" [("type", .string "text_delta"),
      ("text", .string "see.")],
    blockEvent "content_block_start" 1 "content_block" [("type", .string "tool_use"),
      ("id", .string "call_1"), ("name", .string "search")],
    blockEvent "content_block_delta" 1 "delta" [("type", .string "input_json_delta"),
      ("partial_json", .string "\x7b\"q\":")],
    blockEvent "content_block_delta" 1 "delta" [("type", .string "input_json_delta"),
      ("partial_json", .string "\"rain\"\x7d")],
    .object [("type", .string "message_delta"), ("delta", .object [("stop_reason", .string reason)]),
      ("usage", .object [("output_tokens", Json.ofNat 7)])],
    .object [("type", .string "message_stop")]]

def callFrames (reason : String) : List String :=
  (callEvents reason).map Json.toText

def anthropicBase : InferenceRecord :=
  .new .anthropic "key" "m" .chatCompletions .anthropicMessages

variable (reason : String)

theorem callEvents_numeric : ∀ ev ∈ callEvents reason, ev.Numeric := by
  simp [callEvents, blockEvent, promptUsage, Json.Numeric, Json.FieldsNumeric, Json.numeric_ofNat]

theorem callFrames_decode (h : ∀ data ∈ callFrames reason, trim data = data ∧ data ≠ "") :
    (callFrames reason).filterMap (decode Json.fromText) = callEvents reason := by
  rw [callFrames, filterMap_map]
  refine (filterMap_congr (g := some) (fun ev hev => ?_)).trans filterMap_some
  rcases h _ (mem_map_of_mem hev) with ⟨htrim, hne⟩
  rw [Function.comp_apply, decode, htrim, if_neg hne]
  exact Json.fromText_toText (callEvents_numeric reason ev hev)

theorem callEvents_stream : AnthropicStream (callBody reason) (callEvents reason) := by
  have hindex : ∀ i < 2 ^ 64, (Json.ofNat i).asU64 = some i := fun i hi => Json.asU64_ofNat hi
  refine ⟨_, [_, _, _, _, _, _], _, _, rfl, ⟨rfl, _, rfl, rfl, rfl, .some ?_⟩, ?_,
    ⟨rfl, rfl, rfl⟩, rfl⟩
  · simp only [forall_mem_cons, not_mem_nil, false_imp_iff, implies_true, and_true]
    exact ⟨rfl, rfl, rfl⟩
  · change BlocksCut 0 [_, _] (_ :: ([_, _] ++ (_ :: ([_, _] ++ []))))
    refine .cons ⟨rfl, hindex 0 (by decide), _, rfl, rfl, rfl, rfl⟩ ?_
      (.cons ⟨rfl, hindex 1 (by decide), _, rfl, rfl, rfl, rfl⟩ ?_ (.nil 2))
    · unfold BlockDeltas
      rw [if_pos (by decide)]
      exact ⟨["Let me ", "see."], by decide,
        .cons ⟨rfl, hindex 0 (by decide), _, rfl, rfl, rfl⟩
          (.cons ⟨rfl, hindex 0 (by decide), _, rfl, rfl, rfl⟩ .nil)⟩
    · unfold BlockDeltas
      rw [if_neg (by decide), if_pos (by decide)]
      exact ⟨["\x7b\"q\":", "\"rain\"\x7d"], by decide,
        .cons ⟨rfl, hindex 1 (by decide), _, rfl, rfl, rfl⟩
          (.cons ⟨rfl, hindex 1 (by decide), _, rfl, rfl, rfl⟩ .nil)⟩

theorem callBody_numeric : (callBody reason).Numeric := by
  simp [callBody, Json.Numeric, Json.FieldsNumeric, Json.ItemsNumeric, Json.numeric_ofNat]

theorem streamed_eq_unary_call :
    streamedAnswer Json.fromText anthropicBase (callFrames "tool_use")
      = unaryAnswer .anthropicMessages (callBody "tool_use") := by
  refine (streamed_eq_unary_iff _ anthropicBase rfl (callBody_numeric "tool_use") ?_).mpr ?_
  · rw [callFrames_decode "tool_use" (by decide +kernel)]
    exact .anthropic (callEvents_stream "tool_use")
  · exact iff_of_true rfl (by decide)

/-- A call that was cut off ends as such in the stream, and as a call in the body. -/
theorem streamed_ne_unary_cut :
    AnthropicStream (callBody "max_tokens") ((callFrames "max_tokens").filterMap
        (decode Json.fromText))
      ∧ (streamedAnswer Json.fromText anthropicBase (callFrames "max_tokens")).finish
        = some "length"
      ∧ (unaryAnswer .anthropicMessages (callBody "max_tokens")).finish
        = some "tool_calls" := by
  have hdecode := callFrames_decode "max_tokens" (by decide +kernel)
  refine ⟨hdecode ▸ callEvents_stream "max_tokens", ?_, rfl⟩
  rw [streamedAnswer, StreamTranslator.forRecord]
  simp only [anthropicBase, InferenceRecord.new]
  rw [pushAll_eq AnthropicStreamTranslator.observe _ (fun t data => rfl), hdecode]
  rfl

end Main

end Waygate.Llm
