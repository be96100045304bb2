import Waygate.Core.Llm.Outbound
import Waygate.Theory.Loop.Emits

/-!
# The Functions of Tool Results

A result names the call it answers by an id. Gemini is told the name of the function
instead, which the renderer looks up among all calls of the conversation, where the last
call with an id counts. The gateway numbers the calls of each Gemini response from zero,
so a second turn of tools uses the ids again.

## Main definitions

* `answered`
* `NamesKept`: The last name is the nearest.

## Theorems

* `renderGemini_names_iff`, `renderGemini_names_reused`
* `emits_geminiMessage`: What a message writes.
* `renderGemini_spec`: What is rendered.
-/

namespace Waygate.Llm

open Outbound Loop List

section Conversations

def calls (m : CanonicalMessage) : List (String × String) :=
  m.content.filterMap callOf

def resultOf : ContentPart → Option (String × String)
  | .toolResult toolCallId content => some (toolCallId, content)
  | _ => none

def results (m : CanonicalMessage) : List (String × String) :=
  m.content.filterMap resultOf

/-- The results of a conversation in order, each with the calls of the nearest message of
    the assistant before it. -/
def answered (before : List (String × String)) :
    List CanonicalMessage → List (List (String × String) × String × String)
  | [] => []
  | m :: rest =>
    (results m).map (fun r => (before, r))
      ++ answered (if m.role = .assistant then calls m else before) rest

/-- Every result answers a call of the nearest message of the assistant. -/
def Answerable (messages : List CanonicalMessage) : Prop :=
  ∀ r ∈ answered [] messages, ∃ name, (r.2.1, name) ∈ r.1

def nameOf (calls : List (String × String)) (id : String) : Option String :=
  calls.reverse.lookup id

def responseOf (part : Json) : Option (Option String × Option String) :=
  (part.get "functionResponse").map (fun r =>
    (strField r "name", (r.get "response").bind (strField · "result")))

def turnResponses (content : Json) : List (Option String × Option String) :=
  ((arrayField content "parts").getD []).filterMap responseOf

def functionResponses (body : Json) : List (Option String × Option String) :=
  ((arrayField body "contents").getD []).flatMap turnResponses

structure NamesKept (req : LlmRequest) : Prop where
  effort : req.sampling.reasoningEffort = none
  system : ∀ m ∈ req.messages, m.role = .system → ∀ p ∈ m.content, ∃ text, p = .text text
  roles : ∀ m ∈ req.messages, m.role ≠ .tool → results m = []
  names : ∀ r ∈ answered [] req.messages,
    nameOf (req.messages.flatMap calls) r.2.1 = nameOf r.1 r.2.1

end Conversations

section Answers

variable {before : List (String × String)} {messages : List CanonicalMessage}

theorem answered_results : (answered before messages).map Prod.snd = messages.flatMap results := by
  induction messages generalizing before with
  | nil => rfl
  | cons m rest ih => simp [answered, ih, Function.comp_def]

theorem answered_calls {r : List (String × String) × String × String}
    (h : r ∈ answered before messages) :
    ∀ call ∈ r.1, call ∈ before ∨ call ∈ messages.flatMap calls := by
  induction messages generalizing before with
  | nil => cases h
  | cons m rest ih =>
    intro call hcall
    rcases mem_append.mp h with h | h
    · rcases mem_map.mp h with ⟨_, -, rfl⟩
      exact Or.inl hcall
    · grind

theorem nameOf_isSome {id name : String} {calls : List (String × String)}
    (h : (id, name) ∈ calls) : (nameOf calls id).isSome = true := by
  rw [nameOf, lookup_isSome_iff]
  exact ⟨(id, name), mem_reverse.mpr h, beq_self_eq_true id⟩

end Answers

section Turns

variable (parse : String → Option Json) (names : List (String × String))

/-- The results that have been rendered, with those that wait. -/
def written (turns : GeminiTurns) : List (Option String × Option String) :=
  turns.contents.flatMap turnResponses ++ turns.pendingFnResponses.filterMap responseOf

def rendered (r : String × String) : Option String × Option String :=
  (names.lookup r.1, some r.2)

theorem written_flush (turns : GeminiTurns) :
    written (flushGeminiToolResults turns) = written turns
      ∧ (flushGeminiToolResults turns).pendingFnResponses = [] := by
  unfold flushGeminiToolResults
  split_ifs with h
  · exact ⟨rfl, h⟩
  · refine ⟨?_, rfl⟩
    simp [written, turnResponses, arrayField, Json.get, lookup_cons, Json.asArray]

theorem turnResponses_geminiParts (role : String) (parts : List ContentPart) :
    turnResponses (.object [("role", .string role), ("parts", Outbound.geminiParts parse parts)])
      = [] := by
  have hparts : turnResponses (.object [("role", .string role),
      ("parts", Outbound.geminiParts parse parts)])
        = (parts.filterMap (geminiPart parse)).filterMap responseOf :=
    rfl
  rw [hparts, filterMap_filterMap, filterMap_eq_nil_iff]
  intro p _
  cases p <;> rfl

theorem emits_geminiSystemPart : Emits geminiSystemPart (fun p => ∃ text, p = .text text) written
    (fun _ => []) := by
  constructor
  · rintro turns _ ⟨text, rfl⟩
    exact ⟨_, rfl⟩
  · intro turns p turns' h
    cases p with
    | text text =>
      cases h
      exact ⟨⟨text, rfl⟩, (append_nil _).symm⟩
    | _ => cases h

theorem emits_geminiToolPart : Emits (geminiToolPart names)
    (fun p => ∀ r, resultOf p = some r → (names.lookup r.1).isSome = true) written
    (fun p => (resultOf p).toList.map (rendered names)) := by
  constructor
  · intro turns p hgood
    cases p with
    | toolResult toolCallId content =>
      rcases Option.isSome_iff_exists.mp (hgood (toolCallId, content) rfl) with ⟨name, hname⟩
      simp only [geminiToolPart, hname]
      exact ⟨_, rfl⟩
    | _ => exact ⟨turns, rfl⟩
  · intro turns p turns' h
    cases p with
    | toolResult toolCallId content =>
      unfold geminiToolPart at h
      cases hname : names.lookup toolCallId with
      | none =>
        simp only [hname] at h
        cases h
      | some name =>
        simp only [hname] at h
        cases h
        refine ⟨?_, ?_⟩
        · rintro _ ⟨⟩
          rw [hname]
          rfl
        · simp [written, resultOf, rendered, hname, functionResponse, responseOf, Json.get,
            lookup_cons, strField, Json.asStr]
    | _ =>
      cases h
      refine ⟨?_, (append_nil _).symm⟩
      rintro r ⟨⟩

structure Renders (m : CanonicalMessage) : Prop where
  system : m.role = .system → ∀ p ∈ m.content, ∃ text, p = .text text
  tool : m.role = .tool → ∀ r ∈ results m, (names.lookup r.1).isSome = true

theorem emits_geminiMessage : Emits (geminiMessage parse names) (Renders names) written
    (fun m => if m.role = .tool then (results m).map (rendered names) else []) := by
  have hsystem := emits_geminiSystemPart.loop
  have htool := (emits_geminiToolPart names).loop
  have hresults : ∀ m : CanonicalMessage,
      (∀ p ∈ m.content, ∀ r, resultOf p = some r → (names.lookup r.1).isSome = true)
        ↔ ∀ r ∈ results m, (names.lookup r.1).isSome = true := by
    intro m
    simp only [results, mem_filterMap]
    exact ⟨fun h r ⟨p, hp, hr⟩ => h p hp r hr, fun h p hp r hr => h r ⟨p, hp, hr⟩⟩
  have hflush : ∀ turns, written (flushGeminiToolResults turns) = written turns :=
    fun turns => (written_flush turns).1
  constructor
  · rintro turns ⟨role, content⟩ ⟨hsys, hres⟩
    cases role with
    | system => exact hsystem.total _ content (hsys rfl)
    | tool => exact htool.total _ content ((hresults ⟨.tool, content⟩).mpr (hres rfl))
    | _ => exact ⟨_, rfl⟩
  · rintro turns ⟨role, content⟩ turns' h
    cases role with
    | system =>
      rcases hsystem.only _ content turns' h with ⟨hgood, hout⟩
      refine ⟨⟨fun _ => hgood, ?_⟩, ?_⟩
      · rintro ⟨⟩
      · rw [hout, flatMap_eq_nil_iff.mpr (fun _ _ => rfl)]
        simp [hflush]
    | tool =>
      rcases htool.only _ content turns' h with ⟨hgood, hout⟩
      refine ⟨⟨?_, fun _ => (hresults ⟨.tool, content⟩).mp hgood⟩, ?_⟩
      · rintro ⟨⟩
      · rw [hout]
        simp [results, filterMap_eq_flatMap_toList, map_flatMap]
    | _ =>
      cases h
      refine ⟨⟨?_, ?_⟩, ?_⟩
      · rintro ⟨⟩
      · rintro ⟨⟩
      · rw [← hflush turns]
        simp [written, turnResponses_geminiParts]

theorem functionResponses_geminiBody (req : LlmRequest) (turns : GeminiTurns) :
    functionResponses (geminiBody req (flushGeminiToolResults turns)) = written turns := by
  have hflush := written_flush turns
  rw [← hflush.1, written, hflush.2, filterMap_nil, append_nil]
  rfl

theorem renderGemini_spec (req : LlmRequest) (expected : List (Option String × Option String)) :
    (∃ body, renderGemini parse req = .ok body ∧ functionResponses body = expected)
      ↔ req.sampling.reasoningEffort = none
        ∧ (∀ m ∈ req.messages, Renders (toolCallNames req.messages) m)
        ∧ req.messages.flatMap (fun m => if m.role = .tool
          then (results m).map (rendered (toolCallNames req.messages)) else []) = expected := by
  have hloop := emits_geminiMessage parse (toolCallNames req.messages)
  unfold renderGemini
  constructor
  · rintro ⟨body, hbody, hexpected⟩
    split_ifs at hbody with heffort
    cases hrun : req.messages.foldlM
        (geminiMessage parse (toolCallNames req.messages)) {} with
    | error e =>
      rw [hrun] at hbody
      cases hbody
    | ok turns =>
      rw [hrun] at hbody
      cases hbody
      refine ⟨by simpa using heffort, (hloop.isOk_iff _ _).mp ⟨turns, hrun⟩, ?_⟩
      rw [← hexpected, functionResponses_geminiBody, hloop.wrote hrun]
      rfl
  · rintro ⟨heffort, hrenders, hexpected⟩
    rcases (hloop.isOk_iff _ {}).mpr hrenders with ⟨turns, hrun⟩
    rw [if_neg (by simp [heffort]), hrun]
    refine ⟨_, rfl, ?_⟩
    rw [← hexpected, functionResponses_geminiBody, hloop.wrote hrun]
    rfl

end Turns

section Names

theorem results_of_length {messages : List CanonicalMessage}
    (h : (messages.flatMap results).length
      ≤ (messages.flatMap (fun m => if m.role = .tool then results m else [])).length) :
    ∀ m ∈ messages, m.role ≠ .tool → results m = [] := by
  have hle : ∀ rest : List CanonicalMessage,
      (rest.flatMap (fun m => if m.role = .tool then results m else [])).length
        ≤ (rest.flatMap results).length := by
    intro rest
    induction rest with
    | nil => exact Nat.le_refl 0
    | cons m rest ih => grind
  induction messages with
  | nil =>
    nofun
  | cons m rest ih => grind

theorem rendered_results (names : List (String × String)) {messages : List CanonicalMessage}
    (h : ∀ m ∈ messages, m.role ≠ .tool → results m = []) :
    messages.flatMap (fun m => if m.role = .tool then (results m).map (rendered names) else [])
      = (messages.flatMap results).map (rendered names) := by
  rw [map_flatMap]
  refine flatMap_congr (fun m hm => ?_)
  by_cases hrole : m.role = .tool
  · rw [if_pos hrole]
  · rw [if_neg hrole, h m hm hrole]
    rfl

/-- The results keep their functions, exactly if names are kept. -/
theorem renderGemini_names_iff (parse : String → Option Json) (req : LlmRequest)
    (h : Answerable req.messages) :
    (∃ body, renderGemini parse req = .ok body
      ∧ functionResponses body
        = (answered [] req.messages).map (fun r => (nameOf r.1 r.2.1, some r.2.2)))
      ↔ NamesKept req := by
  have hanswered : req.messages.flatMap results = (answered [] req.messages).map Prod.snd :=
    answered_results.symm
  -- Every result answers some call, so its name is found.
  have hfound : ∀ m ∈ req.messages, ∀ r ∈ results m,
      ((toolCallNames req.messages).lookup r.1).isSome = true := by
    intro m hm r hr
    have hmem : r ∈ (answered [] req.messages).map Prod.snd := by
      rw [← hanswered]
      exact mem_flatMap.mpr ⟨m, hm, hr⟩
    rcases mem_map.mp hmem with ⟨a, ha, rfl⟩
    rcases h a ha with ⟨name, hname⟩
    rcases answered_calls ha _ hname with hnil | hcall
    · cases hnil
    · exact nameOf_isSome hcall
  have hnames : (req.messages.flatMap results).map (rendered (toolCallNames req.messages))
      = (answered [] req.messages).map (fun r => (nameOf r.1 r.2.1, some r.2.2))
        ↔ ∀ r ∈ answered [] req.messages,
          nameOf (req.messages.flatMap calls) r.2.1 = nameOf r.1 r.2.1 := by
    rw [hanswered, map_map, map_inj_left]
    simp only [Function.comp_apply, rendered, Prod.mk.injEq, and_true]
    rfl
  rw [renderGemini_spec]
  constructor
  · rintro ⟨heffort, hrenders, heq⟩
    have hroles : ∀ m ∈ req.messages, m.role ≠ .tool → results m = [] := by
      refine results_of_length ?_
      have hlength := congrArg List.length heq
      rw [length_map] at hlength
      rw [hanswered, length_map, ← hlength]
      refine Nat.le_of_eq ?_
      rw [length_flatMap, length_flatMap]
      congr 1
      refine map_congr_left (fun m _ => ?_)
      split_ifs <;> simp
    refine ⟨heffort, fun m hm => (hrenders m hm).system, hroles, hnames.mp ?_⟩
    rw [← heq, rendered_results _ hroles]
  · intro hkept
    refine ⟨hkept.effort, ?_, ?_⟩
    · intro m hm
      exact ⟨hkept.system m hm, fun _ => hfound m hm⟩
    · rw [rendered_results _ hkept.roles]
      exact hnames.mpr hkept.names

def talk (messages : List CanonicalMessage) : LlmRequest :=
  { inboundSurface := .chatCompletions, modelRequested := "m", messages := messages, sampling := {},
    tools := [], toolChoice := none, parallelToolCalls := none, responseFormat := none,
    previousResponseId := none, store := none, stream := false }

def toolTurn (id name content : String) : List CanonicalMessage :=
  [{ role := .assistant, content := [.toolUse id name "\x7b\x7d"] },
    { role := .tool, content := [.toolResult id content] }]

def freshIds : LlmRequest :=
  talk (toolTurn "call_0" "search" "found" ++ toolTurn "call_1" "fetch" "page")

theorem renderGemini_names_fresh :
    ∃ body, renderGemini (fun _ => none) freshIds = .ok body
      ∧ functionResponses body = [(some "search", some "found"), (some "fetch", some "page")] := by
  have hanswered : answered [] freshIds.messages
      = [([("call_0", "search")], "call_0", "found"), ([("call_1", "fetch")], "call_1", "page")] :=
    rfl
  refine (renderGemini_names_iff _ freshIds ?_).mpr ⟨rfl, ?_, ?_, ?_⟩
  · intro r hr
    rw [hanswered, mem_cons, mem_singleton] at hr
    rcases hr with rfl | rfl
    · exact ⟨"search", mem_singleton_self _⟩
    · exact ⟨"fetch", mem_singleton_self _⟩
  · simp [freshIds, talk, toolTurn]
  · simp [freshIds, talk, toolTurn, results, resultOf]
  · intro r hr
    rw [hanswered, mem_cons, mem_singleton] at hr
    rcases hr with rfl | rfl <;> rfl

def reusedId : LlmRequest :=
  talk (toolTurn "call_0" "search" "found" ++ toolTurn "call_0" "fetch" "page")

/-- The first result is sent as one of the second function. -/
theorem renderGemini_names_reused :
    Answerable reusedId.messages
      ∧ ∃ body, renderGemini (fun _ => none) reusedId = .ok body
        ∧ functionResponses body = [(some "fetch", some "found"), (some "fetch", some "page")]
        ∧ (answered [] reusedId.messages).map (fun r => (nameOf r.1 r.2.1, some r.2.2))
          = [(some "search", some "found"), (some "fetch", some "page")] := by
  have hanswered : answered [] reusedId.messages
      = [([("call_0", "search")], "call_0", "found"), ([("call_0", "fetch")], "call_0", "page")] :=
    rfl
  refine ⟨?_, _, rfl, rfl, rfl⟩
  intro r hr
  rw [hanswered, mem_cons, mem_singleton] at hr
  rcases hr with rfl | rfl
  · exact ⟨"search", mem_singleton_self _⟩
  · exact ⟨"fetch", mem_singleton_self _⟩

end Names

end Waygate.Llm
