import Waygate.Theory.Llm.ResponsesItems

/-!
# Responses Requests There and Back

A request that was read from a Responses body is rendered to one, and that is read
again. The conversation comes back when the system speaks first, once and in one text,
no message of the user is empty, and in each turn the assistant reasons, then speaks,
then calls.

## Main definitions

* `Parsed`
* `Reads`: A body and its fields.

## Theorems

* `read_responsesBody`, `parse_responsesBody`, `parse_render_iff`
* `parseMessages_spec`: The messages of a body.
-/

namespace Waygate.Llm

open Inbound Outbound Loop List
open Json (ofNat)

section Fields

/-- The conversation in a body, as far as its order matters. -/
def bodyKinds (body : Json) : List PieceKind :=
  ((strField body "instructions").map (fun _ => PieceKind.system true)).toList
    ++ match body.get "input" with
      | some (.string _) => [.user false]
      | some (.array items) => items.flatMap itemKinds
      | _ => []

structure Reads (S : Serde) (fields : List (String × Json)) (req : ResponsesReq) : Prop where
  model : (fields.lookup "model").bind Json.asStr = some req.model
  input : optionalField readInput (fields.lookup "input") = some req.input
  instructions : optionalField Json.asStr (fields.lookup "instructions") = some req.instructions
  temperature : ∃ t, optionalField literalOf (fields.lookup "temperature") = some t
    ∧ req.temperature = t.map S.nearest
  topP : ∃ p, optionalField literalOf (fields.lookup "top_p") = some p
    ∧ req.topP = p.map S.nearest
  maxOutputTokens : optionalField Json.asU64 (fields.lookup "max_output_tokens")
    = some req.maxOutputTokens
  reasoning : optionalField some (fields.lookup "reasoning") = some req.reasoning
  text : optionalField some (fields.lookup "text") = some req.text
  tools : optionalField Json.asArray (fields.lookup "tools") = some req.tools
  toolChoice : optionalField some (fields.lookup "tool_choice") = some req.toolChoice
  parallelToolCalls : optionalField asBool (fields.lookup "parallel_tool_calls")
    = some req.parallelToolCalls
  previousResponseId : optionalField Json.asStr (fields.lookup "previous_response_id")
    = some req.previousResponseId
  store : optionalField asBool (fields.lookup "store") = some req.store
  stream : readStream (fields.lookup "stream") = some req.stream
  rest : fields.filter (fun field => !responsesFields.contains field.1) = req.rest

theorem readResponsesReq_eq_some {S : Serde} {body : Json} {req : ResponsesReq} :
    readResponsesReq S body = some req
      ↔ ∃ fields, body = .object fields ∧ Reads S fields req := by
  constructor
  · intro h
    rcases Option.bind_eq_some_iff.mp h with ⟨fields, hfields, h⟩
    rcases Option.bind_eq_some_iff.mp h with ⟨model, hmodel, h⟩
    rcases Option.bind_eq_some_iff.mp h with ⟨input, hinput, h⟩
    rcases Option.bind_eq_some_iff.mp h with ⟨instructions, hinstructions, h⟩
    rcases Option.bind_eq_some_iff.mp h with ⟨temperature, htemperature, h⟩
    rcases Option.bind_eq_some_iff.mp h with ⟨topP, htopP, h⟩
    rcases Option.bind_eq_some_iff.mp h with ⟨maxTokens, hmaxTokens, h⟩
    rcases Option.bind_eq_some_iff.mp h with ⟨reasoning, hreasoning, h⟩
    rcases Option.bind_eq_some_iff.mp h with ⟨text, htext, h⟩
    rcases Option.bind_eq_some_iff.mp h with ⟨tools, htools, h⟩
    rcases Option.bind_eq_some_iff.mp h with ⟨toolChoice, htoolChoice, h⟩
    rcases Option.bind_eq_some_iff.mp h with ⟨parallel, hparallel, h⟩
    rcases Option.bind_eq_some_iff.mp h with ⟨previous, hprevious, h⟩
    rcases Option.bind_eq_some_iff.mp h with ⟨store, hstore, h⟩
    rcases Option.bind_eq_some_iff.mp h with ⟨stream, hstream, h⟩
    cases h
    exact ⟨fields, asObject_eq_some.mp hfields, hmodel, hinput, hinstructions,
      ⟨temperature, htemperature, rfl⟩, ⟨topP, htopP, rfl⟩, hmaxTokens, hreasoning, htext, htools,
      htoolChoice, hparallel, hprevious, hstore, hstream, rfl⟩
  · rintro ⟨fields, rfl, h⟩
    rcases h.temperature with ⟨t, ht, htemperature⟩
    rcases h.topP with ⟨p, hp, htopP⟩
    unfold readResponsesReq
    refine Option.bind_eq_some_iff.mpr ⟨_, rfl, ?_⟩
    refine Option.bind_eq_some_iff.mpr ⟨_, h.model, ?_⟩
    refine Option.bind_eq_some_iff.mpr ⟨_, h.input, ?_⟩
    refine Option.bind_eq_some_iff.mpr ⟨_, h.instructions, ?_⟩
    refine Option.bind_eq_some_iff.mpr ⟨_, ht, ?_⟩
    refine Option.bind_eq_some_iff.mpr ⟨_, hp, ?_⟩
    refine Option.bind_eq_some_iff.mpr ⟨_, h.maxOutputTokens, ?_⟩
    refine Option.bind_eq_some_iff.mpr ⟨_, h.reasoning, ?_⟩
    refine Option.bind_eq_some_iff.mpr ⟨_, h.text, ?_⟩
    refine Option.bind_eq_some_iff.mpr ⟨_, h.tools, ?_⟩
    refine Option.bind_eq_some_iff.mpr ⟨_, h.toolChoice, ?_⟩
    refine Option.bind_eq_some_iff.mpr ⟨_, h.parallelToolCalls, ?_⟩
    refine Option.bind_eq_some_iff.mpr ⟨_, h.previousResponseId, ?_⟩
    refine Option.bind_eq_some_iff.mpr ⟨_, h.store, ?_⟩
    refine Option.bind_eq_some_iff.mpr ⟨_, h.stream, ?_⟩
    rw [h.rest, ← htemperature, ← htopP]
    rfl

theorem lookup_present {fields : List (String × Option Json)}
    (h : (fields.map Prod.fst).Nodup) (key : String) :
    (present fields).lookup key = (fields.lookup key).join := by
  induction fields with
  | nil => rfl
  | cons field rest ih =>
    rcases field with ⟨name, value⟩
    rw [map_cons, nodup_cons] at h
    have hrest := ih h.2
    have hcons : present ((name, value) :: rest)
        = (value.map (fun v => (name, v))).toList ++ present rest := by
      cases value <;> rfl
    rw [hcons, lookup_append, hrest]
    by_cases hkey : key = name
    · subst hkey
      have hnone : rest.lookup key = none := by grind
      cases value <;> simp [hnone]
    · have hbeq : (key == name) = false := beq_false_of_ne hkey
      cases value <;> simp [lookup_cons, hbeq]

theorem read_present {α : Type} {fields : List (String × Option Json)}
    (hnodup : (fields.map Prod.fst).Nodup) (key : String) {read : Json → Option α} {f : α → Json}
    {o : Option α} (hkey : fields.lookup key = some (o.map f))
    (h : ∀ a ∈ o, optionalField read (some (f a)) = some (some a)) :
    optionalField read ((present fields).lookup key) = some o := by
  rw [lookup_present hnodup, hkey]
  cases o with
  | none => rfl
  | some a => exact h a rfl

def reread (S : Serde) (req : LlmRequest) (model : String) (turns : ResponsesTurns) :
    ResponsesReq :=
  { model
    input := some (.items turns.input)
    instructions := if turns.systemChunks = [] then none
      else some ("\n\n".intercalate turns.systemChunks)
    temperature := req.sampling.temperature.map S.nearest
    topP := req.sampling.topP.map S.nearest
    maxOutputTokens := req.sampling.maxTokens
    reasoning := req.sampling.reasoningEffort.map (fun effort =>
      .object [("effort", .string effort)])
    text := req.responseFormat.map responsesTextFormat
    tools := if req.tools.isEmpty then none else some (req.tools.map responsesTool)
    toolChoice := if req.tools.isEmpty then none else req.toolChoice.map responsesToolChoice
    parallelToolCalls := req.parallelToolCalls
    previousResponseId := req.previousResponseId
    store := req.store
    stream := req.stream
    rest := [] }

/-- Every field that is rendered is read again. -/
theorem read_responsesBody (S : Serde) (req : LlmRequest) (model : String)
    (turns : ResponsesTurns) (hmax : ∀ n ∈ req.sampling.maxTokens, n < 2 ^ 64) :
    readResponsesReq S (responsesBody req model turns) = some (reread S req model turns) := by
  have hnodup : ((responsesBodyFields req model turns).map Prod.fst).Nodup := by
    simp [responsesBodyFields]
  have hrest : (present (responsesBodyFields req model turns)).filter
      (fun field => !responsesFields.contains field.1) = [] := by
    rw [filter_eq_nil_iff]
    intro field hfield
    rcases mem_filterMap.mp hfield with ⟨⟨name, value⟩, hmem, hvalue⟩
    rcases Option.map_eq_some_iff.mp hvalue with ⟨v, -, rfl⟩
    have hsubset : ∀ key ∈ (responsesBodyFields req model turns).map Prod.fst,
        responsesFields.contains key = true := by
      simp [responsesBodyFields, responsesFields]
    simpa using hsubset name (mem_map.mpr ⟨_, hmem, rfl⟩)
  refine readResponsesReq_eq_some.mpr ⟨_, rfl, ?_⟩
  refine ⟨?_, ?_, ?_, ⟨req.sampling.temperature, ?_, rfl⟩, ⟨req.sampling.topP, ?_, rfl⟩, ?_, ?_,
    ?_, ?_, ?_, ?_, ?_, ?_, ?_, hrest⟩
  · rw [lookup_present hnodup]
    rfl
  · rw [lookup_present hnodup]
    rfl
  · refine read_present hnodup "instructions" (f := .string) ?_ (fun _ _ => rfl)
    change some (if turns.systemChunks = [] then none else _)
      = some (Option.map Json.string (if turns.systemChunks = [] then none else _))
    split_ifs <;> rfl
  · exact read_present hnodup "temperature" rfl (fun _ _ => rfl)
  · exact read_present hnodup "top_p" rfl (fun _ _ => rfl)
  · refine read_present hnodup "max_output_tokens" rfl (fun n hn => ?_)
    exact congrArg (Option.map some) (Json.asU64_ofNat (hmax n hn))
  · rw [lookup_present hnodup]
    change optionalField some (req.sampling.reasoningEffort.map _)
      = some (req.sampling.reasoningEffort.map _)
    cases req.sampling.reasoningEffort <;> rfl
  · rw [lookup_present hnodup]
    change optionalField some (req.responseFormat.map responsesTextFormat)
      = some (req.responseFormat.map responsesTextFormat)
    cases req.responseFormat <;> rfl
  · rw [lookup_present hnodup]
    change optionalField Json.asArray (if req.tools.isEmpty then none else _)
      = some (if req.tools.isEmpty then none else _)
    split_ifs <;> rfl
  · rw [lookup_present hnodup]
    change optionalField some (if req.tools.isEmpty then none else _)
      = some (if req.tools.isEmpty then none else _)
    split_ifs
    · rfl
    · cases req.toolChoice with
      | none => rfl
      | some tc => cases tc <;> rfl
  · exact read_present hnodup "parallel_tool_calls" rfl (fun _ _ => rfl)
  · exact read_present hnodup "previous_response_id" rfl (fun _ _ => rfl)
  · exact read_present hnodup "store" rfl (fun _ _ => rfl)
  · rw [lookup_present hnodup]
    change readStream (if req.stream then _ else none) = some req.stream
    cases req.stream <;> rfl

end Fields

section Settings

theorem parse_responsesTool {t : CanonicalTool} (h : t.name ≠ STRUCTURED_OUTPUT_TOOL_NAME) :
    parseResponsesTool (responsesTool t) = .ok t := by
  rcases t with ⟨name, description, parameters, strict⟩
  cases description <;> cases strict <;>
    · change (if name = STRUCTURED_OUTPUT_TOOL_NAME then _ else _) = _
      rw [if_neg h]
      rfl

theorem parse_responsesTextFormat (rf : ResponseFormat) :
    parseResponsesTextFormat (responsesTextFormat rf) = .ok (some rf) := by
  cases rf with
  | jsonObject => rfl
  | jsonSchema name description strict schema =>
    cases description <;> cases strict <;> rfl

theorem parse_responsesToolChoice (tc : ToolChoice) :
    parseResponsesToolChoice (responsesToolChoice tc) = .ok tc := by
  cases tc <;> rfl

/-- What is known of the settings of a request that was read. -/
structure Parsed (S : Serde) (r : LlmRequest) : Prop where
  surface : r.inboundSurface = .responses
  model : trim r.modelRequested ≠ ""
  temperature : r.sampling.temperature.map S.nearest = r.sampling.temperature
  topP : r.sampling.topP.map S.nearest = r.sampling.topP
  maxTokens : ∀ n ∈ r.sampling.maxTokens, n < 2 ^ 64
  stop : r.sampling.stop = []
  seed : r.sampling.seed = none
  tools : ∀ t ∈ r.tools, t.name ≠ STRUCTURED_OUTPUT_TOOL_NAME
  toolChoice : r.toolChoice.isSome = true → r.tools ≠ []

/-- A rendered body is read as the request, with the messages that its items give. -/
theorem parse_responsesBody {S : Serde} {r : LlmRequest} (h : Parsed S r) (turns : ResponsesTurns) :
    parseResponses S (responsesBody r r.modelRequested turns)
      = (parseResponsesMessages (reread S r r.modelRequested turns)).map
        (fun messages => { r with messages := messages }) := by
  have hread : required (S.message (responsesBody r r.modelRequested turns))
      (readResponsesReq S (responsesBody r r.modelRequested turns))
      = .ok (reread S r r.modelRequested turns) := by
    rw [read_responsesBody S r r.modelRequested turns h.maxTokens]
    rfl
  have hcheck : checkResponsesReq (reread S r r.modelRequested turns) = .ok () := by
    unfold checkResponsesReq
    rw [if_neg (show trim (reread S r r.modelRequested turns).model ≠ "" from h.model)]
    rfl
  have heffort : optionally parseResponsesReasoning (reread S r r.modelRequested turns).reasoning
      = .ok (r.sampling.reasoningEffort.map some) := by
    change optionally parseResponsesReasoning (r.sampling.reasoningEffort.map _) = _
    cases r.sampling.reasoningEffort <;> rfl
  have hformat : optionally parseResponsesTextFormat (reread S r r.modelRequested turns).text
      = .ok (r.responseFormat.map some) := by
    change optionally parseResponsesTextFormat (r.responseFormat.map responsesTextFormat) = _
    cases r.responseFormat with
    | none => rfl
    | some rf => exact congrArg (Except.map some) (parse_responsesTextFormat rf)
  have htools : ((reread S r r.modelRequested turns).tools.getD []).mapM parseResponsesTool
      = .ok r.tools := by
    change ((if r.tools.isEmpty then none else some (r.tools.map responsesTool)).getD []).mapM
      parseResponsesTool = _
    have hlist : (if r.tools.isEmpty then none else some (r.tools.map responsesTool)).getD []
        = r.tools.map responsesTool := by
      cases r.tools <;> rfl
    rw [hlist, mapM_eq_ok, List.forall₂_map_left_iff, List.forall₂_same]
    exact fun t ht => parse_responsesTool (h.tools t ht)
  have hchoice : optionally parseResponsesToolChoice (reread S r r.modelRequested turns).toolChoice
      = .ok r.toolChoice := by
    change optionally parseResponsesToolChoice
      (if r.tools.isEmpty then none else r.toolChoice.map responsesToolChoice) = _
    cases htc : r.toolChoice with
    | none => cases r.tools.isEmpty <;> rfl
    | some tc =>
      have hne := h.toolChoice (by rw [htc]; rfl)
      rw [if_neg (by simpa using hne)]
      exact congrArg (Except.map some) (parse_responsesToolChoice tc)
  have hallowed : (r.toolChoice.isSome && r.tools.isEmpty) = false := by
    cases htc : r.toolChoice with
    | none => rfl
    | some tc => simpa [htc] using h.toolChoice (by rw [htc]; rfl)
  unfold parseResponses
  rw [hread, ok_bind, hcheck, ok_bind]
  cases hmessages : parseResponsesMessages (reread S r r.modelRequested turns) with
  | error e => rfl
  | ok messages =>
    rw [ok_bind, heffort, ok_bind, hformat, ok_bind, htools, ok_bind, hchoice, ok_bind, hallowed]
    have htemperature := h.temperature
    have htopP := h.topP
    have hsurface := h.surface
    have hstop := h.stop
    have hseed := h.seed
    rcases r with ⟨surface, model, messages', ⟨temperature, topP, maxTokens, stop, seed, effort⟩,
      tools, toolChoice, parallel, format, previous, store, stream⟩
    simp only at htemperature htopP hsurface hstop hseed
    subst hsurface hstop hseed
    simp only [reread, htemperature, htopP]
    cases effort <;> cases format <;> rfl

end Settings

section Messages

variable {req : ResponsesReq} {S : Serde}

theorem sound_instructions (instructions : Option String) :
    Sound { messages := instructionMessages instructions } := by
  have hone : ∀ m ∈ instructionMessages instructions, m.role = .system ∧ WellFormed m := by
    intro m hm
    rcases mem_map.mp (by rwa [instructionMessages, Option.toList_map] at hm) with
      ⟨text, -, rfl⟩
    exact ⟨rfl, by simp [WellFormed, textish]⟩
  have hlength : (instructionMessages instructions).length ≤ 1 := by
    cases instructions <;> simp [instructionMessages]
  refine ⟨⟨⟨?_, ?_⟩, ?_⟩, fun m hm => (hone m hm).2, fun p hp => by cases hp⟩
  · grind
  · cases instructions
    · exact isChain_nil
    · exact isChain_singleton _
  · intro m hm
    rw [(hone m (mem_of_getLast? hm)).1]
    simp

theorem kinds_instructions (instructions : Option String) :
    (pieces (instructionMessages instructions)).map Piece.kind
      = (instructions.map (fun _ => PieceKind.system true)).toList := by
  cases instructions <;> rfl

theorem parseMessages_spec {messages : List CanonicalMessage}
    (h : parseResponsesMessages req = .ok messages) :
    Grouped messages ∧ (∀ m ∈ messages, WellFormed m) ∧ messages ≠ []
      ∧ (pieces messages).map Piece.kind
        = (req.instructions.map (fun _ => PieceKind.system true)).toList
          ++ match req.input with
            | some (.text _) => [.user false]
            | some (.items items) => items.flatMap itemKinds
            | none => [] := by
  have hsound := sound_instructions req.instructions
  have hkinds := kinds_instructions req.instructions
  unfold parseResponsesMessages at h
  rw [bind_eq_ok] at h
  rcases h with ⟨_, hinput, h⟩
  split_ifs at h with hempty
  cases h
  have hne : messages ≠ [] := by simpa using hempty
  unfold inputMessages at hinput
  cases hreq : req.input with
  | none =>
    rw [hreq] at hinput
    cases hinput
    exact ⟨hsound.settled.grouped, hsound.messages, hne, by rw [hkinds, append_nil]⟩
  | some input =>
    rw [hreq] at hinput
    cases input with
    | text t =>
      cases hinput
      have huser : Sound (interrupt { messages := instructionMessages req.instructions }
          { role := .user, content := [.text t] }) :=
        hsound.interrupt (by simp) (by simp [WellFormed, textish])
      refine ⟨huser.settled.grouped, huser.messages, hne, ?_⟩
      simp only [pieces, flatMap_append, map_append] at hkinds ⊢
      rw [hkinds]
      rfl
    | items items =>
      have hspec := parse_input hsound hinput
      exact ⟨hspec.1, hspec.2.1, hne, by rw [hspec.2.2, hkinds]⟩

theorem bind_of_optionalField {α : Type} {read : Json → Option α} (hnull : read .null = none)
    {v : Option Json} {o : Option α} (h : optionalField read v = some o) : v.bind read = o := by
  cases v with
  | none =>
    cases h
    rfl
  | some j =>
    cases j with
    | null =>
      cases h
      exact hnull
    | _ =>
      rcases Option.map_eq_some_iff.mp h with ⟨a, ha, rfl⟩
      exact ha

theorem asU64_lt {j : Json} {n : Nat} (h : j.asU64 = some n) : n < 2 ^ 64 := by
  rw [Json.asU64, Option.filter_eq_some_iff] at h
  simpa using h.2

theorem parseTool_name {j : Json} {t : CanonicalTool} (h : parseResponsesTool j = .ok t) :
    t.name ≠ STRUCTURED_OUTPUT_TOOL_NAME := by
  unfold parseResponsesTool at h
  simp only [bind_eq_ok] at h
  rcases h with ⟨obj, -, _, -, _, -, name, -, h⟩
  split_ifs at h with hname
  simp only [bind_eq_ok] at h
  rcases h with ⟨description, -, strict, -, h⟩
  cases h
  exact hname

theorem Parsed.of_reads {fields : List (String × Json)} {messages : List CanonicalMessage}
    {effort : Option String} {format : Option ResponseFormat} {tools : List CanonicalTool}
    {toolChoice : Option ToolChoice} (hreads : Reads S fields req)
    (hcheck : checkResponsesReq req = .ok ())
    (htools : (req.tools.getD []).mapM parseResponsesTool = .ok tools)
    (hchoice : ¬ (toolChoice.isSome && tools.isEmpty) = true) :
    Parsed S
      { inboundSurface := .responses
        modelRequested := req.model
        messages := messages
        sampling := { temperature := req.temperature
                      topP := req.topP
                      maxTokens := req.maxOutputTokens
                      reasoningEffort := effort }
        tools := tools
        toolChoice := toolChoice
        parallelToolCalls := req.parallelToolCalls
        responseFormat := format
        previousResponseId := req.previousResponseId
        store := req.store
        stream := req.stream } := by
  have hnearest : ∀ t : Option String, (t.map S.nearest).map S.nearest = t.map S.nearest := by
    intro t
    rw [Option.map_map]
    exact congrArg (fun f => t.map f) (funext S.nearest_nearest)
  refine ⟨rfl, ?_, ?_, ?_, ?_, rfl, rfl, ?_, ?_⟩
  · grind [checkResponsesReq]
  · rcases hreads.temperature with ⟨t, -, ht⟩
    change req.temperature.map S.nearest = req.temperature
    rw [ht, hnearest]
  · rcases hreads.topP with ⟨p, -, hp⟩
    change req.topP.map S.nearest = req.topP
    rw [hp, hnearest]
  · intro n hn
    have hn : req.maxOutputTokens = some n := hn
    have hbind := bind_of_optionalField rfl hreads.maxOutputTokens
    rw [hn] at hbind
    rcases Option.bind_eq_some_iff.mp hbind with ⟨j, -, hj⟩
    exact asU64_lt hj
  · intro t ht
    rcases exists_of_mapM htools ht with ⟨j, -, hj⟩
    exact parseTool_name hj
  · grind

theorem bodyKinds_of_reads {fields : List (String × Json)} (h : Reads S fields req) :
    bodyKinds (.object fields) = (req.instructions.map (fun _ => PieceKind.system true)).toList
      ++ match req.input with
        | some (.text _) => [.user false]
        | some (.items items) => items.flatMap itemKinds
        | none => [] := by
  have hinstructions : strField (.object fields) "instructions" = req.instructions :=
    bind_of_optionalField rfl h.instructions
  have hinput : (fields.lookup "input").bind readInput = req.input :=
    bind_of_optionalField rfl h.input
  rw [bodyKinds, hinstructions, ← hinput]
  congr 1
  unfold Json.get
  simp only
  cases fields.lookup "input" with
  | none => rfl
  | some j => cases j <;> rfl

theorem parseResponses_spec {body : Json} {r : LlmRequest} (h : parseResponses S body = .ok r) :
    Parsed S r ∧ Grouped r.messages ∧ (∀ m ∈ r.messages, WellFormed m) ∧ r.messages ≠ []
      ∧ (pieces r.messages).map Piece.kind = bodyKinds body := by
  unfold parseResponses at h
  simp only [bind_eq_ok, required_eq_ok, readResponsesReq_eq_some] at h
  rcases h with ⟨req, ⟨fields, rfl, hreads⟩, _, hcheck, messages, hmessages, effort, -, format, -,
    tools, htools, toolChoice, -, h⟩
  split_ifs at h with hchoice
  cases h
  rcases parseMessages_spec hmessages with ⟨hgrouped, hwell, hne, hkinds⟩
  exact ⟨.of_reads hreads hcheck htools hchoice, hgrouped, hwell, hne,
    hkinds.trans (bodyKinds_of_reads hreads).symm⟩

end Messages

section Trip

theorem spoken_of_wellFormed {messages : List CanonicalMessage}
    (h : ∀ m ∈ messages, WellFormed m) : Spoken messages := by
  intro m hm hrole p hp
  have hwell := h m hm
  rcases m with ⟨role, content⟩
  cases hrole
  have hspeaks : Says p := hwell p hp
  cases p <;> simp [Says, isReasoning, textish, isCall] at hspeaks ⊢

theorem parse_replayed (S : Serde) (r : LlmRequest) (h : ∀ m ∈ r.messages, WellFormed m) :
    ∃ messages, Grouped messages ∧ pieces messages = replayed r.messages
      ∧ inputMessages (reread S r r.modelRequested
        { systemChunks := systemTexts r.messages
          input := r.messages.flatMap renderedItems }) = .ok messages := by
  have hsettled := (sound_instructions (if systemTexts r.messages = [] then none
    else some ("\n\n".intercalate (systemTexts r.messages)))).settled
  rcases parse_rendered h hsettled with ⟨turns, hrun, hturns, hsaid⟩
  refine ⟨(flushAssistant turns).messages, hturns.flush, ?_, ?_⟩
  · rw [said_flush, hsaid, replayed]
    congr 1
    split_ifs <;> rfl
  · change parseResponsesInput (r.messages.flatMap renderedItems) _ = _
    unfold parseResponsesInput
    rw [bind_eq_ok]
    exact ⟨turns, hrun, rfl⟩

theorem parse_rendered_body {S : Serde} {r : LlmRequest} (hparsed : Parsed S r)
    (hwell : ∀ m ∈ r.messages, WellFormed m) :
    ∃ messages, Grouped messages ∧ pieces messages = replayed r.messages
      ∧ parseResponses S (responsesBody r r.modelRequested
          { systemChunks := systemTexts r.messages, input := r.messages.flatMap renderedItems })
        = if messages.isEmpty then
            .error (.invalid "a Responses request must carry `input` or `instructions`")
          else .ok { r with messages := messages } := by
  rcases parse_replayed S r hwell with ⟨messages, hmessages, hpieces, hinput⟩
  refine ⟨messages, hmessages, hpieces, ?_⟩
  rw [parse_responsesBody hparsed, parseResponsesMessages, hinput, ok_bind]
  split_ifs <;> rfl

/-- The request comes back, exactly if the body is in turn order. -/
theorem parse_render_iff (S : Serde) (body : Json) (r : LlmRequest)
    (h : parseResponses S body = .ok r) :
    (∃ b, renderOpenaiResponses r r.modelRequested = .ok b ∧ parseResponses S b = .ok r)
      ↔ TurnOrder (bodyKinds body) := by
  rcases parseResponses_spec h with ⟨hparsed, hgrouped, hwell, hne, hkinds⟩
  have hspoken := spoken_of_wellFormed hwell
  rcases parse_rendered_body hparsed hwell with ⟨messages, hmessages, hpieces, hparse⟩
  rw [← hkinds, ← replays_iff hgrouped hspoken]
  unfold renderOpenaiResponses
  simp only [bind_eq_ok, render_messages hwell]
  constructor
  · rintro ⟨_, ⟨_, ⟨-, rfl⟩, hb⟩, hagain⟩
    cases hb
    -- What comes back are the replayed messages, and they are those of the request.
    have hsame := hparse.symm.trans hagain
    split_ifs at hsame
    have hsame : messages = r.messages := congrArg LlmRequest.messages (Except.ok.inj hsame)
    rw [hsame] at hpieces
    exact (replayed_eq_iff hgrouped hspoken).mp hpieces.symm
  · intro hreplays
    have hsame : messages = r.messages :=
      hmessages.pieces_inj hgrouped (hpieces.trans hreplays.replayed_eq)
    have hrendered : ∀ m ∈ r.messages, Rendered m := by
      intro m hm hrole p hp
      rcases hreplays.text m hm hrole with ⟨text, htext⟩
      rw [htext, mem_singleton] at hp
      exact ⟨text, hp⟩
    refine ⟨_, ⟨_, ⟨hrendered, rfl⟩, rfl⟩, hparse.trans ?_⟩
    rw [hsame, if_neg (by simpa using hne)]

def plainSerde : Serde :=
  { nearest := id, nearest_nearest := fun _ => rfl, message := fun _ => "" }

def reasoningItemOf (id : String) : Json :=
  .object [("type", .string "reasoning"), ("id", .string id), ("summary", .array [])]

def callItemOf (id : String) : Json :=
  .object [("type", .string "function_call"), ("call_id", .string id), ("name", .string "search"),
    ("arguments", .string "\x7b\x7d")]

def itemsBody (items : List Json) : Json :=
  .object [("model", .string "m"), ("input", .array items)]

/-- The request that such a body is read as, if the items are all of the assistant. -/
def turnRequest (content : List ContentPart) : LlmRequest :=
  { inboundSurface := .responses, modelRequested := "m",
    messages := [{ role := .assistant, content := content }], sampling := {}, tools := [],
    toolChoice := none, parallelToolCalls := none, responseFormat := none,
    previousResponseId := none, store := none, stream := false }

theorem parse_render_call :
    parseResponses plainSerde (itemsBody [reasoningItemOf "rs_1", callItemOf "c_1"])
      = .ok (turnRequest [.reasoning (reasoningItemOf "rs_1"), .toolUse "c_1" "search" "\x7b\x7d"])
    ∧ TurnOrder (bodyKinds (itemsBody [reasoningItemOf "rs_1", callItemOf "c_1"]))
    ∧ ∃ b, renderOpenaiResponses (turnRequest [.reasoning (reasoningItemOf "rs_1"),
          .toolUse "c_1" "search" "\x7b\x7d"]) "m" = .ok b
        ∧ parseResponses plainSerde b = .ok (turnRequest [.reasoning (reasoningItemOf "rs_1"),
          .toolUse "c_1" "search" "\x7b\x7d"]) := by
  have hparse : parseResponses plainSerde (itemsBody [reasoningItemOf "rs_1", callItemOf "c_1"])
      = .ok (turnRequest [.reasoning (reasoningItemOf "rs_1"),
        .toolUse "c_1" "search" "\x7b\x7d"]) :=
    rfl
  have hkinds : bodyKinds (itemsBody [reasoningItemOf "rs_1", callItemOf "c_1"])
      = [.reasoning, .call] :=
    rfl
  have horder : TurnOrder (bodyKinds (itemsBody [reasoningItemOf "rs_1", callItemOf "c_1"])) := by
    rw [hkinds]
    refine ⟨?_, ?_, ?_, ?_⟩
    · simp
    · simp
    · simp
    · simp [PieceKind.follows, PieceKind.rank]
  exact ⟨hparse, horder, (parse_render_iff _ _ _ hparse).mpr horder⟩

/-- A turn in which each call was reasoned about comes back in another order. -/
theorem parse_render_interleaved :
    ∃ r b r', parseResponses plainSerde (itemsBody [reasoningItemOf "rs_1", callItemOf "c_1",
        reasoningItemOf "rs_2", callItemOf "c_2"]) = .ok r
      ∧ renderOpenaiResponses r r.modelRequested = .ok b ∧ parseResponses plainSerde b = .ok r'
      ∧ r.messages.map (fun m => m.content.map partKind) = [[.reasoning, .call, .reasoning, .call]]
      ∧ r'.messages.map (fun m => m.content.map partKind)
        = [[.reasoning, .reasoning, .call, .call]] :=
  ⟨_, _, _, rfl, rfl, rfl, rfl, rfl⟩

end Trip

end Waygate.Llm
