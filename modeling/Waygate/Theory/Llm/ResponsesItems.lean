import Waygate.Theory.Llm.Turns
import Waygate.Theory.Loop.Emits

/-!
# Items of a Responses Request

What the parser makes of an item, and what it makes of the items that the renderer
writes. An item either adds parts to what the assistant is saying, or is a message of
someone else.

## Main definitions

* `WellFormed`: A message that was parsed.
* `renderedItems`: The items of a message.

## Theorems

* `parseResponsesItem_cases`, `parse_input`
* `parse_rendered`: Rendered items are read back.
* `render_messages`: What is rendered.
-/

namespace Waygate.Llm

open Inbound Outbound Loop List

section Readers

variable {α β : Type} {message : String}

theorem required_eq_ok {o : Option α} {a : α} : required message o = .ok a ↔ o = some a := by
  cases o <;> simp [required]

theorem asObject_eq_some {j : Json} {obj : List (String × Json)} :
    j.asObject = some obj ↔ j = .object obj := by
  cases j <;> simp [Json.asObject]

end Readers

section Kinds

def contentSize : Option Json → Nat
  | some (.string _) => 1
  | some (.array parts) => parts.length
  | _ => 0

def isTextPart (part : Json) : Bool :=
  strField part "type" = some "input_text" ∨ strField part "type" = some "output_text"

def contentOneText : Option Json → Bool
  | some (.string _) => true
  | some (.array [part]) => isTextPart part
  | _ => false

def messageKinds (role : Option String) (content : Option Json) : List PieceKind :=
  if role = some "assistant" then List.replicate (contentSize content) .text
  else if role = some "user" then [.user (contentSize content = 0)]
  else [.system (contentOneText content)]

def itemKinds (item : Json) : List PieceKind :=
  let type := (strField item "type").getD "message"
  if type = "function_call" then [.call]
  else if type = "function_call_output" then [.result]
  else if type = "reasoning" then [.reasoning]
  else messageKinds (strField item "role") (item.get "content")

end Kinds

section Items

variable {obj : List (String × Json)}

def ReasoningItem (raw : Json) : Prop :=
  ∃ obj, raw = .object obj ∧ obj.lookup "type" = some (.string "reasoning")

def Says : ContentPart → Prop
  | .reasoning raw => ReasoningItem raw
  | .toolResult .. => False
  | _ => True

def WellFormed (m : CanonicalMessage) : Prop :=
  match m.role with
  | .assistant => ∀ p ∈ m.content, Says p
  | .tool => ∃ id content, m.content = [.toolResult id content]
  | _ => ∀ p ∈ m.content, textish p = true

theorem parseContentPart_spec {part : Json} {p : ContentPart}
    (h : parseResponsesContentPart part = .ok p) :
    textish p = true ∧ partKind p = .text ∧ oneText [p] = isTextPart part := by
  unfold parseResponsesContentPart at h
  simp only [bind_eq_ok, required_eq_ok, asObject_eq_some] at h
  rcases h with ⟨obj, rfl, kind, hkind, h⟩
  have htype : strField (.object obj) "type" = some kind := hkind
  split_ifs at h with htext himage
  · simp only [bind_eq_ok] at h
    rcases h with ⟨_, -, text, -, h⟩
    cases h
    refine ⟨rfl, rfl, ?_⟩
    simpa [oneText, isTextPart, htype] using htext
  · simp only [bind_eq_ok] at h
    rcases h with ⟨_, -, url, -, h⟩
    cases h
    refine ⟨rfl, rfl, ?_⟩
    simp [oneText, isTextPart, htype, himage]

theorem parseContent_spec {content : Option Json} {parts : List ContentPart}
    (h : parseResponsesMessageContent content = .ok parts) :
    (∀ p ∈ parts, textish p = true) ∧ parts.length = contentSize content
      ∧ oneText parts = contentOneText content := by
  unfold parseResponsesMessageContent at h
  split at h
  · cases h
    simp [contentSize, contentOneText, oneText]
  · cases h
    simp [contentSize, contentOneText, oneText, textish]
  · rename_i items
    have hpair := mapM_eq_ok.mp h
    refine ⟨?_, hpair.length_eq.symm, ?_⟩
    · intro p hp
      rcases exists_of_mapM h hp with ⟨item, -, hitem⟩
      exact (parseContentPart_spec hitem).1
    · rcases hpair with _ | ⟨hfirst, _ | ⟨-, -⟩⟩
      · rfl
      · exact (parseContentPart_spec hfirst).2.2
      · simp [contentOneText, oneText]
  · cases h

theorem messageItem_cases (role : String) {content : Option Json} {parts : List ContentPart}
    (hcontent : parseResponsesMessageContent content = .ok parts) :
    (∃ e, ∀ turns, messageItem turns role parts = .error e)
      ∨ ((∀ p ∈ parts, Says p) ∧ parts.map partKind = messageKinds (some role) content
        ∧ ∀ turns, messageItem turns role parts
          = .ok { turns with pending := turns.pending ++ parts })
      ∨ (∃ m, m.role ≠ .assistant ∧ WellFormed m
        ∧ (messagePieces m).map Piece.kind = messageKinds (some role) content
        ∧ ∀ turns, messageItem turns role parts = .ok (interrupt turns m)) := by
  rcases parseContent_spec hcontent with ⟨htextish, hlength, hone⟩
  unfold messageItem messageKinds
  by_cases hassistant : role = "assistant"
  · right; left
    simp only [hassistant, if_true]
    refine ⟨?_, ?_, fun _ => trivial⟩
    · intro p hp
      have hp := htextish p hp
      cases p <;> trivial
    · rw [eq_replicate_iff]
      refine ⟨by rw [length_map, hlength], ?_⟩
      intro k hk
      rcases mem_map.mp hk with ⟨p, hp, rfl⟩
      have hp := htextish p hp
      cases p <;> first | rfl | cases hp
  by_cases huser : role = "user"
  · right; right
    refine ⟨⟨.user, parts⟩, by simp, htextish, ?_, ?_⟩
    · cases parts <;> simp [messagePieces, Piece.kind, huser, ← hlength]
    · intro turns
      simp only [huser]
      rfl
  by_cases hsystem : role = "system" ∨ role = "developer"
  · right; right
    refine ⟨⟨.system, parts⟩, by simp, htextish, ?_, ?_⟩
    · simp [messagePieces, Piece.kind, hassistant, huser, hone]
    · intro turns
      simp only [if_neg hassistant, if_neg huser, if_pos hsystem]
      rfl
  · left
    simp only [if_neg hassistant, if_neg huser, if_neg hsystem]
    exact ⟨_, fun _ => rfl⟩

theorem itemKind_eq_ok {kind : String} (h : itemKind obj = .ok kind) :
    (strField (.object obj) "type").getD "message" = kind
      ∧ (kind ≠ "message" → obj.lookup "type" = some (.string kind)) := by
  unfold itemKind at h
  cases htype : obj.lookup "type" with
  | none =>
    simp only [htype] at h
    split_ifs at h
    cases h
    simp [strField, Json.get, htype]
  | some v =>
    simp only [htype] at h
    cases v with
    | string s =>
      cases h
      simp [strField, Json.get, htype, Json.asStr]
    | _ => cases h

theorem parseFunctionCall_spec {call : ContentPart} (h : parseResponsesFunctionCall obj = .ok call)
    :
    Says call ∧ partKind call = .call := by
  unfold parseResponsesFunctionCall at h
  simp only [bind_eq_ok] at h
  rcases h with ⟨_, -, id, -, name, -, h⟩
  cases h
  exact ⟨trivial, rfl⟩

theorem parseFunctionCallOutput_spec {m : CanonicalMessage}
    (h : parseResponsesFunctionCallOutput obj = .ok m) : m.role = .tool ∧ WellFormed m := by
  unfold parseResponsesFunctionCallOutput at h
  simp only [bind_eq_ok] at h
  rcases h with ⟨_, -, id, -, content, -, h⟩
  cases h
  exact ⟨rfl, id, content, rfl⟩

/-- What an item can do. -/
theorem parseResponsesItem_cases (item : Json) :
    (∃ e, ∀ turns, parseResponsesItem turns item = .error e)
      ∨ (∃ parts, (∀ p ∈ parts, Says p) ∧ parts.map partKind = itemKinds item
        ∧ ∀ turns, parseResponsesItem turns item
          = .ok { turns with pending := turns.pending ++ parts })
      ∨ (∃ m, m.role ≠ .assistant ∧ WellFormed m
        ∧ (messagePieces m).map Piece.kind = itemKinds item
        ∧ ∀ turns, parseResponsesItem turns item = .ok (interrupt turns m)) := by
  cases item with
  | object obj =>
    unfold parseResponsesItem itemKinds
    simp only [Json.asObject, required, ok_bind]
    cases hkind : itemKind obj with
    | error e => exact Or.inl ⟨e, fun _ => rfl⟩
    | ok kind =>
      simp only [ok_bind, (itemKind_eq_ok hkind).1]
      by_cases hmessage : kind = "message"
      · simp only [hmessage, String.reduceEq, if_false, if_true]
        cases hreject : rejectExtraKeysResponses obj ["type", "role", "content", "id", "status"]
            "message" with
        | error e => exact Or.inl ⟨e, fun _ => rfl⟩
        | ok _ =>
          simp only [ok_bind]
          cases hrole : (obj.lookup "role").bind Json.asStr with
          | none => exact Or.inl ⟨_, fun _ => rfl⟩
          | some role =>
            have hrole : strField (.object obj) "role" = some role := hrole
            simp only [ok_bind, hrole]
            cases hcontent : parseResponsesMessageContent (obj.lookup "content") with
            | error e => exact Or.inl ⟨e, fun _ => rfl⟩
            | ok parts =>
              rcases messageItem_cases role hcontent with h | h | h
              · exact Or.inl h
              · exact Or.inr (Or.inl ⟨parts, h⟩)
              · exact Or.inr (Or.inr h)
      by_cases hcall : kind = "function_call"
      · simp only [hcall, String.reduceEq, if_false, if_true]
        cases hparse : parseResponsesFunctionCall obj with
        | error e => exact Or.inl ⟨e, fun _ => rfl⟩
        | ok call =>
          rcases parseFunctionCall_spec hparse with ⟨hspeaks, hpart⟩
          refine Or.inr (Or.inl ⟨[call], by simpa using hspeaks, by simp [hpart], ?_⟩)
          exact fun _ => rfl
      by_cases hresult : kind = "function_call_output"
      · simp only [hresult, String.reduceEq, if_false, if_true]
        cases hparse : parseResponsesFunctionCallOutput obj with
        | error e => exact Or.inl ⟨e, fun _ => rfl⟩
        | ok m =>
          rcases parseFunctionCallOutput_spec hparse with ⟨hrole, hwell⟩
          refine Or.inr (Or.inr ⟨m, by simp [hrole], hwell, ?_, fun _ => rfl⟩)
          simp [messagePieces, hrole, Piece.kind]
      by_cases hreasoning : kind = "reasoning"
      · have htype := (itemKind_eq_ok hkind).2 hmessage
        rw [hreasoning] at htype
        simp only [hreasoning, String.reduceEq, if_false, if_true]
        refine Or.inr (Or.inl ⟨[.reasoning (.object obj)], ?_, rfl, fun _ => rfl⟩)
        simpa [Says, ReasoningItem] using htype
      · simp only [if_neg hmessage, if_neg hcall, if_neg hresult, if_neg hreasoning]
        exact Or.inl ⟨_, fun _ => rfl⟩
  | _ => exact Or.inl ⟨_, fun _ => rfl⟩

end Items

section Runs

variable {turns : InputTurns}

structure Sound (turns : InputTurns) : Prop where
  settled : Settled turns
  messages : ∀ m ∈ turns.messages, WellFormed m
  pending : ∀ p ∈ turns.pending, Says p

def Readable (item : Json) : Prop :=
  ∃ turns', parseResponsesItem { messages := [] } item = .ok turns'

theorem emits_parseResponsesItem :
    Emits parseResponsesItem Readable (fun turns => (said turns).map Piece.kind) itemKinds := by
  constructor
  · rintro turns item ⟨turns', hread⟩
    rcases parseResponsesItem_cases item with ⟨e, he⟩ | ⟨parts, -, -, hparts⟩ | ⟨m, -, -, -, hm⟩
    · rw [he] at hread
      cases hread
    · exact ⟨_, hparts turns⟩
    · exact ⟨_, hm turns⟩
  · intro turns item turns' h
    rcases parseResponsesItem_cases item with ⟨e, he⟩ | ⟨parts, -, hkinds, hparts⟩
      | ⟨m, -, -, hkinds, hm⟩
    · rw [he] at h
      cases h
    · rw [hparts] at h
      cases h
      refine ⟨⟨_, hparts _⟩, ?_⟩
      simp only [said_wait, map_append, ← hkinds, map_map]
      rfl
    · rw [hm] at h
      cases h
      refine ⟨⟨_, hm _⟩, ?_⟩
      simp [said_interrupt, hkinds]

theorem Sound.flush (h : Sound turns) :
    ∀ m ∈ (flushAssistant turns).messages, WellFormed m := by
  grind [Sound, flushAssistant, WellFormed]

theorem Sound.wait (h : Sound turns) {parts : List ContentPart} (hparts : ∀ p ∈ parts, Says p) :
    Sound { turns with pending := turns.pending ++ parts } := by
  refine ⟨h.settled.wait parts, h.messages, ?_⟩
  intro p hp
  rcases mem_append.mp hp with hp | hp
  · exact h.pending p hp
  · exact hparts p hp

theorem Sound.interrupt (h : Sound turns) {m : CanonicalMessage} (hrole : m.role ≠ .assistant)
    (hm : WellFormed m) : Sound (interrupt turns m) := by
  refine ⟨h.settled.interrupt hrole, ?_, ?_⟩
  · intro m' hm'
    rcases mem_append.mp hm' with hm' | hm'
    · exact h.flush m' hm'
    · rw [mem_singleton.mp hm']
      exact hm
  · intro p hp
    have hnil : (Llm.interrupt turns m).pending = [] := flush_pending turns
    rw [hnil] at hp
    cases hp

theorem Sound.item {turns' : InputTurns} {item : Json}
    (hitem : parseResponsesItem turns item = .ok turns') (h : Sound turns) : Sound turns' := by
  rcases parseResponsesItem_cases item with ⟨e, he⟩ | ⟨parts, hspeaks, -, hparts⟩
    | ⟨m, hrole, hwell, -, hm⟩
  · rw [he] at hitem
    cases hitem
  · rw [hparts] at hitem
    cases hitem
    exact h.wait hspeaks
  · rw [hm] at hitem
    cases hitem
    exact h.interrupt hrole hwell

/-- The messages that an input gives. -/
theorem parse_input {items : List Json} {messages messages' : List CanonicalMessage}
    (hsound : Sound { messages := messages })
    (h : parseResponsesInput items messages = .ok messages') :
    Grouped messages' ∧ (∀ m ∈ messages', WellFormed m)
      ∧ (pieces messages').map Piece.kind
        = (pieces messages).map Piece.kind ++ items.flatMap itemKinds := by
  unfold parseResponsesInput at h
  rw [bind_eq_ok] at h
  rcases h with ⟨turns, hrun, h⟩
  cases h
  have hturns : Sound turns := foldlM_invariant (fun _ _ _ => Sound.item) hrun hsound
  have hkinds := emits_parseResponsesItem.wrote hrun
  refine ⟨hturns.settled.flush, hturns.flush, ?_⟩
  rw [said_flush, hkinds]
  simp [said]

end Runs

section Rendered

def renderedItems (m : CanonicalMessage) : List Json :=
  match m.role with
  | .system => []
  | .user => responsesTurn m.content false
  | .assistant => responsesTurn m.content true
  | .tool => m.content.filterMap functionCallOutputItem

def replay (turns : InputTurns) (m : CanonicalMessage) : InputTurns :=
  match m.role with
  | .system => turns
  | .user => if m.content.isEmpty then turns else interrupt turns m
  | .assistant => { turns with pending := turns.pending ++ sorted m.content }
  | .tool => interrupt turns m

theorem said_replay (turns : InputTurns) (m : CanonicalMessage) :
    said (replay turns m) = said turns ++ replayedPieces m := by
  rcases m with ⟨role, content⟩
  cases role with
  | system => simp [replay, replayedPieces]
  | user =>
    cases content with
    | nil => simp [replay, replayedPieces]
    | cons p rest => simp [replay, replayedPieces, said_interrupt, messagePieces]
  | assistant => simp [replay, replayedPieces, said_wait]
  | tool => simp [replay, replayedPieces, said_interrupt, messagePieces]

theorem Settled.replay {turns : InputTurns} (h : Settled turns) (m : CanonicalMessage) :
    Settled (replay turns m) := by
  rcases m with ⟨role, content⟩
  cases role with
  | system => exact h
  | user =>
    unfold Llm.replay
    split_ifs
    · exact h
    · exact h.interrupt (by simp)
  | assistant => exact h.wait _
  | tool => exact h.interrupt (by simp)

theorem parse_content {parts : List ContentPart} (h : ∀ p ∈ parts, textish p = true)
    (assistant : Bool) :
    parseResponsesMessageContent (some (responsesContent parts assistant)) = .ok parts := by
  unfold responsesContent parseResponsesMessageContent
  simp only [mapM_eq_ok]
  induction parts with
  | nil => exact .nil
  | cons p rest ih =>
    have hrest := ih (fun q hq => h q (mem_cons_of_mem p hq))
    have hp := h p mem_cons_self
    cases p with
    | text text =>
      refine List.Forall₂.cons ?_ hrest
      cases assistant <;> rfl
    | imageUrl url => exact List.Forall₂.cons rfl hrest
    | _ => cases hp

theorem parse_message {parts : List ContentPart} (h : ∀ p ∈ parts, textish p = true)
    (assistant : Bool) (turns : InputTurns) :
    parseResponsesItem turns (.object [("type", .string "message"),
        ("role", .string (if assistant then "assistant" else "user")),
        ("content", responsesContent parts assistant)])
      = .ok (if assistant then { turns with pending := turns.pending ++ parts }
        else interrupt turns { role := .user, content := parts }) := by
  have hcontent := parse_content h assistant
  cases assistant
  · change (parseResponsesMessageContent (some (responsesContent parts false))
      >>= fun parts => messageItem turns "user" parts) = _
    rw [hcontent]
    rfl
  · change (parseResponsesMessageContent (some (responsesContent parts true))
      >>= fun parts => messageItem turns "assistant" parts) = _
    rw [hcontent]
    rfl

theorem parse_reasoning {raw : Json} (h : ReasoningItem raw) (turns : InputTurns) :
    parseResponsesItem turns raw
      = .ok { turns with pending := turns.pending ++ [.reasoning raw] } := by
  rcases h with ⟨obj, rfl, htype⟩
  have hkind : itemKind obj = .ok "reasoning" := by
    unfold itemKind
    rw [htype]
  unfold parseResponsesItem
  simp only [Json.asObject, required, ok_bind, hkind]
  rfl

theorem parse_reasonings {content : List ContentPart} (h : ∀ p ∈ content, Says p)
    (turns : InputTurns) :
    (content.filterMap reasoningItem).foldlM parseResponsesItem turns
      = .ok { turns with pending := turns.pending ++ content.filter isReasoning } := by
  induction content generalizing turns with
  | nil =>
    simp only [filterMap_nil, foldlM_nil, filter_nil, append_nil]
    rfl
  | cons p rest ih =>
    have hrest := ih (fun q hq => h q (mem_cons_of_mem p hq))
    cases p with
    | reasoning raw =>
      have hraw := parse_reasoning (h (.reasoning raw) mem_cons_self) turns
      simp only [filterMap_cons, reasoningItem, foldlM_cons, hraw, ok_bind, hrest,
        filter_cons, isReasoning, if_true, append_assoc, singleton_append]
    | _ => simpa [isReasoning, reasoningItem, filterMap_cons] using hrest turns

theorem parse_calls (content : List ContentPart) (turns : InputTurns) :
    ((content.filter isCall).filterMap functionCallItem).foldlM parseResponsesItem turns
      = .ok { turns with pending := turns.pending ++ content.filter isCall } := by
  induction content generalizing turns with
  | nil =>
    simp only [filter_nil, filterMap_nil, foldlM_nil, append_nil]
    rfl
  | cons p rest ih =>
    cases p with
    | toolUse id name arguments =>
      have hcall : parseResponsesItem turns (.object [("type", .string "function_call"),
          ("call_id", .string id), ("name", .string name), ("arguments", .string arguments)])
          = .ok { turns with
            pending := turns.pending ++ [.toolUse id name arguments] } :=
        rfl
      simp only [filter_cons, isCall, if_true, filterMap_cons, functionCallItem,
        foldlM_cons, hcall, ok_bind, ih, append_assoc, singleton_append]
    | _ => simpa [isCall] using ih turns

theorem parse_turn_message (content : List ContentPart) (assistant : Bool) (turns : InputTurns) :
    (if (content.filter textish).isEmpty then []
      else [.object [("type", .string "message"),
        ("role", .string (if assistant then "assistant" else "user")),
        ("content", responsesContent (content.filter textish) assistant)]]).foldlM
        parseResponsesItem turns
      = .ok (if assistant then { turns with pending := turns.pending ++ content.filter textish }
        else if (content.filter textish).isEmpty then turns
        else interrupt turns { role := .user, content := content.filter textish }) := by
  have htextish : ∀ p ∈ content.filter textish, textish p = true :=
    fun p hp => (mem_filter.mp hp).2
  have hparse := parse_message htextish assistant turns
  by_cases hempty : (content.filter textish).isEmpty = true
  · rw [if_pos hempty, if_pos hempty, isEmpty_iff.mp hempty]
    cases assistant
    · rfl
    · simp only [foldlM_nil, if_true, append_nil]
      rfl
  · rw [if_neg hempty, if_neg hempty, foldlM_cons, hparse]
    cases assistant <;> rfl

/-- The items of a message are read as what is replayed of it. -/
theorem parse_renderedItems {m : CanonicalMessage} (h : WellFormed m) (turns : InputTurns) :
    (renderedItems m).foldlM parseResponsesItem turns = .ok (replay turns m) := by
  rcases m with ⟨role, content⟩
  cases role with
  | system => rfl
  | user =>
    have htextish : ∀ p ∈ content, textish p = true := h
    have hreasoning : content.filterMap reasoningItem = [] := by
      rw [filterMap_eq_nil_iff]
      intro p hp
      have hp := htextish p hp
      cases p <;> first | rfl | cases hp
    have hcall : content.filter isCall = [] := by
      rw [filter_eq_nil_iff]
      intro p hp
      have hp := htextish p hp
      cases p <;> simp [isCall, textish] at hp ⊢
    have hmessage := parse_turn_message content false turns
    change (responsesTurn content false).foldlM parseResponsesItem turns = _
    rw [responsesTurn, partitionParts, hreasoning, hcall, filterMap_nil, append_nil,
      nil_append, hmessage, filter_eq_self.mpr htextish]
    rfl
  | assistant =>
    have hspeaks : ∀ p ∈ content, Says p := h
    change (responsesTurn content true).foldlM parseResponsesItem turns = _
    rw [responsesTurn, partitionParts, foldlM_append, foldlM_append,
      parse_reasonings hspeaks, ok_bind, parse_turn_message, ok_bind, parse_calls]
    simp [replay, sorted]
  | tool =>
    rcases h with ⟨id, result, hcontent⟩
    cases hcontent
    rfl

theorem parse_rendered {messages : List CanonicalMessage} (h : ∀ m ∈ messages, WellFormed m)
    {turns : InputTurns} (hturns : Settled turns) :
    ∃ turns', (messages.flatMap renderedItems).foldlM parseResponsesItem turns = .ok turns'
      ∧ Settled turns' ∧ said turns' = said turns ++ messages.flatMap replayedPieces := by
  induction messages generalizing turns with
  | nil => exact ⟨turns, rfl, hturns, by simp⟩
  | cons m rest ih =>
    rcases ih (fun m' hm' => h m' (mem_cons_of_mem m hm')) (hturns.replay m) with
      ⟨turns', hrun, hsettled, hsaid⟩
    refine ⟨turns', ?_, hsettled, ?_⟩
    · rw [flatMap_cons, foldlM_append, parse_renderedItems (h m mem_cons_self),
        ok_bind, hrun]
    · rw [hsaid, said_replay, flatMap_cons, append_assoc]

end Rendered

section Render

def Rendered (m : CanonicalMessage) : Prop :=
  m.role = .system → ∀ p ∈ m.content, ∃ text, p = .text text

theorem foldlM_systemPart {parts : List ContentPart} {front text : String} :
    parts.foldlM responsesSystemPart front = .ok text
      ↔ (∀ p ∈ parts, ∃ t, p = .text t) ∧ text = front ++ String.join (parts.map textOf) := by
  induction parts generalizing front with
  | nil =>
    rw [foldlM_nil]
    constructor
    · intro h
      cases h
      simp
    · rintro ⟨-, rfl⟩
      simp [pure, Except.pure]
  | cons p rest ih =>
    rw [foldlM_cons, bind_eq_ok]
    cases p with
    | text t =>
      simp only [responsesSystemPart, Except.ok.injEq, exists_eq_left', ih]
      simp [textOf, String.append_assoc]
    | _ =>
      constructor
      · rintro ⟨next, hnext, -⟩
        cases hnext
      · simp

/-- Which messages are rendered, and as what. -/
theorem responsesMessage_eq_ok {m : CanonicalMessage} (h : WellFormed m)
    {turns turns' : ResponsesTurns} :
    responsesMessage turns m = .ok turns' ↔ Rendered m
      ∧ turns' = { systemChunks := turns.systemChunks ++ systemTexts [m]
                   input := turns.input ++ renderedItems m } := by
  rcases m with ⟨role, content⟩
  cases role with
  | system =>
    have htexts : systemTexts [⟨.system, content⟩] = [String.join (content.map textOf)] := rfl
    have hsystem : responsesMessage turns ⟨.system, content⟩
        = responsesSystemText content >>= fun text =>
          .ok { turns with systemChunks := turns.systemChunks ++ [text] } :=
      rfl
    rw [hsystem, bind_eq_ok, htexts]
    simp only [responsesSystemText, foldlM_systemPart, String.empty_append]
    constructor
    · rintro ⟨_, ⟨htext, rfl⟩, hturns⟩
      cases hturns
      exact ⟨fun _ => htext, by simp [renderedItems]⟩
    · rintro ⟨htext, rfl⟩
      exact ⟨_, ⟨htext rfl, rfl⟩, by simp [renderedItems]⟩
  | tool =>
    have hrendered : Rendered ⟨.tool, content⟩ := by rintro ⟨⟩
    rw [and_iff_right hrendered]
    simp [responsesMessage, systemTexts, renderedItems, eq_comm]
  | user =>
    have hrendered : Rendered ⟨.user, content⟩ := by rintro ⟨⟩
    have hresult : (partitionParts content).2.2.isEmpty = true := by
      rw [partitionParts, List.isEmpty_iff, List.filter_eq_nil_iff]
      intro p hp
      have hp : textish p = true := h p hp
      cases p <;> simp [isResult, textish] at hp ⊢
    rw [and_iff_right hrendered]
    simp [responsesMessage, hresult, systemTexts, renderedItems, eq_comm]
  | assistant =>
    have hrendered : Rendered ⟨.assistant, content⟩ := by rintro ⟨⟩
    have hresult : (partitionParts content).2.2.isEmpty = true := by
      rw [partitionParts, List.isEmpty_iff, List.filter_eq_nil_iff]
      intro p hp
      have hp : Says p := h p hp
      cases p <;> simp [isResult, Says] at hp ⊢
    rw [and_iff_right hrendered]
    simp [responsesMessage, hresult, systemTexts, renderedItems, eq_comm]

theorem render_messages {messages : List CanonicalMessage} (h : ∀ m ∈ messages, WellFormed m)
    {turns turns' : ResponsesTurns} :
    messages.foldlM responsesMessage turns = .ok turns' ↔ (∀ m ∈ messages, Rendered m)
      ∧ turns' = { systemChunks := turns.systemChunks ++ systemTexts messages
                   input := turns.input ++ messages.flatMap renderedItems } := by
  induction messages generalizing turns with
  | nil => simp [systemTexts, pure, Except.pure, eq_comm]
  | cons m rest ih =>
    have hsystem : systemTexts (m :: rest) = systemTexts [m] ++ systemTexts rest := by
      by_cases hm : m.role = .system <;> simp [systemTexts, hm]
    simp only [foldlM_cons, bind_eq_ok, responsesMessage_eq_ok (h m mem_cons_self),
      ih (fun m' hm' => h m' (mem_cons_of_mem m hm')), forall_mem_cons, hsystem,
      flatMap_cons]
    constructor
    · rintro ⟨_, ⟨hm, rfl⟩, hrest, rfl⟩
      exact ⟨⟨hm, hrest⟩, by simp⟩
    · rintro ⟨⟨hm, hrest⟩, rfl⟩
      exact ⟨_, ⟨hm, rfl⟩, hrest, by simp⟩

end Render

end Waygate.Llm
