import Mathlib.Data.List.Forall2
import Waygate.Core.Llm.ResponseCanonical
import Waygate.Core.Llm.Stream
import Waygate.Theory.Transcript.Assembly

/-!
# What a Chat Client Reads

A client reads a chat body at once, or joins the chunks of a stream. Either way it has
an answer: the text, the calls with their ids, names and arguments, and the reason of
the end.

## Main definitions

* `observeAll`
* `readChunk`, `readBody`: What a client reads.

## Theorems

* `readBody_chatBody`
* `pushAll_eq`: Frames are events.
* `observeAll_pieces`, `observeAll_silent`, `observeAll_filter`: Events that carry pieces,
  and others.
-/

namespace Waygate.Llm

open Transcript List

section Reading

abbrev ChatDelta := Delta Char String String

abbrev ChatAnswer := Answer Char String String

def readCallDelta (tc : Json) : Option (CallDelta Char String) :=
  ((tc.get "index").bind Json.asNat).map (fun index =>
    { index := index
      id := strField tc "id"
      name := (tc.get "function").bind (strField · "name")
      arguments := (((tc.get "function").bind (strField · "arguments")).getD "").toList })

def firstChoice (body : Json) : Option Json :=
  (arrayField body "choices").bind List.head?

def readChunk (chunk : Json) : ChatDelta :=
  let delta := (firstChoice chunk).bind (Json.get · "delta")
  { content := ((delta.bind (strField · "content")).getD "").toList
    calls := ((delta.bind (arrayField · "tool_calls")).getD []).filterMap readCallDelta
    finish := (firstChoice chunk).bind (strField · "finish_reason") }

def readCall (tc : Json) : Call Char String :=
  { id := strField tc "id"
    name := (tc.get "function").bind (strField · "name")
    arguments := (((tc.get "function").bind (strField · "arguments")).getD "").toList }

def readBody (body : Json) : ChatAnswer :=
  let message := (firstChoice body).bind (Json.get · "message")
  { content := ((message.bind (strField · "content")).getD "").toList
    calls := fun k => ((message.bind (arrayField · "tool_calls")).getD [])[k]?.map readCall
    finish := (firstChoice body).bind (strField · "finish_reason") }

variable (id model : Option String)

theorem readChunk_toolCall (index : Nat)
    (callId name arguments : String) :
    readChunk (chatChunk id model (toolCallDelta index callId name arguments) none)
      = .header index callId name arguments.toList := by
  have hcall : readCallDelta (.object [("index", Json.ofNat index), ("id", .string callId),
      ("type", .string "function"),
      ("function", .object [("name", .string name), ("arguments", .string arguments)])])
      = some ⟨index, some callId, some name, arguments.toList⟩ :=
    congrArg (Option.map _) (Json.asNat_ofNat index)
  exact congrArg (Delta.mk [] · none) (filterMap_cons_some hcall)

theorem readChunk_arguments (index : Nat) (arguments : String) :
    readChunk (chatChunk id model (argumentsDelta index arguments) none)
      = .more index arguments.toList := by
  have hcall : readCallDelta (.object [("index", Json.ofNat index),
      ("function", .object [("arguments", .string arguments)])])
      = some ⟨index, none, none, arguments.toList⟩ :=
    congrArg (Option.map _) (Json.asNat_ofNat index)
  exact congrArg (Delta.mk [] · none) (filterMap_cons_some hcall)

theorem readChunk_done : readChunk doneChunk = .blank :=
  rfl

/-- The text and the calls of a body are read back, and no text reads as empty. -/
theorem readBody_chatBody (id model usage : Option Json) (text : String) (calls : List Json)
    (finish : Option String) :
    readBody (chatBody id model (chatChoices (chatMessage text calls) finish) usage)
      = .ofList text.toList (calls.map readCall) finish := by
  have hchoice : firstChoice (chatBody id model (chatChoices (chatMessage text calls) finish) usage)
      = some (.object [("index", Json.ofNat 0), ("message", chatMessage text calls),
        ("finish_reason", Json.ofOption .string finish)]) := by
    cases id <;> cases model <;> rfl
  have hcontent : ((strField (chatMessage text calls) "content").getD "") = text := by
    unfold chatMessage
    by_cases h : text = "" ∧ calls.isEmpty = false
    · rw [if_pos h, h.1]
      rfl
    · rw [if_neg h]
      rfl
  have hcalls : (arrayField (chatMessage text calls) "tool_calls").getD [] = calls := by
    unfold chatMessage
    cases calls with
    | nil => rfl
    | cons call rest => rfl
  have hfinish : strField (.object [("index", Json.ofNat 0), ("message", chatMessage text calls),
      ("finish_reason", Json.ofOption .string finish)]) "finish_reason" = finish := by
    cases finish <;> rfl
  have hmessage : (Json.object [("index", Json.ofNat 0), ("message", chatMessage text calls),
      ("finish_reason", Json.ofOption .string finish)]).get "message"
      = some (chatMessage text calls) :=
    rfl
  simp [readBody, hchoice, hmessage, hcontent, hcalls, hfinish, Answer.ofList]

theorem readBody_canonical (resp : CanonicalResponse) :
    readBody (canonicalResponseToOpenaiChat resp)
      = .ofList resp.contentText.toList (resp.toolCalls.map readCall)
        (if resp.toolCalls.isEmpty then statusToFinishReason resp.status
          else some "tool_calls") :=
  readBody_chatBody _ _ _ _ _ _

theorem messageOf_texts (ts : List String) : (messageOf ts).flatMap OutputItem.texts = ts := by
  cases ts with
  | nil => rfl
  | cons s rest =>
    simp [messageOf, OutputItem.texts, filterMap_map]

theorem messageOf_calls (ts : List String) :
    (messageOf ts).filterMap OutputItem.chatToolCall? = [] := by
  cases ts <;> rfl

variable {δ : Type} (callId name arguments : δ → String) (ts : List String) (calls : List δ)

theorem contentText_messageOf {resp : CanonicalResponse} (h : resp.output
      = messageOf ts ++ calls.map (fun c => .functionCall (callId c) (name c) (arguments c) [])) :
    resp.contentText = String.join ts := by
  have hcalls : (calls.map (fun c => OutputItem.functionCall (callId c) (name c) (arguments c)
      [])).flatMap OutputItem.texts = [] := by
    rw [flatMap_map]
    exact flatMap_eq_nil_iff.mpr (fun c _ => rfl)
  rw [CanonicalResponse.contentText, h, flatMap_append, messageOf_texts, hcalls,
    append_nil]

theorem toolCalls_messageOf {resp : CanonicalResponse} (h : resp.output
      = messageOf ts ++ calls.map (fun c => .functionCall (callId c) (name c) (arguments c) [])) :
    resp.toolCalls = calls.map (fun c => chatToolCall (callId c) (name c) (arguments c)) := by
  rw [CanonicalResponse.toolCalls, h, filterMap_append, messageOf_calls, nil_append,
    filterMap_map]
  exact filterMap_eq_map_iff_forall_eq_some.mpr (fun c _ => rfl)

end Reading

section Streams

variable {evs : List Json} {T : Type} (observe : T → Json → T × StreamStep)

/-- A translator's steps over events, with the chunks for all of them. -/
def observeAll : T → List Json → T × List Json
  | t, [] => (t, [])
  | t, ev :: rest =>
    ((observeAll (observe t ev).1 rest).1,
      (observe t ev).2.chunks ++ (observeAll (observe t ev).1 rest).2)

theorem observeAll_append (t : T) (evs evs' : List Json) :
    observeAll observe t (evs ++ evs')
      = ((observeAll observe (observeAll observe t evs).1 evs').1,
        (observeAll observe t evs).2
          ++ (observeAll observe (observeAll observe t evs).1 evs').2) := by
  induction evs generalizing t with
  | nil => rfl
  | cons ev rest ih =>
    rw [cons_append, observeAll, ih, observeAll]
    simp

theorem pushAll_eq (parse : String → Option Json) {wrap : T → StreamTranslator}
    (hpush : ∀ t data, (wrap t).push parse data
      = Prod.map wrap id (StreamTranslator.pushEvent parse observe t data))
    (t : T) (frames : List String) :
    (wrap t).pushAll parse frames
      = Prod.map wrap id (observeAll observe t (frames.filterMap (decode parse))) := by
  induction frames generalizing t with
  | nil => rfl
  | cons data rest ih =>
    rw [StreamTranslator.pushAll, hpush, StreamTranslator.pushEvent]
    cases hdecode : decode parse data with
    | none =>
      rw [filterMap_cons_none hdecode, ← ih]
      rfl
    | some ev =>
      rw [filterMap_cons_some hdecode, observeAll]
      simp only [Prod.map_fst, Prod.map_snd, ih, id_eq]
      rfl

def Pieces (carries : String → Json → Prop) (text : List Char) (evs : List Json) : Prop :=
  ∃ pieces : List String, pieces.flatMap String.toList = text ∧ List.Forall₂ carries pieces evs

theorem eventType_of_type {ev : Json} {kind : String} (h : strField ev "type" = some kind) :
    eventType ev = kind := by
  rw [eventType, h]
  rfl

theorem hasType_ne {b : Json} {kind kind' : String} (h : hasType kind b = true)
    (hne : kind ≠ kind') : hasType kind' b = false := by
  rw [hasType, decide_eq_true_eq] at h
  rw [hasType, h]
  simp [hne]

theorem typed_texts (kind : String) (vs : List Json) :
    ((vs.filter (hasType kind)).filterMap (strField · "text")).flatMap String.toList
      = vs.flatMap (fun v =>
        if hasType kind v then ((strField v "text").getD "").toList else []) := by
  induction vs with
  | nil => rfl
  | cons v rest ih =>
    rw [flatMap_cons, ← ih]
    by_cases hkind : hasType kind v = true
    · rw [filter_cons_of_pos hkind, if_pos hkind]
      cases hs : strField v "text" <;> simp [hs]
    · rw [filter_cons_of_neg hkind, if_neg hkind]
      rfl

def Names (value : Option String) (key : String) (vs : List Json) : Prop :=
  (vs.filterMap (strField · key)).head? = value

theorem head?_filterMap_singleton (v : Json) (key : String) :
    ([v].filterMap (strField · key)).head? = strField v key := by
  cases h : strField v key <;> simp [h]

theorem flatMap_piece (f : List Char → ChatDelta) (pieces : List String) :
    pieces.flatMap (fun piece => [f piece.toList]) = (pieces.map String.toList).map f := by
  rw [← map_eq_flatMap, map_map]
  rfl

variable {observe}

theorem observeAll_pieces {P : T → Prop} {carries : String → Json → Prop}
    {deltas : String → List ChatDelta}
    (hstep : ∀ t piece ev, P t → carries piece ev → P (observe t ev).1
      ∧ (observe t ev).2.chunks.map readChunk = deltas piece) {t : T} (ht : P t)
    {pieces : List String} (h : List.Forall₂ carries pieces evs) :
    P (observeAll observe t evs).1
      ∧ (observeAll observe t evs).2.map readChunk = pieces.flatMap deltas := by
  induction h generalizing t with
  | nil => exact ⟨ht, rfl⟩
  | cons hcarries _ ih => grind [observeAll]

theorem observeAll_silent {P : T → Prop}
    (hstep : ∀ t, ∀ ev ∈ evs, P t → P (observe t ev).1 ∧ (observe t ev).2.chunks.map readChunk = [])
    {t : T} (ht : P t) :
    P (observeAll observe t evs).1 ∧ (observeAll observe t evs).2.map readChunk = [] := by
  induction evs generalizing t with
  | nil => exact ⟨ht, rfl⟩
  | cons ev rest ih =>
    rcases hstep t ev mem_cons_self ht with ⟨hnext, hdeltas⟩
    rcases ih (fun t ev hev => hstep t ev (mem_cons_of_mem _ hev)) hnext with
      ⟨hlast, hrest⟩
    refine ⟨hlast, ?_⟩
    rw [observeAll, map_append, hdeltas, hrest]
    rfl

/-- Events that only keep the translators related are left out of a stream. -/
theorem observeAll_filter {keep : Json → Bool} {related : T → T → Prop}
    (hkeep : ∀ t t', ∀ ev ∈ evs, keep ev = true → related t t' →
      related (observe t ev).1 (observe t' ev).1
      ∧ (observe t ev).2.chunks.map readChunk = (observe t' ev).2.chunks.map readChunk)
    (hdrop : ∀ t t', ∀ ev ∈ evs, keep ev = false → related t t' →
      related (observe t ev).1 t' ∧ (observe t ev).2.chunks.map readChunk = []) {t t' : T}
    (ht : related t t') :
    related (observeAll observe t evs).1 (observeAll observe t' (evs.filter keep)).1
      ∧ (observeAll observe t evs).2.map readChunk
        = (observeAll observe t' (evs.filter keep)).2.map readChunk := by
  induction evs generalizing t t' with
  | nil => exact ⟨ht, rfl⟩
  | cons ev rest ih =>
    have hrest := @ih (fun t t' ev hev => hkeep t t' ev (mem_cons_of_mem _ hev))
      (fun t t' ev hev => hdrop t t' ev (mem_cons_of_mem _ hev))
    by_cases hev : keep ev = true
    · grind [observeAll]
    · grind [observeAll]

end Streams

end Waygate.Llm
