import Waygate.Core.Llm.Response

/-!
# Chat Chunks as Responses Events

A `/v1/responses` client may be served by a provider that does not speak its protocol.
The chunks of a chat completion are then lifted into its events. Counters are natural
numbers where the source has `u64`.

## Main definitions

* `ChatStreamToResponses`: The items so far.
* `partDelta`, `callDelta`: A piece of the message, and of a call.
* `push`, `finish`, `events`: A chunk, the end, and a whole stream.
-/

namespace Waygate

namespace Llm

open Json (ofNat)

section State

structure ResponsesContentPart where
  contentIndex : Nat
  text : String

structure ResponsesMsgItem where
  outputIndex : Nat
  itemId : String
  nextContentIndex : Nat
  text : Option ResponsesContentPart
  refusal : Option ResponsesContentPart

structure ResponsesToolItem where
  outputIndex : Nat
  itemId : String
  callId : String
  name : String
  args : String

structure ChatStreamToResponses where
  seq : Nat := 0
  created : Bool := false
  id : Option String := none
  model : Option String := none
  msg : Option ResponsesMsgItem := none
  nextOutputIndex : Nat := 0
  tools : List ResponsesToolItem := []
  /-- The index of a call in the chunks, and its place in `tools`. -/
  toolByIndex : List (Nat × Nat) := []
  finishReason : Option String := none
  usage : Option Json := none

abbrev Event := String × Json

abbrev Lifted := ChatStreamToResponses × List Event

inductive PartKind where
  | text
  | refusal
  deriving DecidableEq

namespace PartKind

def type : PartKind → String
  | .text => "output_text"
  | .refusal => "refusal"

def field : PartKind → String
  | .text => "text"
  | .refusal => "refusal"

def part (kind : PartKind) (text : String) : Json :=
  .object [("type", .string kind.type), (kind.field, .string text)]

def deltaEvent : PartKind → String
  | .text => "response.output_text.delta"
  | .refusal => "response.refusal.delta"

def doneEvent : PartKind → String
  | .text => "response.output_text.done"
  | .refusal => "response.refusal.done"

end PartKind

def ResponsesMsgItem.part (m : ResponsesMsgItem) : PartKind → Option ResponsesContentPart
  | .text => m.text
  | .refusal => m.refusal

def ResponsesMsgItem.setPart (m : ResponsesMsgItem) (kind : PartKind)
    (p : ResponsesContentPart) : ResponsesMsgItem :=
  match kind with
  | .text => { m with text := some p }
  | .refusal => { m with refusal := some p }

end State

namespace ChatStreamToResponses

section Events

/-- An event is stamped with its type and the next number, and sent. -/
def event (name : String) (fields : List (String × Json)) (r : Lifted) : Lifted :=
  ({ r.1 with seq := r.1.seq + 1 },
    r.2 ++ [(name, .object (Json.insert "sequence_number" (ofNat r.1.seq)
      (Json.insert "type" (.string name) fields)))])

/-- The status at the end, and the reason of an incomplete response. -/
def terminalStatus (t : ChatStreamToResponses) : String × Option String :=
  if t.finishReason = some "length" then ("incomplete", some "max_output_tokens")
  else if t.finishReason = some "content_filter" then ("incomplete", some "content_filter")
  else ("completed", none)

/-- Counts are copied under the names of the other protocol. -/
def countFields (v : Option Json) (keys : List (String × String)) : List (String × Json) :=
  keys.filterMap (fun key => (v.bind (u64Field · key.1)).map (fun n => (key.2, ofNat n)))

def responsesUsage (chat : Json) : Json :=
  let inputDetails := countFields (chat.get "prompt_tokens_details")
    [("cached_tokens", "cached_tokens"), ("cache_write_tokens", "cache_write_tokens")]
  let outputDetails := countFields (chat.get "completion_tokens_details")
    [("reasoning_tokens", "reasoning_tokens")]
  .object (countFields (some chat) [("prompt_tokens", "input_tokens"),
      ("completion_tokens", "output_tokens"), ("total_tokens", "total_tokens")]
    ++ (if inputDetails.isEmpty then [] else [("input_tokens_details", .object inputDetails)])
    ++ (if outputDetails.isEmpty then []
      else [("output_tokens_details", .object outputDetails)]))

def buildResponse (t : ChatStreamToResponses) (status : String) (output : Json)
    (incomplete : Option String) : Json :=
  .object ([("id", .string (t.id.getD "")), ("object", .string "response"),
      ("model", .string (t.model.getD "")), ("status", .string status), ("output", output)]
    ++ (incomplete.map (fun reason =>
      ("incomplete_details", Json.object [("reason", .string reason)]))).toList
    ++ (t.usage.map (fun usage => ("usage", responsesUsage usage))).toList)

end Events

section Push

def ensureMessage (r : Lifted) : Lifted :=
  match r.1.msg with
  | some _ => r
  | none =>
    let oi := r.1.nextOutputIndex
    let itemId := "msg_" ++ Nat.repr oi
    let r := event "response.output_item.added"
      [("output_index", ofNat oi),
        ("item", .object [("type", .string "message"), ("id", .string itemId),
          ("status", .string "in_progress"), ("role", .string "assistant"),
          ("content", .array [])])]
      ({ r.1 with nextOutputIndex := oi + 1 }, r.2)
    ({ r.1 with
        msg := some
          { outputIndex := oi
            itemId := itemId
            nextContentIndex := 0
            text := none
            refusal := none } }, r.2)

/-- A piece of a part, which is announced with its first piece. -/
def partDelta (kind : PartKind) (text : String) (r : Lifted) : Lifted :=
  let r := ensureMessage r
  match r.1.msg with
  | none => r
  | some m =>
    let place := fun ci => [("item_id", Json.string m.itemId),
      ("output_index", ofNat m.outputIndex), ("content_index", ofNat ci)]
    match m.part kind with
    | some p =>
      event kind.deltaEvent (place p.contentIndex ++ [("delta", .string text)])
        ({ r.1 with msg := some (m.setPart kind { p with text := p.text ++ text }) }, r.2)
    | none =>
      let ci := m.nextContentIndex
      let m' := ({ m with nextContentIndex := ci + 1 }).setPart kind
        { contentIndex := ci, text := text }
      event kind.deltaEvent (place ci ++ [("delta", .string text)])
        (event "response.content_part.added" (place ci ++ [("part", kind.part "")])
          ({ r.1 with msg := some m' }, r.2))

def callAdded (r : Lifted) (tc : Json) : Lifted :=
  match (strField tc "id").filter (· ≠ "") with
  | some callId =>
    let oi := r.1.nextOutputIndex
    let itemId := "fc_" ++ Nat.repr oi
    let name := ((tc.get "function").bind (strField · "name")).getD ""
    let r := event "response.output_item.added"
      [("output_index", ofNat oi),
        ("item", .object [("type", .string "function_call"), ("id", .string itemId),
          ("call_id", .string callId), ("name", .string name), ("arguments", .string ""),
          ("status", .string "in_progress")])]
      ({ r.1 with nextOutputIndex := oi + 1 }, r.2)
    ({ r.1 with
        tools := r.1.tools ++
          [{ outputIndex := oi, itemId := itemId, callId := callId, name := name, args := "" }]
        toolByIndex := ((u64Field tc "index").getD 0, r.1.tools.length) :: r.1.toolByIndex },
      r.2)
  | none => r

def argumentsAdded (r : Lifted) (tc : Json) : Lifted :=
  match ((tc.get "function").bind (strField · "arguments")).filter (· ≠ "") with
  | some args =>
    match r.1.toolByIndex.lookup ((u64Field tc "index").getD 0) with
    | some pos =>
      match r.1.tools[pos]? with
      | some t =>
        event "response.function_call_arguments.delta"
          [("item_id", .string t.itemId), ("output_index", ofNat t.outputIndex),
            ("delta", .string args)]
          ({ r.1 with tools := r.1.tools.set pos { t with args := t.args ++ args } }, r.2)
      | none => r
    | none => r
  | none => r

def callDelta (r : Lifted) (tc : Json) : Lifted :=
  argumentsAdded (callAdded r tc) tc

def nonempty (v : Option String) : Option String :=
  v.filter (· ≠ "")

def identify (t : ChatStreamToResponses) (chunk : Json) : ChatStreamToResponses :=
  { t with
    id := t.id.or (nonempty (strField chunk "id"))
    model := t.model.or (nonempty (strField chunk "model"))
    usage := match chunk.get "usage" with
      | some .null => t.usage
      | some usage => some usage
      | none => t.usage }

def ensureCreated (r : Lifted) : Lifted :=
  if r.1.created then r
  else event "response.created"
    [("response", buildResponse r.1 "in_progress" (.array []) none)]
    ({ r.1 with created := true }, r.2)

def choiceOf (chunk : Json) : Option Json :=
  (arrayField chunk "choices").bind List.head?

def deltaField (chunk : Json) (key : String) : Option Json :=
  ((choiceOf chunk).bind (Json.get · "delta")).bind (Json.get · key)

def partPiece (chunk : Json) (kind : PartKind) : Option String :=
  nonempty ((deltaField chunk (match kind with | .text => "content" | .refusal => "refusal")).bind
    Json.asStr)

def callPieces (chunk : Json) : List Json :=
  ((deltaField chunk "tool_calls").bind Json.asArray).getD []

def pushPart (chunk : Json) (kind : PartKind) (r : Lifted) : Lifted :=
  match partPiece chunk kind with
  | some text => partDelta kind text r
  | none => r

def push (t : ChatStreamToResponses) (chunk : Json) : Lifted :=
  let t := t.identify chunk
  match choiceOf chunk with
  -- Only counts, or the sentinel.
  | none => (t, [])
  | some choice =>
    let r := ensureCreated (t, [])
    let r := ({ r.1 with
      finishReason := (strField choice "finish_reason").or r.1.finishReason }, r.2)
    (callPieces chunk).foldl callDelta (pushPart chunk .refusal (pushPart chunk .text r))

end Push

section Finish

def msgContent (m : ResponsesMsgItem) : Json :=
  .array ((m.text.map (fun p => PartKind.text.part p.text)).toList
    ++ (m.refusal.map (fun p => PartKind.refusal.part p.text)).toList)

def msgItem (m : ResponsesMsgItem) : Json :=
  .object [("type", .string "message"), ("id", .string m.itemId),
    ("status", .string "completed"), ("role", .string "assistant"), ("content", msgContent m)]

def toolItem (t : ResponsesToolItem) : Json :=
  .object [("type", .string "function_call"), ("id", .string t.itemId),
    ("call_id", .string t.callId), ("name", .string t.name), ("arguments", .string t.args),
    ("status", .string "completed")]

def partDone (m : ResponsesMsgItem) (kind : PartKind) (r : Lifted) : Lifted :=
  match m.part kind with
  | some p =>
    let place := [("item_id", Json.string m.itemId), ("output_index", ofNat m.outputIndex),
      ("content_index", ofNat p.contentIndex)]
    event "response.content_part.done" (place ++ [("part", kind.part p.text)])
      (event kind.doneEvent (place ++ [(kind.field, .string p.text)]) r)
  | none => r

def msgDone (m : ResponsesMsgItem) (r : Lifted) : Lifted :=
  event "response.output_item.done" [("output_index", ofNat m.outputIndex), ("item", msgItem m)]
    (partDone m .refusal (partDone m .text r))

def toolDone (r : Lifted) (t : ResponsesToolItem) : Lifted :=
  event "response.output_item.done" [("output_index", ofNat t.outputIndex), ("item", toolItem t)]
    (event "response.function_call_arguments.done"
      [("item_id", .string t.itemId), ("output_index", ofNat t.outputIndex),
        ("arguments", .string t.args)] r)

/-- The items of the response: the message, and then the calls. -/
def output (t : ChatStreamToResponses) : List Json :=
  (t.msg.map msgItem).toList ++ t.tools.map toolItem

def finish (t : ChatStreamToResponses) (fallbackUsage : Option Json) : Lifted :=
  let items := t.output
  let opened := { t with usage := t.usage.or fallbackUsage, msg := none, tools := [] }
  let r := match t.msg with
    | some m => msgDone m (opened, [])
    | none => (opened, [])
  let r := t.tools.foldl toolDone r
  let status := r.1.terminalStatus
  event (if status.1 = "completed" then "response.completed" else "response.incomplete")
    [("response", buildResponse r.1 status.1 (.array items) status.2)] r

/-- The chunks of a stream one after another, with the events for all of them. -/
def pushAll : ChatStreamToResponses → List Json → Lifted
  | t, [] => (t, [])
  | t, chunk :: rest =>
    let step := t.push chunk
    let after := pushAll step.1 rest
    (after.1, step.2 ++ after.2)

def events (chunks : List Json) (fallbackUsage : Option Json) : List Event :=
  let run := pushAll {} chunks
  run.2 ++ (run.1.finish fallbackUsage).2

end Finish

end ChatStreamToResponses

end Llm

end Waygate
