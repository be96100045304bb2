import Mathlib.Data.List.Induction
import Waygate.Core.Llm.ChatStream

/-!
# Announced Positions

The response at the end has the message before the calls, and the text of the message
before its refusal, in whatever order they came. So the positions are the announced ones
exactly if the chunks came in that order too.

## Main definitions

* `Positioned`, `Lifts`
* `InOrder`: The order of the chunks.
* `Placed`: Where the items are.

## Theorems

* `positioned_iff`
* `Lifts.partDelta`, `Lifts.callAdded`: A piece of the message, and a call.
* `items_positioned_iff`, `parts_positioned_iff`: Items, and parts.
-/

namespace Waygate

namespace Llm

open Json (ofNat)
open ChatStreamToResponses List

section Positions

def itemTag (item : Json) : Option String × Option String :=
  (strField item "type", strField item "id")

def itemAdded (ev : Event) : Option (Option Nat × Option String × Option String) :=
  if ev.1 = "response.output_item.added" then
    (ev.2.get "item").map (fun item => ((ev.2.get "output_index").bind Json.asNat, itemTag item))
  else none

/-- The item, the index and the type of the part that an event announces. -/
def partAdded (ev : Event) : Option (Option String × Option Nat × Option String) :=
  if ev.1 = "response.content_part.added" then
    (ev.2.get "part").map (fun part => (strField ev.2 "item_id",
      (ev.2.get "content_index").bind Json.asNat, strField part "type"))
  else none

def finalOutput (evs : List Event) : List Json :=
  ((evs.getLast?.bind (fun ev => ev.2.get "response")).bind (arrayField · "output")).getD []

/-- Items and parts are where they were announced. -/
structure Positioned (evs : List Event) : Prop where
  items : ∀ a ∈ evs.filterMap itemAdded, ∃ k, a.1 = some k
    ∧ (finalOutput evs)[k]?.map itemTag = some a.2
  parts : ∀ p ∈ evs.filterMap partAdded, ∃ item ∈ finalOutput evs,
    itemTag item = (some "message", p.1)
    ∧ ∃ c, p.2.1 = some c ∧ ((arrayField item "content").getD [])[c]?.bind (strField · "type")
      = p.2.2

end Positions

section Orders

def opensMessage (chunk : Json) : Bool :=
  (partPiece chunk .text).isSome || (partPiece chunk .refusal).isSome

def opensText (chunk : Json) : Bool :=
  (partPiece chunk .text).isSome

def opensRefusal (chunk : Json) : Bool :=
  (partPiece chunk .refusal).isSome

def announces (tc : Json) : Bool :=
  ((strField tc "id").filter (· ≠ "")).isSome

def announcesCall (chunk : Json) : Bool :=
  (callPieces chunk).any announces

/-- One kind of chunk, if there is any, comes no later than another. -/
def Comes (p q : Json → Bool) (chunks : List Json) : Prop :=
  chunks.any p = true → chunks.findIdx p ≤ chunks.findIdx q

structure InOrder (chunks : List Json) : Prop where
  message : Comes opensMessage announcesCall chunks
  text : Comes opensText opensRefusal chunks

instance (p q : Json → Bool) (chunks : List Json) : Decidable (Comes p q chunks) :=
  inferInstanceAs (Decidable (_ → _))

theorem comes_concat (p q : Json → Bool) (chunks : List Json) (chunk : Json) :
    Comes p q (chunks ++ [chunk])
      ↔ if chunks.any p then Comes p q chunks else (p chunk = true → chunks.any q = false) := by
  have hlt : ∀ r : Json → Bool, chunks.findIdx r < chunks.length ↔ chunks.any r = true := by
    intro r
    rw [findIdx_lt_length, any_eq_true]
  have hle : ∀ r : Json → Bool, chunks.findIdx r ≤ chunks.length := fun r => findIdx_le_length
  unfold Comes
  rw [findIdx_append, findIdx_append]
  by_cases hp : chunks.any p = true
  · grind
  · have hp' := mt (hlt p).mp hp
    rw [if_neg hp, if_neg hp']
    by_cases hchunk : p chunk = true
    · have hzero : [chunk].findIdx p = 0 := by simp [findIdx_cons, hchunk]
      simp only [any_append, hchunk, any_cons, Bool.true_or, Bool.or_true, true_imp_iff,
        hzero, Nat.zero_add]
      by_cases hq : chunks.any q = true
      · grind
      · rw [if_neg (mt (hlt q).mp hq)]
        exact iff_of_true (Nat.le_add_left _ _) (eq_false_of_ne_true hq)
    · simp [hp, hchunk]

@[ext]
structure Order where
  message : Option Bool := none
  calls : Bool := false
  text : Option Bool := none
  refusal : Bool := false
  deriving DecidableEq

namespace Order

def part (o : Order) (kind : PartKind) : Order :=
  let o := { o with message := o.message.or (some !o.calls) }
  match kind with
  | .text => { o with text := o.text.or (some !o.refusal) }
  | .refusal => { o with refusal := true }

def push (o : Order) (chunk : Json) : Order :=
  let o := if opensText chunk then o.part .text else o
  let o := if opensRefusal chunk then o.part .refusal else o
  if announcesCall chunk then { o with calls := true } else o

variable (o : Order) (chunk : Json)

theorem push_message : (o.push chunk).message
    = if opensMessage chunk then o.message.or (some !o.calls) else o.message := by
  rcases o with ⟨message, calls, text, refusal⟩
  unfold push opensMessage opensText opensRefusal
  cases (partPiece chunk .text).isSome <;> cases (partPiece chunk .refusal).isSome <;>
    cases announcesCall chunk <;> cases message <;> rfl

theorem push_calls : (o.push chunk).calls = (o.calls || announcesCall chunk) := by
  unfold push
  cases opensText chunk <;> cases opensRefusal chunk <;> cases announcesCall chunk <;>
    simp [part]

theorem push_text : (o.push chunk).text
    = if opensText chunk then o.text.or (some !o.refusal) else o.text := by
  unfold push
  cases opensText chunk <;> cases opensRefusal chunk <;> cases announcesCall chunk <;> rfl

theorem push_refusal : (o.push chunk).refusal = (o.refusal || opensRefusal chunk) := by
  unfold push
  cases opensText chunk <;> cases opensRefusal chunk <;> cases announcesCall chunk <;>
    simp [part]

end Order

def cameFirst (p q : Json → Bool) (chunks : List Json) : Option Bool :=
  if chunks.any p then some (decide (Comes p q chunks)) else none

theorem cameFirst_concat (p q : Json → Bool) (chunks : List Json) (chunk : Json) :
    cameFirst p q (chunks ++ [chunk])
      = if p chunk then (cameFirst p q chunks).or (some !chunks.any q)
        else cameFirst p q chunks := by
  have hconcat := comes_concat p q chunks chunk
  unfold cameFirst
  by_cases hp : chunks.any p = true
  · grind
  · rw [if_neg hp] at hconcat
    have hnone := eq_false_of_ne_true hp
    by_cases hchunk : p chunk = true
    · grind
    · grind

def orderOf (chunks : List Json) : Order :=
  { message := cameFirst opensMessage announcesCall chunks
    calls := chunks.any announcesCall
    text := cameFirst opensText opensRefusal chunks
    refusal := chunks.any opensRefusal }

variable (chunks : List Json)

theorem orderOf_concat (chunk : Json) :
    orderOf (chunks ++ [chunk]) = (orderOf chunks).push chunk := by
  ext1
  · rw [Order.push_message]
    exact cameFirst_concat _ _ _ _
  · rw [Order.push_calls]
    simp [orderOf]
  · rw [Order.push_text]
    exact cameFirst_concat _ _ _ _
  · rw [Order.push_refusal]
    simp [orderOf]

theorem foldl_order : chunks.foldl Order.push {} = orderOf chunks := by
  induction chunks using List.reverseRecOn with
  | nil => rfl
  | append_singleton chunks chunk ih =>
    rw [foldl_append, ih, orderOf_concat]
    rfl

theorem cameFirst_ne_iff (p q : Json → Bool) (chunks : List Json) :
    cameFirst p q chunks ≠ some false ↔ Comes p q chunks := by grind [cameFirst, Comes]

theorem inOrder_iff :
    InOrder chunks
      ↔ (orderOf chunks).message ≠ some false ∧ (orderOf chunks).text ≠ some false := by
  rw [orderOf, cameFirst_ne_iff, cameFirst_ne_iff]
  exact ⟨fun h => ⟨h.message, h.text⟩, fun h => ⟨h.1, h.2⟩⟩

end Orders

section Placement

/-- The parts of a message are numbered in the order they came. -/
structure PartsPlaced (m : ResponsesMsgItem) : Prop where
  next : m.nextContentIndex = m.text.toList.length + m.refusal.toList.length
  text : ∀ p, m.text = some p → m.refusal = none → p.contentIndex = 0
  refusal : ∀ p, m.refusal = some p → m.text = none → p.contentIndex = 0
  both : ∀ p q, m.text = some p → m.refusal = some q →
    (p.contentIndex = 0 ∧ q.contentIndex = 1) ∨ (p.contentIndex = 1 ∧ q.contentIndex = 0)

/-- The index of a call: the message has one of its own, once it is there. -/
def toolIndex (msg : Option ResponsesMsgItem) (i : Nat) : Nat :=
  match msg with
  | some m => if i < m.outputIndex then i else i + 1
  | none => i

structure Placed (t : ChatStreamToResponses) : Prop where
  next : t.nextOutputIndex = t.msg.toList.length + t.tools.length
  tools : ∀ i tool, t.tools[i]? = some tool → tool.outputIndex = toolIndex t.msg i
  msg : ∀ m, t.msg = some m → m.outputIndex ≤ t.tools.length ∧ PartsPlaced m

def view (t : ChatStreamToResponses) : Order :=
  { message := t.msg.map (fun m => decide (m.outputIndex = 0))
    calls := !t.tools.isEmpty
    text := (t.msg.bind ResponsesMsgItem.text).map (fun p => decide (p.contentIndex = 0))
    refusal := (t.msg.bind ResponsesMsgItem.refusal).isSome }

def announcedItems (t : ChatStreamToResponses) :
    List (Option Nat × Option String × Option String) :=
  t.msg.toList.map (fun m => (some m.outputIndex, some "message", some m.itemId))
    ++ t.tools.map (fun tool => (some tool.outputIndex, some "function_call", some tool.itemId))

def announcedPart (m : ResponsesMsgItem) (kind : PartKind) :
    Option (Option String × Option Nat × Option String) :=
  (m.part kind).map (fun p => (some m.itemId, some p.contentIndex, some kind.type))

def announcedParts (t : ChatStreamToResponses) :
    List (Option String × Option Nat × Option String) :=
  t.msg.toList.flatMap (fun m => [PartKind.text, PartKind.refusal].filterMap (announcedPart m))

/-- Some events lead from one lifter to another: what is new was announced by them. -/
structure Lifts (t : ChatStreamToResponses) (r : Lifted) : Prop where
  placed : Placed r.1
  items : ∀ a, a ∈ announcedItems r.1 ↔ a ∈ announcedItems t ∨ a ∈ r.2.filterMap itemAdded
  parts : ∀ p, p ∈ announcedParts r.1 ↔ p ∈ announcedParts t ∨ p ∈ r.2.filterMap partAdded

theorem Lifts.start {t : ChatStreamToResponses} (h : Placed t) : Lifts t (t, []) := by
  refine ⟨h, ?_, ?_⟩ <;> simp

theorem Lifts.trans {t : ChatStreamToResponses} {r r' : Lifted} (h : Lifts t r)
    (h' : Lifts r.1 r') : Lifts t (r'.1, r.2 ++ r'.2) := by
  refine ⟨h'.placed, ?_, ?_⟩
  · intro a
    rw [h'.items, h.items, filterMap_append, mem_append, or_assoc]
  · intro p
    rw [h'.parts, h.parts, filterMap_append, mem_append, or_assoc]

variable {t : ChatStreamToResponses} {r : Lifted} {name : String} {fields : List (String × Json)}

theorem event_quiet (hitem : name ≠ "response.output_item.added")
    (hpart : name ≠ "response.content_part.added") :
    (event name fields r).2.filterMap itemAdded = r.2.filterMap itemAdded
      ∧ (event name fields r).2.filterMap partAdded = r.2.filterMap partAdded := by
  simp [event, itemAdded, partAdded, hitem, hpart]

theorem event_item (oi : Nat) (item : Json) :
    (event "response.output_item.added" [("output_index", ofNat oi), ("item", item)]
        r).2.filterMap itemAdded = r.2.filterMap itemAdded ++ [(some oi, itemTag item)]
      ∧ (event "response.output_item.added" [("output_index", ofNat oi), ("item", item)]
        r).2.filterMap partAdded = r.2.filterMap partAdded := by
  have hread := Json.asNat_ofNat oi
  constructor
  · rw [event, filterMap_append]
    congr 1
    simp [itemAdded, Json.insert, Json.get, lookup_cons, hread]
  · simp [event, partAdded]

theorem event_part (id : String) (oi ci : Nat) (part : Json) :
    (event "response.content_part.added" [("item_id", .string id), ("output_index", ofNat oi),
        ("content_index", ofNat ci), ("part", part)] r).2.filterMap itemAdded
        = r.2.filterMap itemAdded
      ∧ (event "response.content_part.added" [("item_id", .string id), ("output_index", ofNat oi),
        ("content_index", ofNat ci), ("part", part)] r).2.filterMap partAdded
        = r.2.filterMap partAdded ++ [(some id, some ci, strField part "type")] := by
  have hread := Json.asNat_ofNat ci
  constructor
  · simp [event, itemAdded]
  · rw [event, filterMap_append]
    congr 1
    simp [partAdded, Json.insert, Json.get, lookup_cons, hread, strField, Json.asStr]

theorem Lifts.congr {t' : ChatStreamToResponses} (h : Lifts t r) (hmsg : t'.msg = r.1.msg)
    (hnext : t'.nextOutputIndex = r.1.nextOutputIndex)
    (htools : t'.tools.map (fun tool => (tool.outputIndex, tool.itemId))
      = r.1.tools.map (fun tool => (tool.outputIndex, tool.itemId))) :
    Lifts t (t', r.2) := by
  have hlength : t'.tools.length = r.1.tools.length := by
    simpa using congrArg List.length htools
  have hitems : announcedItems t' = announcedItems r.1 := by
    have htags := congrArg (List.map (fun p : Nat × String =>
      (some p.1, some "function_call", some p.2))) htools
    simp only [map_map] at htags
    unfold announcedItems
    rw [hmsg]
    exact congrArg _ htags
  have hparts : announcedParts t' = announcedParts r.1 := by
    rw [announcedParts, hmsg]
    rfl
  refine ⟨⟨?_, ?_, ?_⟩, ?_, ?_⟩
  · rw [hnext, hmsg, hlength]
    exact h.placed.next
  · intro i tool htool
    have hget := congrArg (fun l => l[i]?) htools
    simp only [getElem?_map, htool, Option.map_some] at hget
    rcases Option.map_eq_some_iff.mp hget.symm with ⟨old, hold, heq⟩
    rw [hmsg, ← h.placed.tools i old hold]
    exact (congrArg Prod.fst heq).symm
  · intro m hm
    rw [hlength]
    exact h.placed.msg m (hmsg ▸ hm)
  · rw [hitems]
    exact h.items
  · rw [hparts]
    exact h.parts

theorem Lifts.event (h : Lifts t r) (hitem : name ≠ "response.output_item.added")
    (hpart : name ≠ "response.content_part.added") : Lifts t (event name fields r) := by
  have hquiet : (ChatStreamToResponses.event name fields r).2.filterMap itemAdded = _ ∧ _ :=
    event_quiet hitem hpart
  have hsame : Lifts t ({ r.1 with seq := r.1.seq + 1 }, r.2) := h.congr rfl rfl rfl
  refine ⟨hsame.placed, ?_, ?_⟩
  · rw [hquiet.1]
    exact hsame.items
  · rw [hquiet.2]
    exact hsame.parts

end Placement

section Steps

variable {t : ChatStreamToResponses} {r : Lifted} {m : ResponsesMsgItem} {kind : PartKind}

theorem mem_announcedParts {t : ChatStreamToResponses} (hm : t.msg = some m)
    (p : Option String × Option Nat × Option String) :
    p ∈ announcedParts t ↔ ∃ kind, announcedPart m kind = some p := by
  rw [announcedParts, hm]
  constructor
  · grind
  · rintro ⟨kind, hkind⟩
    simp only [Option.toList_some, flatMap_cons, flatMap_nil, append_nil,
      mem_filterMap]
    exact ⟨kind, by cases kind <;> simp, hkind⟩

theorem Lifts.ensureMessage (h : Lifts t r) : Lifts t (ensureMessage r) := by
  unfold ChatStreamToResponses.ensureMessage
  cases hmsg : r.1.msg with
  | some m => exact h
  | none =>
    have hnext : r.1.nextOutputIndex = r.1.tools.length := by
      rw [h.placed.next, hmsg]
      simp
    have htools : ∀ i, ∀ tool : ResponsesToolItem, r.1.tools[i]? = some tool →
        tool.outputIndex = i := by
      intro i tool htool
      rw [h.placed.tools i tool htool, hmsg]
      rfl
    have hevents := event_item (r := ({ r.1 with nextOutputIndex := r.1.nextOutputIndex + 1 },
      r.2)) r.1.nextOutputIndex (.object [("type", .string "message"),
        ("id", .string ("msg_" ++ Nat.repr r.1.nextOutputIndex)),
        ("status", .string "in_progress"), ("role", .string "assistant"),
        ("content", .array [])])
    refine ⟨⟨?_, ?_, ?_⟩, ?_, ?_⟩
    · change r.1.nextOutputIndex + 1 = 1 + r.1.tools.length
      omega
    · intro i tool htool
      have hlt : i < r.1.tools.length := (List.getElem?_eq_some_iff.mp htool).1
      rw [htools i tool htool, toolIndex, hnext, if_pos hlt]
    · rintro _ ⟨⟩
      refine ⟨Nat.le_of_eq hnext, rfl, ?_, ?_, ?_⟩
      · nofun
      · nofun
      · nofun
    · intro a
      have hold := h.items a
      rw [announcedItems, hmsg] at hold
      refine Iff.trans ?_ (or_congr_right (iff_of_eq (congrArg (a ∈ ·) hevents.1.symm)))
      rw [mem_append, ← or_assoc, ← hold]
      exact mem_cons.trans (or_comm.trans (or_congr_right mem_singleton.symm))
    · intro p
      have hold := h.parts p
      rw [announcedParts, hmsg] at hold
      refine Iff.trans ?_ (or_congr_right (iff_of_eq (congrArg (p ∈ ·) hevents.2.symm)))
      rw [← hold]
      rfl

theorem Lifts.setMsg {t' : ChatStreamToResponses} {m' : ResponsesMsgItem} {evs : List Event}
    (h : Lifts t r) (hm : r.1.msg = some m) (hmsg : t'.msg = some m')
    (hnext : t'.nextOutputIndex = r.1.nextOutputIndex) (htools : t'.tools = r.1.tools)
    (hindex : m'.outputIndex = m.outputIndex) (hid : m'.itemId = m.itemId)
    (hplaced : PartsPlaced m') (hitems : evs.filterMap itemAdded = r.2.filterMap itemAdded)
    (hparts : ∀ p, (∃ kind, announcedPart m' kind = some p)
      ↔ p ∈ announcedParts t ∨ p ∈ evs.filterMap partAdded) :
    Lifts t (t', evs) := by
  refine ⟨⟨?_, ?_, ?_⟩, ?_, ?_⟩
  · rw [hnext, h.placed.next, hm, hmsg, htools]
    rfl
  · intro i tool htool
    rw [htools] at htool
    rw [h.placed.tools i tool htool, hm, hmsg, toolIndex, toolIndex, hindex]
  · intro m'' hm''
    rw [hmsg] at hm''
    cases hm''
    rw [hindex, htools]
    exact ⟨(h.placed.msg m hm).1, hplaced⟩
  · intro a
    have hold := h.items a
    rw [announcedItems, hm] at hold
    rw [announcedItems, hmsg, htools, hitems, ← hold]
    simp [hindex, hid]
  · intro p
    rw [mem_announcedParts hmsg, hparts]

variable (p : ResponsesContentPart)

theorem part_setPart :
    (m.setPart kind p).part kind = some p := by
  cases kind <;> rfl

theorem part_setPart_ne {kind' : PartKind} (hne : kind' ≠ kind) :
    (m.setPart kind p).part kind' = m.part kind' := by
  cases kind <;> cases kind' <;> first | rfl | exact absurd rfl hne

theorem setPart_fields (m : ResponsesMsgItem) (kind : PartKind) (p : ResponsesContentPart) :
    (m.setPart kind p).outputIndex = m.outputIndex ∧ (m.setPart kind p).itemId = m.itemId
      ∧ (m.setPart kind p).nextContentIndex = m.nextContentIndex := by
  cases kind <;> exact ⟨rfl, rfl, rfl⟩

theorem PartsPlaced.more {p : ResponsesContentPart} (h : PartsPlaced m) (hp : m.part kind = some p)
    (text : String) : PartsPlaced (m.setPart kind { p with text := text }) := by
  cases kind with
  | text =>
    have hp : m.text = some p := hp
    refine ⟨?_, ?_, ?_, ?_⟩
    · have hnext := h.next
      rw [hp] at hnext
      exact hnext
    · rintro _ ⟨⟩ hnone
      exact h.text p hp hnone
    · nofun
    · rintro _ q ⟨⟩ hq
      exact h.both p q hp hq
  | refusal =>
    have hp : m.refusal = some p := hp
    refine ⟨?_, ?_, ?_, ?_⟩
    · have hnext := h.next
      rw [hp] at hnext
      exact hnext
    · nofun
    · rintro _ ⟨⟩ hnone
      exact h.refusal p hp hnone
    · rintro q _ hq ⟨⟩
      exact h.both q p hq hp

theorem PartsPlaced.new (h : PartsPlaced m) (hnone : m.part kind = none) (text : String) :
    PartsPlaced (({ m with nextContentIndex := m.nextContentIndex + 1 }).setPart kind
      { contentIndex := m.nextContentIndex, text := text }) := by
  have hnext := h.next
  cases kind with
  | text =>
    have hnone : m.text = none := hnone
    rw [hnone, Option.toList_none, length_nil, Nat.zero_add] at hnext
    refine ⟨?_, ?_, ?_, ?_⟩
    · change m.nextContentIndex + 1 = 1 + m.refusal.toList.length
      omega
    · rintro _ ⟨⟩ hrefusal
      have hrefusal : m.refusal = none := hrefusal
      rw [hrefusal] at hnext
      exact hnext
    · nofun
    · rintro _ q ⟨⟩ hq
      have hq : m.refusal = some q := hq
      rw [hq] at hnext
      exact Or.inr ⟨hnext, h.refusal q hq hnone⟩
  | refusal =>
    have hnone : m.refusal = none := hnone
    rw [hnone, Option.toList_none, length_nil, Nat.add_zero] at hnext
    refine ⟨?_, ?_, ?_, ?_⟩
    · change m.nextContentIndex + 1 = m.text.toList.length + 1
      omega
    · nofun
    · rintro _ ⟨⟩ htext
      have htext : m.text = none := htext
      rw [htext] at hnext
      exact hnext
    · rintro q _ hq ⟨⟩
      have hq : m.text = some q := hq
      rw [hq] at hnext
      exact Or.inl ⟨h.text q hq hnone, hnext⟩

theorem deltaEvent_ne (kind : PartKind) : kind.deltaEvent ≠ "response.output_item.added"
    ∧ kind.deltaEvent ≠ "response.content_part.added" := by
  cases kind <;> decide

theorem type_part (kind : PartKind) (text : String) :
    strField (kind.part text) "type" = some kind.type := by
  cases kind <;> rfl

theorem announcedPart_setPart (a : Option String × Option Nat × Option String) :
    (∃ kind', announcedPart (m.setPart kind p) kind' = some a)
      ↔ (∃ kind', kind' ≠ kind ∧ announcedPart m kind' = some a)
        ∨ a = (some m.itemId, some p.contentIndex, some kind.type) := by
  have hid := (setPart_fields m kind p).2.1
  have hsame : announcedPart (m.setPart kind p) kind
      = some (some m.itemId, some p.contentIndex, some kind.type) := by
    rw [announcedPart, part_setPart, hid]
    rfl
  have hother : ∀ kind', kind' ≠ kind →
      announcedPart (m.setPart kind p) kind' = announcedPart m kind' := by
    intro kind' hne
    rw [announcedPart, part_setPart_ne p hne, hid]
    rfl
  constructor
  · rintro ⟨kind', ha⟩
    by_cases hne : kind' = kind
    · rw [hne, hsame] at ha
      exact Or.inr (Option.some.inj ha).symm
    · rw [hother kind' hne] at ha
      exact Or.inl ⟨kind', hne, ha⟩
  · grind

theorem Lifts.more {p : ResponsesContentPart} (h : Lifts t r) (hm : r.1.msg = some m)
    (hp : m.part kind = some p) (text : String) :
    Lifts t ({ r.1 with msg := some (m.setPart kind { p with text := text }) }, r.2) := by
  have hfields := setPart_fields m kind { p with text := text }
  have hsame : announcedPart m kind
      = some (some m.itemId, some p.contentIndex, some kind.type) := by
    rw [announcedPart, hp]
    rfl
  refine h.setMsg hm rfl rfl rfl hfields.1 hfields.2.1 ((h.placed.msg m hm).2.more hp text) rfl ?_
  intro a
  rw [← h.parts, mem_announcedParts hm, announcedPart_setPart]
  constructor
  · grind
  · grind

theorem Lifts.opened (h : Lifts t r) (hm : r.1.msg = some m) (hnone : m.part kind = none)
    (text : String) :
    Lifts t (ChatStreamToResponses.event "response.content_part.added"
      [("item_id", .string m.itemId), ("output_index", ofNat m.outputIndex),
        ("content_index", ofNat m.nextContentIndex), ("part", kind.part "")]
      ({ r.1 with msg := some (({ m with nextContentIndex := m.nextContentIndex + 1 }).setPart kind
        { contentIndex := m.nextContentIndex, text := text }) }, r.2)) := by
  have hfields := setPart_fields { m with nextContentIndex := m.nextContentIndex + 1 } kind
    { contentIndex := m.nextContentIndex, text := text }
  have hevents := event_part (r := ({ r.1 with
    msg := some (({ m with nextContentIndex := m.nextContentIndex + 1 }).setPart kind
      { contentIndex := m.nextContentIndex, text := text }) }, r.2))
    m.itemId m.outputIndex m.nextContentIndex (kind.part "")
  have hnever : announcedPart m kind = none := by
    rw [announcedPart, hnone]
    rfl
  refine h.setMsg hm rfl rfl rfl hfields.1 hfields.2.1 ((h.placed.msg m hm).2.new hnone text)
    hevents.1 ?_
  intro a
  refine Iff.trans ?_ (or_congr_right (iff_of_eq (congrArg (a ∈ ·) hevents.2.symm)))
  rw [mem_append, ← or_assoc, ← h.parts, mem_announcedParts hm, announcedPart_setPart,
    type_part, mem_singleton]
  refine or_congr_left ⟨?_, ?_⟩
  · rintro ⟨kind', -, ha⟩
    exact ⟨kind', ha⟩
  · rintro ⟨kind', ha⟩
    refine ⟨kind', ?_, ha⟩
    rintro rfl
    rw [hnever] at ha
    cases ha

theorem Lifts.partDelta (h : Lifts t r) (kind : PartKind) (text : String) :
    Lifts t (partDelta kind text r) := by
  have hmessage := h.ensureMessage
  have hne := deltaEvent_ne kind
  unfold ChatStreamToResponses.partDelta
  generalize ChatStreamToResponses.ensureMessage r = r1 at hmessage
  cases hm : r1.1.msg with
  | none =>
    simp only [hm]
    exact hmessage
  | some m =>
    simp only [hm]
    cases hp : m.part kind with
    | some p => exact (hmessage.more hm hp (p.text ++ text)).event hne.1 hne.2
    | none => exact (hmessage.opened hm hp text).event hne.1 hne.2

/-- A call takes the next index when it is announced. -/
theorem Lifts.callAdded (h : Lifts t r) (tc : Json) : Lifts t (callAdded r tc) := by
  unfold ChatStreamToResponses.callAdded
  cases hid : (strField tc "id").filter (· ≠ "") with
  | none => exact h
  | some callId =>
    have hindex : r.1.nextOutputIndex = toolIndex r.1.msg r.1.tools.length := by
      rw [h.placed.next]
      cases hm : r.1.msg with
      | none => simp [toolIndex]
      | some m =>
        have := (h.placed.msg m hm).1
        simp only [toolIndex, if_neg (Nat.not_lt.mpr this), Option.toList_some,
          List.length_singleton]
        omega
    have hevents := event_item (r := ({ r.1 with nextOutputIndex := r.1.nextOutputIndex + 1 },
      r.2)) r.1.nextOutputIndex (.object [("type", .string "function_call"),
        ("id", .string ("fc_" ++ Nat.repr r.1.nextOutputIndex)),
        ("call_id", .string callId),
        ("name", .string (((tc.get "function").bind (strField · "name")).getD "")),
        ("arguments", .string ""), ("status", .string "in_progress")])
    refine ⟨⟨?_, ?_, ?_⟩, ?_, ?_⟩
    · change r.1.nextOutputIndex + 1 = r.1.msg.toList.length + (r.1.tools ++ [_]).length
      rw [h.placed.next, List.length_append, List.length_singleton, Nat.add_assoc]
    · intro i tool htool
      have htool : (r.1.tools ++ [_])[i]? = some tool := htool
      rw [List.getElem?_append] at htool
      split_ifs at htool with hlt
      · exact h.placed.tools i tool htool
      · rcases List.getElem?_eq_some_iff.mp htool with ⟨hone, heq⟩
        have hi : i = r.1.tools.length := by
          rw [List.length_singleton] at hone
          omega
        subst hi
        simp only [Nat.sub_self, List.getElem_cons_zero] at heq
        rw [← heq]
        exact hindex
    · intro m hm
      have hold := h.placed.msg m hm
      refine ⟨?_, hold.2⟩
      change m.outputIndex ≤ (r.1.tools ++ [_]).length
      rw [List.length_append]
      omega
    · intro a
      refine Iff.trans ?_ (or_congr_right (iff_of_eq (congrArg (a ∈ ·) hevents.1.symm)))
      rw [List.mem_append, ← or_assoc, ← h.items]
      change a ∈ _ ++ List.map _ (r.1.tools ++ [_]) ↔ _
      rw [List.map_append, ← List.append_assoc, List.mem_append]
      rfl
    · intro p
      refine Iff.trans ?_ (or_congr_right (iff_of_eq (congrArg (p ∈ ·) hevents.2.symm)))
      rw [← h.parts]
      rfl

theorem Lifts.argumentsAdded (h : Lifts t r) (tc : Json) : Lifts t (argumentsAdded r tc) := by
  unfold ChatStreamToResponses.argumentsAdded
  split
  · split
    · split
      · rename_i pos _ _ tool htool
        refine Lifts.event (h.congr rfl rfl ?_) (by decide) (by decide)
        have hget : (r.1.tools.map (fun tool => (tool.outputIndex, tool.itemId)))[pos]?
            = some (tool.outputIndex, tool.itemId) := by
          rw [List.getElem?_map, htool]
          rfl
        rcases List.getElem?_eq_some_iff.mp hget with ⟨hlt, heq⟩
        rw [List.map_set]
        change List.set _ pos (tool.outputIndex, tool.itemId) = _
        rw [← heq, List.set_getElem_self]
      · exact h
    · exact h
  · exact h

theorem Lifts.callDeltas (h : Lifts t r) (tcs : List Json) : Lifts t (tcs.foldl callDelta r) := by
  induction tcs generalizing r with
  | nil => exact h
  | cons tc tcs ih => exact ih ((h.callAdded tc).argumentsAdded tc)

theorem Lifts.pushPart (h : Lifts t r) (chunk : Json) (kind : PartKind) :
    Lifts t (pushPart chunk kind r) := by
  unfold ChatStreamToResponses.pushPart
  split
  · exact h.partDelta kind _
  · exact h

theorem Lifts.ensureCreated (h : Lifts t r) : Lifts t (ensureCreated r) := by
  unfold ChatStreamToResponses.ensureCreated
  split
  · exact h
  · exact Lifts.event (h.congr rfl rfl rfl) (by decide) (by decide)

theorem deltaField_of_choice {chunk : Json} (h : choiceOf chunk = none) (key : String) :
    deltaField chunk key = none := by
  rw [deltaField, h]
  rfl

theorem push_eq (h : Placed t) (chunk : Json) : ∃ r, Lifts t r ∧ view r.1 = view t
    ∧ t.push chunk = (callPieces chunk).foldl callDelta
      (ChatStreamToResponses.pushPart chunk .refusal
        (ChatStreamToResponses.pushPart chunk .text r)) := by
  have hidentify : Lifts t (t.identify chunk, []) := (Lifts.start h).congr rfl rfl rfl
  unfold ChatStreamToResponses.push
  split
  · rename_i hchoice
    have hfield := deltaField_of_choice hchoice
    refine ⟨_, hidentify, rfl, ?_⟩
    simp [callPieces, ChatStreamToResponses.pushPart, partPiece, hfield, nonempty]
  · refine ⟨_, ?_, ?_, rfl⟩
    · exact hidentify.ensureCreated.congr rfl rfl rfl
    · unfold ChatStreamToResponses.ensureCreated
      split <;> rfl

theorem Lifts.push (h : Placed t) (chunk : Json) : Lifts t (t.push chunk) := by
  rcases push_eq h chunk with ⟨r, hr, -, heq⟩
  rw [heq]
  exact ((hr.pushPart chunk .text).pushPart chunk .refusal).callDeltas _

theorem run_announced (h : Placed t) (chunks : List Json) : Lifts t (pushAll t chunks) := by
  induction chunks generalizing t with
  | nil => exact Lifts.start h
  | cons chunk chunks ih =>
    have hstep := Lifts.push h chunk
    exact hstep.trans (ih hstep.placed)

end Steps

section Views

variable {t : ChatStreamToResponses} {r : Lifted} {m : ResponsesMsgItem} {kind : PartKind}

theorem view_ensureMessage (h : Placed r.1) :
    view (ensureMessage r).1 = { view r.1 with
      message := (view r.1).message.or (some !(view r.1).calls) }
    ∧ (ensureMessage r).1.msg.isSome = true := by
  unfold ChatStreamToResponses.ensureMessage
  cases hm : r.1.msg with
  | some m => simp [view, hm]
  | none =>
    have hnext := h.next
    rw [hm, Option.toList_none, length_nil, Nat.zero_add] at hnext
    have hfirst : decide (r.1.nextOutputIndex = 0) = r.1.tools.isEmpty := by
      rw [hnext, Bool.eq_iff_iff, decide_eq_true_iff, List.isEmpty_iff, List.length_eq_zero_iff]
    refine ⟨?_, rfl⟩
    simp [view, hm, ChatStreamToResponses.event, hfirst]

theorem view_setPart (hm : t.msg = some m) (kind : PartKind) (n : Nat) (p : ResponsesContentPart) :
    view { t with msg := some (({ m with nextContentIndex := n }).setPart kind p) }
      = match kind with
      | .text => { view t with text := some (decide (p.contentIndex = 0)) }
      | .refusal => { view t with refusal := true } := by
  cases kind <;> simp [view, hm, ResponsesMsgItem.setPart]

theorem view_partDelta (h : Lifts t r) (kind : PartKind) (text : String) :
    view (partDelta kind text r).1 = (view r.1).part kind := by
  have hview := view_ensureMessage h.placed
  have hplaced := h.ensureMessage.placed
  unfold ChatStreamToResponses.partDelta Order.part
  rw [← hview.1]
  generalize ChatStreamToResponses.ensureMessage r = r1 at hview hplaced
  rcases Option.isSome_iff_exists.mp hview.2 with ⟨m, hm⟩
  simp only [hm]
  cases hp : m.part kind with
  | some p =>
    refine (view_setPart hm kind m.nextContentIndex _).trans ?_
    cases kind with
    | text =>
      have hp : m.text = some p := hp
      simp [view, hm, hp]
    | refusal => rfl
  | none =>
    refine (view_setPart hm kind (m.nextContentIndex + 1) _).trans ?_
    cases kind with
    | text =>
      have hp : m.text = none := hp
      have hnext := (hplaced.msg m hm).2.next
      rw [hp, Option.toList_none, length_nil, Nat.zero_add] at hnext
      cases hrefusal : m.refusal <;> simp [view, hm, hp, hrefusal, hnext]
    | refusal => rfl

theorem view_callAdded (tc : Json) : view (callAdded r tc).1
    = { view r.1 with calls := (view r.1).calls || announces tc } := by
  unfold ChatStreamToResponses.callAdded announces
  cases (strField tc "id").filter (· ≠ "") with
  | none => simp
  | some callId => simp [view, ChatStreamToResponses.event]

theorem view_argumentsAdded (tc : Json) : view (argumentsAdded r tc).1 = view r.1 := by
  unfold ChatStreamToResponses.argumentsAdded
  split
  · split
    · split
      · have hempty : ∀ (l : List ResponsesToolItem) i x, (l.set i x).isEmpty = l.isEmpty := by
          intro l i x
          rw [Bool.eq_iff_iff, List.isEmpty_iff, List.isEmpty_iff, List.set_eq_nil_iff]
        simp [view, ChatStreamToResponses.event, hempty]
      · rfl
    · rfl
  · rfl

theorem view_callDeltas (tcs : List Json) : view (tcs.foldl callDelta r).1
    = { view r.1 with calls := (view r.1).calls || tcs.any announces } := by
  induction tcs generalizing r with
  | nil => simp
  | cons tc tcs ih =>
    rw [foldl_cons, ih, callDelta, view_argumentsAdded, view_callAdded]
    simp [Bool.or_assoc]

theorem view_pushPart (h : Lifts t r) (chunk : Json) (kind : PartKind) :
    view (pushPart chunk kind r).1
      = if (partPiece chunk kind).isSome then (view r.1).part kind else view r.1 := by
  unfold ChatStreamToResponses.pushPart
  split
  · rename_i text hpiece
    rw [view_partDelta h, hpiece]
    rfl
  · rename_i hpiece
    rw [hpiece]
    rfl

theorem view_push (h : Placed t) (chunk : Json) : view (t.push chunk).1 = (view t).push chunk := by
  rcases push_eq h chunk with ⟨r, hr, hview, heq⟩
  rw [heq, view_callDeltas, view_pushPart (hr.pushPart chunk .text), view_pushPart hr, hview]
  unfold Order.push opensText opensRefusal announcesCall
  cases (callPieces chunk).any announces <;> simp

theorem view_pushAll (h : Placed t) (chunks : List Json) :
    view (pushAll t chunks).1 = chunks.foldl Order.push (view t) := by
  induction chunks generalizing t with
  | nil => rfl
  | cons chunk chunks ih =>
    rw [foldl_cons, ← view_push h]
    exact ih (Lifts.push h chunk).placed

end Views

section Ends

variable {t : ChatStreamToResponses} {r : Lifted} {m : ResponsesMsgItem} {kind : PartKind}

def Quiet (evs : List Event) : Prop :=
  evs.filterMap itemAdded = [] ∧ evs.filterMap partAdded = []

theorem Quiet.event {name : String} {fields : List (String × Json)} (h : Quiet r.2)
    (hitem : name ≠ "response.output_item.added") (hpart : name ≠ "response.content_part.added") :
    Quiet (event name fields r).2 := by
  have hquiet : (ChatStreamToResponses.event name fields r).2.filterMap itemAdded = _ ∧ _ :=
    event_quiet hitem hpart
  exact ⟨hquiet.1.trans h.1, hquiet.2.trans h.2⟩

theorem doneEvent_ne (kind : PartKind) : kind.doneEvent ≠ "response.output_item.added"
    ∧ kind.doneEvent ≠ "response.content_part.added" := by
  cases kind <;> decide

theorem Quiet.partDone (h : Quiet r.2) (m : ResponsesMsgItem) (kind : PartKind) :
    Quiet (partDone m kind r).2 := by
  have hne := doneEvent_ne kind
  unfold ChatStreamToResponses.partDone
  split
  · exact (h.event hne.1 hne.2).event (by decide) (by decide)
  · exact h

theorem Quiet.toolDone (h : Quiet r.2) (tool : ResponsesToolItem) :
    Quiet (toolDone r tool).2 :=
  (h.event (by decide) (by decide)).event (by decide) (by decide)

theorem Quiet.toolsDone (h : Quiet r.2) (tools : List ResponsesToolItem) :
    Quiet (tools.foldl ChatStreamToResponses.toolDone r).2 := by
  induction tools generalizing r with
  | nil => exact h
  | cons tool tools ih => exact ih (h.toolDone tool)

/-- The end announces nothing and sends the items in their final order. -/
theorem finish_spec (t : ChatStreamToResponses) (fallbackUsage : Option Json) :
    Quiet (t.finish fallbackUsage).2
      ∧ ∀ evs, finalOutput (evs ++ (t.finish fallbackUsage).2) = t.output := by
  have hclosed : ∀ opened : ChatStreamToResponses, Quiet (t.tools.foldl toolDone (match t.msg with
      | some m => msgDone m (opened, [])
      | none => (opened, []))).2 := by
    intro opened
    have hnone : Quiet (opened, ([] : List Event)).2 := ⟨rfl, rfl⟩
    refine Quiet.toolsDone ?_ _
    split
    · exact ((hnone.partDone _ .text).partDone _ .refusal).event (by decide) (by decide)
    · exact hnone
  have hname : ∀ status, (if status = "completed" then "response.completed"
      else "response.incomplete") ≠ "response.output_item.added"
      ∧ (if status = "completed" then "response.completed"
      else "response.incomplete") ≠ "response.content_part.added" := by
    intro status
    split <;> decide
  constructor
  · exact (hclosed _).event (hname _).1 (hname _).2
  · intro evs
    simp [finish, event, finalOutput, Json.insert, Json.get, lookup_cons, buildResponse,
      arrayField, Json.asArray]

theorem itemTag_msgItem (m : ResponsesMsgItem) :
    itemTag (msgItem m) = (some "message", some m.itemId) :=
  rfl

theorem itemTag_toolItem (tool : ResponsesToolItem) :
    itemTag (toolItem tool) = (some "function_call", some tool.itemId) :=
  rfl

theorem tool_positioned (h : Placed t) (hfirst : ∀ m, t.msg = some m → m.outputIndex = 0)
    {tool : ResponsesToolItem} (htool : tool ∈ t.tools) :
    t.output[tool.outputIndex]?.map itemTag = some (some "function_call", some tool.itemId) := by
  rcases mem_iff_getElem?.mp htool with ⟨i, hi⟩
  have hindex := h.tools i tool hi
  unfold output
  cases hm : t.msg with
  | none =>
    rw [hm] at hindex
    simp [hindex, toolIndex, hi, itemTag_toolItem]
  | some m =>
    rw [hm] at hindex
    simp [hindex, toolIndex, hfirst m hm, hi, itemTag_toolItem]

theorem items_positioned_iff (h : Placed t) :
    (∀ a ∈ announcedItems t, ∃ k, a.1 = some k ∧ t.output[k]?.map itemTag = some a.2)
      ↔ (view t).message ≠ some false := by
  have hview : (view t).message ≠ some false ↔ ∀ m, t.msg = some m → m.outputIndex = 0 := by
    cases hm : t.msg <;> simp [view, hm]
  rw [hview]
  constructor
  · intro hitems m hm
    rcases hitems (some m.outputIndex, some "message", some m.itemId)
      (by simp [announcedItems, hm]) with ⟨k, hk, htag⟩
    cases hk
    cases hindex : m.outputIndex with
    | zero => rfl
    | succ k =>
      -- Only calls follow the message.
      rw [hindex, output, hm] at htag
      simp only [Option.map_some, Option.toList_some, singleton_append,
        getElem?_cons_succ, getElem?_map, Option.map_map] at htag
      rcases Option.map_eq_some_iff.mp htag with ⟨tool, -, heq⟩
      exact absurd (congrArg Prod.fst heq) (by simp [itemTag_toolItem])
  · intro hfirst a ha
    rcases mem_append.mp ha with hmsg | htool
    · rcases mem_map.mp hmsg with ⟨m, hm, rfl⟩
      have hm := Option.mem_toList.mp hm
      refine ⟨m.outputIndex, rfl, ?_⟩
      rw [hfirst m hm, output, hm]
      rfl
    · rcases mem_map.mp htool with ⟨tool, hmem, rfl⟩
      exact ⟨tool.outputIndex, rfl, tool_positioned h hfirst hmem⟩

theorem message_unique (hm : t.msg = some m) {item : Json} (hitem : item ∈ t.output)
    (htag : (itemTag item).1 = some "message") : item = msgItem m := by
  grind [output, itemTag_toolItem]

def typeAt (m : ResponsesMsgItem) (c : Nat) : Option String :=
  ((arrayField (msgItem m) "content").getD [])[c]?.bind (strField · "type")

theorem typeAt_eq (m : ResponsesMsgItem) (c : Nat) : typeAt m c
    = ((m.text.map (fun _ => PartKind.text.type)).toList
      ++ (m.refusal.map (fun _ => PartKind.refusal.type)).toList)[c]? := by
  have hcontent : (arrayField (msgItem m) "content").getD []
      = (m.text.map (fun p => PartKind.text.part p.text)).toList
        ++ (m.refusal.map (fun p => PartKind.refusal.part p.text)).toList :=
    rfl
  unfold typeAt
  rw [hcontent]
  cases m.text <;> cases m.refusal <;> rcases c with _ | _ | c <;> rfl

theorem typeAt_iff (h : PartsPlaced m) :
    (∀ kind p, m.part kind = some p → typeAt m p.contentIndex = some kind.type)
      ↔ m.text.map (fun p => decide (p.contentIndex = 0)) ≠ some false := by
  simp only [typeAt_eq]
  have hkinds : ∀ P : PartKind → Prop, (∀ kind, P kind) ↔ P .text ∧ P .refusal := by
    intro P
    refine ⟨fun hall => ⟨hall _, hall _⟩, ?_⟩
    rintro ⟨htext, hrefusal⟩ (_ | _)
    · exact htext
    · exact hrefusal
  rw [hkinds]
  change (∀ p, m.text = some p → _) ∧ (∀ p, m.refusal = some p → _) ↔ _
  cases htext : m.text with
  | none =>
    cases hrefusal : m.refusal with
    | none => simp
    | some q => simp [h.refusal q hrefusal htext]
  | some p =>
    cases hrefusal : m.refusal with
    | none => simp [h.text p htext hrefusal]
    | some q =>
      rcases h.both p q htext hrefusal with ⟨hp, hq⟩ | ⟨hp, hq⟩
      · simp [hp, hq]
      · simp [hp, hq, PartKind.type]

theorem parts_positioned_iff (h : Placed t) :
    (∀ p ∈ announcedParts t, ∃ item ∈ t.output, itemTag item = (some "message", p.1)
        ∧ ∃ c, p.2.1 = some c
          ∧ ((arrayField item "content").getD [])[c]?.bind (strField · "type") = p.2.2)
      ↔ (view t).text ≠ some false := by
  cases hm : t.msg with
  | none => simp [announcedParts, view, hm]
  | some m =>
    have hview : (view t).text = m.text.map (fun p => decide (p.contentIndex = 0)) := by
      simp [view, hm]
    have hmem : msgItem m ∈ t.output := by simp [output, hm]
    rw [hview, ← typeAt_iff (h.msg m hm).2]
    constructor
    · intro hparts kind p hp
      have hpart : announcedPart m kind
          = some (some m.itemId, some p.contentIndex, some kind.type) := by
        rw [announcedPart, hp]
        rfl
      rcases hparts _ ((mem_announcedParts hm _).mpr ⟨kind, hpart⟩) with
        ⟨item, hitem, htag, c, hc, htype⟩
      cases hc
      rw [message_unique hm hitem (congrArg Prod.fst htag)] at htype
      exact htype
    · intro htypes a ha
      rcases (mem_announcedParts hm a).mp ha with ⟨kind, hkind⟩
      rcases Option.map_eq_some_iff.mp hkind with ⟨p, hp, rfl⟩
      exact ⟨msgItem m, hmem, itemTag_msgItem m, p.contentIndex, rfl, htypes kind p hp⟩

/-- The positions are kept, exactly if the chunks come in order. -/
theorem positioned_iff (chunks : List Json) (fallbackUsage : Option Json) :
    Positioned (ChatStreamToResponses.events chunks fallbackUsage) ↔ InOrder chunks := by
  have hstart : Placed {} := by
    refine ⟨rfl, ?_, ?_⟩
    · nofun
    · nofun
  have hlifts := run_announced hstart chunks
  have hview := view_pushAll hstart chunks
  generalize hrun : pushAll {} chunks = run at hlifts hview
  have hend := finish_spec run.1 fallbackUsage
  have hitems : ∀ a, a ∈ (run.2 ++ (run.1.finish fallbackUsage).2).filterMap itemAdded
      ↔ a ∈ announcedItems run.1 := by
    intro a
    rw [hlifts.items, filterMap_append, hend.1.1, append_nil]
    simp [announcedItems]
  have hparts : ∀ p, p ∈ (run.2 ++ (run.1.finish fallbackUsage).2).filterMap partAdded
      ↔ p ∈ announcedParts run.1 := by
    intro p
    rw [hlifts.parts, filterMap_append, hend.1.2, append_nil]
    simp [announcedParts]
  have hevents : ChatStreamToResponses.events chunks fallbackUsage
      = run.2 ++ (run.1.finish fallbackUsage).2 := by
    rw [ChatStreamToResponses.events, hrun]
  rw [inOrder_iff, ← foldl_order, ← show view {} = {} from rfl, ← hview,
    ← items_positioned_iff hlifts.placed, ← parts_positioned_iff hlifts.placed, hevents]
  constructor
  · intro h
    have hposition := h.items
    have hplace := h.parts
    rw [hend.2] at hposition hplace
    exact ⟨fun a ha => hposition a ((hitems a).mpr ha), fun p hp => hplace p ((hparts p).mpr hp)⟩
  · rintro ⟨hposition, hplace⟩
    constructor <;> rw [hend.2]
    · exact fun a ha => hposition a ((hitems a).mp ha)
    · exact fun p hp => hplace p ((hparts p).mp hp)

def deltaChunk (key : String) (v : Json) : Json :=
  .object [("choices", .array [.object [("delta", .object [(key, v)])]])]

/-- A call and then a text: the message is announced at 1, where the call is at the end. -/
theorem positioned_call_text : ¬ Positioned (ChatStreamToResponses.events
    [deltaChunk "tool_calls" (.array [.object [("index", ofNat 0), ("id", .string "call_0"),
        ("function", .object [("name", .string "lookup"), ("arguments", .string "\x7b\x7d")])]]),
      deltaChunk "content" (.string "done")] none) := by
  intro h
  rcases h.items (some 1, some "message", some "msg_1") (by decide +kernel) with ⟨k, hk, htag⟩
  cases hk
  revert htag
  decide +kernel

end Ends

end Llm

end Waygate
