import Waygate.Theory.Llm.Client

/-!
# Responses Streams

The stream of a Responses body announces each item and cuts its text or arguments into
deltas. The last event carries the body itself. Other events may come anywhere, and may
carry the response as it is so far.

## Main definitions

* `ResponsesStream`
* `ItemsRun`: What the translator writes for items.

## Theorems

* `items_run`, `responses_run`
* `message_run`, `function_call_run`: The kinds of items.
-/

namespace Waygate.Llm

open Transcript List ResponsesStreamTranslator

section Cut

def responsesSpoken (ev : Json) : Bool :=
  ["response.output_text.delta", "response.output_item.added",
    "response.function_call_arguments.delta"].contains (eventType ev)

def responsesTerminal (ev : Json) : Bool :=
  ["response.completed", "response.incomplete"].contains (eventType ev)

def itemText (item : Json) : List Char :=
  if hasType "message" item then
    ((arrayField item "content").getD []).flatMap (fun part =>
      if hasType "output_text" part then ((strField part "text").getD "").toList else [])
  else []

def itemCall (item : Json) : Option (Call Char String) :=
  if hasType "function_call" item then
    some ⟨some ((strField item "call_id").getD ""), some ((strField item "name").getD ""),
      ((strField item "arguments").getD "").toList⟩
  else none

structure ItemAdded (item ev : Json) : Prop where
  type : strField ev "type" = some "response.output_item.added"
  response : ev.get "response" = none
  item : ∃ it, ev.get "item" = some it ∧ ∀ key ∈ ["type", "id", "call_id", "name"],
    strField it key = strField item key

structure TextDelta (piece : String) (ev : Json) : Prop where
  type : strField ev "type" = some "response.output_text.delta"
  response : ev.get "response" = none
  delta : strField ev "delta" = some piece

structure ArgumentsDelta (id piece : String) (ev : Json) : Prop where
  type : strField ev "type" = some "response.function_call_arguments.delta"
  response : ev.get "response" = none
  item : (strField ev "item_id").getD "" = id
  delta : strField ev "delta" = some piece

def ItemDeltas (item : Json) (evs : List Json) : Prop :=
  if hasType "message" item then Pieces TextDelta (itemText item) evs
  else if hasType "function_call" item then
    Pieces (ArgumentsDelta ((strField item "id").getD ""))
      ((strField item "arguments").getD "").toList evs
  else evs = []

inductive ItemsCut : List Json → List Json → Prop
  | nil : ItemsCut [] []
  | cons {item start : Json} {rest deltas evs : List Json} (hstart : ItemAdded item start)
      (hdeltas : ItemDeltas item deltas) (hrest : ItemsCut rest evs) :
      ItemsCut (item :: rest) (start :: (deltas ++ evs))

/-- The events are a stream of the body, whatever else comes between them. -/
structure ResponsesStream (body : Json) (evs : List Json) : Prop where
  ending : ∃ init last, evs = init ++ [last]
    ∧ (∀ ev ∈ init, responsesTerminal ev = false)
    ∧ ItemsCut ((arrayField body "output").getD []) (init.filter responsesSpoken)
    ∧ responsesTerminal last = true ∧ last.get "response" = some body
  model : Names (strField body "model") "model" (evs.filterMap (Json.get · "response"))
  id : Names (strField body "id") "id" (evs.filterMap (Json.get · "response"))

end Cut

section Steps

variable {t : ResponsesStreamTranslator} {ev item : Json} {piece : String}

theorem observe_itemAdded (h : ItemAdded item ev) (hstarted : t.started = true) :
    t.observe ev = if hasType "function_call" item then
      ({ t with
          nextToolIndex := t.nextToolIndex + 1
          hasToolCalls := true
          toolItems := ((strField item "id").getD "", t.nextToolIndex) :: t.toolItems },
        { chunks := [t.chunk (toolCallDelta t.nextToolIndex ((strField item "call_id").getD "")
          ((strField item "name").getD "") "") none] })
      else (t, {}) := by
  rcases h.item with ⟨it, hit, hkeys⟩
  have htype : hasType "function_call" it = hasType "function_call" item := by
    rw [hasType, hkeys "type" (by simp), hasType]
  have ht : { t with started := true } = t := by
    rw [← hstarted]
  simp only [observe, h.response, recordIdentity, hstarted, if_true, ht,
    eventType_of_type h.type, outputItemAdded, hit, htype, hkeys "id" (by simp),
    hkeys "call_id" (by simp),
    hkeys "name" (by simp)]
  by_cases hcall : hasType "function_call" item = true
  · simp [hcall]
    rfl
  · simp [hcall]

theorem observe_textPiece (h : TextDelta piece ev) (hstarted : t.started = true) :
    t.observe ev = (t, { chunks :=
      if piece = "" then [] else [t.chunk (contentDelta piece) none] }) := by
  have ht : { t with started := true } = t := by
    rw [← hstarted]
  simp [observe, h.response, recordIdentity, hstarted, ht,
    eventType_of_type h.type, h.delta]

theorem observe_argumentsPiece {id : String} {index : Nat} (h : ArgumentsDelta id piece ev)
    (hstarted : t.started = true) (hindex : t.toolItems.lookup id = some index) :
    t.observe ev = (t, { chunks := [t.chunk (argumentsDelta index piece) none] }) := by
  have ht : { t with started := true } = t := by
    rw [← hstarted]
  simp [observe, h.response, recordIdentity, hstarted, ht,
    eventType_of_type h.type, argumentsDeltaChunks, h.item, hindex, h.delta]

end Steps

section Items

structure ItemsRun (t : ResponsesStreamTranslator) (items : List Json)
    (r : ResponsesStreamTranslator × List Json) : Prop where
  writes : ∃ written, Writes t.nextToolIndex written (r.2.map readChunk)
    ∧ contentOf written = items.flatMap itemText
    ∧ callsOf written = items.filterMap itemCall
  nextToolIndex : r.1.nextToolIndex = t.nextToolIndex + (items.filterMap itemCall).length
  hasToolCalls : r.1.hasToolCalls = (t.hasToolCalls || items.any (hasType "function_call"))
  started : r.1.started = t.started

variable {t : ResponsesStreamTranslator} {item start : Json} {deltas : List Json}

theorem ItemsRun.nil (t : ResponsesStreamTranslator) : ItemsRun t [] (t, []) := by
  refine ⟨⟨[], .nil _, rfl, rfl⟩, rfl, ?_, rfl⟩
  simp

theorem ItemsRun.append {items items' : List Json}
    {r r' : ResponsesStreamTranslator × List Json} (h : ItemsRun t items r)
    (h' : ItemsRun r.1 items' r') : ItemsRun t (items ++ items') (r'.1, r.2 ++ r'.2) := by
  have hwrites := h'.writes
  rw [h.nextToolIndex] at hwrites
  refine ⟨?_, ?_, ?_, ?_⟩
  · rw [map_append, flatMap_append, filterMap_append]
    exact exists_writes_append h.writes hwrites
  · rw [h'.nextToolIndex, h.nextToolIndex, filterMap_append, length_append,
      Nat.add_assoc]
  · rw [h'.hasToolCalls, h.hasToolCalls, any_append, Bool.or_assoc]
  · exact h'.started.trans h.started

theorem texts_write (pieces : List String) (n : Nat) :
    ∃ written : List (Item Char String), Writes n written
        (pieces.flatMap (fun piece =>
          if piece = "" then [] else [(Delta.text piece.toList : ChatDelta)]))
      ∧ contentOf written = pieces.flatMap String.toList ∧ callsOf written = [] := by
  induction pieces with
  | nil => exact ⟨[], .nil n, rfl, rfl⟩
  | cons piece rest ih =>
    rcases ih with ⟨written, hwrites, hcontent, hcalls⟩
    by_cases hpiece : piece = ""
    · refine ⟨written, ?_, ?_, hcalls⟩
      · rw [flatMap_cons, if_pos hpiece]
        exact hwrites
      · rw [flatMap_cons, hpiece, hcontent]
        rfl
    · refine ⟨.text piece.toList :: written, ?_, ?_, hcalls⟩
      · rw [flatMap_cons, if_neg hpiece]
        exact .text _ hwrites
      · rw [flatMap_cons, ← hcontent]
        rfl

theorem message_run (hstarted : t.started = true) (hstart : ItemAdded item start)
    (hmessage : hasType "message" item = true) (hdeltas : Pieces TextDelta (itemText item) deltas) :
    ItemsRun t [item] (observeAll observe t (start :: deltas)) := by
  have hcall : hasType "function_call" item = false := hasType_ne hmessage (by decide)
  rcases hdeltas with ⟨pieces, htext, hpieces⟩
  have hsteps : ∀ t' piece ev, t' = t → TextDelta piece ev →
      (observe t' ev).1 = t
        ∧ (observe t' ev).2.chunks.map readChunk
          = if piece = "" then [] else [Delta.text piece.toList] := by
    intro t' piece ev ht hdelta
    rw [ht, observe_textPiece hdelta hstarted]
    refine ⟨rfl, ?_⟩
    by_cases hpiece : piece = ""
    · simp only [if_pos hpiece, map_nil]
    · simp only [if_neg hpiece]
      rfl
  rcases observeAll_pieces (P := (· = t)) hsteps rfl hpieces with ⟨hsame, hmap⟩
  rcases texts_write pieces t.nextToolIndex with ⟨written, hwrites, hcontent, hcalls⟩
  rw [observeAll, observe_itemAdded hstart hstarted, hcall, if_neg Bool.false_ne_true, hsame]
  refine ⟨⟨written, ?_, ?_, ?_⟩, ?_, ?_, rfl⟩
  · rw [map_append, hmap]
    exact hwrites
  · simp [hcontent, htext]
  · simp [hcalls, itemCall, hcall]
  · simp [itemCall, hcall]
  · simp [hcall]

theorem function_call_run (hstarted : t.started = true) (hstart : ItemAdded item start)
    (hcall : hasType "function_call" item = true)
    (hdeltas : Pieces (ArgumentsDelta ((strField item "id").getD ""))
      ((strField item "arguments").getD "").toList deltas) :
    ItemsRun t [item] (observeAll observe t (start :: deltas)) := by
  have hmessage : hasType "message" item = false := hasType_ne hcall (by decide)
  rcases hdeltas with ⟨pieces, htext, hpieces⟩
  have hadded := observe_itemAdded hstart hstarted
  rw [if_pos hcall] at hadded
  rw [observeAll, hadded]
  dsimp only
  set t' : ResponsesStreamTranslator := { t with
    nextToolIndex := t.nextToolIndex + 1
    hasToolCalls := true
    toolItems := ((strField item "id").getD "", t.nextToolIndex) :: t.toolItems } with ht'
  have hlookup : t'.toolItems.lookup ((strField item "id").getD "") = some t.nextToolIndex :=
    lookup_cons_self
  have hstarted' : t'.started = true := hstarted
  have hsteps : ∀ t1 piece ev, t1 = t' → ArgumentsDelta ((strField item "id").getD "") piece ev →
      (observe t1 ev).1 = t'
        ∧ (observe t1 ev).2.chunks.map readChunk
          = [Delta.more t.nextToolIndex piece.toList] := by
    intro t1 piece ev ht hdelta
    rw [ht, observe_argumentsPiece hdelta hstarted' hlookup]
    refine ⟨rfl, ?_⟩
    rw [map_singleton, chunk, readChunk_arguments]
  rcases observeAll_pieces (P := (· = t')) hsteps rfl hpieces with ⟨hsame, hmap⟩
  rw [hsame]
  refine ⟨⟨[.call ((strField item "call_id").getD "") ((strField item "name").getD "")
    ((strField item "arguments").getD "").toList], ?_, ?_, ?_⟩, ?_, ?_, rfl⟩
  · have hwrites := Writes.call (γ := String) ((strField item "call_id").getD "")
      ((strField item "name").getD "") [] (pieces.map String.toList)
      (Writes.nil (t.nextToolIndex + 1))
    rw [nil_append, append_nil, ← flatMap_def, htext] at hwrites
    rw [map_append, hmap, flatMap_piece, map_singleton, chunk,
      readChunk_toolCall]
    exact hwrites
  · simp [contentOf, Item.content, itemText, hmessage]
  · simp [callsOf, Item.call?, itemCall, hcall]
  · simp [ht', itemCall, hcall]
  · simp [ht', hcall]

theorem item_run (hstarted : t.started = true) (hstart : ItemAdded item start)
    (hdeltas : ItemDeltas item deltas) :
    ItemsRun t [item] (observeAll observe t (start :: deltas)) := by
  unfold ItemDeltas at hdeltas
  by_cases hmessage : hasType "message" item = true
  · rw [if_pos hmessage] at hdeltas
    exact message_run hstarted hstart hmessage hdeltas
  · rw [if_neg hmessage] at hdeltas
    by_cases hcall : hasType "function_call" item = true
    · rw [if_pos hcall] at hdeltas
      exact function_call_run hstarted hstart hcall hdeltas
    · rw [if_neg hcall] at hdeltas
      have hother := eq_false_of_ne_true hcall
      rw [hdeltas, observeAll, observe_itemAdded hstart hstarted, if_neg hcall]
      refine ⟨⟨[], .nil _, ?_, ?_⟩, ?_, ?_, rfl⟩
      · simp [contentOf, itemText, hmessage]
      · simp [callsOf, itemCall, hother]
      · simp [observeAll, itemCall, hother]
      · simp [observeAll, hother]

/-- The items of a body are written as text and calls, in order. -/
theorem items_run {items evs : List Json} (h : ItemsCut items evs) (hstarted : t.started = true) :
    ItemsRun t items (observeAll observe t evs) := by
  induction h generalizing t with
  | nil => exact .nil t
  | @cons item start rest deltas evs hstart hdeltas _ ih =>
    have hitem := item_run hstarted hstart hdeltas
    have hrest := hitem.append (ih (hitem.started.trans hstarted))
    rw [← cons_append, observeAll_append]
    exact hrest

end Items

section Run

def SameButRecord (t t' : ResponsesStreamTranslator) : Prop :=
  t.started = true ∧ ∃ record, t' = { t with record := record }

def named (record : InferenceRecord) (evs : List Json) : InferenceRecord :=
  { record with
    modelServed := record.modelServed.or
      ((evs.filterMap (Json.get · "response")).filterMap (strField · "model")).head?
    upstreamRequestId := record.upstreamRequestId.or
      ((evs.filterMap (Json.get · "response")).filterMap (strField · "id")).head? }

variable {t t' : ResponsesStreamTranslator} {ev body : Json} {evs : List Json}

theorem named_nil (record : InferenceRecord) : named record [] = record := by
  simp [named]

theorem named_append (record : InferenceRecord) (evs evs' : List Json) :
    named (named record evs) evs' = named record (evs ++ evs') := by
  simp only [named, filterMap_append, head?_append, Option.or_assoc]

theorem recordIdentity_eq (t : ResponsesStreamTranslator) (ev : Json) :
    t.recordIdentity (ev.get "response") = { t with record := named t.record [ev] } := by
  cases hresp : ev.get "response" with
  | none => simp [recordIdentity, named, hresp]
  | some resp =>
    have hone : [ev].filterMap (Json.get · "response") = [resp] := by simp [hresp]
    rw [named, hone, head?_filterMap_singleton, head?_filterMap_singleton]
    rfl

theorem observeAll_role (h : t.started = false) (hevs : evs ≠ []) :
    (observeAll observe t evs).1
        = (observeAll observe { t with started := true } evs).1
      ∧ (observeAll observe t evs).2.map readChunk = .blank
        :: (observeAll observe { t with started := true } evs).2.map
          readChunk := by
  cases evs with
  | nil => exact absurd rfl hevs
  | cons ev rest =>
    simp only [observeAll, observe, recordIdentity_eq, h, Bool.false_eq_true, if_false, if_true,
      nil_append]
    split_ifs <;> exact ⟨rfl, rfl⟩

def heard (t : ResponsesStreamTranslator) (ev : Json) : ResponsesStreamTranslator × List Json :=
  if eventType ev = "response.output_text.delta" then
    (t, match strField ev "delta" with
      | some text => if text = "" then [] else [t.chunk (contentDelta text) none]
      | none => [])
  else if eventType ev = "response.output_item.added" then t.outputItemAdded ev
  else if eventType ev = "response.function_call_arguments.delta" then
    (t, t.argumentsDeltaChunks ev)
  else (t, [])

theorem observe_heard (hstarted : t.started = true) (h : responsesTerminal ev = false) :
    t.observe ev = ((heard { t with record := named t.record [ev] } ev).1,
      { chunks := (heard { t with record := named t.record [ev] } ev).2 }) := by
  have hcompleted : eventType ev ≠ "response.completed" := by
    intro heq
    rw [responsesTerminal, heq] at h
    exact absurd h (by decide)
  have hincomplete : eventType ev ≠ "response.incomplete" := by
    intro heq
    rw [responsesTerminal, heq] at h
    exact absurd h (by decide)
  simp only [observe, recordIdentity_eq, hstarted, if_true, heard,
    hcompleted, hincomplete, or_self, if_false, nil_append]
  split_ifs <;> rfl

theorem heard_record (t : ResponsesStreamTranslator) (record : InferenceRecord) (ev : Json) :
    (heard { t with record := record } ev).1 = { (heard t ev).1 with record := record }
      ∧ (heard { t with record := record } ev).2.map readChunk
        = (heard t ev).2.map readChunk := by
  unfold heard
  split_ifs
  · refine ⟨rfl, ?_⟩
    cases strField ev "delta" with
    | none => rfl
    | some text =>
      by_cases htext : text = ""
      · simp only [if_pos htext]
      · simp only [if_neg htext]
        rfl
  · unfold outputItemAdded
    cases ev.get "item" with
    | none => exact ⟨rfl, rfl⟩
    | some item =>
      by_cases hcall : hasType "function_call" item = true
      · simp only [if_pos hcall]
        exact ⟨trivial, rfl⟩
      · simp only [if_neg hcall]
        exact ⟨trivial, trivial⟩
  · refine ⟨rfl, ?_⟩
    unfold argumentsDeltaChunks
    cases t.toolItems.lookup ((strField ev "item_id").getD "") with
    | none => rfl
    | some index => cases strField ev "delta" <;> rfl
  · exact ⟨rfl, rfl⟩

theorem heard_started (t : ResponsesStreamTranslator) (ev : Json) :
    (heard t ev).1.started = t.started ∧ (heard t ev).1.record = t.record := by
  unfold heard
  split_ifs
  · exact ⟨rfl, rfl⟩
  · unfold outputItemAdded
    cases ev.get "item" with
    | none => exact ⟨rfl, rfl⟩
    | some item => grind
  · exact ⟨rfl, rfl⟩
  · exact ⟨rfl, rfl⟩

theorem heard_quiet (h : responsesSpoken ev = false) : heard t ev = (t, []) := by
  grind [responsesSpoken, heard]

theorem observeAll_heard (hevs : ∀ ev ∈ evs, responsesTerminal ev = false)
    (hstarted : t.started = true) :
    SameButRecord (observeAll observe t evs).1
        (observeAll observe t (evs.filter responsesSpoken)).1
      ∧ (observeAll observe t evs).2.map readChunk
        = (observeAll observe t
          (evs.filter responsesSpoken)).2.map readChunk := by
  refine observeAll_filter ?_ ?_ ⟨hstarted, t.record, rfl⟩
  · rintro t _ ev hev _ ⟨ht, record, rfl⟩
    rcases heard_record t (named t.record [ev]) ev with ⟨hstate, hdeltas⟩
    rcases heard_record t (named record [ev]) ev with ⟨hstate', hdeltas'⟩
    rw [observe_heard ht (hevs ev hev), observe_heard (t := { t with record := record }) ht
      (hevs ev hev)]
    refine ⟨⟨(heard_started _ ev).1.trans ht, named record [ev], ?_⟩, ?_⟩
    · rw [hstate]
      exact hstate'
    · exact hdeltas.trans hdeltas'.symm
  · rintro t _ ev hev hquiet ⟨ht, record, rfl⟩
    rw [observe_heard ht (hevs ev hev), heard_quiet hquiet]
    exact ⟨⟨ht, record, rfl⟩, rfl⟩

theorem observeAll_named (hevs : ∀ ev ∈ evs, responsesTerminal ev = false)
    (hstarted : t.started = true) :
    (observeAll observe t evs).1.record = named t.record evs := by
  induction evs generalizing t with
  | nil => exact (named_nil t.record).symm
  | cons ev rest ih =>
    rcases heard_started { t with record := named t.record [ev] } ev with ⟨hnext, hrecord⟩
    rw [observeAll, observe_heard hstarted (hevs ev mem_cons_self)]
    dsimp only
    rw [ih (fun ev hev => hevs ev (mem_cons_of_mem _ hev)) (hnext.trans hstarted), hrecord,
      named_append]
    rfl

def responsesEnd (record : InferenceRecord) (hasToolCalls : Bool) (body : Json) :
    InferenceRecord :=
  (record.withUsage ((body.get "usage").map responsesTokenUsageFrom)).withFinish
    (responsesFinish body = some .contentFilter)
    ((responsesFinish body).map (finishOf hasToolCalls))

def responsesEnding (hasToolCalls : Bool) (body : Json) : List ChatDelta :=
  ((responsesFinish body).map (fun finish =>
    .ending (finishReasonOpenaiStr (finishOf hasToolCalls finish)))).toList ++ [.blank]

theorem observe_terminal (hstarted : t.started = true) (h : responsesTerminal ev = true)
    (hbody : ev.get "response" = some body) :
    (t.observe ev).1.record = responsesEnd (named t.record [ev]) t.hasToolCalls body
      ∧ (t.observe ev).2.chunks.map readChunk = responsesEnding t.hasToolCalls body := by
  have htype : eventType ev = "response.completed" ∨ eventType ev = "response.incomplete" := by
    rw [responsesTerminal, contains_iff_mem] at h
    simpa using h
  have hother : eventType ev ≠ "response.output_text.delta"
      ∧ eventType ev ≠ "response.output_item.added"
      ∧ eventType ev ≠ "response.function_call_arguments.delta" := by
    rcases htype with htype | htype <;> rw [htype] <;> decide
  simp only [observe, recordIdentity_eq, if_neg hother.1,
    if_neg hother.2.1, if_neg hother.2.2, if_pos htype, hstarted, if_true, nil_append]
  simp only [terminal, hbody, responsesEnd, responsesEnding]
  cases responsesFinish body with
  | none => exact ⟨rfl, rfl⟩
  | some finish =>
    simp only [Option.some.injEq, Option.map_some]
    exact ⟨trivial, rfl⟩

def responsesRecord (base : InferenceRecord) (body : Json) : InferenceRecord :=
  responsesEnd { base with
      upstreamProtocol := .openAiResponses
      modelServed := base.modelServed.or (strField body "model")
      upstreamRequestId := base.upstreamRequestId.or (strField body "id") }
    (((arrayField body "output").getD []).any (hasType "function_call")) body

/-- A whole stream: its chunks are the items and then the reason, and the record is
    that of the body. -/
theorem responses_run (base : InferenceRecord) (h : ResponsesStream body evs) :
    let items := (arrayField body "output").getD []
    let r := observeAll observe (.new base) evs
    (∃ written ds, Writes 0 written ds ∧ contentOf written = items.flatMap itemText
        ∧ callsOf written = items.filterMap itemCall
        ∧ r.2.map readChunk = ds ++ responsesEnding (items.any (hasType "function_call")) body)
      ∧ r.1.record = responsesRecord base body := by
  intro items r
  rcases h.ending with ⟨init, last, rfl, hinit, hcut, hlast, hbody⟩
  set t : ResponsesStreamTranslator := { new base with started := true }
    with ht
  have hstarted : t.started = true := rfl
  have hnonempty : init ++ [last] ≠ [] := by simp
  rcases observeAll_role (t := .new base) rfl hnonempty with ⟨hstate, hdeltas⟩
  rw [← ht, observeAll_append _ t] at hstate hdeltas
  -- What is heard before the end are the items.
  have hrun := items_run hcut hstarted
  rcases observeAll_heard hinit hstarted with ⟨⟨hstarted1, record, hsame⟩, hheard⟩
  set t1 := (observeAll observe t init).1 with ht1
  have hhas : t1.hasToolCalls = items.any (hasType "function_call") := by
    have hcalls := hrun.hasToolCalls
    rw [hsame] at hcalls
    exact hcalls
  have hrecord : named t1.record [last] = { base with
      upstreamProtocol := .openAiResponses
      modelServed := base.modelServed.or (strField body "model")
      upstreamRequestId := base.upstreamRequestId.or (strField body "id") } := by
    have hmodel : (_ : List String).head? = _ := h.model
    have hid : (_ : List String).head? = _ := h.id
    rw [ht1, observeAll_named hinit hstarted, named_append, named, hmodel, hid]
    rfl
  rcases observe_terminal hstarted1 hlast hbody with ⟨hend, hending⟩
  rw [hhas] at hend hending
  rcases hrun.writes with ⟨written, hwrites, hcontent, hcalls⟩
  rw [← hheard] at hwrites
  refine ⟨⟨written, .blank :: _, .blank hwrites, hcontent, hcalls, ?_⟩, ?_⟩
  · rw [hdeltas]
    simp [observeAll, hending]
  · rw [hstate]
    simp only [observeAll]
    rw [hend, hrecord]
    rfl

end Run

end Waygate.Llm
