import Waygate.Theory.Llm.Client

/-!
# Anthropic Streams

A body of the Messages protocol is streamed block by block, the text of a block or of
its input cut into deltas. The translator writes the text blocks and the calls in the
order of the body. A call of the forced tool is written as text, when the surface may
carry one.

## Main definitions

* `AnthropicStream`, `BlocksRun`

## Theorems

* `blocks_run`, `anthropic_run`
* `forced_block_run`, `call_block_run`: The kinds of blocks.
-/

namespace Waygate.Llm

open Transcript List AnthropicStreamTranslator

section Cut

def anthropicSpoken (ev : Json) : Bool :=
  ["message_start", "content_block_start", "content_block_delta", "message_delta",
    "message_stop"].contains (eventType ev)

structure MessageStart (body ev : Json) : Prop where
  type : strField ev "type" = some "message_start"
  message : ∃ msg, ev.get "message" = some msg ∧ strField msg "id" = strField body "id"
    ∧ strField msg "model" = strField body "model"
    ∧ Option.Rel (fun u v => ∀ key ∈ ["input_tokens", "cache_read_input_tokens",
        "cache_creation_input_tokens"], u64Field u key = u64Field v key)
      (msg.get "usage") (body.get "usage")

structure BlockStart (i : Nat) (b ev : Json) : Prop where
  type : strField ev "type" = some "content_block_start"
  index : u64Field ev "index" = some i
  block : ∃ cb, ev.get "content_block" = some cb ∧ strField cb "type" = strField b "type"
    ∧ strField cb "id" = strField b "id" ∧ strField cb "name" = strField b "name"

structure BlockDelta (i : Nat) (kind key piece : String) (ev : Json) : Prop where
  type : strField ev "type" = some "content_block_delta"
  index : u64Field ev "index" = some i
  delta : ∃ d, ev.get "delta" = some d ∧ strField d "type" = some kind
    ∧ strField d key = some piece

/-- A piece of a block that is neither text nor a call, such as a thought. -/
structure OtherDelta (i : Nat) (ev : Json) : Prop where
  type : strField ev "type" = some "content_block_delta"
  index : u64Field ev "index" = some i
  delta : (ev.get "delta").bind (strField · "type") ≠ some "text_delta"

def BlockDeltas (i : Nat) (b : Json) (evs : List Json) : Prop :=
  if hasType "text" b then
    Pieces (BlockDelta i "text_delta" "text") ((strField b "text").getD "").toList evs
  else if hasType "tool_use" b then
    Pieces (BlockDelta i "input_json_delta" "partial_json") (argumentsText b "input").toList evs
  else ∀ ev ∈ evs, OtherDelta i ev

/-- The blocks one after another, numbered from `i`. -/
inductive BlocksCut : Nat → List Json → List Json → Prop
  | nil (i : Nat) : BlocksCut i [] []
  | cons {i : Nat} {b start : Json} {rest deltas evs : List Json} (hstart : BlockStart i b start)
      (hdeltas : BlockDeltas i b deltas) (hrest : BlocksCut (i + 1) rest evs) :
      BlocksCut i (b :: rest) (start :: (deltas ++ evs))

structure MessageDelta (body ev : Json) : Prop where
  type : strField ev "type" = some "message_delta"
  reason : (ev.get "delta").bind (strField · "stop_reason") = strField body "stop_reason"
  usage : (ev.get "usage").bind (u64Field · "output_tokens")
    = (body.get "usage").bind (u64Field · "output_tokens")

/-- The events are a stream of the body, whatever else comes between them. -/
def AnthropicStream (body : Json) (evs : List Json) : Prop :=
  ∃ start blocks delta stop, evs.filter anthropicSpoken = start :: (blocks ++ [delta, stop])
    ∧ MessageStart body start ∧ BlocksCut 0 ((arrayField body "content").getD []) blocks
    ∧ MessageDelta body delta ∧ strField stop "type" = some "message_stop"

end Cut

section Steps

variable {t : AnthropicStreamTranslator} {ev : Json}

theorem anthropic_quiet (h : anthropicSpoken ev = false) : t.observe ev = (t, {}) := by
  grind [anthropicSpoken, observe]

theorem observe_messageStart (h : strField ev "type" = some "message_start") :
    t.observe ev = t.messageStart ev := by
  simp [observe, eventType_of_type h]

theorem observe_blockStart (h : strField ev "type" = some "content_block_start") :
    t.observe ev = t.contentBlockStart ev := by
  simp [observe, eventType_of_type h]

theorem observe_blockDelta (h : strField ev "type" = some "content_block_delta") :
    t.observe ev = (t, t.contentBlockDelta ev) := by
  simp [observe, eventType_of_type h]

theorem observe_messageDelta (h : strField ev "type" = some "message_delta") :
    t.observe ev = t.messageDelta ev := by
  simp [observe, eventType_of_type h]

theorem observe_messageStop (h : strField ev "type" = some "message_stop") :
    t.observe ev = (t, { chunks := [doneChunk], done := true }) := by
  simp [observe, eventType_of_type h]

end Steps

section Blocks

variable {ev : Json} {block : AnthropicToolBlock}

def blockText (emulation : Bool) (b : Json) : List Char :=
  if hasType "text" b then ((strField b "text").getD "").toList
  else if emulation && isEmulated b then (argumentsText b "input").toList
  else []

def blockCall (emulation : Bool) (b : Json) : Option (Call Char String) :=
  if hasType "tool_use" b && !(emulation && isEmulated b) then
    some ⟨some ((strField b "id").getD ""), some ((strField b "name").getD ""),
      (argumentsText b "input").toList⟩
  else none

theorem getD_eq_sentinel (o : Option String) :
    o.getD "" = STRUCTURED_OUTPUT_TOOL_NAME ↔ o = some STRUCTURED_OUTPUT_TOOL_NAME := by
  cases o with
  | none => simp [STRUCTURED_OUTPUT_TOOL_NAME]
  | some s => simp

/-- What the events of some blocks do: they write the texts and the calls, and the
    record stays as it is. -/
structure BlocksRun (t : AnthropicStreamTranslator) (blocks : List Json)
    (r : AnthropicStreamTranslator × List Json) : Prop where
  writes : ∃ items, Writes t.nextToolIndex items (r.2.map readChunk)
    ∧ contentOf items = blocks.flatMap (blockText t.emulation)
    ∧ callsOf items = blocks.filterMap (blockCall t.emulation)
  nextToolIndex : r.1.nextToolIndex
    = t.nextToolIndex + (blocks.filterMap (blockCall t.emulation)).length
  record : r.1.record = t.record
  emulation : r.1.emulation = t.emulation
  emulatedPresent : r.1.emulatedPresent
    = (t.emulatedPresent || (t.emulation && blocks.any isEmulated))

variable {t : AnthropicStreamTranslator} {i : Nat} {b start : Json} {deltas : List Json}

theorem BlockStart.hasType_block (h : BlockStart i b start) :
    ∃ cb, start.get "content_block" = some cb
      ∧ hasType "tool_use" cb = hasType "tool_use" b
      ∧ strField cb "id" = strField b "id" ∧ strField cb "name" = strField b "name" := by
  rcases h.block with ⟨cb, hcb, htype, hid, hname⟩
  exact ⟨cb, hcb, by rw [hasType, hasType, htype], hid, hname⟩

theorem BlockStart.blockIndex (h : BlockStart i b start) :
    AnthropicStreamTranslator.blockIndex start = i := by
  rw [AnthropicStreamTranslator.blockIndex, h.index]
  rfl

theorem observe_start_other (h : BlockStart i b start) (hb : hasType "tool_use" b = false) :
    t.observe start = (t, {}) := by
  rcases h.hasType_block with ⟨cb, hcb, htype, -, -⟩
  rw [observe_blockStart h.type, contentBlockStart, hcb]
  simp [htype, hb]

theorem observe_start_emulated (h : BlockStart i b start) (hb : isEmulated b = true)
    (hemulation : t.emulation = true) :
    t.observe start = ({ t with
      emulatedPresent := true
      toolBlocks := (i, { toolIndex := 0, emulated := true }) :: t.toolBlocks }, {}) := by
  rcases h.hasType_block with ⟨cb, hcb, htype, -, hname⟩
  rw [isEmulated, Bool.and_eq_true, decide_eq_true_eq] at hb
  rw [observe_blockStart h.type, contentBlockStart, hcb]
  simp [htype, hb.1, hname, hb.2, hemulation, h.blockIndex]

theorem observe_start_call (h : BlockStart i b start) (hb : hasType "tool_use" b = true)
    (hreal : (t.emulation && isEmulated b) = false) :
    ∃ t', t' = { t with
        nextToolIndex := t.nextToolIndex + 1
        hasToolCalls := true
        toolBlocks := (i, { toolIndex := t.nextToolIndex, emulated := false }) :: t.toolBlocks }
      ∧ t.observe start = (t', { chunks := [t'.chunk (toolCallDelta t.nextToolIndex
        ((strField b "id").getD "") ((strField b "name").getD "") "") none] }) := by
  rcases h.hasType_block with ⟨cb, hcb, htype, hid, hname⟩
  have hnot : ¬(t.emulation = true
      ∧ (strField b "name").getD "" = STRUCTURED_OUTPUT_TOOL_NAME) := by
    grind [getD_eq_sentinel, isEmulated]
  refine ⟨_, rfl, ?_⟩
  rw [observe_blockStart h.type, contentBlockStart, hcb]
  simp only [htype, hb, if_true, hname, hid, if_neg hnot, h.blockIndex]

theorem observe_textDelta {piece : String} (h : BlockDelta i "text_delta" "text" piece ev) :
    t.observe ev = (t, { chunks := [t.chunk (contentDelta piece) none] }) := by
  rcases h.delta with ⟨d, hd, hkind, hpiece⟩
  rw [observe_blockDelta h.type, contentBlockDelta, hd]
  simp [hkind, hpiece]

theorem observe_inputDelta {piece : String}
    (h : BlockDelta i "input_json_delta" "partial_json" piece ev)
    (hblock : t.toolBlocks.lookup i = some block) :
    t.observe ev = (t, { chunks := [t.chunk (if block.emulated then contentDelta piece
      else argumentsDelta block.toolIndex piece) none] }) := by
  rcases h.delta with ⟨d, hd, hkind, hpiece⟩
  have hindex : blockIndex ev = i := by
    rw [blockIndex, h.index]
    rfl
  have hne : ¬(some "input_json_delta" = some "text_delta") := by decide
  rw [observe_blockDelta h.type, contentBlockDelta, hd]
  simp only [Option.bind_some, hkind, hpiece, if_neg hne, if_true, hindex, hblock,
    Option.getD_some]
  by_cases hemulated : block.emulated = true <;> simp [hemulated]

def Below (i : Nat) (t : AnthropicStreamTranslator) : Prop :=
  ∀ p ∈ t.toolBlocks, p.1 < i

def BlockRuns (i : Nat) (t : AnthropicStreamTranslator) (b : Json) (evs : List Json) : Prop :=
  BlocksRun t [b] (observeAll observe t evs) ∧ Below (i + 1) (observeAll observe t evs).1

theorem observe_otherDelta (h : OtherDelta i ev) (hkeys : Below i t) :
    t.observe ev = (t, {}) := by
  have hindex : blockIndex ev = i := by
    rw [blockIndex, h.index]
    rfl
  have hnone : t.toolBlocks.lookup i = none := by
    rw [lookup_eq_none_iff]
    intro p hp
    have := hkeys p hp
    simp only [bne_iff_ne]
    omega
  rw [observe_blockDelta h.type, contentBlockDelta]
  simp only [if_neg h.delta, hindex, hnone, ite_self]

theorem texts_run {carries : String → Json → Prop} {text : List Char} (n : Nat)
    (hstep : ∀ piece ev, carries piece ev → (t.observe ev).1 = t
      ∧ (t.observe ev).2.chunks.map readChunk = [.text piece.toList])
    (h : Pieces carries text deltas) :
    (observeAll observe t deltas).1 = t
      ∧ ∃ items : List (Item Char String), Writes n items
          ((observeAll observe t deltas).2.map readChunk)
        ∧ contentOf items = text ∧ callsOf items = [] := by
  rcases h with ⟨pieces, rfl, hpieces⟩
  have hsteps : ∀ t' piece ev, t' = t → carries piece ev →
      (observe t' ev).1 = t
        ∧ (observe t' ev).2.chunks.map readChunk
          = [Delta.text piece.toList] := by grind
  have hrun := observeAll_pieces (P := (· = t)) hsteps rfl hpieces
  refine ⟨hrun.1, (pieces.map String.toList).map .text, ?_, ?_, callsOf_texts _⟩
  · rw [hrun.2, flatMap_piece]
    exact Writes.texts _ n
  · rw [contentOf_texts, flatMap_def]

theorem arguments_run {text : List Char} (hblock : t.toolBlocks.lookup i = some block)
    (hreal : block.emulated = false)
    (h : Pieces (BlockDelta i "input_json_delta" "partial_json") text deltas) :
    (observeAll observe t deltas).1 = t
      ∧ ∃ pieces : List (List Char), pieces.flatten = text
        ∧ (observeAll observe t deltas).2.map readChunk
          = pieces.map (.more block.toolIndex) := by
  rcases h with ⟨pieces, rfl, hpieces⟩
  have hsteps : ∀ t' piece ev, t' = t →
      BlockDelta i "input_json_delta" "partial_json" piece ev →
      (observe t' ev).1 = t
        ∧ (observe t' ev).2.chunks.map readChunk
          = [Delta.more block.toolIndex piece.toList] := by
    intro t' piece ev ht hdelta
    rw [ht, observe_inputDelta hdelta hblock, hreal]
    refine ⟨rfl, ?_⟩
    rw [map_singleton, chunk]
    simp [readChunk_arguments]
  have hrun := observeAll_pieces (P := (· = t)) hsteps rfl hpieces
  refine ⟨hrun.1, pieces.map String.toList, ?_, ?_⟩
  · rw [flatMap_def]
  · rw [hrun.2, flatMap_piece]

theorem Below.succ (h : Below i t) : Below (i + 1) t :=
  fun p hp => Nat.lt_succ_of_lt (h p hp)

theorem Below.cons {t' : AnthropicStreamTranslator} (h : Below i t)
    (ht : t'.toolBlocks = (i, block) :: t.toolBlocks) : Below (i + 1) t' := by grind [Below]

theorem isEmulated_of_other (h : hasType "tool_use" b = false) : isEmulated b = false := by
  rw [isEmulated, h]
  rfl

theorem text_block_run (hkeys : Below i t) (hstart : BlockStart i b start)
    (htext : hasType "text" b = true)
    (hdeltas : Pieces (BlockDelta i "text_delta" "text") ((strField b "text").getD "").toList
      deltas) :
    BlockRuns i t b (start :: deltas) := by
  have hcall : hasType "tool_use" b = false := hasType_ne htext (by decide)
  have hstep : ∀ piece ev, BlockDelta i "text_delta" "text" piece ev → (t.observe ev).1 = t
      ∧ (t.observe ev).2.chunks.map readChunk = [.text piece.toList] := by
    intro piece ev hev
    rw [observe_textDelta hev]
    exact ⟨rfl, rfl⟩
  rcases texts_run t.nextToolIndex hstep hdeltas with ⟨hsame, items, hwrites, hcontent, hcalls⟩
  rw [BlockRuns, observeAll, observe_start_other hstart hcall, hsame]
  refine ⟨⟨⟨items, hwrites, ?_, ?_⟩, ?_, rfl, rfl, ?_⟩, hkeys.succ⟩
  · simp [hcontent, blockText, htext]
  · simp [hcalls, blockCall, hcall]
  · simp [blockCall, hcall]
  · simp [isEmulated_of_other hcall]

theorem forced_block_run (hkeys : Below i t) (hstart : BlockStart i b start)
    (hemulation : t.emulation = true) (hforced : isEmulated b = true)
    (hdeltas : Pieces (BlockDelta i "input_json_delta" "partial_json")
      (argumentsText b "input").toList deltas) :
    BlockRuns i t b (start :: deltas) := by
  have htext : hasType "text" b = false := by
    rw [isEmulated, Bool.and_eq_true] at hforced
    exact hasType_ne hforced.1 (by decide)
  rw [BlockRuns, observeAll, observe_start_emulated hstart hforced hemulation]
  dsimp only
  set t' : AnthropicStreamTranslator := { t with
    emulatedPresent := true
    toolBlocks := (i, { toolIndex := 0, emulated := true }) :: t.toolBlocks } with ht'
  have hstep : ∀ piece ev, BlockDelta i "input_json_delta" "partial_json" piece ev →
      (t'.observe ev).1 = t' ∧ (t'.observe ev).2.chunks.map readChunk = [.text piece.toList] := by
    intro piece ev hev
    have hlookup : t'.toolBlocks.lookup i = some { toolIndex := 0, emulated := true } :=
      lookup_cons_self
    rw [observe_inputDelta hev hlookup]
    exact ⟨rfl, rfl⟩
  rcases texts_run t.nextToolIndex hstep hdeltas with ⟨hsame, items, hwrites, hcontent, hcalls⟩
  rw [hsame]
  refine ⟨⟨⟨items, hwrites, ?_, ?_⟩, ?_, rfl, rfl, ?_⟩, hkeys.cons rfl⟩
  · simp [hcontent, blockText, htext, hemulation, hforced]
  · simp [hcalls, blockCall, hemulation, hforced]
  · simp [ht', blockCall, hemulation, hforced]
  · simp [ht', hemulation, hforced]

theorem call_block_run (hkeys : Below i t) (hstart : BlockStart i b start)
    (hcall : hasType "tool_use" b = true) (hreal : (t.emulation && isEmulated b) = false)
    (hdeltas : Pieces (BlockDelta i "input_json_delta" "partial_json")
      (argumentsText b "input").toList deltas) :
    BlockRuns i t b (start :: deltas) := by
  have htext : hasType "text" b = false := hasType_ne hcall (by decide)
  rcases observe_start_call hstart hcall hreal with ⟨t', ht', hobserve⟩
  have hlookup : t'.toolBlocks.lookup i
      = some { toolIndex := t.nextToolIndex, emulated := false } := by
    rw [ht']
    exact lookup_cons_self
  rcases arguments_run hlookup rfl hdeltas with ⟨hsame, pieces, hpieces, hmap⟩
  rw [BlockRuns, observeAll, hobserve, hsame]
  refine ⟨⟨⟨[.call ((strField b "id").getD "") ((strField b "name").getD "")
    (argumentsText b "input").toList], ?_, ?_, ?_⟩, ?_, ?_, ?_, ?_⟩, hkeys.cons (by rw [ht'])⟩
  · have hwrites := Writes.call (γ := String) ((strField b "id").getD "")
      ((strField b "name").getD "") [] pieces (Writes.nil (t.nextToolIndex + 1))
    rw [nil_append, append_nil, hpieces] at hwrites
    rw [map_append, hmap, map_singleton, chunk,
      readChunk_toolCall]
    exact hwrites
  · simp [contentOf, Item.content, blockText, htext, hreal]
  · simp [callsOf, Item.call?, blockCall, hcall, hreal]
  · simp [ht', blockCall, hcall, hreal]
  · rw [ht']
  · rw [ht']
  · simp [ht', hreal]

theorem other_block_run (hkeys : Below i t) (hstart : BlockStart i b start)
    (htext : hasType "text" b = false) (hcall : hasType "tool_use" b = false)
    (hdeltas : ∀ ev ∈ deltas, OtherDelta i ev) :
    BlockRuns i t b (start :: deltas) := by
  have hsteps : ∀ t', ∀ ev ∈ deltas, t' = t → (observe t' ev).1 = t
      ∧ (observe t' ev).2.chunks.map readChunk = [] := by
    grind [observe_otherDelta]
  rcases observeAll_silent (P := (· = t)) hsteps rfl with ⟨hsame, hsilent⟩
  rw [BlockRuns, observeAll, observe_start_other hstart hcall, hsame]
  refine ⟨⟨⟨[], ?_, ?_, ?_⟩, ?_, rfl, rfl, ?_⟩, hkeys.succ⟩
  · rw [map_append, hsilent]
    exact .nil _
  · simp [contentOf, blockText, htext, isEmulated_of_other hcall]
  · simp [callsOf, blockCall, hcall]
  · simp [blockCall, hcall]
  · simp [isEmulated_of_other hcall]

theorem block_run (hkeys : Below i t) (hstart : BlockStart i b start)
    (hdeltas : BlockDeltas i b deltas) :
    BlockRuns i t b (start :: deltas) := by
  unfold BlockDeltas at hdeltas
  by_cases htext : hasType "text" b = true
  · rw [if_pos htext] at hdeltas
    exact text_block_run hkeys hstart htext hdeltas
  · rw [if_neg htext] at hdeltas
    by_cases hcall : hasType "tool_use" b = true
    · grind [isEmulated, forced_block_run, call_block_run]
    · grind [other_block_run]

theorem BlocksRun.nil (t : AnthropicStreamTranslator) : BlocksRun t [] (t, []) := by
  refine ⟨⟨[], .nil _, rfl, rfl⟩, rfl, rfl, rfl, ?_⟩
  simp

theorem BlocksRun.append {blocks blocks' : List Json}
    {r r' : AnthropicStreamTranslator × List Json} (h : BlocksRun t blocks r)
    (h' : BlocksRun r.1 blocks' r') : BlocksRun t (blocks ++ blocks') (r'.1, r.2 ++ r'.2) := by
  have hwrites := h'.writes
  rw [h.emulation, h.nextToolIndex] at hwrites
  refine ⟨?_, ?_, ?_, ?_, ?_⟩
  · rw [map_append, flatMap_append, filterMap_append]
    exact exists_writes_append h.writes hwrites
  · rw [h'.nextToolIndex, h.nextToolIndex, h.emulation, filterMap_append,
      length_append, Nat.add_assoc]
  · exact h'.record.trans h.record
  · exact h'.emulation.trans h.emulation
  · rw [h'.emulatedPresent, h.emulatedPresent, h.emulation, any_append,
      Bool.and_or_distrib_left, Bool.or_assoc]

/-- The blocks of a body are written as text and calls, in order. -/
theorem blocks_run {blocks evs : List Json} (h : BlocksCut i blocks evs) (hkeys : Below i t) :
    BlocksRun t blocks (observeAll observe t evs) := by
  induction h generalizing t with
  | nil i => exact .nil t
  | @cons i b start rest deltas evs hstart hdeltas _ ih =>
    rcases block_run hkeys hstart hdeltas with ⟨hblock, hnext⟩
    have hrest := hblock.append (ih hnext)
    rw [← cons_append, observeAll_append]
    exact hrest

end Blocks

section Run

/-- How a turn ends for a chat client, with its reason in the record. -/
def anthropicFinish (emulated : Bool) (reason : String) : FinishReason × String :=
  if emulated = true ∧ reason = "tool_use" then (.stop, "stop")
  else (normalizeAnthropicStopReason reason, anthropicStopReasonToOpenai reason)

def withOutput (record : InferenceRecord) : Option Nat → InferenceRecord
  | some out => { record with usage := { record.usage with output := some out } }
  | none => record

def anthropicRecord (base : InferenceRecord) (emulated : Bool) (body : Json) : InferenceRecord :=
  withOutput
    ((withPromptUsage { base with
        upstreamProtocol := .anthropicMessages
        modelServed := base.modelServed.or (strField body "model")
        upstreamRequestId := base.upstreamRequestId.or (strField body "id") }
      (body.get "usage")).withFinish (strField body "stop_reason" = some "refusal")
        ((strField body "stop_reason").map (fun reason => (anthropicFinish emulated reason).1)))
    ((body.get "usage").bind (u64Field · "output_tokens"))

variable {body ev : Json} {t : AnthropicStreamTranslator}

theorem withPromptUsage_congr {record : InferenceRecord} {u v : Option Json}
    (h : Option.Rel (fun u v => ∀ key ∈ ["input_tokens", "cache_read_input_tokens",
        "cache_creation_input_tokens"], u64Field u key = u64Field v key) u v) :
    withPromptUsage record u
      = withPromptUsage record v := by
  cases h with
  | none => rfl
  | some hkeys =>
    simp only [withPromptUsage, anthropicTokenUsageFrom, promptCache,
      hkeys "input_tokens" (by simp), hkeys "cache_read_input_tokens" (by simp),
      hkeys "cache_creation_input_tokens" (by simp)]

theorem observe_start (h : MessageStart body ev) :
    ∃ t' role, t.observe ev = (t', { chunks := [role] }) ∧ readChunk role = .blank
      ∧ t' = { t with
        id := t'.id
        model := t'.model
        record := withPromptUsage { t.record with
          modelServed := t.record.modelServed.or (strField body "model")
          upstreamRequestId := t.record.upstreamRequestId.or (strField body "id") }
          (body.get "usage") } := by
  rcases h.message with ⟨msg, hmsg, hid, hmodel, husage⟩
  rw [observe_messageStart h.type, messageStart, hmsg]
  refine ⟨_, _, rfl, rfl, ?_⟩
  simp only [hid, hmodel, withPromptUsage_congr husage]

theorem observe_end (h : MessageDelta body ev) :
    (t.observe ev).1.record
        = withOutput (t.record.withFinish (strField body "stop_reason" = some "refusal")
          ((strField body "stop_reason").map (fun reason =>
            (anthropicFinish t.emulatedPresent reason).1)))
          ((body.get "usage").bind (u64Field · "output_tokens"))
      ∧ (t.observe ev).2.chunks.map readChunk
        = ((strField body "stop_reason").map (fun reason =>
          .ending (anthropicFinish t.emulatedPresent reason).2)).toList := by
  rw [observe_messageDelta h.type]
  simp only [messageDelta, h.reason, h.usage]
  cases strField body "stop_reason" with
  | none => exact ⟨rfl, rfl⟩
  | some reason =>
    simp only [Option.some.injEq, Option.map_some]
    exact ⟨rfl, rfl⟩

theorem observeAll_spoken (t : AnthropicStreamTranslator) (evs : List Json) :
    (observeAll observe t evs).1
        = (observeAll observe t (evs.filter anthropicSpoken)).1
      ∧ (observeAll observe t evs).2.map readChunk
        = (observeAll observe t
          (evs.filter anthropicSpoken)).2.map readChunk := by
  refine observeAll_filter ?_ ?_ rfl
  · intro t t' ev _ _ ht
    rw [ht]
    exact ⟨rfl, rfl⟩
  · intro t t' ev _ hquiet ht
    rw [anthropic_quiet hquiet]
    exact ⟨ht, rfl⟩

/-- A whole stream: its chunks are the blocks and then the reason, and the record is
    that of the body. -/
theorem anthropic_run {evs : List Json} (base : InferenceRecord) (h : AnthropicStream body evs) :
    let e : Bool := base.inboundSurface ≠ .anthropicMessages
    let blocks := (arrayField body "content").getD []
    let r := observeAll observe (.new base) evs
    (∃ items ds, Writes 0 items ds ∧ contentOf items = blocks.flatMap (blockText e)
        ∧ callsOf items = blocks.filterMap (blockCall e)
        ∧ r.2.map readChunk = ds ++ (((strField body "stop_reason").map (fun reason =>
          .ending (anthropicFinish (e && blocks.any isEmulated) reason).2)).toList ++ [.blank]))
      ∧ r.1.record = anthropicRecord base (e && blocks.any isEmulated) body := by
  intro e blocks r
  rcases h with ⟨start, bevs, delta, stop, hspoken, hstart, hcut, hdelta, hstop⟩
  rcases observeAll_spoken (.new base) evs with ⟨hstate, hdeltas⟩
  rcases observe_start hstart (t := .new base) with ⟨t1, role, hobserve, hrole, ht1⟩
  rw [hspoken, observeAll, hobserve, observeAll_append] at hstate hdeltas
  have hkeys : Below 0 t1 := by
    intro p hp
    rw [ht1] at hp
    cases hp
  have hrun := blocks_run hcut hkeys
  have hindex : t1.nextToolIndex = 0 := by rw [ht1]; rfl
  have hemulation : t1.emulation = e := by rw [ht1]; rfl
  have hpresent : t1.emulatedPresent = false := by rw [ht1]; rfl
  rcases hrun with ⟨⟨items, hwrites, hcontent, hcalls⟩, -, hrecord, -, hemulated⟩
  rw [hindex] at hwrites
  rw [hemulation] at hcontent hcalls
  rw [hemulation, hpresent, Bool.false_or] at hemulated
  -- After the blocks come the reason and the sentinel.
  rcases observe_end hdelta (t := (observeAll observe t1 bevs).1) with
    ⟨hend, hending⟩
  rw [hemulated] at hend hending
  refine ⟨⟨items, .blank :: _, .blank hwrites, hcontent, hcalls, ?_⟩, ?_⟩
  · grind [observeAll, observe_messageStop, readChunk_done]
  · rw [hstate]
    simp only [observeAll, observe_messageStop hstop]
    rw [hend, hrecord, ht1]
    rfl

end Run

end Waygate.Llm
