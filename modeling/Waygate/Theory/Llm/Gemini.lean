import Waygate.Theory.Llm.Client

/-!
# Gemini Streams

The stream of a Gemini body is a list of frames, each shaped like a body with some of
the parts; a part of text alone may also be cut. Within a frame the translator sends the
text before the calls.

## Main definitions

* `FramesRun`
* `GeminiStream`: A stream of a body.

## Theorems

* `gemini_run`
* `frame_run`, `frames_run`: One frame, and all.
-/

namespace Waygate.Llm

open Transcript List GeminiStreamTranslator

section Cut

def partsOf (ev : Json) : List Json :=
  (geminiParts ev).getD []

def finishReasonOf (ev : Json) : Option String :=
  (geminiCandidate ev).bind (strField · "finishReason")

def functionCalls (parts : List Json) : List Json :=
  parts.filterMap (Json.get · "functionCall")

structure TextPart (text : String) (p : Json) : Prop where
  text : strField p "text" = some text
  call : p.get "functionCall" = none

inductive Recut : List Json → List Json → Prop
  | nil : Recut [] []
  | keep (p : Json) {ps qs : List Json} : Recut ps qs → Recut (p :: ps) (p :: qs)
  | cut {text : String} {p : Json} {cuts ps qs : List Json} (hpart : TextPart text p)
      (hcuts : Pieces TextPart text.toList cuts) : Recut ps qs → Recut (p :: ps) (cuts ++ qs)

structure GeminiStream (body : Json) (evs : List Json) : Prop where
  parts : Recut (partsOf body) (evs.flatMap partsOf)
  ending : ∃ init last, evs = init ++ [last]
    ∧ (∀ ev ∈ init, finishReasonOf ev = none ∧ ev.get "usageMetadata" = none)
    ∧ finishReasonOf last = finishReasonOf body
    ∧ last.get "usageMetadata" = body.get "usageMetadata"
  model : Names (strField body "modelVersion") "modelVersion" evs
  id : Names (strField body "responseId") "responseId" evs

def partText (p : Json) : List Char :=
  ((strField p "text").getD "").toList

variable {ps qs : List Json}

theorem Recut.text (h : Recut ps qs) : qs.flatMap partText = ps.flatMap partText := by
  induction h with
  | nil => rfl
  | keep p _ ih => rw [flatMap_cons, flatMap_cons, ih]
  | @cut text p cuts ps qs hpart hcuts _ ih =>
    rcases hcuts with ⟨pieces, htext, hpieces⟩
    have hcut : cuts.flatMap partText = text.toList := by
      rw [← htext]
      clear htext
      induction hpieces with
      | nil => rfl
      | cons hpiece _ ih =>
        rw [flatMap_cons, flatMap_cons, ih, partText, hpiece.text]
        rfl
    rw [flatMap_append, flatMap_cons, ih, hcut, partText, hpart.text]
    rfl

theorem Recut.calls (h : Recut ps qs) : functionCalls qs = functionCalls ps := by
  unfold functionCalls
  induction h with
  | nil => rfl
  | keep p _ ih => rw [filterMap_cons, filterMap_cons, ih]
  | @cut text p cuts ps qs hpart hcuts _ ih =>
    rcases hcuts with ⟨pieces, -, hpieces⟩
    have hcut : cuts.filterMap (Json.get · "functionCall") = [] := by
      induction hpieces with
      | nil => rfl
      | cons hpiece _ ih => simp [hpiece.call, ih]
    simp [hcut, hpart.call, ih]

end Cut

section Frames

def frame (t : GeminiStreamTranslator) (ev : Json) : GeminiStreamTranslator × List Json :=
  let t := t.identify ev
  let role := if t.started then [] else [t.chunk roleDelta none]
  let text := String.join ((partsOf ev).filterMap (strField · "text"))
  let content := if text = "" then [] else [t.chunk (contentDelta text) none]
  let calls := functionCalls (partsOf ev)
  ({ t with
      started := true
      nextToolIndex := t.nextToolIndex + calls.length
      hasToolCalls := t.hasToolCalls || !calls.isEmpty },
    role ++ content ++ (calls.zipIdx t.nextToolIndex).map (fun p => t.callChunk p.1 p.2))

def numberedCall (p : Json × Nat) : Call Char String :=
  ⟨some ("call_" ++ Nat.repr p.2), some ((strField p.1 "name").getD ""),
    (argumentsText p.1 "args").toList⟩

/-- What frames do before the end: they write the texts and the calls, and the record
    has the identity they name. -/
structure FramesRun (t : GeminiStreamTranslator) (evs : List Json)
    (t' : GeminiStreamTranslator) (ds : List ChatDelta) : Prop where
  writes : ∃ items, Writes t.nextToolIndex items ds
    ∧ contentOf items = (evs.flatMap partsOf).flatMap partText
    ∧ callsOf items
      = ((functionCalls (evs.flatMap partsOf)).zipIdx t.nextToolIndex).map numberedCall
  nextToolIndex : t'.nextToolIndex
    = t.nextToolIndex + (functionCalls (evs.flatMap partsOf)).length
  hasToolCalls : t'.hasToolCalls
    = (t.hasToolCalls || !(functionCalls (evs.flatMap partsOf)).isEmpty)
  record : t'.record = { t.record with
    modelServed := t.record.modelServed.or (evs.filterMap (strField · "modelVersion")).head?
    upstreamRequestId :=
      t.record.upstreamRequestId.or (evs.filterMap (strField · "responseId")).head? }

variable {t t' t'' : GeminiStreamTranslator} {ev : Json} {evs evs' : List Json}
  {ds ds' : List ChatDelta}

theorem FramesRun.nil (t : GeminiStreamTranslator) : FramesRun t [] t [] := by
  refine ⟨⟨[], .nil _, rfl, rfl⟩, rfl, ?_, ?_⟩
  · simp [functionCalls]
  · simp

theorem FramesRun.append (h : FramesRun t evs t' ds) (h' : FramesRun t' evs' t'' ds') :
    FramesRun t (evs ++ evs') t'' (ds ++ ds') := by
  rcases h.writes with ⟨items, hwrites, hcontent, hcalls⟩
  rcases h'.writes with ⟨items', hwrites', hcontent', hcalls'⟩
  have hlength : (callsOf items).length = (functionCalls (evs.flatMap partsOf)).length := by
    simp [hcalls]
  have hsplit : functionCalls ((evs ++ evs').flatMap partsOf)
      = functionCalls (evs.flatMap partsOf) ++ functionCalls (evs'.flatMap partsOf) := by
    rw [functionCalls, flatMap_append, filterMap_append]
    rfl
  rw [h.nextToolIndex] at hwrites' hcalls'
  rw [← hlength] at hwrites'
  refine ⟨⟨items ++ items', hwrites.append hwrites', ?_, ?_⟩, ?_, ?_, ?_⟩
  · rw [contentOf_append, hcontent, hcontent', flatMap_append, flatMap_append]
  · rw [callsOf_append, hcalls, hcalls', hsplit, zipIdx_append, map_append]
  · rw [h'.nextToolIndex, h.nextToolIndex, hsplit, length_append, Nat.add_assoc]
  · rw [h'.hasToolCalls, h.hasToolCalls, hsplit, Bool.or_assoc]
    cases functionCalls (evs.flatMap partsOf) <;> rfl
  · rw [h'.record, h.record]
    simp only [filterMap_append, head?_append, Option.or_assoc]

theorem texts_eq (parts : List Json) :
    (String.join (parts.filterMap (strField · "text"))).toList = parts.flatMap partText := by
  rw [String.toList_join]
  induction parts with
  | nil => rfl
  | cons p rest ih =>
    rw [flatMap_cons, ← ih, partText, filterMap_cons]
    cases strField p "text" with
    | none => rfl
    | some text => rfl

theorem role_write (t : GeminiStreamTranslator) (n : Nat) :
    Writes n ([] : List (Item Char String))
      ((if t.started then [] else [t.chunk roleDelta none]).map readChunk) := by
  by_cases h : t.started = true
  · rw [if_pos h]
    exact .nil n
  · rw [if_neg h]
    exact .blank (.nil n)

theorem content_write (t : GeminiStreamTranslator) (text : String) (n : Nat) :
    ∃ items : List (Item Char String), Writes n items
        ((if text = "" then [] else [t.chunk (contentDelta text) none]).map readChunk)
      ∧ contentOf items = text.toList ∧ callsOf items = [] := by
  by_cases h : text = ""
  · rw [if_pos h, h]
    exact ⟨[], .nil n, rfl, rfl⟩
  · rw [if_neg h]
    exact ⟨[.text text.toList], .text _ (.nil n), append_nil _, rfl⟩

theorem calls_write (t : GeminiStreamTranslator) (calls : List Json) (n : Nat) :
    ∃ items, Writes n items
        (((calls.zipIdx n).map (fun p => t.callChunk p.1 p.2)).map readChunk)
      ∧ contentOf items = [] ∧ callsOf items = (calls.zipIdx n).map numberedCall := by
  have hchunks : ((calls.zipIdx n).map (fun p => t.callChunk p.1 p.2)).map readChunk
      = (calls.zipIdx n).map (fun p => Delta.header p.2 ("call_" ++ Nat.repr p.2)
        ((strField p.1 "name").getD "") (argumentsText p.1 "args").toList) := by
    rw [map_map]
    exact map_congr_left (fun p _ => readChunk_toolCall _ _ _ _ _ _)
  rw [hchunks]
  refine ⟨_, Writes.numbered (fun _ k => "call_" ++ Nat.repr k)
    (fun fc => (strField fc "name").getD "") (fun fc => (argumentsText fc "args").toList) calls n,
    ?_, ?_⟩
  · rw [contentOf, flatMap_map]
    exact flatMap_eq_nil_iff.mpr (fun p _ => rfl)
  · rw [callsOf, filterMap_map]
    exact filterMap_eq_map_iff_forall_eq_some.mpr (fun p _ => rfl)

theorem frame_run (t : GeminiStreamTranslator) (ev : Json) :
    FramesRun t [ev] (frame t ev).1 ((frame t ev).2.map readChunk) := by
  have hparts : [ev].flatMap partsOf = partsOf ev := flatMap_singleton _ _
  refine ⟨?_, ?_, ?_, ?_⟩
  · rcases content_write (t.identify ev) (String.join ((partsOf ev).filterMap (strField · "text")))
      t.nextToolIndex with ⟨texts, htexts, hcontent, hnone⟩
    rcases calls_write (t.identify ev) (functionCalls (partsOf ev)) t.nextToolIndex with
      ⟨calls, hwrites, hempty, hcalls⟩
    have hrest := (role_write (t.identify ev) t.nextToolIndex).append
      (htexts.append_of_no_calls hnone hwrites)
    refine ⟨texts ++ calls, ?_, ?_, ?_⟩
    · simp only [frame, map_append, append_assoc]
      exact hrest
    · rw [contentOf_append, hcontent, hempty, hparts, texts_eq, append_nil]
    · rw [callsOf_append, hnone, hcalls, hparts, nil_append]
  · rw [hparts]
    rfl
  · rw [hparts]
    rfl
  · rw [head?_filterMap_singleton, head?_filterMap_singleton]
    rfl

/-- The frames before the last one are written as text and calls. -/
theorem frames_run (h : ∀ ev ∈ evs, finishReasonOf ev = none ∧ ev.get "usageMetadata" = none) :
    FramesRun t evs (observeAll observe t evs).1
      ((observeAll observe t evs).2.map readChunk) := by
  induction evs generalizing t with
  | nil => exact .nil t
  | cons ev rest ih =>
    rcases h ev mem_cons_self with ⟨hfinish, husage⟩
    have hobserve : t.observe ev = ((frame t ev).1, { chunks := (frame t ev).2 }) := by
      unfold finishReasonOf at hfinish
      simp only [observe, hfinish, husage]
      rfl
    have hrest := (frame_run t ev).append
      (ih (t := (frame t ev).1) (fun ev hev => h ev (mem_cons_of_mem _ hev)))
    rw [observeAll, hobserve, map_append]
    exact hrest

end Frames

section Run

def geminiEnding (hasToolCalls : Bool) (ev : Json) : List ChatDelta :=
  match finishReasonOf ev with
  | some reason => [.ending (finishOf hasToolCalls reason).2, .blank]
  | none => []

def geminiEnd (record : InferenceRecord) (hasToolCalls : Bool) (ev : Json) : InferenceRecord :=
  (record.withUsage ((ev.get "usageMetadata").map geminiTokenUsageFrom)).withFinish
    ((finishReasonOf ev).map normalizeGeminiFinishReason = some .contentFilter)
    ((finishReasonOf ev).map (fun reason =>
      (finishOf hasToolCalls reason).1))

def geminiRecord (base : InferenceRecord) (body : Json) : InferenceRecord :=
  geminiEnd { base with
      upstreamProtocol := .gemini
      modelServed := base.modelServed.or (strField body "modelVersion")
      upstreamRequestId := base.upstreamRequestId.or (strField body "responseId") }
    (!(functionCalls (partsOf body)).isEmpty) body

theorem observe_frame (t : GeminiStreamTranslator) (ev : Json) :
    (t.observe ev).2.chunks.map readChunk
        = (frame t ev).2.map readChunk ++ geminiEnding (frame t ev).1.hasToolCalls ev
      ∧ (t.observe ev).1.record
        = geminiEnd (frame t ev).1.record (frame t ev).1.hasToolCalls ev := by
  unfold geminiEnding geminiEnd
  cases hfinish : finishReasonOf ev with
  | none =>
    unfold finishReasonOf at hfinish
    simp only [observe, hfinish, append_nil]
    exact ⟨rfl, rfl⟩
  | some reason =>
    unfold finishReasonOf at hfinish
    simp only [observe, hfinish, Option.map_some, Option.some.injEq]
    refine ⟨?_, rfl⟩
    rw [map_append]
    rfl

/-- A whole stream: its chunks are the parts and then the reason, and the record is
    that of the body. -/
theorem gemini_run {body : Json} {evs : List Json} (base : InferenceRecord)
    (h : GeminiStream body evs) :
    let r := observeAll observe (.new base) evs
    (∃ items ds, Writes 0 items ds ∧ contentOf items = (partsOf body).flatMap partText
        ∧ callsOf items = ((functionCalls (partsOf body)).zipIdx).map numberedCall
        ∧ r.2.map readChunk
          = ds ++ geminiEnding (!(functionCalls (partsOf body)).isEmpty) body)
      ∧ r.1.record = geminiRecord base body := by
  intro r
  rcases h.ending with ⟨init, last, rfl, hinit, hfinish, husage⟩
  -- Up to the end the last frame is one more.
  have hframes := (frames_run (t := .new base) hinit).append (frame_run _ last)
  set t1 := (observeAll observe (.new base) init).1 with ht1
  have hhas : (frame t1 last).1.hasToolCalls = !(functionCalls (partsOf body)).isEmpty := by
    rw [hframes.hasToolCalls, h.parts.calls]
    rfl
  have hrecord : (frame t1 last).1.record = { base with
      upstreamProtocol := .gemini
      modelServed := base.modelServed.or (strField body "modelVersion")
      upstreamRequestId := base.upstreamRequestId.or (strField body "responseId") } := by
    have hmodel : ((init ++ [last]).filterMap (strField · "modelVersion")).head? = _ := h.model
    have hid : ((init ++ [last]).filterMap (strField · "responseId")).head? = _ := h.id
    rw [hframes.record, hmodel, hid]
    rfl
  rcases observe_frame t1 last with ⟨hchunks, hend⟩
  have hending : geminiEnding (frame t1 last).1.hasToolCalls last
      = geminiEnding (!(functionCalls (partsOf body)).isEmpty) body := by
    rw [geminiEnding, hfinish, hhas]
    rfl
  have hafter : (t1.observe last).1.record = geminiRecord base body := by
    rw [hend, hrecord, hhas, geminiEnd, hfinish, husage]
    rfl
  rcases hframes.writes with ⟨items, hwrites, hcontent, hcalls⟩
  rw [h.parts.text] at hcontent
  rw [h.parts.calls] at hcalls
  refine ⟨⟨items, _, hwrites, hcontent, hcalls, ?_⟩, ?_⟩
  · simp [r, observeAll_append, observeAll, ← ht1, hchunks, hending]
  · simp only [r, observeAll_append, observeAll, ← ht1, hafter]

end Run

end Waygate.Llm
