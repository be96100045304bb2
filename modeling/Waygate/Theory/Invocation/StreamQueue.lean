import Waygate.Core.Invocation.Stream
import Waygate.Theory.Transcript.Sealed

/-!
# What Is Queued for a Frame

Until the translator reports the end, no chunk that is queued is terminal, and at the
end the last one is. For that the end must have something to send, as the end of every
upstream has, except that of an OpenAI chat stream.

## Main definitions

* `Closes`: A terminal chunk.
* `Relays`: What the end sends.

## Theorems

* `enqueue_spec`
* `push_done_chunks`, `push_done_event`: The end of a stream.
-/

namespace Waygate.Invocation

open Llm Transcript List

section Translators

variable {parse : String → Option Json} {data : String}

def protocol : StreamTranslator → UpstreamProtocol
  | .openAi _ => .openAiChat
  | .anthropic _ => .anthropicMessages
  | .gemini _ => .gemini
  | .responses _ => .openAiResponses

theorem protocol_forRecord (base : InferenceRecord) :
    protocol (.forRecord base) = base.upstreamProtocol := by
  unfold StreamTranslator.forRecord
  cases h : base.upstreamProtocol <;> rfl

theorem protocol_push (t : StreamTranslator) :
    protocol (t.push parse data).1 = protocol t := by
  cases t <;> rfl

theorem protocol_pushAll (t : StreamTranslator) (frames : List String) :
    protocol (t.pushAll parse frames).1 = protocol t := by
  induction frames generalizing t with
  | nil => rfl
  | cons data rest ih =>
    simp only [StreamTranslator.pushAll]
    rw [ih, protocol_push]

theorem pushAll_concat (t : StreamTranslator) (frames : List String) (data : String) :
    (t.pushAll parse (frames ++ [data])).1 = ((t.pushAll parse frames).1.push parse data).1 := by
  induction frames generalizing t with
  | nil => rfl
  | cons first rest ih =>
    simp only [cons_append, StreamTranslator.pushAll]
    exact ih _

theorem anthropic_done {t : AnthropicStreamTranslator} {ev : Json}
    (h : (t.observe ev).2.done = true) : (t.observe ev).2.chunks ≠ [] := by
  have hstart : (t.messageStart ev).2.done = false := rfl
  have hblock : (t.contentBlockStart ev).2.done = false := by
    unfold AnthropicStreamTranslator.contentBlockStart
    split
    · split
      · simp only []
        split <;> rfl
      · rfl
    · rfl
  have hdelta : (t.contentBlockDelta ev).done = false := by
    unfold AnthropicStreamTranslator.contentBlockDelta
    simp only []
    split
    · split <;> rfl
    · split
      · split
        · split <;> rfl
        · rfl
      · rfl
  have hmessage : (t.messageDelta ev).2.done = false := by
    unfold AnthropicStreamTranslator.messageDelta
    simp only []
    split <;> rfl
  -- Only `message_stop` is the end, and it sends the sentinel.
  unfold AnthropicStreamTranslator.observe at h ⊢
  split at h
  · simp [hstart] at h
  split at h
  · simp [hblock] at h
  split at h
  · simp [hdelta] at h
  split at h
  · simp [hmessage] at h
  split at h
  · simp_all
  · simp at h

theorem gemini_done {t : GeminiStreamTranslator} {ev : Json}
    (h : (t.observe ev).2.done = true) : (t.observe ev).2.chunks ≠ [] := by
  unfold GeminiStreamTranslator.observe at h ⊢
  simp only [] at h ⊢
  split at h
  · simp_all
  · simp at h

theorem responses_done {t : ResponsesStreamTranslator} {ev : Json}
    (h : (t.observe ev).2.done = true) : (t.observe ev).2.chunks ≠ [] := by
  unfold ResponsesStreamTranslator.observe at h ⊢
  simp only [] at h ⊢
  split at h
  · simp at h
  split at h
  · simp at h
  split at h
  · simp at h
  split at h
  · simp_all
  · simp at h

theorem pushEvent_done {T : Type} {observe : T → Json → T × StreamStep} {t : T}
    (h : (StreamTranslator.pushEvent parse observe t data).2.done = true) :
    ∃ ev, parse (trim data) = some ev
      ∧ StreamTranslator.pushEvent parse observe t data = observe t ev := by
  unfold StreamTranslator.pushEvent at h ⊢
  cases hdecode : decode parse data with
  | none => simp [hdecode] at h
  | some ev =>
    refine ⟨ev, ?_, rfl⟩
    unfold decode at hdecode
    split at hdecode
    · cases hdecode
    · exact hdecode

theorem push_done_chunks {t : StreamTranslator} (h : (t.push parse data).2.done = true) :
    (t.push parse data).2.chunks ≠ [] := by
  cases t with
  | openAi t => simp [StreamTranslator.push, OpenAiChatStreamAggregator.push]
  | anthropic t =>
    simp only [StreamTranslator.push, Prod.map_snd, id_eq] at h ⊢
    rcases pushEvent_done h with ⟨ev, -, heq⟩
    rw [heq] at h ⊢
    exact anthropic_done h
  | gemini t =>
    simp only [StreamTranslator.push, Prod.map_snd, id_eq] at h ⊢
    rcases pushEvent_done h with ⟨ev, -, heq⟩
    rw [heq] at h ⊢
    exact gemini_done h
  | responses t =>
    simp only [StreamTranslator.push, Prod.map_snd, id_eq] at h ⊢
    rcases pushEvent_done h with ⟨ev, -, heq⟩
    rw [heq] at h ⊢
    exact responses_done h

theorem push_done_event {t : StreamTranslator} (hprotocol : protocol t ≠ .openAiChat)
    (h : (t.push parse data).2.done = true) : ∃ ev, parse (trim data) = some ev := by
  cases t with
  | openAi t => exact absurd rfl hprotocol
  | anthropic | gemini | responses =>
    simp only [StreamTranslator.push, Prod.map_snd, id_eq] at h
    rcases pushEvent_done h with ⟨ev, hev, -⟩
    exact ⟨ev, hev⟩

end Translators

section Queue

def Closes : Except String InvocationChunk → Prop
  | .ok chunk => chunk.terminal = true
  | .error _ => True

def State.queue (s : State) : List (Except String InvocationChunk) :=
  s.items ++ s.pending.map .ok

theorem marked_false (events : List (Option String × Json)) :
    Unsealed Closes ((State.marked false events).map .ok) := by
  intro x hx
  simp only [State.marked, map_map, mem_map] at hx
  rcases hx with ⟨e, -, rfl⟩
  simp [Closes]

theorem marked_true {events : List (Option String × Json)} (h : events ≠ []) :
    Sealed Closes ((State.marked true events).map .ok) := by
  rcases eq_nil_or_concat' events with rfl | ⟨before, last, rfl⟩
  · exact absurd rfl h
  unfold State.marked
  rw [zipIdx_append, map_append, map_append]
  refine ⟨_, _, rfl, ?_, ?_⟩
  · -- Before the last one, the index is too small.
    intro x hx
    simp only [map_map, mem_map] at hx
    rcases hx with ⟨e, he, rfl⟩
    have hlt := snd_lt_of_mem_zipIdx he
    simp only [Function.comp, Closes, length_append, length_singleton]
    simp
    omega
  · simp [Closes]

variable {parse : String → Option Json} {s : State} {data : String} {step : StreamStep}

theorem liftedChunks_open (lifter : ChatStreamToResponses) (record : InferenceRecord)
    (h : step.done = false) :
    Unsealed Closes ((State.liftedChunks lifter step record).2.map .ok) := by
  unfold State.liftedChunks
  simp only [h, Bool.false_eq_true, if_false]
  exact marked_false _

theorem liftedChunks_sealed (lifter : ChatStreamToResponses) (record : InferenceRecord)
    (h : step.done = true) :
    Sealed Closes ((State.liftedChunks lifter step record).2.map .ok) := by
  unfold State.liftedChunks
  simp only [h, if_true, map_append]
  refine (marked_false _).append_sealed (marked_true ?_)
  -- The last event of a response is sent whatever was open.
  simp [ChatStreamToResponses.finish, ChatStreamToResponses.event]

def Relays (parse : String → Option Json) (s : State) (data : String) : Prop :=
  s.responsesLifter = none → s.fin.framing ≠ .chatChunks → ∃ ev, parse (trim data) = some ev

/-- A frame only adds to the queue. The end seals it. -/
theorem enqueue_spec (s : State) (data : String) (step : StreamStep) : ∃ lifter tee chunks,
    s.enqueue parse data step
      = { s with responsesLifter := lifter, cacheStore := tee, pending := s.pending ++ chunks }
      ∧ lifter.isSome = s.responsesLifter.isSome
      ∧ (step.done = false → Unsealed Closes (chunks.map .ok))
      ∧ (step.done = true → step.chunks ≠ [] → Relays parse s data →
        Sealed Closes (chunks.map .ok)) := by
  unfold State.enqueue
  split
  · grind [liftedChunks_open, liftedChunks_sealed]
  · rename_i hlifter
    split
    · rename_i hframing
      refine ⟨s.responsesLifter, s.cacheStore, _, rfl, rfl, fun hdone x hx => ?_,
        fun hdone _ hrelays => ?_⟩
      · simp only [State.relayedChunks, hdone, map_map, mem_map] at hx
        rcases hx with ⟨ev, -, rfl⟩
        simp [Closes]
      · rcases hrelays hlifter hframing with ⟨ev, hev⟩
        simp only [State.relayedChunks, hev, hdone, Option.toList_some, map_cons, map_nil]
        exact Unsealed.nil.concat rfl
    · refine ⟨s.responsesLifter, _, _, rfl, rfl, fun hdone => ?_, fun hdone hchunks _ => ?_⟩
      · rw [hdone]
        exact marked_false _
      · rw [hdone]
        exact marked_true (by simpa using hchunks)

end Queue

end Waygate.Invocation
