import Waygate.Theory.Invocation.StreamStages

/-!
# How an Inference Stream Is Closed Out

Whatever the provider sends and wherever the client drops the stream, one outcome is
written, and the client reads either a whole answer or an error at its end. Relaying
an OpenAI chat upstream to a native caller would end without a terminal chunk; native
callers are only routed to Anthropic.

## Main definitions

* `Partial`, `Complete`

## Theorems

* `closes_out`, `closes_out_unattended`
-/

namespace Waygate.Invocation

open Llm Machine Transcript List

section Client

/-- The client has read part of an answer: chunks, and none of them is terminal. -/
def Partial (items : List (Except String InvocationChunk)) : Prop :=
  ∃ chunks : List InvocationChunk, items = chunks.map .ok ∧ ∀ c ∈ chunks, c.terminal = false

/-- The client has read to the end: chunks of which exactly the last is terminal, or
    chunks of which none is, and then an error. -/
def Complete (items : List (Except String InvocationChunk)) : Prop :=
  ∃ before, Partial before ∧ ((∃ last : InvocationChunk, items = before ++ [.ok last]
      ∧ last.terminal = true) ∨ ∃ reason, items = before ++ [.error reason])

variable {items : List (Except String InvocationChunk)}

theorem unsealed_iff : Unsealed Closes items ↔ Partial items := by
  constructor
  · intro h
    induction items with
    | nil => exact ⟨[], rfl, by simp⟩
    | cons item rest ih =>
      rcases ih (fun x hx => h x (mem_cons_of_mem item hx)) with ⟨chunks, rfl, hchunks⟩
      cases item with
      | error reason => exact absurd trivial (h (.error reason) mem_cons_self)
      | ok chunk =>
        have hchunk : chunk.terminal = false := by
          simpa [Closes] using h (.ok chunk) mem_cons_self
        refine ⟨chunk :: chunks, rfl, ?_⟩
        simpa [hchunk] using hchunks
  · rintro ⟨chunks, rfl, hchunks⟩ x hx
    rcases mem_map.mp hx with ⟨chunk, hchunk, rfl⟩
    simp [Closes, hchunks chunk hchunk]

theorem sealed_iff : Sealed Closes items ↔ Complete items := by
  constructor
  · rintro ⟨before, last, rfl, hbefore, hlast⟩
    refine ⟨before, unsealed_iff.mp hbefore, ?_⟩
    cases last with
    | error reason => exact .inr ⟨reason, rfl⟩
    | ok chunk => exact .inl ⟨chunk, rfl, hlast⟩
  · rintro ⟨before, hbefore, ⟨last, rfl, hlast⟩ | ⟨reason, rfl⟩⟩
    · exact (unsealed_iff.mpr hbefore).concat hlast
    · exact (unsealed_iff.mpr hbefore).concat trivial

variable {parse : String → Option Json} {fin : StreamFinalize} {actions : List Action}
  {reported unattended : Prop} {s s' : State}

theorem Stage.items_read (h : Stage reported unattended s) :
    Partial s.items ∨ Complete s.items := by
  have hread : s.items <+: s.queue := prefix_append _ _
  rcases h.queue with hqueue | hqueue
  · exact .inl (unsealed_iff.mp (hqueue.initial hread))
  · exact (hqueue.initial hread).imp unsealed_iff.mp sealed_iff.mp

theorem Stage.items_ended (h : Stage reported unattended s) (hphase : s.phase = .ended) :
    Complete s.items := by
  cases h with
  | ended hphase settled hpending hqueue =>
    rw [State.queue, hpending, map_nil, append_nil] at hqueue
    exact sealed_iff.mp hqueue
  | _ => simp_all

theorem Stage.audit_le (h : Stage reported unattended s) : s.audit.length ≤ 1 := by
  by_cases hphase : s.phase = .dropped
  · cases h with
    | dropped hphase settled hqueue =>
      rcases settled.audit with ⟨row, hrow, -⟩
      simp [hrow]
    | cancelled hphase haudit husage hcache hqueue =>
      rcases haudit with haudit | ⟨haudit, -⟩ <;> simp [haudit]
    | _ => simp_all
  · rcases h.live hphase with fresh | settled
    · simp [fresh.audit]
    · rcases settled.audit with ⟨row, hrow, -⟩
      simp [hrow]

theorem Stage.audit_closed (h : Stage reported unattended s) (hattended : ¬ unattended)
    (hclosed : s.phase = .ended ∨ s.phase = .dropped) : s.audit.length = 1 := by
  cases h with
  | ended hphase settled hpending hqueue | dropped hphase settled hqueue =>
    rcases settled.audit with ⟨row, hrow, -⟩
    simp [hrow]
  | cancelled hphase haudit husage hcache hqueue => grind
  | _ => simp_all

theorem Settled.writes (h : Settled reported s) :
    s.usage.length ≤ 1 ∧ s.cache.length ≤ 1
      ∧ ((∃ row ∈ s.audit, row.outcome = .success) ∨ s.usage ≠ [] ∨ s.cache ≠ [] → reported) := by
  refine ⟨h.usage, h.cache, fun hwrote => ?_⟩
  rcases h.audit with ⟨row, hrow, hsuccess⟩
  rcases hwrote with ⟨row', hmem, houtcome⟩ | hwrote
  · grind
  · exact h.wrote hwrote

theorem Stage.writes (h : Stage reported unattended s) :
    s.usage.length ≤ 1 ∧ s.cache.length ≤ 1
      ∧ ((∃ row ∈ s.audit, row.outcome = .success) ∨ s.usage ≠ [] ∨ s.cache ≠ [] → reported) := by
  by_cases hphase : s.phase = .dropped
  · cases h with
    | dropped hphase settled hqueue => exact settled.writes
    | cancelled hphase haudit husage hcache hqueue =>
      rcases haudit with haudit | ⟨haudit, -⟩ <;> simp [haudit, husage, hcache, cancelledRow]
    | _ => simp_all
  · rcases h.live hphase with fresh | settled
    · simp [fresh.audit, fresh.usage, fresh.cache]
    · exact settled.writes

/-- However a stream is driven and wherever it is dropped, provided that a runtime is
    there when it is and that no OpenAI chat stream is relayed to a native caller: one
    outcome is written, a success is written only when the end was reported, and the
    client reads one end and nothing after it. -/
theorem closes_out (parse : String → Option Json) (fin : StreamFinalize) (actions : List Action)
    (s : State) (hrun : (State.start fin).run parse actions = some s)
    (hruntime : ∀ a ∈ actions, a ≠ .drop false)
    (hrelay : fin.framing = .nativeRelay → fin.recordBase.upstreamProtocol ≠ .openAiChat) :
    (s.audit.length ≤ 1 ∧ (s.phase = .ended ∨ s.phase = .dropped → s.audit.length = 1))
      ∧ (s.usage.length ≤ 1 ∧ s.cache.length ≤ 1
        ∧ ((∃ row ∈ s.audit, row.outcome = .success) ∨ s.usage ≠ [] ∨ s.cache ≠ [] →
          Reported parse fin actions))
      ∧ ((Partial s.items ∨ Complete s.items) ∧ (s.phase = .ended → Complete s.items))
      ∧ ∀ more s', s.run parse more = some s' → Complete s.items → s'.items = s.items := by
  have hstage := (run_stage hrelay hrun).stage
  have hattended : ¬ Action.drop false ∈ actions := fun hmem => hruntime _ hmem rfl
  refine ⟨⟨hstage.audit_le, hstage.audit_closed hattended⟩, hstage.writes,
    ⟨hstage.items_read, hstage.items_ended⟩, fun more s' hmore hcomplete => ?_⟩
  -- The longer run is a run as well, so what it has read is open or read to its end.
  have hrun' : (State.start fin).run parse (actions ++ more) = some s' := by
    rw [State.run, foldlM_append]
    exact Option.bind_eq_some_iff.mpr ⟨s, hrun, hmore⟩
  have hitems := (run_stage hrelay hrun').stage.items_read
  exact ((sealed_iff.mpr hcomplete).eq_of_initial (run_items hmore)
    (hitems.imp unsealed_iff.mpr sealed_iff.mpr)).symm

def sampleCall (framing : ClientFraming) : StreamFinalize :=
  { recordBase := .new .openAi "key" "model" .chatCompletions .openAiChat
    usage := true
    tenantId := "default"
    principalSub := none
    modelAlias := "model"
    cacheStore := none
    framing := framing }

def sampleEnd : Action :=
  .frame (some (.ok "[DONE]"))

theorem closes_out_end : ∃ s,
    (State.start (sampleCall .chatChunks)).run (fun _ => none)
      [sampleEnd, .written, .written, .poll, .poll] = some s
      ∧ s.phase = .ended ∧ s.audit.length = 1 ∧ Complete s.items := by
  refine ⟨_, rfl, rfl, ?_⟩
  have h := closes_out (fun _ => none) (sampleCall .chatChunks)
    [sampleEnd, .written, .written, .poll, .poll] _ rfl (by simp [sampleEnd])
    (by simp [sampleCall])
  exact ⟨h.1.2 (.inl rfl), h.2.2.1.2 rfl⟩

/-- Without a runtime there is no outcome. And the end of an OpenAI chat stream is not
    relayed: the client reads no end, while a success is written. -/
theorem closes_out_unattended :
    (∃ s, (State.start (sampleCall .chatChunks)).run (fun _ => none) [.drop false] = some s
      ∧ s.phase = .dropped ∧ s.audit = [])
    ∧ ∃ s, (State.start (sampleCall .nativeRelay)).run (fun _ => none)
        [sampleEnd, .written, .written, .poll] = some s
      ∧ s.phase = .ended ∧ s.audit = [Ending.done.row] ∧ ¬ Complete s.items := by
  refine ⟨⟨_, rfl, rfl, rfl⟩, ⟨_, rfl, rfl, rfl, ?_⟩⟩
  rintro ⟨before, -, ⟨last, h, -⟩ | ⟨reason, h⟩⟩
  · exact append_ne_nil_of_right_ne_nil before (by simp) h.symm
  · exact append_ne_nil_of_right_ne_nil before (by simp) h.symm

end Client

end Waygate.Invocation
