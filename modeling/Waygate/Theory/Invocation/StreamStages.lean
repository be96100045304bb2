import Waygate.Theory.Invocation.StreamQueue
import Waygate.Theory.Machine.Run

/-!
# The Stages of an Inference Stream

While a stream is streaming, nothing has been written and nothing that was queued is
terminal. Once the translator reports the end, the queue is sealed, and only the writes
are outstanding.

## Main definitions

* `Stage`
* `Inv`: What every step keeps.

## Theorems

* `Inv.step`, `run_stage`: What holds after a step, and after a run.
* `run_items`: What the client has read stays read.
-/

namespace Waygate.Invocation

open Llm Machine Transcript List

section Stages

variable {reported unattended : Prop} {s : State}

def received (actions : List Action) : List String :=
  actions.filterMap (fun a => match a with
    | .frame (some (.ok data)) => some data
    | _ => none)

/-- The translator has reported the end for one of the frames. -/
def Reported (parse : String → Option Json) (fin : StreamFinalize) (actions : List Action) :
    Prop :=
  ∃ before data, before ++ [data] <+: received actions
    ∧ (((StreamTranslator.forRecord fin.recordBase).pushAll parse before).1.push parse data).2.done
      = true

theorem Reported.mono {parse : String → Option Json} {fin : StreamFinalize}
    {actions : List Action} (h : Reported parse fin actions) (more : List Action) :
    Reported parse fin (actions ++ more) := by
  rcases h with ⟨before, data, hp, hdone⟩
  refine ⟨before, data, hp.trans ?_, hdone⟩
  simp [received]

structure Fresh (s : State) : Prop where
  finished : s.finished = false
  audit : s.audit = []
  usage : s.usage = []
  cache : s.cache = []

/-- The outcome has been written. The other rows are written only at an end that
    the translator has reported. -/
structure Settled (reported : Prop) (s : State) : Prop where
  finished : s.finished = true
  audit : ∃ row, s.audit = [row] ∧ (row.outcome = .success → reported)
  usage : s.usage.length ≤ 1
  cache : s.cache.length ≤ 1
  wrote : s.usage ≠ [] ∨ s.cache ≠ [] → reported

/-- The stages of a stream. `unattended` says that it was dropped without a runtime. -/
inductive Stage (reported unattended : Prop) (s : State) : Prop
  | streaming (hphase : s.phase = .waiting) (fresh : Fresh s) (hqueue : Unsealed Closes s.queue)
  | ending (hphase : s.phase = .writing .done) (fresh : Fresh s) (hreported : reported)
      (hqueue : Sealed Closes s.queue)
  | failing (reason : String) (hphase : s.phase = .writing (.failed reason)) (fresh : Fresh s)
      (hpending : s.pending = []) (hqueue : Unsealed Closes s.queue)
  | recording (row : LlmUsageRow) (hphase : s.phase = .recording row)
      (settled : Settled reported s) (hreported : reported) (husage : s.usage = [])
      (hcache : s.cache = []) (hqueue : Sealed Closes s.queue)
  | storing (request : CacheStoreRequest) (hphase : s.phase = .storing request)
      (settled : Settled reported s) (hreported : reported) (hcache : s.cache = [])
      (hqueue : Sealed Closes s.queue)
  | draining (hphase : s.phase = .waiting) (settled : Settled reported s)
      (hqueue : Sealed Closes s.queue)
  | ended (hphase : s.phase = .ended) (settled : Settled reported s) (hpending : s.pending = [])
      (hqueue : Sealed Closes s.queue)
  | dropped (hphase : s.phase = .dropped) (settled : Settled reported s)
      (hqueue : Unsealed Closes s.queue ∨ Sealed Closes s.queue)
  | cancelled (hphase : s.phase = .dropped)
      (haudit : s.audit = [cancelledRow] ∨ s.audit = [] ∧ unattended) (husage : s.usage = [])
      (hcache : s.cache = []) (hqueue : Unsealed Closes s.queue ∨ Sealed Closes s.queue)

theorem Stage.mono {reported' unattended' : Prop} (h : Stage reported unattended s)
    (hr : reported → reported') (hu : unattended → unattended') :
    Stage reported' unattended' s := by
  have hsettled : Settled reported s → Settled reported' s := by
    rintro ⟨hfinished, ⟨row, hrow, hsuccess⟩, husage, hcache, hwrote⟩
    exact ⟨hfinished, ⟨row, hrow, fun h => hr (hsuccess h)⟩, husage, hcache,
      fun h => hr (hwrote h)⟩
  cases h with
  | streaming hphase fresh hqueue => exact .streaming hphase fresh hqueue
  | ending hphase fresh hreported hqueue => exact .ending hphase fresh (hr hreported) hqueue
  | failing reason hphase fresh hpending hqueue =>
    exact .failing reason hphase fresh hpending hqueue
  | recording row hphase settled hreported husage hcache hqueue =>
    exact .recording row hphase (hsettled settled) (hr hreported) husage hcache hqueue
  | storing request hphase settled hreported hcache hqueue =>
    exact .storing request hphase (hsettled settled) (hr hreported) hcache hqueue
  | draining hphase settled hqueue => exact .draining hphase (hsettled settled) hqueue
  | ended hphase settled hpending hqueue =>
    exact .ended hphase (hsettled settled) hpending hqueue
  | dropped hphase settled hqueue => exact .dropped hphase (hsettled settled) hqueue
  | cancelled hphase haudit husage hcache hqueue =>
    exact .cancelled hphase (haudit.imp id (And.imp id hu)) husage hcache hqueue

theorem Stage.queue (h : Stage reported unattended s) :
    Unsealed Closes s.queue ∨ Sealed Closes s.queue := by
  cases h with
  | streaming _ _ hqueue | failing _ _ _ _ hqueue => exact .inl hqueue
  | ending _ _ _ hqueue | recording _ _ _ _ _ _ hqueue | storing _ _ _ _ _ hqueue
  | draining _ _ hqueue | ended _ _ _ hqueue => exact .inr hqueue
  | dropped _ _ hqueue | cancelled _ _ _ _ hqueue => exact hqueue

theorem Stage.live (h : Stage reported unattended s) (hdropped : s.phase ≠ .dropped) :
    Fresh s ∨ Settled reported s := by
  cases h with
  | streaming _ fresh | ending _ fresh | failing _ _ fresh => exact .inl fresh
  | recording _ _ settled | storing _ _ settled | draining _ settled | ended _ settled
  | dropped _ settled => exact .inr settled
  | cancelled hphase => exact absurd hphase hdropped

end Stages

section Steps

variable {parse : String → Option Json} {reported unattended : Prop} {s s' : State}

theorem recordFailure_eq (s : State) (phase : LlmFailurePhase) : ∃ finished failures,
    s.recordFailure phase = { s with telemetryFinished := finished, failures := failures } := by
  unfold State.recordFailure
  split
  · exact ⟨s.telemetryFinished, s.failures, rfl⟩
  · exact ⟨true, _, rfl⟩

theorem storeCompletion_eq (s : State) :
    s.storeCompletion = { s with phase := .waiting }
      ∨ ∃ request, s.storeCompletion = { s with phase := .storing request } := by
  unfold State.storeCompletion
  split
  · rename_i request _
    exact .inr ⟨request, rfl⟩
  · exact .inl rfl

theorem recordUsage_eq (s : State) :
    (∃ row, s.recordUsage = { s with phase := .recording row })
      ∨ s.recordUsage = s.storeCompletion := by
  unfold State.recordUsage
  split
  · exact .inl ⟨_, rfl⟩
  · exact .inr rfl

theorem poll_cases (h : s.poll = some s') : s.phase = .waiting ∧
    ((∃ chunk rest, s.pending = chunk :: rest
        ∧ s' = { s with pending := rest, items := s.items ++ [.ok chunk] })
      ∨ s.pending = [] ∧ s.finished = true
        ∧ s' = { s.recordFailure .abandoned with phase := .ended }
      ∨ s' = s) := by
  unfold State.poll at h
  split at h
  · grind
  · grind
  · cases h

theorem queue_read {chunk : InvocationChunk} {rest : List InvocationChunk}
    (h : s.pending = chunk :: rest) :
    ({ s with pending := rest, items := s.items ++ [.ok chunk] } : State).queue = s.queue := by
  simp [State.queue, h]

theorem Stage.poll (h : Stage reported unattended s) (hstep : s.poll = some s') :
    Stage reported unattended s' := by
  rcases poll_cases hstep with ⟨hwaiting, ⟨chunk, rest, hpending, rfl⟩ | ⟨hpending, hfinished, rfl⟩
    | rfl⟩
  · -- A chunk is read, also while a finished stream drains.
    cases h with
    | streaming hphase fresh hqueue =>
      exact .streaming hphase ⟨fresh.1, fresh.2, fresh.3, fresh.4⟩
        (by rwa [queue_read hpending])
    | draining hphase settled hqueue =>
      exact .draining hphase ⟨settled.1, settled.2, settled.3, settled.4, settled.5⟩
        (by rwa [queue_read hpending])
    | _ => simp_all
  · rcases recordFailure_eq s .abandoned with ⟨t, f, heq⟩
    rw [heq]
    cases h with
    | streaming hphase fresh hqueue =>
      rw [fresh.finished] at hfinished
      cases hfinished
    | draining hphase settled hqueue =>
      exact .ended rfl ⟨settled.1, settled.2, settled.3, settled.4, settled.5⟩ hpending hqueue
    | _ => simp_all
  · exact h

theorem Stage.storeCompletion (settled : Settled reported s) (hreported : reported)
    (hcache : s.cache = []) (hqueue : Sealed Closes s.queue) :
    Stage reported unattended s.storeCompletion := by
  have settled' : ∀ phase, Settled reported { s with phase := phase } := fun phase =>
    ⟨settled.1, settled.2, settled.3, settled.4, settled.5⟩
  rcases storeCompletion_eq s with heq | ⟨request, heq⟩
  · rw [heq]
    exact .draining rfl (settled' _) hqueue
  · rw [heq]
    exact .storing request rfl (settled' _) hreported hcache hqueue

theorem Stage.recordUsage (settled : Settled reported s) (hreported : reported)
    (husage : s.usage = []) (hcache : s.cache = []) (hqueue : Sealed Closes s.queue) :
    Stage reported unattended s.recordUsage := by
  rcases recordUsage_eq s with ⟨row, heq⟩ | heq
  · rw [heq]
    exact .recording row rfl ⟨settled.1, settled.2, settled.3, settled.4, settled.5⟩ hreported
      husage hcache hqueue
  · rw [heq]
    exact Stage.storeCompletion settled hreported hcache hqueue

theorem Stage.written (h : Stage reported unattended s) (hstep : s.written = some s') :
    Stage reported unattended s' := by
  unfold State.written at hstep
  cases h with
  | ending hphase fresh hreported hqueue =>
    simp only [hphase, Option.some.injEq] at hstep
    subst hstep
    refine Stage.recordUsage ⟨rfl, ⟨Ending.done.row, ?_, fun _ => hreported⟩, ?_, ?_,
      fun _ => hreported⟩ hreported fresh.usage fresh.cache hqueue
    · simp [fresh.audit]
    · simp [fresh.usage]
    · simp [fresh.cache]
  | failing reason hphase fresh hpending hqueue =>
    simp only [hphase, Option.some.injEq] at hstep
    subst hstep
    refine .draining rfl ⟨rfl, ⟨(Ending.failed reason).row, ?_, ?_⟩, ?_, ?_, ?_⟩ ?_
    · simp [fresh.audit]
    · intro h
      simp [Ending.row] at h
    · simp [fresh.usage]
    · simp [fresh.cache]
    · simp [fresh.usage, fresh.cache]
    · -- Nothing is pending when a frame is awaited, so the error is the last item.
      simp only [State.queue, hpending, map_nil, append_nil] at hqueue ⊢
      exact hqueue.concat trivial
  | recording row hphase settled hreported husage hcache hqueue =>
    simp only [hphase, Option.some.injEq] at hstep
    subst hstep
    refine Stage.storeCompletion ⟨settled.1, settled.2, ?_, settled.4, fun _ => hreported⟩
      hreported hcache hqueue
    simp [husage]
  | storing request hphase settled hreported hcache hqueue =>
    simp only [hphase, Option.some.injEq] at hstep
    subst hstep
    refine .draining rfl ⟨settled.1, settled.2, settled.3, ?_, fun _ => hreported⟩ hqueue
    simp [hcache]
  | _ => simp_all

theorem Stage.drop (h : Stage reported unattended s) (hphase : s.phase ≠ .dropped)
    {runtime : Bool} (hruntime : runtime = false → unattended) :
    Stage reported unattended (s.drop runtime) := by
  have hqueue := h.queue
  rcases recordFailure_eq s .abandoned with ⟨t, f, heq⟩
  unfold State.drop
  rw [heq]
  simp only []
  rcases h.live hphase with fresh | settled
  · -- The flag says that there is no row yet.
    simp only [fresh.finished, Bool.false_or]
    cases runtime with
    | true => exact .cancelled rfl (.inl (by simp [fresh.audit])) fresh.usage fresh.cache hqueue
    | false =>
      exact .cancelled rfl (.inr ⟨fresh.audit, hruntime rfl⟩) fresh.usage fresh.cache hqueue
  · simp only [settled.finished, Bool.true_or, if_true]
    exact .dropped rfl ⟨rfl, settled.2, settled.3, settled.4, settled.5⟩ hqueue

theorem Stage.awaits (h : Stage reported unattended s) (hphase : s.phase = .waiting)
    (hfinished : s.finished = false) : Fresh s ∧ Unsealed Closes s.queue := by
  cases h with
  | streaming hphase fresh hqueue => exact ⟨fresh, hqueue⟩
  | draining hphase settled hqueue =>
    rw [settled.finished] at hfinished
    cases hfinished
  | _ => simp_all

theorem Stage.fail {reason : String} (fresh : Fresh s) (hpending : s.pending = [])
    (hqueue : Unsealed Closes s.queue) : Stage reported unattended (s.fail reason) := by
  rcases recordFailure_eq s .stream with ⟨t, f, heq⟩
  unfold State.fail
  rw [heq]
  exact .failing reason rfl ⟨fresh.1, fresh.2, fresh.3, fresh.4⟩ hpending hqueue

theorem Stage.receive {data : String} (hphase : s.phase = .waiting) (fresh : Fresh s)
    (hqueue : Unsealed Closes s.queue)
    (hreported : (s.translator.push parse data).2.done = true → reported)
    (hrelays : (s.translator.push parse data).2.done = true → Relays parse s data) :
    Stage reported unattended (s.receive parse data) := by
  unfold State.receive
  simp only []
  rcases enqueue_spec { s with translator := (s.translator.push parse data).1 } data
    (s.translator.push parse data).2 with ⟨lifter, tee, chunks, heq, -, hopen, hsealed⟩
  rw [heq]
  have hadded : ∀ phase telemetry, ({ s with
      translator := (s.translator.push parse data).1, responsesLifter := lifter,
      cacheStore := tee, pending := s.pending ++ chunks, phase := phase,
      telemetryFinished := telemetry } : State).queue = s.queue ++ chunks.map .ok := by
    intro phase telemetry
    simp [State.queue]
  cases hdone : (s.translator.push parse data).2.done with
  | true =>
    refine .ending rfl ⟨fresh.1, fresh.2, fresh.3, fresh.4⟩ (hreported hdone) ?_
    rw [if_pos rfl, hadded]
    exact hqueue.append_sealed (hsealed hdone (push_done_chunks hdone) (hrelays hdone))
  | false =>
    refine .streaming hphase ⟨fresh.1, fresh.2, fresh.3, fresh.4⟩ ?_
    exact (hadded s.phase s.telemetryFinished).symm ▸ hqueue.append (hopen hdone)

/-- What a step without a frame keeps. What the client has read stays read. -/
structure Follows (s s' : State) : Prop where
  inputs : s'.fin = s.fin
  translator : s'.translator = s.translator
  lifter : s'.responsesLifter = s.responsesLifter
  items : s.items <+: s'.items

theorem recordFailure_follows (s : State) (phase : LlmFailurePhase) :
    Follows s (s.recordFailure phase) := by
  rcases recordFailure_eq s phase with ⟨t, f, heq⟩
  rw [heq]
  exact ⟨rfl, rfl, rfl, prefix_rfl⟩

theorem poll_follows (h : s.poll = some s') : Follows s s' := by
  rcases poll_cases h with ⟨-, ⟨chunk, rest, -, rfl⟩ | ⟨-, -, rfl⟩ | rfl⟩
  · exact ⟨rfl, rfl, rfl, prefix_append _ _⟩
  · have h := recordFailure_follows s .abandoned
    exact ⟨h.1, h.2, h.3, h.4⟩
  · exact ⟨rfl, rfl, rfl, prefix_rfl⟩

theorem storeCompletion_follows (s : State) : Follows s s.storeCompletion := by
  rcases storeCompletion_eq s with heq | ⟨request, heq⟩
  · rw [heq]
    exact ⟨rfl, rfl, rfl, prefix_rfl⟩
  · rw [heq]
    exact ⟨rfl, rfl, rfl, prefix_rfl⟩

theorem recordUsage_follows (s : State) : Follows s s.recordUsage := by
  rcases recordUsage_eq s with ⟨row, heq⟩ | heq <;> rw [heq]
  · exact ⟨rfl, rfl, rfl, prefix_rfl⟩
  · exact storeCompletion_follows s

theorem written_follows (h : s.written = some s') : Follows s s' := by
  unfold State.written at h
  split at h
  · cases h
    have h := recordUsage_follows { s with audit := s.audit ++ [Ending.done.row], finished := true }
    exact ⟨h.1, h.2, h.3, h.4⟩
  · cases h
    exact ⟨rfl, rfl, rfl, prefix_append _ _⟩
  · rename_i row _
    cases h
    have h := storeCompletion_follows { s with usage := s.usage ++ [row] }
    exact ⟨h.1, h.2, h.3, h.4⟩
  · cases h
    exact ⟨rfl, rfl, rfl, prefix_rfl⟩
  · cases h

theorem drop_follows (s : State) (runtime : Bool) : Follows s (s.drop runtime) := by
  have h := recordFailure_follows s .abandoned
  unfold State.drop
  simp only []
  split <;> exact ⟨h.1, h.2, h.3, h.4⟩

theorem fail_follows (s : State) (reason : String) : Follows s (s.fail reason) := by
  have h := recordFailure_follows s .stream
  exact ⟨h.1, h.2, h.3, h.4⟩

theorem receive_follows (s : State) (data : String) :
    (s.receive parse data).fin = s.fin
      ∧ (s.receive parse data).translator = (s.translator.push parse data).1
      ∧ (s.receive parse data).responsesLifter.isSome = s.responsesLifter.isSome
      ∧ (s.receive parse data).items = s.items := by
  rcases enqueue_spec { s with translator := (s.translator.push parse data).1 } data
    (s.translator.push parse data).2 with ⟨lifter, tee, chunks, heq, hlifter, -⟩
  unfold State.receive
  simp only []
  rw [heq]
  split <;> exact ⟨rfl, rfl, hlifter, rfl⟩

end Steps

section Runs

variable {parse : String → Option Json} {fin : StreamFinalize} {actions : List Action}
  {a : Action} {s s' : State}

structure Inv (parse : String → Option Json) (fin : StreamFinalize) (actions : List Action)
    (s : State) : Prop where
  inputs : s.fin = fin
  translator : s.translator
    = ((StreamTranslator.forRecord fin.recordBase).pushAll parse (received actions)).1
  lifter : s.responsesLifter = none → fin.framing = .responses →
    fin.recordBase.upstreamProtocol = .openAiResponses
  stage : Stage (Reported parse fin actions) (.drop false ∈ actions) s

theorem Inv.start : Inv parse fin [] (State.start fin) := by
  refine ⟨rfl, rfl, fun hnone hframing => ?_, .streaming rfl ⟨rfl, rfl, rfl, rfl⟩ Unsealed.nil⟩
  by_contra hprotocol
  simp [State.start, hframing, hprotocol] at hnone

theorem Inv.keep (h : Inv parse fin actions s) (hfollows : Follows s s')
    (hreceived : received [a] = [])
    (hstage : Stage (Reported parse fin (actions ++ [a])) (.drop false ∈ actions ++ [a]) s') :
    Inv parse fin (actions ++ [a]) s' := by
  refine ⟨hfollows.inputs.trans h.inputs, ?_,
    fun hnone => h.lifter (hfollows.lifter.symm.trans hnone), hstage⟩
  rw [hfollows.translator, h.translator]
  simp only [received, filterMap_append] at hreceived ⊢
  rw [hreceived, append_nil]

theorem Inv.stage_mono (h : Inv parse fin actions s) (a : Action) :
    Stage (Reported parse fin (actions ++ [a])) (.drop false ∈ actions ++ [a]) s :=
  h.stage.mono (fun hr => hr.mono [a]) (fun hu => mem_append_left [a] hu)

section Relay

variable (hrelay : fin.framing = .nativeRelay → fin.recordBase.upstreamProtocol ≠ .openAiChat)

include hrelay

theorem Inv.relays (h : Inv parse fin actions s) {data : String}
    (hdone : (s.translator.push parse data).2.done = true) :
    Relays parse s data := by
  intro hlifter hframing
  have hprotocol : protocol s.translator = fin.recordBase.upstreamProtocol := by
    rw [h.translator, protocol_pushAll, protocol_forRecord]
  refine push_done_event ?_ hdone
  rw [hprotocol]
  rw [h.inputs] at hframing
  cases hf : fin.framing with
  | chatChunks => exact absurd hf hframing
  | responses =>
    rw [h.lifter hlifter hf]
    simp
  | nativeRelay => exact hrelay hf

theorem Inv.receive (h : Inv parse fin actions s)
    (hphase : s.phase = .waiting) (hfinished : s.finished = false) (data : String) :
    Inv parse fin (actions ++ [.frame (some (.ok data))]) (s.receive parse data) := by
  rcases h.stage.awaits hphase hfinished with ⟨fresh, hqueue⟩
  rcases receive_follows s data with ⟨hfin, htranslator, hlifter, -⟩
  have hreceived : received (actions ++ [.frame (some (.ok data))])
      = received actions ++ [data] := by
    simp [received]
  refine ⟨hfin.trans h.inputs, ?_, fun hnone => h.lifter ?_, ?_⟩
  · rw [htranslator, hreceived, pushAll_concat, h.translator]
  · rw [hnone] at hlifter
    simpa using hlifter.symm
  · refine Stage.receive hphase fresh hqueue (fun hdone => ?_) (h.relays hrelay)
    -- The translator has seen exactly the frames of the run.
    refine ⟨received actions, data, ?_, ?_⟩
    · exact ⟨[], by rw [hreceived, append_nil]⟩
    · rwa [← h.translator]

theorem Inv.step (h : Inv parse fin actions s)
    (hstep : s.step parse a = some s') : Inv parse fin (actions ++ [a]) s' := by
  cases a with
  | poll => exact h.keep (poll_follows hstep) rfl ((h.stage_mono .poll).poll hstep)
  | written => exact h.keep (written_follows hstep) rfl ((h.stage_mono .written).written hstep)
  | drop runtime =>
    simp only [State.step] at hstep
    have hopen : s.phase ≠ .dropped := by
      intro hphase
      simp [hphase] at hstep
    have heq : s' = s.drop runtime := by grind
    rw [heq]
    refine h.keep (drop_follows s runtime) rfl ((h.stage_mono _).drop hopen ?_)
    rintro rfl
    exact mem_append_right _ mem_cons_self
  | frame next =>
    simp only [State.step] at hstep
    split at hstep
    · rename_i hphase hpending hfinished
      cases hstep
      rcases (h.stage_mono (.frame next)).awaits hphase hfinished with ⟨fresh, hqueue⟩
      cases next with
      | none => exact h.keep (fail_follows s _) rfl (Stage.fail fresh hpending hqueue)
      | some item =>
        cases item with
        | error reason => exact h.keep (fail_follows s _) rfl (Stage.fail fresh hpending hqueue)
        | ok data => exact h.receive hrelay hphase hfinished data
    · cases hstep

theorem run_stage (h : (State.start fin).run parse actions = some s) : Inv parse fin actions s :=
  foldlM_traced (fun _ _ _ _ hs hstep => hs.step hrelay hstep) Inv.start h

end Relay

theorem step_items (h : s.step parse a = some s') : s.items <+: s'.items := by
  cases a with
  | poll => exact (poll_follows h).items
  | written => exact (written_follows h).items
  | drop runtime =>
    simp only [State.step] at h
    split at h
    · cases h
    · cases h
    · cases h
      exact (drop_follows s runtime).items
  | frame next =>
    simp only [State.step] at h
    split at h
    · cases h
      cases next with
      | none => exact (fail_follows s _).items
      | some item =>
        cases item with
        | error reason => exact (fail_follows s reason).items
        | ok data => exact ⟨[], by rw [append_nil, State.next, (receive_follows s data).2.2.2]⟩
    · cases h

theorem run_items (h : s.run parse actions = some s') : s.items <+: s'.items :=
  @foldlM_traced State Action _ (fun _ t => s.items <+: t.items)
    (fun _ _ _ _ ht hstep => ht.trans (step_items hstep)) [] actions s s' prefix_rfl h

end Runs

end Waygate.Invocation
