import Waygate.Core.Codemode.Broker
import Waygate.Theory.Codemode.Fenced

/-!
# One Worker at a Time

The row of an execution in the `direct` profile is not given back when its worker is
lost: it is ended. So when it is granted again no earlier worker is still in its loop.

## Main definitions

* `Staffed`
* `Move`: What a step of a worker does.

## Theorems

* `act_move`
* `Staffed.store`, `Staffed.acted`: What an operation and a step keep.
-/

namespace Waygate.Codemode

open List
open Audit (InvocationHierarchy)

def Worker.isEnded (w : Worker) : Bool :=
  match w.phase with
  | .ended _ => true
  | _ => false

/-- Every worker but the last has ended, and all of them when the row waits. -/
structure Staffed (id : Uuid) (t : Tables) (workers : List Worker) : Prop where
  nodup : ((rows t).map Execution.id).Nodup
  attended : ∀ e ∈ rows t, Attended e
  direct : ∀ e ∈ rows t, e.id = id → e.Direct
  owned : ∀ w ∈ workers, w.claim.executionId = id
  increasing : (workers.map (fun w => w.claim.epoch)).Pairwise (· < ·)
  bounded : ∀ e ∈ rows t, e.id = id → ∀ w ∈ workers, w.claim.epoch ≤ e.claimEpoch
  last : ∀ w ∈ workers, w.isEnded = false → ∀ w' ∈ workers, w'.claim.epoch ≤ w.claim.epoch
  idle : ∀ e ∈ rows t, e.id = id → e.claimOwner = none → e.status.isTerminal = false →
    ∀ w ∈ workers, w.isEnded = true

section Staff

variable {w w' : Worker} {id : Uuid} {t : Tables} {workers : List Worker} {call : Call}

theorem Staffed.unique (h : Staffed id t workers) (hw : w ∈ workers) (hw' : w' ∈ workers)
    (hepoch : w.claim.epoch = w'.claim.epoch) : w = w' :=
  inj_on_of_nodup_map (h.increasing.imp (fun hlt => ne_of_lt hlt)) hw hw' hepoch

theorem Staffed.all_ended (h : Staffed id t workers) (hw : w ∈ workers) (hended : w.isEnded = true)
    {e : Execution} (he : e ∈ rows t) (hheld : e.held w.claim = true) :
    ∀ w' ∈ workers, w'.isEnded = true := by
  intro w' hw'
  rw [← Bool.not_eq_false]
  intro hactive
  simp only [Execution.held, Bool.and_eq_true, beq_iff_eq] at hheld
  have hid : e.id = id := (addressed_id hheld.1.1).trans (h.owned w hw)
  have hle := h.last w' hw' hactive w hw
  have hge := h.bounded e he hid w' hw'
  have hsame := h.unique hw hw' (by omega)
  subst hsame
  rw [hended] at hactive
  cases hactive

theorem Staffed.carried (h : Staffed id t workers) (hlisted : Listed call)
    (hleave : ∀ e ∈ rows t, e.id = id → leaves call e → ∀ w ∈ workers, w.isEnded = true)
    (hborn : ∀ e ∈ born call, e.id = id → e.Direct ∧ workers = []) :
    Staffed id (step t call) workers := by
  rcases effect_outcome t call hlisted with ⟨g, new, hc, hnew, -⟩
  have hnone (e : Execution) (he : e ∈ new) (hid : e.id = id) (w : Worker) : w ∉ workers := by
    rw [(hborn e (hnew he) hid).2]
    exact not_mem_nil
  refine
    { nodup := hc.nodup h.nodup
      attended := fun e' he' => ?_
      direct := fun e' he' hid => ?_
      owned := h.owned
      increasing := h.increasing
      bounded := fun e' he' hid w hw => ?_
      last := h.last
      idle := fun e' he' hid howner hopen w hw => ?_ }
  · rcases hc.origin he' with ⟨e, he, -, rfl⟩ | he'
    · exact (hc.advance e he).attended (h.attended e he)
    · exact (hc.new_open he').1
  · rcases hc.origin he' with ⟨e, he, -, rfl⟩ | he'
    · exact (hc.advance e he).direct (h.direct e he ((hc.advance e he).id_eq.symm.trans hid))
    · exact (hborn e' (hnew he') hid).1
  · rcases hc.origin he' with ⟨e, he, -, rfl⟩ | he'
    · have hadvance := hc.advance e he
      have hle := h.bounded e he (hadvance.id_eq.symm.trans hid) w hw
      exact hle.trans (hadvance.steps (h.attended e he)).epoch_le
    · exact absurd hw (hnone e' he' hid w)
  · rcases hc.origin he' with ⟨e, he, -, rfl⟩ | he'
    · have hadvance := hc.advance e he
      have hid := hadvance.id_eq.symm.trans hid
      cases howner' : e.claimOwner with
      | none =>
        refine h.idle e he hid howner' ?_ w hw
        rw [← Bool.not_eq_true]
        intro hterminal
        rw [hadvance.final hterminal, hterminal] at hopen
        cases hopen
      | some owner =>
        -- A row that was held waits only because its worker has left it.
        rcases hadvance.stays (h.direct e he hid) (by rw [howner']; rfl) with hheld | hterminal
          | hleft
        · rw [howner] at hheld
          cases hheld
        · rw [hterminal] at hopen
          cases hopen
        · exact hleave e he hid hleft w hw
    · exact absurd hw (hnone e' he' hid w)

/-- A worker that is granted the execution is the only one in its loop. -/
theorem Staffed.granted (h : Staffed id t workers) (hlisted : Listed call)
    (hborn : ∀ e ∈ born call, e.id = id → e.Direct ∧ workers = [])
    (hafter : Staffed id (step t call) workers) {c : ExecutionClaim}
    (hgranted : granted (effect t call.now call.op).1 = some c) (hid : c.executionId = id) :
    Staffed id (step t call) (workers ++ [Worker.new c]) := by
  rcases effect_outcome t call hlisted with ⟨g, new, hc, hnew, hgranting⟩
  -- The row is held with this claim, and nobody was in its loop.
  obtain ⟨r, hr, hrid, hepoch, hheld, hended, hlt⟩ : ∃ r ∈ rows (step t call), r.id = id
      ∧ r.claimEpoch = c.epoch ∧ r.claimOwner.isSome = true
      ∧ (∀ w ∈ workers, w.isEnded = true) ∧ ∀ w ∈ workers, w.claim.epoch < c.epoch := by
    rcases hgranting c hgranted with ⟨e, he, hgone, heid, hepoch, hheld, hlt, howner, -⟩
      | ⟨e, he, heid, hepoch, hheld⟩
    · have hadvance := hc.advance e he
      have heid := heid.trans hid
      refine ⟨g e, hc.kept he hgone, hadvance.id_eq.trans heid, hepoch, hheld,
        h.idle e he heid howner ?_, fun w hw => (h.bounded e he heid w hw).trans_lt hlt⟩
      rw [← Bool.not_eq_true]
      intro hterminal
      rw [hadvance.final hterminal] at hepoch
      omega
    · have heid := heid.trans hid
      rw [(hborn e (hnew he) heid).2]
      refine ⟨e, ?_, heid, hepoch, hheld, forall_mem_nil _, forall_mem_nil _⟩
      show e ∈ rows (effect t call.now call.op).2
      rw [hc.rows_eq]
      exact mem_append_right _ he
  have hrow {e : Execution} (he : e ∈ rows (step t call)) (heid : e.id = id) : e = r :=
    inj_on_of_nodup_map hafter.nodup he hr (heid.trans hrid.symm)
  have hcases {w : Worker} (hw : w ∈ workers ++ [Worker.new c]) :
      w ∈ workers ∨ w = Worker.new c := by
    rwa [mem_append, mem_singleton] at hw
  refine
    { nodup := hafter.nodup
      attended := hafter.attended
      direct := hafter.direct
      owned := fun w hw => ?_
      increasing := ?_
      bounded := fun e he heid w hw => ?_
      last := fun w hw hactive w' hw' => ?_
      idle := fun e he heid howner => ?_ }
  · rcases hcases hw with hw | rfl
    · exact h.owned w hw
    · exact hid
  · rw [map_append, pairwise_append]
    refine ⟨h.increasing, pairwise_singleton _ _, fun n hn m hm => ?_⟩
    rcases mem_map.mp hn with ⟨w, hw, rfl⟩
    rw [mem_singleton.mp hm]
    exact hlt w hw
  · rw [hrow he heid, hepoch]
    rcases hcases hw with hw | rfl
    · exact (hlt w hw).le
    · exact le_refl _
  · rcases hcases hw with hw | rfl
    · rw [hended w hw] at hactive
      cases hactive
    · rcases hcases hw' with hw' | rfl
      · exact (hlt w' hw').le
      · exact le_refl _
  · grind

theorem Staffed.store (h : Staffed id t workers) (hlisted : Listed call)
    (hleave : ∀ e ∈ rows t, e.id = id → leaves call e → ∀ w ∈ workers, w.isEnded = true)
    (hborn : ∀ e ∈ born call, e.id = id → e.Direct ∧ workers = []) :
    Staffed id (step t call) (workers
      ++ ((Codemode.granted (effect t call.now call.op).1).toList.filter
        (fun c => c.executionId == id)).map Worker.new) := by
  have hafter := h.carried hlisted hleave hborn
  cases hgranted : Codemode.granted (effect t call.now call.op).1 with
  | none =>
    rw [Option.toList_none, filter_nil, map_nil, append_nil]
    exact hafter
  | some c => grind [Staffed.granted]

theorem Staffed.replace (h : Staffed id t workers) {i : Nat} (hw : workers[i]? = some w)
    (hclaim : w'.claim = w.claim) (hended : w.isEnded = true → w'.isEnded = true) :
    Staffed id t (workers.set i w') := by
  have hsame {x : Worker} (hx : x ∈ workers.set i w') :
      ∃ y ∈ workers, y.claim = x.claim ∧ (y.isEnded = true → x.isEnded = true) := by grind
  have hepochs : (workers.set i w').map (fun w => w.claim.epoch)
      = workers.map (fun w => w.claim.epoch) := by
    rw [map_set, hclaim]
    refine ext_getElem? (fun j => ?_)
    rw [getElem?_set]
    split
    · grind
    · rfl
  refine
    { nodup := h.nodup
      attended := h.attended
      direct := h.direct
      owned := fun x hx => ?_
      increasing := hepochs ▸ h.increasing
      bounded := fun e he hid x hx => ?_
      last := fun x hx hactive x' hx' => ?_
      idle := fun e he hid howner hopen x hx => ?_ }
  · rcases hsame hx with ⟨y, hy, hyx, -⟩
    rw [← hyx]
    exact h.owned y hy
  · rcases hsame hx with ⟨y, hy, hyx, -⟩
    rw [← hyx]
    exact h.bounded e he hid y hy
  · rcases hsame hx with ⟨y, hy, hyx, hyended⟩
    rcases hsame hx' with ⟨y', hy', hyx', -⟩
    rw [← hyx, ← hyx']
    refine h.last y hy ?_ y' hy'
    rw [← Bool.not_eq_true]
    intro hended
    rw [hyended hended] at hactive
    cases hactive
  · rcases hsame hx with ⟨y, hy, -, hyended⟩
    exact hyended (h.idle e he hid howner hopen y hy)

end Staff

section Moves

variable {now : Int}

def Place.undispatched : Place → Option PendingCall
  | .starting call => some call
  | .confirming call => some call
  | .ready call => some call
  | _ => none

/-- The event says that a call with effects was started, under its own identity. -/
def Announces (id : Uuid) (hierarchy : InvocationHierarchy) (event : ExecutionEvent) : Prop :=
  event.executionId = id ∧ event.startsEffect = true ∧ event.callId = some hierarchy.callId
    ∧ event.attempt = i32 hierarchy.attempt.val.toNat

inductive Move (b : Broker) (t : Tables) (w : Worker) : Worker → List Entry → Prop where
  | quiet (w' : Worker) (events : List ExecutionEvent) (hclaim : w'.claim = w.claim)
      (hcalls : w.calls ≤ w'.calls) (hphase : w'.phase.undispatched = none) :
      Move b t w w' (events.map .event)
  | ask (call : PendingCall)
      (hcall : nestedInvocationHierarchy b w.claim (w.calls + 1) = some call.hierarchy) :
      Move b t w { w with calls := w.calls + 1, phase := .starting call } []
  | start (call : PendingCall) (event : ExecutionEvent) (hphase : w.phase = .starting call)
      (hevent : call.sideEffects = true → Announces w.claim.executionId call.hierarchy event) :
      Move b t w { w with phase := call.begun } [.event event]
  | confirm (call : PendingCall) (hphase : w.phase = .confirming call)
      (hrow : ∃ e ∈ rows t, e.id = w.claim.executionId ∧ e.cancellationRequestedAt = none) :
      Move b t w { w with phase := .ready call } [.confirmed call.hierarchy]
  | dispatch (call : PendingCall) (hphase : w.phase = .ready call) :
      Move b t w { w with phase := .invoking call }
        [.dispatch call.hierarchy call.sideEffects]

variable {b : Broker} {t t' : Tables} {w w' : Worker} {entries : List Entry}

theorem Move.fail : Move b t w w.fail [] :=
  .quiet w.fail [] rfl (le_refl _) rfl

/-- The tables after the step of a worker. Only a worker that has ended leaves its
    execution. -/
def Touched (w : Worker) (t t' : Tables) : Prop :=
  t' = t ∨ ∃ call, t' = step t call ∧ Listed call ∧ born call = []
    ∧ ∀ e, leaves call e → w.isEnded = true ∧ e.held w.claim = true

theorem touched_op {op : Op} (hlisted : Listed ⟨op, now⟩) (hborn : born ⟨op, now⟩ = [])
    (hleaves : ∀ e, ¬leaves ⟨op, now⟩ e) : Touched w t (effect t now op).2 :=
  .inr ⟨⟨op, now⟩, rfl, hlisted, hborn, fun e he => absurd he (hleaves e)⟩

def NewExecutionEvent.under (event : NewExecutionEvent) (claim : ExecutionClaim) (now : Int) :
    ExecutionEvent :=
  ⟨claim.executionId, claim.tenantId, event.kind, event.stepNumber, event.callId, event.attempt,
    event.detail, now⟩

theorem append_accepted {fence : Execution → Bool} {claim : ExecutionClaim}
    {event : NewExecutionEvent}
    (h : (commit t .accepted (appendFenced t now fence claim event)).1.isAccepted = true) :
    appended t (commit t .accepted (appendFenced t now fence claim event)).2
      = [.event (event.under claim now)] := by
  cases happend : appendFenced t now fence claim event with
  | error error =>
    rw [happend] at h
    cases h
  | ok result =>
    rcases result with ⟨yes, u⟩
    rw [happend] at h
    rw [appendFenced] at happend
    split at happend
    · cases happend
      cases h
    · rcases Loop.bind_eq_ok.mp happend with ⟨v, hevent, hrest⟩
      cases hrest
      rw [appended, commit, (insertEvent_ok hevent).2.2, drop_left]
      rfl

theorem renew_accepted {claim : ExecutionClaim} {lease : Nat}
    (h : (effect t now (.renew claim lease)).1.isAccepted = true) :
    ∃ e ∈ rows t, e.id = claim.executionId ∧ e.cancellationRequestedAt = none := by
  cases hrenew : renew t now claim lease with
  | error error =>
    rw [effect, hrenew] at h
    cases h
  | ok result =>
    rcases result with ⟨yes, u⟩
    rw [effect, hrenew] at h
    rw [renew, Loop.bind_eq_ok] at hrenew
    rcases hrenew with ⟨⟨row, v⟩, hupdate, hrest⟩
    cases hrest
    rw [(updateExecutions_ok hupdate).2.2.2] at h
    cases hfind : (rows t).find? (Execution.working claim now) with
    | none =>
      rw [hfind] at h
      cases h
    | some e =>
      have hguard := find?_some hfind
      simp only [Execution.working, Execution.held, Bool.and_eq_true,
        Option.isNone_iff_eq_none] at hguard
      exact ⟨e, mem_of_find?_eq_some hfind, addressed_id hguard.1.1.1.1.1, hguard.1.2⟩

theorem startCall_move (b : Broker) (t : Tables) (w : Worker) (callId : String)
    (arguments : Json) :
    Move b t w (w.startCall b callId arguments) []
      ∧ (w.startCall b callId arguments).claim = w.claim := by
  unfold Worker.startCall
  split
  · exact ⟨.quiet _ [] rfl (Nat.le_succ _) rfl, rfl⟩
  · rename_i hierarchy hhierarchy
    exact ⟨.ask ⟨w.calls + 1, hierarchy, b.admittedCall callId arguments⟩ hhierarchy, rfl⟩

theorem handle_move (b : Broker) (t : Tables) (w : Worker) (minted : Uuid) (frame : RunnerFrame)
    (hphase : w.phase = .reading) :
    Move b t w (w.handle b minted frame) [] ∧ (w.handle b minted frame).claim = w.claim := by
  cases frame with
  | ready | failed => exact ⟨.fail, rfl⟩
  | complete result => exact ⟨.quiet _ [] rfl (le_refl _) rfl, rfl⟩
  | console | consoleTruncated =>
    exact ⟨.quiet w [] rfl (le_refl _) (by rw [hphase]; rfl), rfl⟩
  | pause checkpoint =>
    rw [Worker.handle]
    split
    · exact ⟨.quiet _ [] rfl (le_refl _) rfl, rfl⟩
    · exact ⟨.fail, rfl⟩
  | artifact value =>
    simp only [Worker.handle, Worker.startArtifact]
    split
    · exact ⟨.fail, rfl⟩
    · exact ⟨.quiet _ [] rfl (le_refl _) rfl, rfl⟩
  | call callId arguments =>
    exact startCall_move b t w callId arguments

theorem announces_event (call : PendingCall) (claim : ExecutionClaim) (now : Int)
    (heffects : call.sideEffects = true) :
    Announces claim.executionId call.hierarchy
      ((call.event .connectorCallStarted).under claim now) := by
  refine ⟨rfl, ?_, rfl, rfl⟩
  rw [PendingCall.sideEffects] at heffects
  cases hadmitted : call.admitted with
  | none =>
    rw [hadmitted] at heffects
    cases heffects
  | some admitted =>
    rw [hadmitted] at heffects
    have hflag : admitted.sideEffects = true := heffects
    simp only [ExecutionEvent.startsEffect, PendingCall.event, executionEventWithAttempt,
      PendingCall.detail, hadmitted, hflag]
    rfl

theorem attempt_cases {op : Op} {next : Worker} {es : Tables → List Entry}
    (h : w.attempt t now op next es = (w', t', entries)) :
    t' = (effect t now op).2 ∧ (((effect t now op).1.isAccepted = true ∧ w' = next
      ∧ entries = es (effect t now op).2) ∨ (w' = w.fail ∧ entries = [])) := by
  simp only [Worker.attempt] at h
  split at h
  · grind
  · cases h
    exact ⟨rfl, .inr ⟨rfl, rfl⟩⟩

theorem settlement_targets {outcome : Ended} {settlement : Settlement} {tr : ExecutionTransition}
    (h : w.settlement outcome settlement = some tr) :
    tr.origin = [.running] ∧ tr.target ∈ targets := by
  cases settlement with
  | succeed resultPayload =>
    cases outcome <;> cases h
    exact ⟨rfl, (by decide : ExecutionStatus.succeeded ∈ targets)⟩
  | pause =>
    cases outcome <;> cases h
    exact ⟨rfl, (by decide : ExecutionStatus.waitingForResume ∈ targets)⟩
  | fail reasonCode =>
    cases h
    exact ⟨rfl, (by decide : ExecutionStatus.failed ∈ targets)⟩
  | cancel reasonCode =>
    cases h
    exact ⟨rfl, (by decide : ExecutionStatus.cancelled ∈ targets)⟩

/-- Every step of a worker is a move, it keeps its claim, and an ended loop stays
    ended. -/
theorem act_move {action : WorkerAction} (h : w.act b t action = some (w', t', entries)) :
    Move b t w w' entries ∧ w'.claim = w.claim ∧ (w.isEnded = true → w'.isEnded = true)
      ∧ Touched w t t' := by
  have hactive {phase : Place} (hphase : w.phase = phase) (hopen : ∀ o, phase ≠ .ended o)
      {p : Prop} : w.isEnded = true → p := by
    intro hended
    rw [Worker.isEnded, hphase] at hended
    split at hended
    · exact absurd rfl (hopen _)
    · cases hended
  unfold Worker.act at h
  split at h
  · rename_i frame minted hphase
    cases h
    rcases handle_move b t w minted frame hphase with ⟨hmove, hclaim⟩
    exact ⟨hmove, hclaim, hactive hphase nofun, .inl rfl⟩
  · rename_i now call hphase
    rcases attempt_cases (Option.some.inj h) with ⟨rfl, ⟨hyes, rfl, rfl⟩ | ⟨rfl, rfl⟩⟩
    · refine ⟨?_, rfl, hactive hphase nofun, touched_op trivial rfl
        (fun _ he => he)⟩
      rw [show effect t now (.appendEvent w.claim (call.event .connectorCallStarted))
        = commit t .accepted (appendFenced t now (Execution.working w.claim now) w.claim
          (call.event .connectorCallStarted)) from rfl, append_accepted hyes]
      exact .start call _ hphase (announces_event call w.claim now)
    · exact ⟨.fail, rfl, fun _ => rfl, touched_op trivial rfl (fun _ he => he)⟩
  · rename_i now call succeeded hphase
    rcases attempt_cases (Option.some.inj h) with ⟨rfl, ⟨hyes, rfl, rfl⟩ | ⟨rfl, rfl⟩⟩
    · refine ⟨.quiet _ _ rfl (le_refl _) rfl, rfl, hactive hphase nofun, ?_⟩
      split <;> exact touched_op trivial rfl (fun _ he => he)
    · refine ⟨.fail, rfl, fun _ => rfl, ?_⟩
      split <;> exact touched_op trivial rfl (fun _ he => he)
  · rename_i now artifactId value hphase
    rcases attempt_cases (Option.some.inj h) with ⟨rfl, ⟨hyes, rfl, rfl⟩ | ⟨rfl, rfl⟩⟩
    · exact ⟨.quiet _ _ rfl (le_refl _) rfl, rfl, hactive hphase nofun,
        touched_op trivial rfl (fun _ he => he)⟩
    · exact ⟨.fail, rfl, fun _ => rfl, touched_op trivial rfl (fun _ he => he)⟩
  · rename_i now call hphase
    rcases attempt_cases (Option.some.inj h) with ⟨rfl, ⟨hyes, rfl, rfl⟩ | ⟨rfl, rfl⟩⟩
    · exact ⟨.confirm call hphase (renew_accepted hyes), rfl,
        hactive hphase nofun, touched_op trivial rfl (fun _ he => he)⟩
    · exact ⟨.fail, rfl, fun _ => rfl, touched_op trivial rfl (fun _ he => he)⟩
  · rename_i call hphase
    cases h
    exact ⟨.dispatch call hphase, rfl, hactive hphase nofun, .inl rfl⟩
  · rename_i now call hphase
    split at h
    · cases h
      exact ⟨.quiet w [] rfl (le_refl _) (by rw [hphase]; rfl), rfl, id,
        touched_op trivial rfl (fun _ he => he)⟩
    · cases h
  · rename_i succeeded call hphase
    cases h
    exact ⟨.quiet _ [] rfl (le_refl _) rfl, rfl, hactive hphase nofun, .inl rfl⟩
  · rename_i settlement now outcome hphase
    rcases Option.map_eq_some_iff.mp h with ⟨tr, htr, hrest⟩
    cases hrest
    have hended : w.isEnded = true := by
      rw [Worker.isEnded, hphase]
    exact ⟨.quiet w [] rfl (le_refl _) (by rw [hphase]; rfl), rfl, id,
      .inr ⟨⟨_, now⟩, rfl, settlement_targets htr, rfl, fun e he => ⟨hended, he⟩⟩⟩
  · cases h
  · cases h
    exact ⟨.fail, rfl, fun _ => rfl, .inl rfl⟩
  · cases h

end Moves

theorem Staffed.acted {id : Uuid} {t t' : Tables} {workers : List Worker} {b : Broker} {i : Nat}
    {w w' : Worker} {action : WorkerAction} {entries : List Entry} (h : Staffed id t workers)
    (hw : workers[i]? = some w) (hact : w.act b t action = some (w', t', entries)) :
    Staffed id t' (workers.set i w') := by
  rcases act_move hact with ⟨-, hclaim, hended, htouched⟩
  refine Staffed.replace ?_ hw hclaim hended
  rcases htouched with rfl | ⟨call, rfl, hlisted, hborn, hleaves⟩
  · exact h
  · refine h.carried hlisted (fun e he _ hleft => ?_) (fun e he => ?_)
    · rcases hleaves e hleft with ⟨hdone, hheld⟩
      exact h.all_ended (mem_of_getElem? hw) hdone he hheld
    · rw [hborn] at he
      cases he

end Waygate.Codemode
