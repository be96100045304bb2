import Waygate.Theory.Codemode.Workers
import Waygate.Theory.Machine.Locks

/-!
# Effects Are Journaled Before They Are Dispatched

One execution, over every interleaving of its workers with everything else that uses the
store. An attempt beyond the columns of an event would need more epochs than the
retention of seven days leaves time for. Reconciliation judges the events it has seen,
and an event that was committed while its statement waited for the row is not among
them.

## Main definitions

* `Permitted`, `Op.missed`
* `Prepared`, `Logged`: What a worker has done, and what the log says.
* `Kept`: What every action keeps.

## Theorems

* `Logged.moved`, `Logged.cancelled`, `Kept.store`, `Kept.worker`, `reconciled_reason`,
  `effects_journaled`
* `effects_journaled_late`: An outcome that comes too late to be seen.
-/

namespace Waygate.Codemode

open List

open Audit (InvocationHierarchy)

open Machine (Along)

section Splits

variable {α : Type} {l es before after : List α} {x y : α}

theorem split_append (hx : x ∉ es) (h : l ++ es = before ++ x :: after) :
    ∃ rest, after = rest ++ es ∧ l = before ++ x :: rest := by
  rcases append_eq_append_iff.mp h with ⟨rest, -, hes⟩ | ⟨rest, hl, hrest⟩
  · grind
  · cases rest with
    | nil => grind
    | cons z rest =>
      cases hrest
      exact ⟨rest, rfl, hl⟩

theorem split_concat (h : l ++ [y] = before ++ x :: after) :
    (before = l ∧ x = y ∧ after = []) ∨ ∃ rest, after = rest ++ [y] ∧ l = before ++ x :: rest := by
  rcases eq_nil_or_concat after with rfl | ⟨rest, z, rfl⟩
  · rcases append_inj' h rfl with ⟨rfl, hy⟩
    cases hy
    exact .inl ⟨rfl, rfl, rfl⟩
  · rw [concat_eq_append, ← cons_append, ← append_assoc] at h
    rcases append_inj' h rfl with ⟨rfl, hy⟩
    cases hy
    exact .inr ⟨rest, concat_eq_append, rfl⟩

theorem mem_set_or {workers : List α} {w : α} {i : Nat} (w' : α) (hw : workers[i]? = some w)
    (hx : x ∈ workers) : x ∈ workers.set i w' ∨ x = w := by
  rcases mem_iff_getElem?.mp hx with ⟨j, hj⟩
  by_cases hij : i = j
  · grind
  · refine .inl (mem_iff_getElem?.mpr ⟨j, ?_⟩)
    rw [getElem?_set_ne hij]
    exact hj

theorem mem_set_self {workers : List α} {w w' : α} {i : Nat} (hw : workers[i]? = some w) :
    w' ∈ workers.set i w' :=
  List.mem_set (List.getElem?_eq_some_iff.mp hw).1 w'

end Splits

section Identity

theorem nonZeroU32_toNat {n : Int} {x : NonZeroU32} (h : nonZeroU32 n = some x) :
    (x.val.toNat : Int) = n := by
  rw [nonZeroU32] at h
  split at h
  · rename_i hlt
    split at h
    · rename_i hne
      cases h
      have hval : (UInt32.ofNat n.toNat).toNat = n.toNat := by
        rw [UInt32.toNat_ofNat']
        exact Nat.mod_eq_of_lt hlt
      have hpos : n.toNat ≠ 0 := by
        intro hzero
        rw [hzero] at hne
        exact hne rfl
      show ((UInt32.ofNat n.toNat).toNat : Int) = n
      rw [hval]
      omega
    · cases h
  · cases h

/-- A call has the number and the epoch it was made with. -/
theorem hierarchy_some {b : Broker} {claim : ExecutionClaim} {calls : Nat}
    {h : InvocationHierarchy} (hh : nestedInvocationHierarchy b claim calls = some h) :
    h.step.val.toNat = calls ∧ (h.attempt.val.toNat : Int) = claim.epoch
      ∧ h.callId = b.newV5 claim.executionId (u32ToBeBytes h.step) := by
  rw [nestedInvocationHierarchy] at hh
  rcases Option.bind_eq_some_iff.mp hh with ⟨step, hstep, hh⟩
  rcases Option.bind_eq_some_iff.mp hh with ⟨attempt, hattempt, hh⟩
  cases hh
  exact ⟨Int.ofNat_inj.mp (nonZeroU32_toNat hstep), nonZeroU32_toNat hattempt, rfl⟩

end Identity

def Entry.effectful : Entry → Bool
  | .dispatch _ sideEffects => sideEffects
  | _ => false

def Entry.dispatched : Entry → Option InvocationHierarchy
  | .dispatch hierarchy _ => some hierarchy
  | _ => none

def Worker.armed (w : Worker) : Bool :=
  match w.phase with
  | .ready call => call.sideEffects
  | _ => false

/-- What a worker has done for the call it is about to dispatch. -/
structure Prepared (b : Broker) (id : Uuid) (log : List Entry) (w : Worker) : Prop where
  pending : ∀ call, w.phase.undispatched = some call →
    nestedInvocationHierarchy b w.claim w.calls = some call.hierarchy
  started : ∀ call, w.phase = .confirming call ∨ w.phase = .ready call →
    call.sideEffects = true → ∃ event, .event event ∈ log ∧ Announces id call.hierarchy event
  confirmed : ∀ call, w.phase = .ready call → call.sideEffects = true →
    .confirmed call.hierarchy ∈ log

def Made (b : Broker) (h : InvocationHierarchy) (w : Worker) : Prop :=
  nestedInvocationHierarchy b w.claim h.step.val.toNat = some h ∧ h.step.val.toNat ≤ w.calls
    ∧ (w.phase.undispatched ≠ none → h.step.val.toNat < w.calls)

structure Logged (b : Broker) (id : Uuid) (workers : List Worker) (log : List Entry) : Prop where
  prepared : ∀ w ∈ workers, Prepared b id log w
  preceded : ∀ before h after, log = before ++ .dispatch h true :: after →
    (∃ event, .event event ∈ before ∧ Announces id h event) ∧ .confirmed h ∈ before
  late : ∀ before after, log = before ++ .cancellation :: after →
    (∀ h, .confirmed h ∉ after)
      ∧ after.countP Entry.effectful + workers.countP Worker.armed ≤ 1
  traced : ∀ h sideEffects, .dispatch h sideEffects ∈ log → ∃ w ∈ workers, Made b h w
  distinct : ((log.filterMap Entry.dispatched).map (fun h => (h.callId, h.attempt))).Nodup

section Log

variable {b : Broker} {id : Uuid} {log es : List Entry} {w w' : Worker} {t : Tables}
  {workers : List Worker} {i : Nat}

theorem Prepared.mono (h : Prepared b id log w) : Prepared b id (log ++ es) w := by
  refine ⟨h.pending, fun call hphase heffects => ?_, fun call hphase heffects => ?_⟩
  · rcases h.started call hphase heffects with ⟨event, hmem, hannounces⟩
    exact ⟨event, mem_append_left es hmem, hannounces⟩
  · exact mem_append_left es (h.confirmed call hphase heffects)

theorem prepared_quiet (hphase : w.phase.undispatched = none) : Prepared b id log w := by
  refine ⟨fun call hcall => ?_, fun call hcall => ?_, fun call hcall => ?_⟩
  · rw [hphase] at hcall
    cases hcall
  · rcases hcall with hcall | hcall <;> · rw [hcall] at hphase; cases hphase
  · rw [hcall] at hphase
    cases hphase

theorem begun_cases (call : PendingCall) :
    (call.begun = .confirming call) ∨ (call.begun = .ready call ∧ call.sideEffects = false)
      ∨ call.begun = .observed call false := by
  unfold PendingCall.begun PendingCall.sideEffects
  cases call.admitted with
  | none => exact .inr (.inr rfl)
  | some admitted => grind

/-- A worker has prepared the call that it is about to dispatch. -/
theorem Move.prepared (hm : Move b t w w' es) (hid : w.claim.executionId = id)
    (h : Prepared b id log w) : Prepared b id (log ++ es) w' := by
  cases hm with
  | quiet _ events hclaim hcalls hphase => exact prepared_quiet hphase
  | ask call hcall =>
    refine ⟨fun c hc => ?_, fun c hc => ?_, fun c hc => ?_⟩
    · cases hc
      exact hcall
    · rcases hc with hc | hc <;> cases hc
    · cases hc
  | start call event hphase hevent =>
    have hpending := h.pending call (by rw [hphase]; rfl)
    have hsame {c : PendingCall}
        (hc : call.begun = .confirming c ∨ call.begun = .ready c) : c = call := by
      rcases begun_cases call with hbegun | ⟨hbegun, -⟩ | hbegun <;> rw [hbegun] at hc <;>
        rcases hc with hc | hc <;> cases hc <;> rfl
    refine ⟨fun c hc => ?_, fun c hc heffects => ?_, fun c hc heffects => ?_⟩
    · have hc : call.begun.undispatched = some c := hc
      rcases begun_cases call with hbegun | ⟨hbegun, -⟩ | hbegun <;> rw [hbegun] at hc <;>
        cases hc <;> exact hpending
    · grind
    · -- A call with effects is confirmed before it is ready.
      rw [hsame (.inr hc)] at heffects
      have hc : call.begun = .ready c := hc
      rcases begun_cases call with hbegun | ⟨hbegun, hnone⟩ | hbegun
      · rw [hbegun] at hc
        cases hc
      · rw [hnone] at heffects
        cases heffects
      · rw [hbegun] at hc
        cases hc
  | confirm call hphase hrow =>
    refine ⟨fun c hc => ?_, fun c hc heffects => ?_, fun c hc _ => ?_⟩
    · cases hc
      exact h.pending call (by rw [hphase]; rfl)
    · have hsame : c = call := by rcases hc with hc | hc <;> cases hc; rfl
      subst hsame
      exact h.mono.started c (.inl hphase) heffects
    · cases hc
      exact mem_append_right log (mem_singleton_self _)
  | dispatch call hphase => exact prepared_quiet rfl

/-- A call that was made stays behind its worker. -/
theorem Move.made (hm : Move b t w w' es) {h : InvocationHierarchy} (hmade : Made b h w) :
    Made b h w' := by
  rcases hmade with ⟨hnested, hle, hlt⟩
  cases hm with
  | quiet _ events hclaim hcalls hphase =>
    refine ⟨hclaim ▸ hnested, hle.trans hcalls, fun hundispatched => ?_⟩
    exact absurd hphase hundispatched
  | ask call hcall => exact ⟨hnested, Nat.le_succ_of_le hle, fun _ => Nat.lt_succ_of_le hle⟩
  | start call event hphase hevent | confirm call hphase hrow =>
    exact ⟨hnested, hle, fun _ => hlt (by rw [hphase]; exact Option.some_ne_none call)⟩
  | dispatch call hphase => exact ⟨hnested, hle, fun hundispatched => absurd rfl hundispatched⟩

/-- Only the worker of the last claim is about to dispatch. -/
theorem Staffed.armed_le_one (h : Staffed id t workers) : workers.countP Worker.armed ≤ 1 := by
  rw [countP_eq_length_filter]
  have hsub : List.Sublist (workers.filter Worker.armed) workers := filter_sublist
  cases hfilter : workers.filter Worker.armed with
  | nil => exact Nat.zero_le 1
  | cons a rest =>
    cases rest with
    | nil => exact Nat.le_refl 1
    | cons c rest =>
      exfalso
      rw [hfilter] at hsub
      have hpair := h.increasing.sublist (hsub.map _)
      have hlt : a.claim.epoch < c.claim.epoch :=
        rel_of_pairwise_cons hpair (mem_cons_self)
      have ha : a ∈ workers.filter Worker.armed := by
        rw [hfilter]
        exact mem_cons_self
      rw [mem_filter] at ha
      have hactive : a.isEnded = false := by
        have harmed := ha.2
        unfold Worker.armed at harmed
        unfold Worker.isEnded
        split
        · rename_i outcome hphase
          rw [hphase] at harmed
          cases harmed
        · rfl
      have hle := h.last a ha.1 hactive c (hsub.subset (by simp))
      omega

theorem armed_of_undispatched (h : w.phase.undispatched = none) : w.armed = false := by
  unfold Worker.armed
  split
  · rename_i call hphase
    rw [hphase] at h
    cases h
  · rfl

theorem Logged.prepared_set (h : Logged b id workers log) (hw : workers[i]? = some w)
    (hm : Move b t w w' es) (hid : w.claim.executionId = id) {x : Worker}
    (hx : x ∈ workers.set i w') : Prepared b id (log ++ es) x := by
  rcases mem_or_eq_of_mem_set hx with hx | rfl
  · exact (h.prepared x hx).mono
  · exact hm.prepared hid (h.prepared w (mem_of_getElem? hw))

theorem Logged.traced_set (h : Logged b id workers log) (hw : workers[i]? = some w)
    (hm : Move b t w w' es) {hh : InvocationHierarchy} {sideEffects : Bool}
    (hlog : .dispatch hh sideEffects ∈ log) : ∃ x ∈ workers.set i w', Made b hh x := by
  rcases h.traced hh sideEffects hlog with ⟨x, hx, hmade⟩
  rcases mem_set_or w' hw hx with hx | rfl
  · exact ⟨x, hx, hmade⟩
  · exact ⟨w', mem_set_self hw, hm.made hmade⟩

/-- A step that dispatches nothing, and arms and confirms nothing once there is a
    cancellation. -/
theorem Logged.quiet (h : Logged b id workers log) (hw : workers[i]? = some w)
    (hm : Move b t w w' es) (hid : w.claim.executionId = id)
    (hes : ∀ x ∈ es, x.dispatched = none ∧ x ≠ .cancellation)
    (hlate : .cancellation ∈ log → (∀ hh, .confirmed hh ∉ es) ∧ w'.armed = false) :
    Logged b id (workers.set i w') (log ++ es) := by
  have hdispatch (hh : InvocationHierarchy) (sideEffects : Bool) :
      .dispatch hh sideEffects ∉ es := fun hx => by cases (hes _ hx).1
  refine ⟨fun x hx => h.prepared_set hw hm hid hx, fun before hh after hlog => ?_,
    fun before after hlog => ?_, fun hh sideEffects hmem => ?_, ?_⟩
  · rcases split_append (hdispatch hh true) hlog with ⟨rest, -, hlog⟩
    exact h.preceded before hh rest hlog
  · rcases split_append (fun hx => (hes _ hx).2 rfl) hlog with ⟨rest, rfl, hbefore⟩
    rcases h.late before rest hbefore with ⟨hconfirmed, hcount⟩
    rcases hlate (by rw [hbefore]; exact mem_append_right before mem_cons_self) with
      ⟨hnone, harmed⟩
    refine ⟨fun hh hmem => ?_, ?_⟩
    · exact (mem_append.mp hmem).elim (hconfirmed hh) (hnone hh)
    · have hzero : es.countP Entry.effectful = 0 := by
        rw [countP_eq_zero]
        intro x hx heffectful
        cases x with
        | dispatch hh sideEffects => exact hdispatch hh sideEffects hx
        | _ => cases heffectful
      have hset := @Machine.countP_set_add _ _ _ _ w' hw Worker.armed
      rw [harmed] at hset
      rw [countP_append, hzero]
      simp only [Bool.false_eq_true, if_false] at hset
      omega
  · exact h.traced_set hw hm ((mem_append.mp hmem).resolve_right (hdispatch hh sideEffects))
  · have hnone : es.filterMap Entry.dispatched = [] :=
      filterMap_eq_nil_iff.mpr (fun x hx => (hes x hx).1)
    rw [filterMap_append, hnone, append_nil]
    exact h.distinct

/-- A step of a worker, and what it adds to the log. -/
theorem Logged.moved (h : Logged b id workers log) (hs : Staffed id t workers)
    (hv5 : ∀ m n, b.newV5 id (u32ToBeBytes m) = b.newV5 id (u32ToBeBytes n) → m = n)
    (hhalted : .cancellation ∈ log → ∀ e ∈ rows t, e.id = id →
      e.cancellationRequestedAt.isSome = true)
    (hw : workers[i]? = some w) (hm : Move b t w w' es) :
    Logged b id (workers.set i w') (log ++ es) := by
  have hmem := mem_of_getElem? hw
  have hid := hs.owned w hmem
  have hmove := hm
  cases hm with
  | quiet _ events hclaim hcalls hphase =>
    exact h.quiet hw hmove hid (by simp [Entry.dispatched])
      (fun _ => ⟨by simp, armed_of_undispatched hphase⟩)
  | ask call hcall =>
    exact h.quiet hw hmove hid (forall_mem_nil _) (fun _ => ⟨fun _ => not_mem_nil, rfl⟩)
  | start call event hphase hevent =>
    refine h.quiet hw hmove hid (by simp [Entry.dispatched]) (fun _ => ⟨by simp, ?_⟩)
    unfold Worker.armed
    rcases begun_cases call with hbegun | ⟨hbegun, heffects⟩ | hbegun
    · rw [hbegun]
    · rw [hbegun]
      exact heffects
    · rw [hbegun]
  | confirm call hphase hrow =>
    have hnone : .cancellation ∉ log := by grind
    exact h.quiet hw hmove hid (by simp [Entry.dispatched]) (fun hlog => absurd hlog hnone)
  | dispatch call hphase =>
    have hready := h.prepared w hmem
    have hpending := hready.pending call (by rw [hphase]; rfl)
    rcases hierarchy_some hpending with ⟨hstep, hattempt, hcallId⟩
    refine ⟨fun x hx => h.prepared_set hw hmove hid hx, fun before hh after hlog => ?_,
      fun before after hlog => ?_, fun hh sideEffects hlog => ?_, ?_⟩
    · rcases split_concat hlog with ⟨rfl, heq, -⟩ | ⟨rest, -, hlog⟩
      · injection heq with hsame heffects
        subst hsame
        exact ⟨hready.started call (.inr hphase) heffects.symm,
          hready.confirmed call hphase heffects.symm⟩
      · exact h.preceded before hh rest hlog
    · rcases split_append (by simp) hlog with ⟨rest, rfl, hbefore⟩
      rcases h.late before rest hbefore with ⟨hconfirmed, hcount⟩
      refine ⟨fun hh hin => ?_, ?_⟩
      · grind
      · have hset := @Machine.countP_set_add _ _ _ _ { w with phase := .invoking call } hw
          Worker.armed
        have harmed : w.armed = call.sideEffects := by rw [Worker.armed, hphase]
        have harmed' : Worker.armed { w with phase := .invoking call } = false := rfl
        have hentry : [Entry.dispatch call.hierarchy call.sideEffects].countP Entry.effectful
            = if call.sideEffects then 1 else 0 := by
          cases call.sideEffects <;> rfl
        rw [harmed, harmed'] at hset
        rw [countP_append, hentry]
        simp only [Bool.false_eq_true, if_false] at hset
        omega
    · rcases mem_append.mp hlog with hlog | hlog
      · exact h.traced_set hw hmove hlog
      · cases mem_singleton.mp hlog
        refine ⟨_, mem_set_self hw, ?_, ?_, fun hundispatched => absurd rfl hundispatched⟩
        · rw [hstep]
          exact hpending
        · exact le_of_eq hstep
    · rw [filterMap_append, map_append]
      refine nodup_append.mpr ⟨h.distinct, nodup_singleton _, ?_⟩
      intro p hp q hq heq
      subst heq
      have hq := mem_singleton.mp hq
      rcases mem_map.mp hp with ⟨hh, hhmem, rfl⟩
      rcases mem_filterMap.mp hhmem with ⟨x, hx, hxsome⟩
      cases x with
      | event event => cases hxsome
      | confirmed hierarchy => cases hxsome
      | cancellation => cases hxsome
      | dispatch hierarchy sideEffects =>
        cases hxsome
        -- The worker of the other call is this one, and its number is smaller.
        rcases h.traced hh sideEffects hx with ⟨y, hy, hnested, -, hlt⟩
        rcases hierarchy_some hnested with ⟨-, hattempt', hcallId'⟩
        injection hq with hcallIds hattempts
        have hepochs : y.claim.epoch = w.claim.epoch := by
          rw [← hattempt', ← hattempt, hattempts]
        have hsame := hs.unique hy hmem hepochs
        subst hsame
        have hnumber := hlt (by rw [hphase]; exact Option.some_ne_none call)
        rw [hcallId', hcallId, hid] at hcallIds
        rw [hv5 _ _ hcallIds, hstep] at hnumber
        exact absurd hnumber (lt_irrefl _)

/-- A worker that is new has done nothing. -/
theorem Logged.hired (h : Logged b id workers log) (claims : List ExecutionClaim) :
    Logged b id (workers ++ claims.map Worker.new) log := by
  have hnew {x : Worker} (hx : x ∈ claims.map Worker.new) : x.phase.undispatched = none := by
    rcases mem_map.mp hx with ⟨c, -, rfl⟩
    rfl
  have hzero : (claims.map Worker.new).countP Worker.armed = 0 := by grind [armed_of_undispatched]
  refine ⟨fun x hx => ?_, h.preceded, fun before after hlog => ?_, fun hh sideEffects hmem => ?_,
    h.distinct⟩
  · rcases mem_append.mp hx with hx | hx
    · exact h.prepared x hx
    · exact prepared_quiet (hnew hx)
  · rw [countP_append, hzero]
    exact h.late before after hlog
  · rcases h.traced hh sideEffects hmem with ⟨x, hx, hmade⟩
    exact ⟨x, mem_append_left _ hx, hmade⟩

/-- What is armed at a cancellation is one call at most. -/
theorem Logged.cancelled (h : Logged b id workers log)
    (harmed : workers.countP Worker.armed ≤ 1) : Logged b id workers (log ++ [.cancellation]) := by
  refine ⟨fun x hx => (h.prepared x hx).mono, fun before hh after hlog => ?_,
    fun before after hlog => ?_, fun hh sideEffects hmem => ?_, ?_⟩
  · rcases split_append (by simp) hlog with ⟨rest, -, hbefore⟩
    exact h.preceded before hh rest hbefore
  · rcases split_concat hlog with ⟨-, -, rfl⟩ | ⟨rest, rfl, hbefore⟩
    · exact ⟨fun _ => not_mem_nil, by simpa using harmed⟩
    · rcases h.late before rest hbefore with ⟨hconfirmed, hcount⟩
      refine ⟨fun hh hin => ?_, ?_⟩
      · grind
      · rw [countP_append]
        exact hcount
  · rcases mem_append.mp hmem with hmem | hmem
    · exact h.traced hh sideEffects hmem
    · cases mem_singleton.mp hmem
  · rw [filterMap_append]
    exact (append_nil _).symm ▸ h.distinct

end Log

section Runs

variable {t : Tables} {call : Call} {b : Broker} {id : Uuid} {s : System}

/-- What may happen beside the workers of the execution: only they move it, and its
    row is inserted once, with a profile of the broker. -/
def Permitted (id : Uuid) (s : System) : Action → Prop
  | .store call => Listed call
      ∧ (∀ claim t, call.op = .transition claim t → claim.executionId ≠ id)
      ∧ ∀ e ∈ born call, e.id = id → s.submitted = false
        ∧ ∃ timeoutSeconds profileConfinement persistResult sourceAuthority,
          e.executionProfile = durableExecutionProfile timeoutSeconds profileConfinement
            persistResult sourceAuthority
  | .worker _ _ => True

structure Kept (b : Broker) (id : Uuid) (s : System) : Prop where
  staffed : Staffed id s.tables s.workers
  logged : Logged b id s.workers s.log
  halted : .cancellation ∈ s.log → ∀ e ∈ rows s.tables, e.id = id →
    e.cancellationRequestedAt.isSome = true
  unused : s.submitted = false → (∀ e ∈ rows s.tables, e.id ≠ id) ∧ s.workers = [] ∧ s.log = []

theorem present_iff : t.present id = true ↔ ∃ e ∈ rows t, e.id = id := by
  simp [rows, Tables.present]

theorem cancelRequested_iff : t.cancelRequested id = true
    ↔ ∃ e ∈ rows t, e.id = id ∧ e.cancellationRequestedAt.isSome = true := by
  simp [Tables.cancelRequested, rows]

/-- A cancellation is not taken back. -/
theorem Staffed.halted {workers : List Worker} (h : Staffed id t workers) (hlisted : Listed call)
    (hborn : ∀ e ∈ born call, e.id ≠ id)
    (hcancelled : ∀ e ∈ rows t, e.id = id → e.cancellationRequestedAt.isSome = true) :
    ∀ e ∈ rows (step t call), e.id = id → e.cancellationRequestedAt.isSome = true := by
  rcases effect_outcome t call hlisted with ⟨g, new, hc, hnew, -⟩
  intro e' he' hid
  rcases hc.origin he' with ⟨e, he, -, rfl⟩ | he'
  · have hadvance := hc.advance e he
    have hbefore := hcancelled e he (hadvance.id_eq.symm.trans hid)
    exact ((hadvance.steps (h.attended e he)).cancelled hbefore).1
  · exact absurd hid (hborn e' (hnew he'))

theorem not_leaves (hmoves : ∀ claim t, call.op = .transition claim t → claim.executionId ≠ id)
    {e : Execution} (hid : e.id = id) : ¬leaves call e := by
  intro hleaves
  unfold leaves at hleaves
  split at hleaves
  · rename_i claim t hop
    simp only [Execution.held, Bool.and_eq_true] at hleaves
    exact hmoves claim t hop ((addressed_id hleaves.1.1).symm.trans hid)
  · exact hleaves

theorem step_store (s : System) (call : Call) : s.step b id (.store call) =
    { tables := step s.tables call
      workers := s.workers ++ ((granted (effect s.tables call.now call.op).1).toList.filter
        (fun c => c.executionId == id)).map Worker.new
      log := s.log ++ if (step s.tables call).cancelRequested id
        && !s.tables.cancelRequested id then [.cancellation] else []
      submitted := s.submitted || (step s.tables call).present id } :=
  rfl

/-- An operation of the store. -/
theorem Kept.store (h : Kept b id s) (hpermitted : Permitted id s (.store call)) :
    Kept b id (s.step b id (.store call)) := by
  rcases hpermitted with ⟨hlisted, hmoves, hinserts⟩
  have hborn (e : Execution) (he : e ∈ born call) (hid : e.id = id) :
      e.Direct ∧ s.workers = [] := by
    rcases hinserts e he hid with ⟨hfresh, _, _, _, _, hprofile⟩
    exact ⟨by rw [Execution.Direct, hprofile]; rfl, (h.unused hfresh).2.1⟩
  have hstaffed := h.staffed.store hlisted (fun e _ hid hleaves =>
    absurd hleaves (not_leaves hmoves hid)) hborn
  have hafter := h.staffed.carried hlisted (fun e _ hid hleaves =>
    absurd hleaves (not_leaves hmoves hid)) hborn
  have hlog := h.logged.hired ((granted (effect s.tables call.now call.op).1).toList.filter
    (fun c => c.executionId == id))
  rw [step_store]
  refine ⟨hstaffed, ?_, fun hmem e he hid => ?_, fun hfresh => ?_⟩
  · dsimp only
    split
    · exact hlog.cancelled hstaffed.armed_le_one
    · rw [append_nil]
      exact hlog
  · rcases mem_append.mp hmem with hmem | hmem
    · refine h.staffed.halted hlisted (fun x hx hxid => ?_) (h.halted hmem) e he hid
      rw [(h.unused (hinserts x hx hxid).1).2.2] at hmem
      cases hmem
    · split at hmem
      · rename_i hnow
        rw [Bool.and_eq_true] at hnow
        rcases cancelRequested_iff.mp hnow.1 with ⟨x, hx, hxid, hcancelled⟩
        have hsame := inj_on_of_nodup_map hafter.nodup he hx (hid.trans hxid.symm)
        rw [hsame]
        exact hcancelled
      · cases hmem
  · have hboth := Bool.or_eq_false_iff.mp hfresh
    have hnone : ∀ e ∈ rows (step s.tables call), e.id ≠ id := by grind [present_iff]
    rcases h.unused hboth.1 with ⟨-, hworkers, hempty⟩
    refine ⟨hnone, ?_, ?_⟩
    · rw [hworkers, nil_append, map_eq_nil_iff, filter_eq_nil_iff]
      intro c hc hcid
      rw [Option.mem_toList] at hc
      rcases effect_outcome s.tables call hlisted with ⟨g, new, hcarried, -, hgranting⟩
      rcases (hgranting c hc).row hcarried with ⟨e, he, heid, -⟩
      exact hnone e he (heid.trans (eq_of_beq hcid))
    · grind [cancelRequested_iff]

theorem Move.no_cancellation {w w' : Worker} {es : List Entry} (hm : Move b t w w' es) :
    .cancellation ∉ es := by
  cases hm with
  | quiet _ events hclaim hcalls hphase => simp
  | ask call hcall => exact not_mem_nil
  | start call event hphase hevent => simp
  | confirm call hphase hrow => simp
  | dispatch call hphase => simp

/-- A step of a worker. -/
theorem Kept.worker (h : Kept b id s)
    (hv5 : ∀ m n, b.newV5 id (u32ToBeBytes m) = b.newV5 id (u32ToBeBytes n) → m = n)
    (i : Nat) (action : WorkerAction) : Kept b id (s.step b id (.worker i action)) := by
  simp only [System.step]
  split
  · exact h
  · rename_i w hw
    split
    · exact h
    · rename_i w' t' entries hact
      rcases act_move hact with ⟨hmove, -, -, htouched⟩
      refine ⟨h.staffed.acted hw hact, h.logged.moved h.staffed hv5 h.halted hw hmove,
        fun hmem => ?_, fun hfresh => ?_⟩
      · have hlog : .cancellation ∈ s.log :=
          (mem_append.mp hmem).resolve_right hmove.no_cancellation
        rcases htouched with rfl | ⟨call, rfl, hlisted, hborn, -⟩
        · exact h.halted hlog
        · refine h.staffed.halted hlisted (fun e he => ?_) (h.halted hlog)
          rw [hborn] at he
          cases he
      · rw [(h.unused hfresh).2.1] at hw
        cases hw

theorem kept_empty : Kept b id System.empty := by
  have hsplit {x : Entry} {before after : List Entry} (h : [] = before ++ x :: after) : False :=
    append_ne_nil_of_right_ne_nil before (cons_ne_nil x after) h.symm
  refine
    { staffed :=
        { nodup := nodup_nil
          attended := forall_mem_nil _
          direct := forall_mem_nil _
          owned := forall_mem_nil _
          increasing := List.Pairwise.nil
          bounded := forall_mem_nil _
          last := forall_mem_nil _
          idle := forall_mem_nil _ }
      logged :=
        { prepared := forall_mem_nil _
          preceded := fun before h after hlog => (hsplit hlog).elim
          late := fun before after hlog => (hsplit hlog).elim
          traced := nofun
          distinct := nodup_nil }
      halted := nofun
      unused := fun _ => ⟨forall_mem_nil _, rfl, rfl⟩ }

/-- Every run of permitted actions. -/
theorem system_kept
    (hv5 : ∀ m n, b.newV5 id (u32ToBeBytes m) = b.newV5 id (u32ToBeBytes n) → m = n)
    {actions : List Action}
    (hpermitted : Along (System.step b id) (Permitted id) System.empty actions) :
    Kept b id (System.run b id actions) := by
  refine hpermitted.invariant (fun s action hstep h => ?_) ?_
  · cases action with
    | store call => exact h.store hstep
    | worker i action => exact h.worker hv5 i action
  · exact kept_empty

end Runs

section Reconciliation

variable {e e' : Execution} {t t' : Tables} {now : Int}

theorem outcomeUnknown_iff {events : List ExecutionEvent} :
    outcomeUnknown events e = true ↔ ∃ started ∈ events, started.of e = true
      ∧ started.startsEffect = true ∧ ∀ outcome ∈ events, started.endedBy outcome = false := by
  grind [outcomeUnknown]

/-- Events of other executions do not matter. -/
theorem outcomeUnknown_append {seen late : List ExecutionEvent}
    (h : ∀ event ∈ late, event.of e = false) :
    outcomeUnknown (seen ++ late) e = outcomeUnknown seen e := by
  have hlate {started outcome : ExecutionEvent} (hof : started.of e = true)
      (hended : started.endedBy outcome = true) : outcome ∉ late := by
    intro hmem
    have hother := h outcome hmem
    grind [ExecutionEvent.of, ExecutionEvent.endedBy]
  rw [Bool.eq_iff_iff, outcomeUnknown_iff, outcomeUnknown_iff]
  constructor
  · rintro ⟨started, hmem, hof, hstarts, hnone⟩
    rcases mem_append.mp hmem with hmem | hmem
    · exact ⟨started, hmem, hof, hstarts, fun outcome ho => hnone outcome (mem_append_left _ ho)⟩
    · rw [h started hmem] at hof
      cases hof
  · rintro ⟨started, hmem, hof, hstarts, hnone⟩
    refine ⟨started, mem_append_left _ hmem, hof, hstarts, fun outcome ho => ?_⟩
    rcases mem_append.mp ho with ho | ho
    · exact hnone outcome ho
    · exact Bool.eq_false_of_not_eq_true (fun hended => hlate hof hended ho)

/-- The reason of one row. -/
theorem reconcile_reason {events : List ExecutionEvent} {lapsedReason : String}
    (hlapsed : lapsedReason ≠ "effect_outcome_unknown") (hrunning : e.status = .running)
    (hresumable : e.resumable now = false) (hretained : e.retained now = true) :
    ((e.reconcile events lapsedReason now).touched now).terminalReasonCode
        = some "effect_outcome_unknown"
      ↔ outcomeUnknown events e = true := by
  have hreason : ((e.reconcile events lapsedReason now).touched now).terminalReasonCode
      = some (if outcomeUnknown events e then "effect_outcome_unknown" else lapsedReason) := by
    simp only [Execution.touched, Execution.reconcile, Execution.expiryReason, hresumable,
      hretained, hrunning]
    rfl
  rw [hreason, Option.some_inj]
  split
  · rename_i hunknown
    exact iff_of_true rfl hunknown
  · rename_i hknown
    exact iff_of_false hlapsed hknown

theorem reconcileAbandonedIn_reason {tenantId principalSub principalIssuer lapsedReason : String}
    {id : Uuid} {grace : Nat} {result : Option Execution} {seen : List ExecutionEvent}
    (h : reconcileAbandonedIn t now tenantId principalSub principalIssuer id grace lapsedReason seen
      = .ok (result, t')) (hlapsed : lapsedReason ≠ "effect_outcome_unknown")
    (hnodup : ((rows t).map Execution.id).Nodup) (he : e ∈ rows t) (he' : e' ∈ rows t')
    (hid : e'.id = e.id) (hrunning : e.status = .running) (hresumable : e.resumable now = false)
    (hretained : e.retained now = true) (hexpired : e'.status = .expired) :
    e'.terminalReasonCode = some "effect_outcome_unknown"
      ↔ outcomeUnknown seen e = true := by
  rw [reconcileAbandonedIn_ok h] at he'
  rcases mem_map.mp he' with ⟨x, hx, rfl⟩
  rw [updated] at hid hexpired ⊢
  split at hid
  · rename_i hguard
    rw [if_pos hguard] at hexpired ⊢
    have hsame := inj_on_of_nodup_map hnodup hx he hid
    subst hsame
    exact reconcile_reason hlapsed hrunning hresumable hretained
  · rename_i hguard
    rw [if_neg hguard] at hexpired
    have hsame := inj_on_of_nodup_map hnodup hx he hid
    rw [hsame, hrunning] at hexpired
    cases hexpired

def reconciles : Op → Bool
  | .reconcileAbandoned .. => true
  | .interruptClaimed .. => true
  | _ => false

/-- The events that were committed after a reconciliation took its snapshot. -/
def Op.missed (events : List ExecutionEvent) : Op → List ExecutionEvent
  | .reconcileAbandoned _ _ _ _ _ unseen => events.drop (events.length - unseen)
  | _ => []

theorem not_expired (hnodup : ((rows t).map Execution.id).Nodup) (he : e ∈ rows t)
    (he' : e' ∈ rows t) (hid : e'.id = e.id) (hrunning : e.status = .running) :
    e'.status ≠ .expired := by
  rw [inj_on_of_nodup_map hnodup he' he hid, hrunning]
  intro h
  cases h

/-- A running row that is ended says whether an outcome is unknown. -/
theorem reconciled_reason {call : Call} (hnodup : ((rows t).map Execution.id).Nodup)
    (hop : reconciles call.op = true) (he : e ∈ rows t) (he' : e' ∈ rows (step t call))
    (hid : e'.id = e.id) (hrunning : e.status = .running)
    (hresumable : e.resumable call.now = false) (hretained : e.retained call.now = true)
    (hexpired : e'.status = .expired)
    (hseen : ∀ event ∈ call.op.missed t.events, event.of e = false) :
    e'.terminalReasonCode = some "effect_outcome_unknown"
      ↔ outcomeUnknown t.events e = true := by
  rcases call with ⟨op, now⟩
  cases op with
  | reconcileAbandoned tenantId principalSub principalIssuer id grace unseen =>
    simp only [step, effect] at he'
    cases htx : reconcileAbandoned t now tenantId principalSub principalIssuer id grace unseen with
    | error error =>
      rw [htx] at he'
      exact absurd hexpired (not_expired hnodup he he' hid hrunning)
    | ok result =>
      rw [htx] at he'
      have hsame : outcomeUnknown (t.events.take (t.events.length - unseen)
          ++ t.events.drop (t.events.length - unseen)) e
          = outcomeUnknown (t.events.take (t.events.length - unseen)) e :=
        outcomeUnknown_append hseen
      rw [take_append_drop] at hsame
      rw [hsame]
      exact reconcileAbandonedIn_reason htx (by decide) hnodup he he' hid hrunning hresumable
        hretained hexpired
  | interruptClaimed claim principalSub principalIssuer =>
    simp only [step, effect] at he'
    cases htx : interruptClaimed t now claim principalSub principalIssuer with
    | error error =>
      rw [htx] at he'
      exact absurd hexpired (not_expired hnodup he he' hid hrunning)
    | ok result =>
      rw [htx] at he'
      change e' ∈ rows result.2 at he'
      rcases whenUpdated_ok htx with ⟨x, u, hupdate, hrest⟩ | ⟨-, hsame⟩
      · -- The claim ends first; nothing the reason depends on changes with it.
        rcases updateExecutions_ok hupdate with ⟨hrows, hevents, -, -⟩
        have hmem := hrows ▸ mem_map_of_mem he
        have hnodup' : ((rows u).map Execution.id).Nodup := by
          rw [hrows, map_map]
          refine (map_congr_left (fun y _ => ?_)) ▸ hnodup
          rw [Function.comp_apply, updated]
          split <;> rfl
        rw [← hevents]
        rw [updated] at hmem
        split at hmem
        all_goals
          have hreason := reconcileAbandonedIn_reason hrest (by decide) hnodup' hmem he' hid
            hrunning hresumable hretained hexpired
          exact hreason
      · rw [hsame] at he'
        exact absurd hexpired (not_expired hnodup he he' hid hrunning)
  | _ => cases hop

end Reconciliation

/-- Over every run of an execution in the `direct` profile, with the identifiers of
    its calls distinct:
    (1) a connector with side effects is invoked only after the start of the call was
    committed under its identity, with the attempt as its column holds it;
    (2) no two calls have one identity;
    (3) after a cancellation at most one connector with side effects is invoked, and
    its claim was confirmed before;
    (4) a running row that is ended by reconciliation, inside its retention and with
    nothing to resume, says that an outcome is unknown exactly when a call with side
    effects was started and no event says how it ended, if no event of the execution
    was committed while the reconciliation waited for the row. -/
theorem effects_journaled (b : Broker) (id : Uuid)
    (hv5 : ∀ m n, b.newV5 id (u32ToBeBytes m) = b.newV5 id (u32ToBeBytes n) → m = n)
    (actions : List Action)
    (hpermitted : Along (System.step b id) (Permitted id) System.empty actions) :
    (∀ before h after, (System.run b id actions).log = before ++ .dispatch h true :: after →
      ∃ event, .event event ∈ before ∧ event.executionId = id ∧ event.startsEffect = true
        ∧ event.callId = some h.callId ∧ event.attempt = i32 h.attempt.val.toNat)
    ∧ (((System.run b id actions).log.filterMap Entry.dispatched).map
      (fun h => (h.callId, h.attempt))).Nodup
    ∧ (∀ before after, (System.run b id actions).log = before ++ .cancellation :: after →
      after.countP Entry.effectful ≤ 1
        ∧ ∀ h, .dispatch h true ∈ after → .confirmed h ∈ before)
    ∧ (∀ call e e', reconciles call.op = true → e ∈ rows (System.run b id actions).tables →
      e' ∈ rows (step (System.run b id actions).tables call) → e'.id = e.id →
      e.status = .running → e.resumable call.now = false → e.retained call.now = true →
      e'.status = .expired →
      (∀ event ∈ call.op.missed (System.run b id actions).tables.events, event.of e = false) →
      (e'.terminalReasonCode = some "effect_outcome_unknown"
        ↔ ∃ started ∈ (System.run b id actions).tables.events, started.of e = true
          ∧ started.startsEffect = true
          ∧ ∀ outcome ∈ (System.run b id actions).tables.events,
            started.endedBy outcome = false)) := by
  have h := system_kept hv5 hpermitted
  refine ⟨fun before hh after hlog => ?_, h.logged.distinct, fun before after hlog => ?_,
    fun call e e' hop he he' hid hrunning hresumable hretained hexpired hseen => ?_⟩
  · exact (h.logged.preceded before hh after hlog).1
  · rcases h.logged.late before after hlog with ⟨hconfirmed, hcount⟩
    refine ⟨le_trans (Nat.le_add_right _ _) hcount, fun hh hmem => ?_⟩
    rcases append_of_mem hmem with ⟨front, back, hafter⟩
    have hfull : (System.run b id actions).log
        = (before ++ .cancellation :: front) ++ .dispatch hh true :: back := by
      rw [hlog, hafter, append_assoc, cons_append]
    -- Nothing is confirmed after the cancellation.
    rcases mem_append.mp (h.logged.preceded _ hh back hfull).2 with hin | hin
    · exact hin
    · grind
  · rw [← outcomeUnknown_iff]
    exact reconciled_reason h.staffed.nodup hop he he' hid hrunning hresumable hretained hexpired
      hseen

section Sample

def beValue (bytes : List UInt8) : Nat :=
  bytes.reverse.foldr (fun x n => x.toNat + 256 * n) 0

theorem leValue_leBytes (w n : Nat) :
    (Codec.leBytes w n).foldr (fun x n => x.toNat + 256 * n) 0 = n % 256 ^ w := by
  induction w generalizing n with
  | zero => rw [Nat.pow_zero, Nat.mod_one]; rfl
  | succ w ih =>
    rw [Codec.leBytes, foldr_cons, ih, UInt8.toNat_ofNat',
      show 256 ^ (w + 1) = 256 * 256 ^ w from Nat.pow_succ', Nat.mod_mul]

def sampleBroker : Broker :=
  { newV5 := fun _ name => BitVec.ofNat 128 (beValue name)
    admittedCall := fun callId _ =>
      if callId = "write" then some ⟨"server", "write", true⟩ else none
    persistContent := true
    claimLease := 30
    artifactBytes := 100
    artifactTotalBytes := 100
    artifactsPerAttempt := 1 }

theorem sampleBroker_v5 (m n : NonZeroU32)
    (h : sampleBroker.newV5 1 (u32ToBeBytes m) = sampleBroker.newV5 1 (u32ToBeBytes n)) :
    m = n := by
  have hvalue (k : NonZeroU32) : beValue (u32ToBeBytes k) = k.val.toNat := by
    rw [beValue, u32ToBeBytes, reverse_reverse, Audit.u32ToLeBytes, leValue_leBytes]
    exact Nat.mod_eq_of_lt k.val.toNat_lt
  have hbits : BitVec.ofNat 128 (beValue (u32ToBeBytes m))
      = BitVec.ofNat 128 (beValue (u32ToBeBytes n)) := h
  have hnat := congrArg BitVec.toNat hbits
  rw [hvalue, hvalue, BitVec.toNat_ofNat, BitVec.toNat_ofNat] at hnat
  have hm := m.val.toNat_lt
  have hn := n.val.toNat_lt
  refine Subtype.ext (UInt32.toNat_inj.mp ?_)
  omega

def sampleSubmission : NewExecution :=
  { sampleNew 1 1000000000 with executionProfile := durableExecutionProfile 60 .null true none }

def sampleBegin : List Action :=
  [.store ⟨.submit sampleSubmission ⟨[], []⟩, 0⟩,
    .store ⟨.claim "t" 1 7 30 "return 1" (.object []), 0⟩]

def sampleActions : List Action :=
  sampleBegin ++
    [.worker 0 (.read (.call "write" (.object [])) 0), .worker 0 (.append 2),
      .worker 0 (.confirm 3), .store ⟨.requestCancellation "t" "s" "i" 1, 4⟩,
      .worker 0 .dispatch, .worker 0 (.answer true), .worker 0 (.append 5),
      .worker 0 (.read (.call "write" (.object [])) 0), .worker 0 (.append 6),
      .worker 0 (.settle (.cancel "cancelled_by_client") 7)]

theorem sampleBegin_permitted {rest : List Action}
    (h : Along (System.step sampleBroker 1) (Permitted 1)
      (System.run sampleBroker 1 sampleBegin) rest) :
    Along (System.step sampleBroker 1) (Permitted 1) System.empty (sampleBegin ++ rest) := by
  refine ⟨⟨trivial, fun claim t hop => ?_, fun e he _ => ⟨rfl, 60, .null, true, none, ?_⟩⟩,
    ⟨trivial, fun claim t hop => ?_, fun e he => ?_⟩, h⟩
  · cases hop
  · rw [mem_singleton.mp he]
    rfl
  · cases hop
  · cases he

theorem sampleActions_permitted :
    Along (System.step sampleBroker 1) (Permitted 1) System.empty sampleActions := by
  refine sampleBegin_permitted ⟨trivial, trivial, trivial, ⟨trivial, ?_, ?_⟩, trivial, trivial,
    trivial, trivial, trivial, trivial, trivial⟩
  · intro claim t hop
    cases hop
  · intro e he
    cases he

theorem effects_journaled_sample :
    (System.run sampleBroker 1 sampleActions).log.countP Entry.effectful = 1
    ∧ (rows (System.run sampleBroker 1 sampleActions).tables).map Execution.status = [.cancelled]
    ∧ ∀ before after, (System.run sampleBroker 1 sampleActions).log
        = before ++ .cancellation :: after →
      after.countP Entry.effectful ≤ 1
        ∧ ∀ h, .dispatch h true ∈ after → .confirmed h ∈ before :=
  ⟨by decide +kernel, by decide +kernel,
    (effects_journaled sampleBroker 1 sampleBroker_v5 sampleActions
      sampleActions_permitted).2.2.1⟩

/-- The lease of the worker has run out when it records that its call succeeded. -/
def lateActions : List Action :=
  sampleBegin ++
    [.worker 0 (.read (.call "write" (.object [])) 0), .worker 0 (.append 2),
      .worker 0 (.confirm 3), .worker 0 .dispatch, .worker 0 (.answer true),
      .worker 0 (.append 40000000)]

theorem lateActions_permitted :
    Along (System.step sampleBroker 1) (Permitted 1) System.empty lateActions :=
  sampleBegin_permitted ⟨trivial, trivial, trivial, trivial, trivial, trivial, trivial⟩

/-- A reconciliation that took its snapshot before the outcome was committed, and then waited for
    the row. -/
def lateReconciliation : Call :=
  ⟨.reconcileAbandoned "t" "s" "i" 1 30 1, 40000001⟩

theorem effects_journaled_late :
    Along (System.step sampleBroker 1) (Permitted 1) System.empty lateActions
    ∧ (rows (System.run sampleBroker 1 lateActions).tables).map (fun e =>
        (e.status, e.resumable 40000001, e.retained 40000001)) = [(.running, false, true)]
    ∧ (rows (step (System.run sampleBroker 1 lateActions).tables lateReconciliation)).map
        (fun e => (e.status, e.terminalReasonCode))
      = [(.expired, some "effect_outcome_unknown")]
    ∧ ∀ started ∈ (System.run sampleBroker 1 lateActions).tables.events,
      started.startsEffect = true →
      ∃ outcome ∈ (System.run sampleBroker 1 lateActions).tables.events,
        started.endedBy outcome = true :=
  ⟨lateActions_permitted, by decide +kernel, by decide +kernel, by decide +kernel⟩

end Sample

end Waygate.Codemode
