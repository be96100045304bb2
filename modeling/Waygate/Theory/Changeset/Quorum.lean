import Mathlib.Data.List.Induction
import Waygate.Core.Changeset.Store
import Waygate.Theory.Machine.Run

/-!
# Quorum and Single Execution

Every move of a change request is a conditional update that makes its own condition
false, so each happens once. An approval is recorded only while the request is open by
the gateway's clock, and so at the earlier time of the transaction, so the approval that
completes the quorum also approves.

## Main definitions

* `Carried`
* `Sound`: What every operation keeps.

## Theorems

* `changeRequests_sound`
* `effect_carried`, `effect_approvals`, `effect_secrets`: What an operation does.
* `Sound.step`: What it keeps.
-/

namespace Waygate.Changeset

open Table Machine List

def Op.time : Op → OffsetDateTime
  | .propose _ _ now => now
  | .tryApprove _ _ _ now => now
  | .recordApproval _ _ _ _ _ clock _ => clock
  | .tryDeny _ _ _ _ now => now
  | .tryBeginExecution _ _ now => now
  | .markExecuted _ _ _ now => now
  | .markFailed _ _ _ now => now
  | .storeSecret _ _ _ now => now
  | .tryBurnSecret _ _ now => now

inductive Moved (s : Tables) : Op → ChangeRequest → ChangeRequest → Prop
  | approved (tenantId : String) (r : ChangeRequest) (sub : String) (now : OffsetDateTime)
      (hopen : r.isOpen now = true) (hone : r.requiredApprovals = 1) :
      Moved s (.tryApprove tenantId r.id sub now) r (r.approve sub now)
  | quorum (tenantId : String) (r : ChangeRequest) (sub : String) (rowId : Uuid)
      (now clock : OffsetDateTime) (le : now.unixTimestampNanos ≤ clock.unixTimestampNanos)
      (hopen : r.isOpen now = true)
      (henough : r.requiredApprovals ≤ collectedFor r.id
        (recordApproval s tenantId r.id sub rowId now clock).2.approvals) :
      Moved s (.recordApproval tenantId r.id sub rowId now clock le) r (r.approve sub now)
  | denied (tenantId : String) (r : ChangeRequest) (sub reason : String) (now : OffsetDateTime)
      (hopen : r.isOpen now = true) :
      Moved s (.tryDeny tenantId r.id sub reason now) r
        { r with
          status := .denied
          approverSub := some sub
          deniedReason := some reason
          decidedAt := some now }
  | began (tenantId : String) (r : ChangeRequest) (now : OffsetDateTime)
      (hstatus : r.status = .approved) :
      Moved s (.tryBeginExecution tenantId r.id now) r { r with status := .executing }
  | executed (tenantId : String) (r : ChangeRequest) (result : Json) (now : OffsetDateTime)
      (hstatus : r.status = .executing) :
      Moved s (.markExecuted tenantId r.id result now) r
        { r with status := .executed, executionResult := some result, executedAt := some now }
  | failed (tenantId : String) (r : ChangeRequest) (error : String) (now : OffsetDateTime)
      (hstatus : r.status = .executing) :
      Moved s (.markFailed tenantId r.id error now) r
        { r with status := .failed, errorMessage := some error, executedAt := some now }

variable {s : Tables} {op : Op} {r r' : ChangeRequest} {id : Uuid} {events : List Event} {e : Event}

theorem Moved.frozen (h : Moved s op r r') :
    r'.id = r.id ∧ r'.requiredApprovals = r.requiredApprovals ∧ r'.expiresAt = r.expiresAt := by
  cases h <;> exact ⟨rfl, rfl, rfl⟩

theorem isOpen_pending {now : OffsetDateTime} (h : r.isOpen now = true) :
    r.status = .pending := by
  simp only [ChangeRequest.isOpen, Bool.and_eq_true, beq_iff_eq] at h
  exact h.1

def transitions : List (ChangeRequestStatus × ChangeRequestStatus) :=
  [(.pending, .approved), (.pending, .denied), (.approved, .executing), (.executing, .executed),
    (.executing, .failed)]

theorem Moved.transition (h : Moved s op r r') :
    (r.status, r'.status) ∈ transitions := by
  cases h with
  | approved _ _ _ _ hopen | quorum _ _ _ _ _ _ _ hopen =>
    rw [isOpen_pending hopen]
    exact mem_cons_self
  | denied tenantId _ sub reason now hopen =>
    rw [isOpen_pending hopen]
    exact mem_of_getElem? (i := 1) rfl
  | began tenantId _ now hstatus =>
    rw [hstatus]
    exact mem_of_getElem? (i := 2) rfl
  | executed tenantId _ result now hstatus =>
    rw [hstatus]
    exact mem_of_getElem? (i := 3) rfl
  | failed tenantId _ error now hstatus =>
    rw [hstatus]
    exact mem_of_getElem? (i := 4) rfl

theorem Moved.not_pending (h : Moved s op r r') :
    r'.status ≠ .pending :=
  (by decide : ∀ p ∈ transitions, p.2 ≠ .pending) _ h.transition

def ChangeRequestStatus.rank : ChangeRequestStatus → Nat
  | .pending => 0
  | .approved => 1
  | .executing => 2
  | .executed | .failed | .denied | .expired => 3

theorem Moved.rank (h : Moved s op r r') :
    r.status.rank < r'.status.rank ∧ r.status.rank < 3 :=
  (by decide : ∀ p ∈ transitions, p.1.rank < p.2.rank ∧ p.1.rank < 3) _ h.transition

theorem validate_ok {new : NewChangeRequest} (h : new.validate = .ok ()) :
    1 ≤ new.requirement.requiredApprovals := by
  by_contra hcount
  have hlt : new.requirement.requiredApprovals < 1 := Int.not_le.mp hcount
  simp only [NewChangeRequest.validate, hlt, if_true] at h
  cases hjustification : blank new.justification with
  | true =>
    rw [hjustification] at h
    cases h
  | false =>
    rw [hjustification] at h
    cases haction : blank new.actionType with
    | true =>
      rw [haction] at h
      cases h
    | false =>
      rw [haction] at h
      cases h

theorem addressed_id {tenantId : String} (h : addressed tenantId id r = true) : r.id = id := by
  simp only [addressed, Bool.and_eq_true, beq_iff_eq] at h
  exact h.1

theorem isOpen_mono {now clock : OffsetDateTime}
    (hle : now.unixTimestampNanos ≤ clock.unixTimestampNanos) (h : r.isOpen clock = true) :
    r.isOpen now = true := by
  simp only [ChangeRequest.isOpen, before, Bool.and_eq_true, decide_eq_true_eq] at h ⊢
  exact ⟨h.1, Int.lt_of_le_of_lt hle h.2⟩

/-- Every row stays or moves, and there may be one new row, which is pending. -/
def Carried (s : Tables) (op : Op) (requests : List ChangeRequest) : Prop :=
  ∃ g new, requests = s.requests.map g ++ new
    ∧ (∀ r ∈ s.requests, g r = r ∨ Moved s op r (g r))
    ∧ (new = [] ∨ ∃ r, new = [r] ∧ r.status = .pending ∧ 1 ≤ r.requiredApprovals
      ∧ ∀ r' ∈ s.requests, r'.id ≠ r.id)

section Updates

variable {s' : Tables} {tenantId : String} {guard : ChangeRequest → Bool}
  {set : ChangeRequest → ChangeRequest}

theorem carried_refl : Carried s op s.requests :=
  ⟨fun r => r, [], by rw [map_id', append_nil], fun _ _ => .inl rfl, .inl rfl⟩

theorem carried_update (hsame : s'.requests = s.requests)
    (hmoved : ∀ r ∈ s.requests, r.id = id → guard r = true → Moved s op r (set r)) :
    Carried s op (updateRequest s' tenantId id guard set).2.requests := by
  refine ⟨fun r => if (addressed tenantId id r && guard r) = true then set r else r, [], ?_,
    fun r hr => ?_, .inl rfl⟩
  · rw [append_nil, ← hsame]
    rfl
  · grind [addressed]

theorem recordApproval_cases (s : Tables) (tenantId : String) (id : Uuid) (sub : String)
    (rowId : Uuid) (now clock : OffsetDateTime) :
    (recordApproval s tenantId id sub rowId now clock).2 = s
    ∨ ∃ gate ∈ s.requests, addressed tenantId id gate = true ∧ ∃ approvals,
      (approvals = s.approvals ∨ (gate.isOpen clock = true
        ∧ (∀ a ∈ s.approvals, a.changeRequestId = id → a.approverSub ≠ sub)
        ∧ approvals = s.approvals ++ [⟨rowId, id, tenantId, sub, now⟩]))
      ∧ (recordApproval s tenantId id sub rowId now clock).2
        = (updateRequest { s with approvals := approvals } tenantId id
            (fun r => r.isOpen now && decide (r.requiredApprovals ≤ collectedFor id approvals))
            (ChangeRequest.approve sub now)).2 := by grind [recordApproval, addressed]

end Updates

section Effects

variable {requests : List ChangeRequest}

/-- An operation moves a request along its transitions, or leaves it. -/
theorem effect_carried (s : Tables) (op : Op) : Carried s op (effect s op).2.requests := by
  cases op with
  | propose new id now =>
    simp only [effect, propose]
    split
    · exact carried_refl
    · rename_i hvalid
      split
      · exact carried_refl
      · rename_i hfresh
        refine ⟨fun r => r, [new.row id now], by rw [map_id'], fun _ _ => .inl rfl,
          .inr ⟨_, rfl, rfl, validate_ok hvalid, fun r hr heq => hfresh ?_⟩⟩
        exact any_eq_true.mpr ⟨r, hr, beq_iff_eq.mpr heq⟩
  | tryApprove tenantId id sub now =>
    refine carried_update rfl (fun r _ hid hguard => ?_)
    rw [Bool.and_eq_true, beq_iff_eq] at hguard
    exact hid ▸ .approved tenantId r sub now hguard.1 hguard.2
  | recordApproval tenantId id sub rowId now clock le =>
    simp only [effect]
    rcases recordApproval_cases s tenantId id sub rowId now clock with
      hsame | ⟨gate, -, -, approvals, -, hupdate⟩
    · rw [hsame]
      exact carried_refl
    · rw [hupdate]
      refine carried_update rfl (fun r _ hid hguard => ?_)
      subst hid
      rw [Bool.and_eq_true, decide_eq_true_eq] at hguard
      refine .quorum tenantId r sub rowId now clock le hguard.1 ?_
      rw [hupdate]
      exact hguard.2
  | tryDeny tenantId id sub reason now =>
    refine carried_update rfl (fun r _ hid hguard => ?_)
    exact hid ▸ .denied tenantId r sub reason now hguard
  | tryBeginExecution tenantId id now =>
    refine carried_update rfl (fun r _ hid hguard => ?_)
    exact hid ▸ .began tenantId r now (beq_iff_eq.mp hguard)
  | markExecuted tenantId id result now =>
    refine carried_update rfl (fun r _ hid hguard => ?_)
    exact hid ▸ .executed tenantId r result now (beq_iff_eq.mp hguard)
  | markFailed tenantId id error now =>
    refine carried_update rfl (fun r _ hid hguard => ?_)
    exact hid ▸ .failed tenantId r error now (beq_iff_eq.mp hguard)
  | storeSecret tenantId id stored now =>
    simp only [effect, storeSecret]
    split <;> exact carried_refl
  | tryBurnSecret tenantId id now => exact carried_refl

theorem Carried.forward (h : Carried s op requests) (hr : r ∈ s.requests) :
    ∃ r' ∈ requests, r' = r ∨ Moved s op r r' := by
  rcases h with ⟨g, new, rfl, hg, -⟩
  exact ⟨g r, mem_append_left _ (mem_map_of_mem hr), hg r hr⟩

theorem Carried.backward (h : Carried s op requests) (hr' : r' ∈ requests) :
    (∃ r ∈ s.requests, r' = r ∨ Moved s op r r')
      ∨ (r'.status = .pending ∧ 1 ≤ r'.requiredApprovals ∧ ∀ r ∈ s.requests, r.id ≠ r'.id) := by
  rcases h with ⟨g, new, rfl, hg, hnew⟩
  rcases mem_append.mp hr' with hold | hadded
  · rcases mem_map.mp hold with ⟨r, hr, rfl⟩
    exact .inl ⟨r, hr, hg r hr⟩
  · grind

theorem Carried.nodup (h : Carried s op requests) (hs : (s.requests.map ChangeRequest.id).Nodup) :
    (requests.map ChangeRequest.id).Nodup := by
  rcases h with ⟨g, new, rfl, hg, hnew⟩
  have hids : (s.requests.map g).map ChangeRequest.id = s.requests.map ChangeRequest.id := by
    rw [map_map]
    refine map_congr_left (fun r hr => ?_)
    rcases hg r hr with heq | hmoved
    · rw [Function.comp_apply, heq]
    · exact hmoved.frozen.1
  rw [map_append, hids]
  rcases hnew with rfl | ⟨r, rfl, -, -, hfresh⟩
  · rw [map_nil, append_nil]
    exact hs
  · grind

end Effects

section Runs

/-- The approver recorded an approval of the request while it was pending and had
    not expired. -/
def RecordedBy (events : List Event) (id : Uuid) (sub : String) : Prop :=
  ∃ earlier tenantId rowId now clock le fault later,
    events = earlier ++ ⟨.recordApproval tenantId id sub rowId now clock le, fault⟩ :: later
    ∧ (step (run earlier) ⟨.recordApproval tenantId id sub rowId now clock le, fault⟩).2.approvals
      = (run earlier).approvals ++ [⟨rowId, id, tenantId, sub, now⟩]
    ∧ ∃ r ∈ (run earlier).requests, r.id = id ∧ r.isOpen clock = true

theorem RecordedBy.append {sub : String} (h : RecordedBy events id sub) (more : List Event) :
    RecordedBy (events ++ more) id sub := by
  rcases h with ⟨earlier, tenantId, rowId, now, clock, le, fault, later, rfl, hopen⟩
  exact ⟨earlier, tenantId, rowId, now, clock, le, fault, later ++ more,
    by rw [append_assoc, cons_append], hopen⟩

def Approval.key (a : Approval) : Uuid × String :=
  (a.changeRequestId, a.approverSub)

structure Sound (events : List Event) (s : Tables) : Prop where
  ids : (s.requests.map ChangeRequest.id).Nodup
  required : ∀ r ∈ s.requests, 1 ≤ r.requiredApprovals
  approvers : (s.approvals.map Approval.key).Nodup
  known : ∀ a ∈ s.approvals, ∃ r ∈ s.requests, r.id = a.changeRequestId
  recorded : ∀ a ∈ s.approvals, RecordedBy events a.changeRequestId a.approverSub
  short : ∀ r ∈ s.requests, r.status = .pending →
    (collectedFor r.id s.approvals : Int) < r.requiredApprovals
  secrets : (s.secrets.map Secret.changeRequestId).Nodup

theorem run_append (events : List Event) (e : Event) :
    run (events ++ [e]) = (step (run events) e).2 := by
  rw [run, foldl_append]
  rfl

theorem step_tables (s : Tables) (e : Event) :
    (step s e).2 = (effect s e.op).2 ∨ (step s e).2 = s := by
  unfold step
  split
  · exact .inl rfl
  · exact .inr rfl
  · exact .inl rfl

theorem effect_approvals (s : Tables) (op : Op) :
    (effect s op).2.approvals = s.approvals
    ∨ ∃ tenantId id sub rowId now clock le, op = .recordApproval tenantId id sub rowId now clock le
      ∧ (∃ gate ∈ s.requests, gate.id = id ∧ gate.isOpen clock = true)
      ∧ (∀ a ∈ s.approvals, a.changeRequestId = id → a.approverSub ≠ sub)
      ∧ (effect s op).2.approvals = s.approvals ++ [⟨rowId, id, tenantId, sub, now⟩] := by
  cases op with
  | propose new id now =>
    simp only [effect, propose]
    split
    · exact .inl rfl
    · split <;> exact .inl rfl
  | recordApproval tenantId id sub rowId now clock le =>
    simp only [effect]
    rcases recordApproval_cases s tenantId id sub rowId now clock with
      hsame | ⟨gate, hgate, hid, approvals, happrovals, hupdate⟩
    · exact .inl (by rw [hsame])
    · rcases happrovals with rfl | ⟨hopen, hnew, rfl⟩
      · exact .inl (by rw [hupdate]; rfl)
      · exact .inr ⟨tenantId, id, sub, rowId, now, clock, le, rfl,
          ⟨gate, hgate, addressed_id hid, hopen⟩, hnew, by rw [hupdate]; rfl⟩
  | storeSecret tenantId id stored now =>
    simp only [effect, storeSecret]
    split <;> exact .inl rfl
  | _ => exact .inl rfl

/-- A request that is pending afterwards is short of approvals. -/
theorem recordApproval_short (hs : Sound events s) {tenantId : String} {sub : String} {rowId : Uuid}
    {now clock : OffsetDateTime} (le : now.unixTimestampNanos ≤ clock.unixTimestampNanos)
    (hr : r ∈ (recordApproval s tenantId id sub rowId now clock).2.requests)
    (hpending : r.status = .pending) :
    (collectedFor r.id (recordApproval s tenantId id sub rowId now clock).2.approvals : Int)
      < r.requiredApprovals := by
  rcases recordApproval_cases s tenantId id sub rowId now clock with
    hsame | ⟨gate, hgate, haddressed, approvals, happrovals, hupdate⟩
  · rw [hsame] at hr ⊢
    exact hs.short r hr hpending
  · rw [hupdate] at hr ⊢
    rcases mem_updateWhere hr with ⟨hold, hguard⟩ | ⟨x, -, -, rfl⟩
    · have hshort := hs.short r hold hpending
      rcases happrovals with rfl | ⟨hopen, -, rfl⟩
      · exact hshort
      · by_cases hid : r.id = id
        · -- The row is the gate, and was not approved, so there are not enough.
          have hsame : r = gate :=
            inj_on_of_nodup_map hs.ids hold hgate (hid.trans (addressed_id haddressed).symm)
          subst hsame
          simp only [haddressed, isOpen_mono le hopen, Bool.true_and, decide_eq_false_iff_not,
            Int.not_le] at hguard
          rw [hid]
          exact hguard
        · show (collectedFor r.id (s.approvals ++ _) : Int) < _
          simpa [collectedFor, Ne.symm hid] using hshort
    · cases hpending

theorem effect_secrets (s : Tables) (op : Op) :
    (effect s op).2.secrets = s.secrets
    ∨ (∃ t, (∀ t' ∈ s.secrets, t'.changeRequestId ≠ t.changeRequestId)
      ∧ (effect s op).2.secrets = s.secrets ++ [t])
    ∨ ∃ tenantId id now, (effect s op).2.secrets
      = (updateWhere (fun t : Secret => t.changeRequestId == id && t.tenantId == tenantId
          && t.retrievedAt.isNone) (fun t => { t with retrievedAt := some now }) s.secrets).2 := by
  cases op with
  | propose new id now =>
    simp only [effect, propose]
    split
    · exact .inl rfl
    · split <;> exact .inl rfl
  | recordApproval tenantId id sub rowId now clock le =>
    simp only [effect]
    rcases recordApproval_cases s tenantId id sub rowId now clock with
      hsame | ⟨gate, -, -, approvals, -, hupdate⟩
    · exact .inl (by rw [hsame])
    · exact .inl (by rw [hupdate]; rfl)
  | storeSecret tenantId id stored now =>
    simp only [effect, storeSecret]
    split
    · exact .inl rfl
    · grind
  | tryBurnSecret tenantId id now => exact .inr (.inr ⟨tenantId, id, now, rfl⟩)
  | _ => exact .inl rfl

theorem effect_secrets_nodup (op : Op) (hs : (s.secrets.map Secret.changeRequestId).Nodup) :
    ((effect s op).2.secrets.map Secret.changeRequestId).Nodup := by
  rcases effect_secrets s op with hsame | ⟨t, hfresh, happend⟩ | ⟨tenantId, id, now, hburned⟩
  · rw [hsame]
    exact hs
  · grind
  · rw [hburned, map_updateWhere]
    · exact hs
    · exact fun _ => rfl

theorem effect_burnt (op : Op) {t : Secret} (ht : t ∈ s.secrets)
    (hread : t.retrievedAt.isNone = false) : t ∈ (effect s op).2.secrets := by
  rcases effect_secrets s op with hsame | ⟨new, -, happend⟩ | ⟨tenantId, id, now, hburned⟩
  · rw [hsame]
    exact ht
  · rw [happend]
    exact mem_append_left _ ht
  · rw [hburned]
    exact mem_updateWhere_of_not ht (by rw [hread, Bool.and_false])

theorem Sound.effect_short (hs : Sound events s) (op : Op) (hr : r ∈ (effect s op).2.requests)
    (hpending : r.status = .pending) :
    (collectedFor r.id (effect s op).2.approvals : Int) < r.requiredApprovals := by
  rcases effect_approvals s op with hsame | ⟨tenantId, id, sub, rowId, now, clock, le, rfl, -⟩
  · rw [hsame]
    rcases (effect_carried s op).backward hr with ⟨x, hx, rfl | hmoved⟩ | ⟨-, hrequired, hfresh⟩
    · exact hs.short r hx hpending
    · exact absurd hpending hmoved.not_pending
    · -- A new request has no approvals.
      have hnone : collectedFor r.id s.approvals = 0 := by
        refine countP_eq_zero.mpr (fun a ha hid => ?_)
        rcases hs.known a ha with ⟨x, hx, hxa⟩
        exact hfresh x hx (hxa.trans (beq_iff_eq.mp hid))
      rw [hnone]
      exact hrequired
  · exact recordApproval_short hs le hr hpending

theorem Sound.effect (hs : Sound events (run events)) (e : Event)
    (heffect : (Changeset.step (run events) e).2 = (Changeset.effect (run events) e.op).2) :
    Sound (events ++ [e]) (Changeset.effect (run events) e.op).2 := by
  rcases e with ⟨op, fault⟩
  have hcarried := effect_carried (run events) op
  -- The requests that approvals are of are still there.
  have hthere : ∀ {id : Uuid}, (∃ r ∈ (run events).requests, r.id = id) →
      ∃ r ∈ (Changeset.effect (run events) op).2.requests, r.id = id := by
    grind [Carried.forward, Moved.frozen]
  refine ⟨hcarried.nodup hs.ids, fun r hr => ?_, ?_, ?_, ?_,
    fun r hr hpending => hs.effect_short op hr hpending, effect_secrets_nodup op hs.secrets⟩
  · rcases hcarried.backward hr with ⟨x, hx, rfl | hmoved⟩ | ⟨-, hrequired, -⟩
    · exact hs.required r hx
    · rw [hmoved.frozen.2.1]
      exact hs.required x hx
    · exact hrequired
  all_goals
    rcases effect_approvals (run events) op with
      hsame | ⟨tenantId, id, sub, rowId, now, clock, le, rfl, ⟨gate, hgate, hid, hopen⟩, hnew,
        happend⟩
  · rw [hsame]
    exact hs.approvers
  · rw [happend, map_append]
    refine nodup_append.mpr ⟨hs.approvers, nodup_singleton _, fun x hx y hy hxy => ?_⟩
    rcases mem_map.mp hx with ⟨a, ha, rfl⟩
    have hkey : a.key = (id, sub) := hxy.trans (mem_singleton.mp hy)
    exact hnew a ha (congrArg Prod.fst hkey) (congrArg Prod.snd hkey)
  · rw [hsame]
    exact fun a ha => hthere (hs.known a ha)
  · rw [happend]
    intro a ha
    rcases mem_append.mp ha with hold | hadded
    · exact hthere (hs.known a hold)
    · rw [mem_singleton.mp hadded]
      exact hthere ⟨gate, hgate, hid⟩
  · rw [hsame]
    exact fun a ha => (hs.recorded a ha).append _
  · rw [happend]
    intro a ha
    rcases mem_append.mp ha with hold | hadded
    · exact (hs.recorded a hold).append _
    · rw [mem_singleton.mp hadded]
      exact ⟨events, tenantId, rowId, now, clock, le, fault, [], rfl,
        by rw [heffect]; exact happend, gate, hgate, hid, hopen⟩

theorem Sound.step (hs : Sound events (run events)) (e : Event) :
    Sound (events ++ [e]) (run (events ++ [e])) := by
  rw [run_append]
  rcases step_tables (run events) e with heffect | hsame
  · rw [heffect]
    exact hs.effect e heffect
  · rw [hsame]
    exact ⟨hs.ids, hs.required, hs.approvers, hs.known, fun a ha => (hs.recorded a ha).append [e],
      hs.short, hs.secrets⟩

theorem run_sound (events : List Event) : Sound events (run events) := by
  induction events using List.reverseRecOn with
  | nil =>
    exact ⟨nodup_nil, fun r hr => absurd hr not_mem_nil, nodup_nil,
      fun a ha => absurd ha not_mem_nil, fun a ha => absurd ha not_mem_nil,
      fun r hr => absurd hr not_mem_nil, nodup_nil⟩
  | append_singleton events e ih => exact ih.step e

theorem step_carried (s : Tables) (e : Event) : Carried s e.op (step s e).2.requests := by
  grind [step_tables, effect_carried, carried_refl]

theorem run_append_list (events more : List Event) :
    run (events ++ more) = more.foldl (fun s e => (step s e).2) (run events) :=
  foldl_append

theorem run_forward (more : List Event) (hr : r ∈ (run events).requests) :
    ∃ r' ∈ (run (events ++ more)).requests, r'.id = r.id ∧ r.status.rank ≤ r'.status.rank
      ∧ (3 ≤ r.status.rank → r' = r) := by
  rw [run_append_list]
  refine foldl_invariant (I := fun s : Tables => ∃ r' ∈ s.requests, r'.id = r.id
    ∧ r.status.rank ≤ r'.status.rank ∧ (3 ≤ r.status.rank → r' = r)) ?_
    ⟨r, hr, rfl, Nat.le_refl _, fun _ => rfl⟩
  rintro s e - ⟨x, hx, hid, hrank, hlast⟩
  rcases (step_carried s e).forward hx with ⟨x', hx', rfl | hmoved⟩
  · exact ⟨x', hx', hid, hrank, hlast⟩
  · refine ⟨x', hx', hmoved.frozen.1.trans hid,
      Nat.le_trans hrank (Nat.le_of_lt hmoved.rank.1), fun h => ?_⟩
    exact absurd (Nat.le_trans h hrank) (Nat.not_le.mpr hmoved.rank.2)

theorem run_unique (hr : r ∈ (run events).requests) (hr' : r' ∈ (run events).requests)
    (hid : r'.id = r.id) : r' = r :=
  inj_on_of_nodup_map (run_sound events).ids hr' hr hid

theorem Sound.subs (hs : Sound events s) (id : Uuid) :
    ∃ subs : List String, subs.Nodup ∧ subs.length = collectedFor id s.approvals
      ∧ ∀ sub ∈ subs, RecordedBy events id sub := by
  refine ⟨(s.approvals.filter (fun a => a.changeRequestId == id)).map Approval.approverSub,
    ?_, ?_, fun sub hsub => ?_⟩
  · -- Two of them agree in the request, so they differ in the approver.
    refine List.Nodup.map_on (fun a ha b hb hsub => ?_) (hs.approvers.of_map.filter _)
    rw [mem_filter, beq_iff_eq] at ha hb
    refine inj_on_of_nodup_map hs.approvers ha.1 hb.1 ?_
    rw [Approval.key, Approval.key, ha.2, hb.2, hsub]
  · rw [length_map, collectedFor, countP_eq_length_filter]
  · rcases mem_map.mp hsub with ⟨a, ha, rfl⟩
    rw [mem_filter, beq_iff_eq] at ha
    exact ha.2 ▸ hs.recorded a ha.1

def Approves (earlier : List Event) (e : Event) (r : ChangeRequest) : Prop :=
  (∃ tenantId sub now, e.op = .tryApprove tenantId r.id sub now ∧ r.requiredApprovals = 1)
  ∨ ((∃ tenantId sub rowId now clock le,
      e.op = .recordApproval tenantId r.id sub rowId now clock le)
    ∧ ∃ subs : List String, subs.Nodup ∧ r.requiredApprovals ≤ subs.length
      ∧ ∀ sub ∈ subs, RecordedBy (earlier ++ [e]) r.id sub)

def Begins (s : Tables) (e : Event) (id : Uuid) : Prop :=
  ∃ tenantId now r, e.op = .tryBeginExecution tenantId id now ∧ (step s e).1 = .changed (some r)

def Burns (s : Tables) (e : Event) (id : Uuid) : Prop :=
  ∃ tenantId now stored, e.op = .tryBurnSecret tenantId id now
    ∧ (step s e).1 = .burned (some stored)

theorem step_answered (h : (step s e).1 ≠ .failed) :
    step s e = effect s e.op := by
  unfold step at h ⊢
  split
  · rfl
  all_goals
    rename_i hfault
    rw [hfault] at h
    exact absurd rfl h

theorem Moved.open (hs : Sound events s) (hr : r ∈ s.requests) (h : Moved s op r r')
    (hdecided : r'.status = .approved ∨ r'.status = .denied) : r.isOpen op.time = true := by
  cases h with
  | approved _ _ _ _ hopen | denied _ _ _ _ _ hopen => exact hopen
  | quorum tenantId _ sub rowId now clock le hopen henough =>
    simp only [ChangeRequest.isOpen, Bool.and_eq_true, beq_iff_eq] at hopen
    have hshort := hs.short r hr hopen.1
    rcases effect_approvals s (.recordApproval tenantId r.id sub rowId now clock le) with
      hsame | ⟨_, _, _, _, _, _, _, heq, ⟨gate, hgate, hid, hgateOpen⟩, -⟩
    · rw [effect] at hsame
      rw [hsame] at henough
      exact absurd hshort (Int.not_lt.mpr henough)
    · cases heq
      exact inj_on_of_nodup_map hs.ids hgate hr hid ▸ hgateOpen
  | _ => rcases hdecided with h | h <;> cases h

theorem Begins.after (h : Begins (run events) e id) :
    (∃ r ∈ (run events).requests, r.id = id ∧ r.status = .approved)
      ∧ ∃ r ∈ (run (events ++ [e])).requests, r.id = id ∧ r.status = .executing := by
  rcases h with ⟨tenantId, now, r, hop, hreturned⟩
  have hstep := step_answered (by rw [hreturned]; exact nofun)
  rw [run_append, hstep, hop]
  rw [hstep, hop] at hreturned
  rcases updateWhere_some (Response.changed.inj hreturned) with ⟨x, hx, hguard, rfl, hafter⟩
  simp only [Bool.and_eq_true, beq_iff_eq] at hguard
  exact ⟨⟨x, hx, addressed_id hguard.1, hguard.2⟩, _, hafter, addressed_id hguard.1, rfl⟩

theorem Burns.after (h : Burns (run events) e id) :
    (∃ t ∈ (run events).secrets, t.changeRequestId = id ∧ t.retrievedAt.isNone = true)
      ∧ ∃ t ∈ (run (events ++ [e])).secrets, t.changeRequestId = id
        ∧ t.retrievedAt.isNone = false := by
  rcases h with ⟨tenantId, now, stored, hop, hreturned⟩
  have hstep := step_answered (by rw [hreturned]; exact nofun)
  rw [run_append, hstep, hop]
  rw [hstep, hop] at hreturned
  rcases Option.map_eq_some_iff.mp (Response.burned.inj hreturned) with ⟨t, hfound, -⟩
  rcases updateWhere_some hfound with ⟨x, hx, hguard, rfl, hafter⟩
  simp only [Bool.and_eq_true, beq_iff_eq] at hguard
  exact ⟨⟨x, hx, hguard.1.1, hguard.2⟩, _, hafter, hguard.1.1, rfl⟩

theorem run_burnt (more : List Event) {t : Secret} (ht : t ∈ (run events).secrets)
    (hread : t.retrievedAt.isNone = false) :
    t ∈ (run (events ++ more)).secrets := by
  rw [run_append_list]
  refine foldl_invariant (I := fun s : Tables => t ∈ s.secrets) (fun s e _ hs => ?_) ht
  rcases step_tables s e with heffect | hsame
  · rw [heffect]
    exact effect_burnt e.op hs hread
  · rw [hsame]
    exact hs

theorem approved_step (hr' : r' ∈ (run (events ++ [e])).requests)
    (happroved : r'.status = .approved) :
    ∃ r ∈ (run events).requests, r.id = r'.id
      ∧ (r.status = .approved ∨ r.status = .pending ∧ Approves events e r) := by
  have hafter := run_sound (events ++ [e])
  rw [run_append] at hr' hafter
  rcases step_tables (run events) e with heffect | hsame
  · rw [heffect] at hr' hafter
    rcases (effect_carried (run events) e.op).backward hr' with
      ⟨r, hr, rfl | hmoved⟩ | ⟨hpending, -⟩
    · exact ⟨r', hr, rfl, .inl happroved⟩
    · refine ⟨r, hr, hmoved.frozen.1.symm, .inr ?_⟩
      rcases e with ⟨op, fault⟩
      cases hmoved with
      | approved tenantId _ sub now hopen hone =>
        exact ⟨isOpen_pending hopen, .inl ⟨tenantId, sub, now, rfl, hone⟩⟩
      | quorum tenantId _ sub rowId now clock le hopen henough =>
        rcases hafter.subs r.id with ⟨subs, hnodup, hlength, hrecorded⟩
        exact ⟨isOpen_pending hopen, .inr ⟨⟨tenantId, sub, rowId, now, clock, le, rfl⟩,
          subs, hnodup, hlength ▸ henough, hrecorded⟩⟩
      | _ => cases happroved
    · rw [happroved] at hpending
      cases hpending
  · rw [hsame] at hr'
    exact ⟨r', hr', rfl, .inl happroved⟩

theorem decided_step (hr : r ∈ (run events).requests) (hr' : r' ∈ (run (events ++ [e])).requests)
    (hid : r'.id = r.id) (hdecided : r'.status = .approved ∨ r'.status = .denied)
    (hflip : r'.status ≠ r.status) : r.isOpen e.op.time = true := by
  rw [run_append] at hr'
  rcases (step_carried (run events) e).backward hr' with ⟨x, hx, heq | hmoved⟩ | ⟨-, -, hfresh⟩
  · subst heq
    exact absurd (congrArg ChangeRequest.status (run_unique hr hx hid)) hflip
  · have hsame := run_unique hr hx (hmoved.frozen.1.symm.trans hid)
    subst hsame
    exact hmoved.open (run_sound events) hr hdecided
  · exact absurd hid.symm (hfresh r hr)

theorem approvals_step (events : List Event) (e : Event) :
    (run (events ++ [e])).approvals = (run events).approvals
    ∨ ∃ a, (run (events ++ [e])).approvals = (run events).approvals ++ [a]
      ∧ ∃ r ∈ (run events).requests, r.id = a.changeRequestId ∧ r.isOpen e.op.time = true := by
  rw [run_append]
  rcases step_tables (run events) e with heffect | hsame
  · rw [heffect]
    rcases effect_approvals (run events) e.op with
      hkept | ⟨tenantId, id, sub, rowId, now, clock, le, hop, hgate, -, happend⟩
    · exact .inl hkept
    · exact .inr ⟨_, happend, by rw [hop]; exact hgate⟩
  · exact .inl (by rw [hsame])

/-- Quorum and single execution, at every step of every run.

    * A request that becomes approved was pending. It needed one approval and was
      approved directly, or as many distinct approvers as it needs recorded
      their approvals while it was pending and had not expired.
    * Approvals are added, and requests approved or denied, only while the request
      is pending and has not expired.
    * Execution begins only once, and only on a request that is approved.
    * A request that is denied, executed or failed stays as it is.
    * A secret is read only once. -/
theorem changeRequests_sound (events : List Event) (e : Event) :
    (∀ r' ∈ (run (events ++ [e])).requests, r'.status = .approved →
      ∃ r ∈ (run events).requests, r.id = r'.id
        ∧ (r.status = .approved ∨ r.status = .pending ∧ Approves events e r))
    ∧ ((run (events ++ [e])).approvals = (run events).approvals
      ∨ ∃ a, (run (events ++ [e])).approvals = (run events).approvals ++ [a]
        ∧ ∃ r ∈ (run events).requests, r.id = a.changeRequestId ∧ r.isOpen e.op.time = true)
    ∧ (∀ r ∈ (run events).requests, ∀ r' ∈ (run (events ++ [e])).requests, r'.id = r.id →
      (r'.status = .approved ∨ r'.status = .denied) → r'.status ≠ r.status →
      r.isOpen e.op.time = true)
    ∧ (∀ id, Begins (run events) e id →
      (∃ r ∈ (run events).requests, r.id = id ∧ r.status = .approved)
      ∧ ∀ more e', ¬ Begins (run (events ++ e :: more)) e' id)
    ∧ (∀ r ∈ (run events).requests,
      r.status = .denied ∨ r.status = .executed ∨ r.status = .failed →
      ∀ more, r ∈ (run (events ++ more)).requests
        ∧ ∀ r' ∈ (run (events ++ more)).requests, r'.id = r.id → r' = r)
    ∧ ∀ id, Burns (run events) e id → ∀ more e', ¬ Burns (run (events ++ e :: more)) e' id := by
  refine ⟨fun r' hr' => approved_step hr', approvals_step events e,
    fun r hr r' hr' => decided_step hr hr', fun id hbegins => ⟨hbegins.after.1, ?_⟩,
    fun r hr hlast more => ?_, fun id hburns more e' hagain => ?_⟩
  · intro more e' hagain
    rcases hbegins.after.2 with ⟨r, hr, hrid, hstatus⟩
    rcases hagain.after.1 with ⟨x, hx, hxid, happroved⟩
    rcases run_forward more hr with ⟨r', hr', hid, hrank, -⟩
    rw [append_assoc, singleton_append] at hr'
    -- The row has gone past approved, and it is the only one.
    rw [run_unique hx hr' (hid.trans (hrid.trans hxid.symm)), hstatus, happroved] at hrank
    exact absurd hrank (by decide)
  · rcases run_forward more hr with ⟨x, hx, -, -, hsame⟩
    have hrank : 3 ≤ r.status.rank := by
      rcases hlast with h | h | h <;> (rw [h]; exact Nat.le_refl 3)
    rw [hsame hrank] at hx
    exact ⟨hx, fun r' hr' hid => run_unique hx hr' hid⟩
  · rcases hburns.after.2 with ⟨t, ht, htid, hread⟩
    rcases hagain.after.1 with ⟨x, hx, hxid, hunread⟩
    have ht' := run_burnt more ht hread
    rw [append_assoc, singleton_append] at ht'
    rw [inj_on_of_nodup_map (run_sound _).secrets hx ht' (hxid.trans htid.symm), hread]
      at hunread
    cases hunread

section Sample

def sampleProposal : NewChangeRequest :=
  { tenantId := "acme"
    requestedBy := "ada"
    clientId := none
    actionType := "rotate_key"
    params := .null
    preview := none
    targetEtag := none
    justification := "Scheduled."
    requirement :=
      { requiredApprovals := 2
        eligibleRole := "operator"
        factors := ["mfa"]
        cooldownSeconds := none }
    expiresAt := { unixTimestampNanos := 3600000000000, lower := by decide, upper := by decide } }

def sampleApproval (sub : String) (rowId : Uuid) : Event :=
  ⟨.recordApproval "acme" 1 sub rowId .unixEpoch .unixEpoch (Int.le_refl _), .answered⟩

def sampleEvents : List Event :=
  [⟨.propose sampleProposal 1 .unixEpoch, .answered⟩, sampleApproval "bob" 2]

theorem changeRequests_sound_second :
    ∃ r ∈ (run sampleEvents).requests, r.id = 1
      ∧ (r.status = .approved
        ∨ r.status = .pending ∧ Approves sampleEvents (sampleApproval "cyd" 3) r) :=
  (changeRequests_sound sampleEvents (sampleApproval "cyd" 3)).1
    ((sampleProposal.row 1 .unixEpoch).approve "cyd" .unixEpoch) (.head _) rfl

end Sample

end Runs

end Waygate.Changeset
