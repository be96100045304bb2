import Waygate.Theory.Codemode.Carried
import Waygate.Theory.Machine.Run

/-!
# Executions Are Fenced and Final

Over any run of the store, with the clock as it likes, a terminal row stays as it is,
and every claim on a row has a larger epoch than those before it. A row that is deleted
takes its claims with it, and one that is inserted later under the same identifier
starts anew.

## Main definitions

* `History`: The tables and the claims handed out.
* `Fenced`: What every operation keeps.

## Theorems

* `Fenced.record`, `executions_fenced`
* `Carried.origin`: Where a row comes from.
* `history_fenced`: Every run.
-/

namespace Waygate.Codemode

open Lease Machine List

structure History where
  tables : Tables
  ledger : Uuid → List ExecutionClaim

/-- A row that is deleted takes its claims with it. -/
def History.record (h : History) (call : Call) : History :=
  { tables := step h.tables call
    ledger := fun id => (if purges h.tables call id then [] else h.ledger id)
      ++ (granted (effect h.tables call.now call.op).1).toList.filter
        (fun c => c.executionId == id) }

def history (calls : List Call) : History :=
  calls.foldl History.record { tables := Tables.empty, ledger := fun _ => [] }

/-- The claims that were handed out on the row with an identifier, in order. -/
def claims (calls : List Call) (id : Uuid) : List ExecutionClaim :=
  (history calls).ledger id

theorem history_concat (calls : List Call) (call : Call) :
    history (calls ++ [call]) = (history calls).record call := by
  rw [history, foldl_concat]
  rfl

theorem run_concat (calls : List Call) (call : Call) :
    run (calls ++ [call]) = step (run calls) call := by
  rw [run, foldl_concat]
  rfl

theorem history_tables (calls : List Call) : (history calls).tables = run calls := by
  induction calls using List.reverseRecOn with
  | nil => rfl
  | append_singleton calls call ih =>
    rw [history_concat, run_concat, ← ih]
    rfl

structure Fenced (h : History) : Prop where
  nodup : ((rows h.tables).map Execution.id).Nodup
  attended : ∀ e ∈ rows h.tables, Attended e
  sound : ∀ e ∈ rows h.tables, Job.Sound barred e.job
  increasing : ∀ id, (h.ledger id).Pairwise (fun a b => a.epoch < b.epoch)
  bounded : ∀ id, ∀ c ∈ h.ledger id, c.executionId = id
    ∧ ∃ e ∈ rows h.tables, e.id = id ∧ c.epoch ≤ e.claimEpoch

section Step

variable {h : History} {call : Call}

theorem Fenced.unique (hf : Fenced h) {e e' : Execution} (he : e ∈ rows h.tables)
    (he' : e' ∈ rows h.tables) (hid : e.id = e'.id) : e = e' :=
  inj_on_of_nodup_map hf.nodup he he' hid

section Rows

variable {e : Execution} {leave : Execution → Prop} {gone : Uuid → Bool} {g : Execution → Execution}
  {new : List Execution} {s s' : Tables}

theorem Carried.kept (hc : Carried leave gone g new s s') (he : e ∈ rows s)
    (hgone : gone e.id = false) : g e ∈ rows s' := by
  rw [hc.rows_eq]
  refine mem_append_left new (mem_map_of_mem (mem_filter.mpr ⟨he, ?_⟩))
  rw [hgone]
  rfl

theorem Carried.origin (hc : Carried leave gone g new s s') {e' : Execution} (he' : e' ∈ rows s') :
    (∃ e ∈ rows s, gone e.id = false ∧ e' = g e) ∨ e' ∈ new := by
  rw [hc.rows_eq] at he'
  rcases mem_append.mp he' with he' | he'
  · grind
  · exact .inr he'

theorem Carried.new_open (hc : Carried leave gone g new s s') (he : e ∈ new) :
    Attended e ∧ e.status.isTerminal = false ∧ e.cancellationRequestedAt = none
      ∧ ∀ x ∈ rows s, gone x.id = false → x.id ≠ e.id := by
  rcases hc.fresh with rfl | ⟨e', rfl, hrest⟩
  · cases he
  · rw [mem_singleton.mp he]
    exact hrest

theorem Carried.nodup (hc : Carried leave gone g new s s')
    (h : ((rows s).map Execution.id).Nodup) : ((rows s').map Execution.id).Nodup := by
  have hids : (((rows s).filter (fun e => !gone e.id)).map g).map Execution.id
      = ((rows s).filter (fun e => !gone e.id)).map Execution.id := by
    rw [map_map]
    exact map_congr_left (fun e he => (hc.advance e (mem_filter.mp he).1).id_eq)
  rw [hc.rows_eq, map_append, hids]
  have hkept := h.sublist (List.Sublist.map Execution.id filter_sublist :
    List.Sublist (((rows s).filter (fun e => !gone e.id)).map Execution.id) _)
  refine nodup_append.mpr ⟨hkept, ?_, ?_⟩
  · rcases hc.fresh with rfl | ⟨e, rfl, -⟩
    · exact nodup_nil
    · exact nodup_singleton _
  · intro id hid id' hid' heq
    rcases mem_map.mp hid with ⟨x, hx, rfl⟩
    rcases mem_map.mp hid' with ⟨e, he, rfl⟩
    rw [mem_filter, Bool.not_eq_true'] at hx
    exact (hc.new_open he).2.2.2 x hx.1 hx.2 heq

theorem Granting.of_kept {c : ExecutionClaim} (hc : Carried leave gone g new s s')
    (hgranting : Granting gone g new s c) (hnodup : ((rows s).map Execution.id).Nodup)
    (he : e ∈ rows s) (hid : e.id = c.executionId) (hgone : gone e.id = false) :
    e.claimEpoch < c.epoch ∧ (Attended e → e.cancellationRequestedAt = none) := by
  rcases hgranting with ⟨x, hx, -, hxid, -, -, hlt, -, hcancelled⟩ | ⟨x, hx, hxid, -⟩
  · have heq := inj_on_of_nodup_map hnodup hx he (hxid.trans hid.symm)
    subst heq
    exact ⟨hlt, hcancelled⟩
  · exact absurd (hid.trans hxid.symm) ((hc.new_open hx).2.2.2 e he hgone)

theorem Granting.row {c : ExecutionClaim} (hc : Carried leave gone g new s s')
    (hgranting : Granting gone g new s c) :
    ∃ e ∈ rows s', e.id = c.executionId ∧ c.epoch ≤ e.claimEpoch := by
  rcases hgranting with ⟨x, hx, hgone, hid, hepoch, -⟩ | ⟨x, hx, hid, hepoch, -⟩
  · exact ⟨g x, hc.kept hx hgone, (hc.advance x hx).id_eq.trans hid, le_of_eq hepoch.symm⟩
  · refine ⟨x, ?_, hid, le_of_eq hepoch.symm⟩
    rw [hc.rows_eq]
    exact mem_append_right _ hx

end Rows

/-- A claim that is granted has a larger epoch than any before it. -/
theorem Fenced.record (hf : Fenced h) (hlisted : Listed call) : Fenced (h.record call) := by
  rcases effect_outcome h.tables call hlisted with ⟨g, new, hc, -, hgranting⟩
  refine ⟨hc.nodup hf.nodup, fun e' he' => ?_, fun e' he' => ?_, fun id => ?_, fun id c hmem => ?_⟩
  · rcases hc.origin he' with ⟨e, he, -, rfl⟩ | hnew
    · exact (hc.advance e he).attended (hf.attended e he)
    · exact (hc.new_open hnew).1
  · rcases hc.origin he' with ⟨e, he, -, rfl⟩ | hnew
    · exact ((hc.advance e he).steps (hf.attended e he)).sound (hf.sound e he)
    · intro hcancelled
      rw [Execution.job, (hc.new_open hnew).2.2.1] at hcancelled
      cases hcancelled
  · refine pairwise_append.mpr ⟨?_, ?_, fun c hold c' hnew => ?_⟩
    · split
      · exact List.Pairwise.nil
      · exact hf.increasing id
    · grind
    · rw [mem_filter, Option.mem_toList, beq_iff_eq] at hnew
      -- The row of the older claim was kept, so the new claim is on that row.
      by_cases hpurges : purges h.tables call id = true
      · rw [if_pos hpurges] at hold
        cases hold
      · rw [if_neg hpurges] at hold
        rcases hf.bounded id c hold with ⟨-, e, he, rfl, hle⟩
        have hlt := (Granting.of_kept hc (hgranting c' hnew.1) hf.nodup he hnew.2.symm
          (eq_false_of_ne_true hpurges)).1
        exact Int.lt_of_le_of_lt hle hlt
  · rcases mem_append.mp hmem with hold | hnew
    · obtain ⟨hold, hpurges⟩ : c ∈ h.ledger id ∧ purges h.tables call id = false := by grind
      rcases hf.bounded id c hold with ⟨hid, e, he, rfl, hle⟩
      have hadvance := hc.advance e he
      refine ⟨hid, g e, hc.kept he hpurges, hadvance.id_eq, Int.le_trans hle ?_⟩
      exact (hadvance.steps (hf.attended e he)).epoch_le
    · rw [mem_filter, Option.mem_toList, beq_iff_eq] at hnew
      exact ⟨hnew.2, hnew.2 ▸ (hgranting c hnew.1).row hc⟩

end Step

theorem history_fenced {calls : List Call} (hlisted : ∀ call ∈ calls, Listed call) :
    Fenced (history calls) := by
  refine foldl_invariant (fun h call hcall hf => hf.record (hlisted call hcall)) ?_
  refine ⟨nodup_nil, fun e he => ?_, fun e he => ?_, fun _ => List.Pairwise.nil,
    fun _ _ hc => ?_⟩
  · cases he
  · cases he
  · cases hc

/-- Retention deletes the row with an identifier in one of the later calls. -/
def Deleted (calls later : List Call) (id : Uuid) : Prop :=
  ∃ before call after, later = before ++ call :: after
    ∧ purges (run (calls ++ before)) call id = true

theorem Deleted.cons {calls later : List Call} {call : Call} {id : Uuid}
    (h : Deleted (calls ++ [call]) later id) : Deleted calls (call :: later) id := by
  rcases h with ⟨before, purge, after, rfl, hpurges⟩
  refine ⟨call :: before, purge, after, rfl, ?_⟩
  rwa [append_assoc] at hpurges

section Later

variable {e : Execution} {calls later : List Call}

theorem listed_split {call : Call} (hlisted : ∀ c ∈ calls ++ call :: later, Listed c) :
    (∀ c ∈ calls, Listed c) ∧ Listed call
      ∧ ∀ c ∈ (calls ++ [call]) ++ later, Listed c := by grind

theorem terminal_final (hlisted : ∀ call ∈ calls ++ later, Listed call) (he : e ∈ rows (run calls))
    (hterminal : e.status.isTerminal = true) :
    e ∈ rows (run (calls ++ later)) ∨ Deleted calls later e.id := by
  induction later generalizing calls with
  | nil =>
    rw [append_nil]
    exact .inl he
  | cons call later ih =>
    by_cases hpurges : purges (run calls) call e.id = true
    · exact .inr ⟨[], call, later, rfl, by rwa [append_nil]⟩
    · rcases listed_split hlisted with ⟨-, hcall, hrest⟩
      rcases effect_outcome (run calls) call hcall with ⟨g, new, hc, -, -⟩
      have hkept := hc.kept he (eq_false_of_ne_true hpurges)
      rw [(hc.advance e he).final hterminal] at hkept
      have hnext : e ∈ rows (run (calls ++ [call])) := by
        rw [run_concat]
        exact hkept
      rcases ih hrest hnext with hmem | hdeleted
      · rw [append_assoc] at hmem
        exact .inl hmem
      · exact .inr hdeleted.cons

theorem sound_status (h : Job.Sound barred e.job)
    (hcancelled : e.cancellationRequestedAt.isSome = true) :
    e.status ≠ .succeeded ∧ e.status ≠ .failed := by
  constructor
  · intro hstatus
    exact h hcancelled e.status (phase_done (by rw [hstatus]; rfl)) (.inl hstatus)
  · intro hstatus
    exact h hcancelled e.status (phase_done (by rw [hstatus]; rfl)) (.inr hstatus)

/-- A cancelled execution does not succeed. -/
theorem cancelled_final (hlisted : ∀ call ∈ calls ++ later, Listed call) (he : e ∈ rows (run calls))
    (hcancelled : e.cancellationRequestedAt.isSome = true) :
    Deleted calls later e.id ∨ (claims (calls ++ later) e.id = claims calls e.id
      ∧ ∃ e' ∈ rows (run (calls ++ later)), e'.id = e.id
        ∧ e'.cancellationRequestedAt.isSome = true ∧ e'.status ≠ .succeeded
        ∧ e'.status ≠ .failed) := by
  induction later generalizing calls e with
  | nil =>
    rw [append_nil] at hlisted ⊢
    have hf := history_fenced hlisted
    have hsound := hf.sound e (by rwa [history_tables])
    exact .inr ⟨rfl, e, he, rfl, hcancelled, sound_status hsound hcancelled⟩
  | cons call later ih =>
    by_cases hpurges : purges (run calls) call e.id = true
    · exact .inl ⟨[], call, later, rfl, by rwa [append_nil]⟩
    · have hgone := eq_false_of_ne_true hpurges
      rcases listed_split hlisted with ⟨hbefore, hcall, hrest⟩
      have hf := history_fenced hbefore
      rcases effect_outcome (run calls) call hcall with ⟨g, new, hc, -, hgranting⟩
      have hattended := hf.attended e (by rwa [history_tables])
      have hadvance := hc.advance e he
      have hnext : g e ∈ rows (run (calls ++ [call])) := by
        rw [run_concat]
        exact hc.kept he hgone
      have hclaims : claims (calls ++ [call]) e.id = claims calls e.id := by
        simp only [claims, history_concat, History.record, history_tables, hgone]
        rw [if_neg Bool.false_ne_true, append_right_eq_self, filter_eq_nil_iff]
        intro c hmem hid
        rw [Option.mem_toList] at hmem
        have hnone := (Granting.of_kept hc (hgranting c hmem)
          (history_tables calls ▸ hf.nodup) he (eq_of_beq hid).symm hgone).2 hattended
        rw [hnone] at hcancelled
        cases hcancelled
      have hcancelled' := ((hadvance.steps hattended).cancelled hcancelled).1
      rcases ih hrest hnext hcancelled' with hdeleted | ⟨hlater, e', he', hid, hfinal⟩
      · rw [hadvance.id_eq] at hdeleted
        exact .inl hdeleted.cons
      · grind [Advance.id_eq]

end Later

/-- In every run of the store:
    (a) a terminal row stays as it is until it is deleted;
    (b) a row is held exactly while it runs, the claims on it have increasing
    epochs, and what presents one that another has followed changes nothing;
    (c) once a cancellation is recorded no claim is handed out, and the row does not
    succeed or fail, until it is deleted. -/
theorem executions_fenced (calls later : List Call)
    (hlisted : ∀ call ∈ calls ++ later, Listed call) :
    (∀ e ∈ rows (run calls), e.status.isTerminal = true →
      e ∈ rows (run (calls ++ later)) ∨ Deleted calls later e.id)
    ∧ (∀ e ∈ rows (run calls), e.claimOwner.isSome = true ↔ e.status = .running)
    ∧ (∀ id, (claims calls id).Pairwise (fun a b => a.epoch < b.epoch))
    ∧ (∀ id c c', List.Sublist [c, c'] (claims calls id) → ∀ call, presented call.op = some c →
      step (run calls) call = run calls)
    ∧ (∀ e ∈ rows (run calls), e.cancellationRequestedAt.isSome = true →
      Deleted calls later e.id ∨ (claims (calls ++ later) e.id = claims calls e.id
        ∧ ∃ e' ∈ rows (run (calls ++ later)), e'.id = e.id
          ∧ e'.cancellationRequestedAt.isSome = true ∧ e'.status ≠ .succeeded
          ∧ e'.status ≠ .failed)) := by
  have hf := history_fenced (fun call hcall => hlisted call (mem_append_left later hcall))
  have htables := history_tables calls
  refine ⟨fun e he => terminal_final hlisted he, fun e he => ?_, hf.increasing,
    fun id c c' hearlier call hpresented => ?_, fun e he => cancelled_final hlisted he⟩
  · exact (hf.attended e (by rwa [htables])).owner
  · -- The row has the epoch of the later claim at least.
    refine effect_fenced hpresented (fun x hx => ?_)
    have hlt : c.epoch < c'.epoch := by
      have hpair := (hf.increasing id).sublist hearlier
      exact rel_of_pairwise_cons hpair (mem_singleton_self c')
    rcases hf.bounded id c (hearlier.subset mem_cons_self) with ⟨hid, -⟩
    rcases hf.bounded id c' (hearlier.subset (mem_of_mem_tail mem_cons_self))
      with ⟨-, e, he, heid, hle⟩
    rw [Bool.eq_false_iff]
    intro hheld
    simp only [Execution.held, Bool.and_eq_true, beq_iff_eq] at hheld
    have hsame := hf.unique (by rwa [htables]) he
      ((addressed_id hheld.1.1).trans (hid.trans heid.symm))
    subst hsame
    omega

section Sample

def sampleNew (id : Uuid) (retentionUntil : Int) : NewExecution :=
  { id := id
    tenantId := "t"
    principalSub := "s"
    principalIssuer := "i"
    source := none
    sourceDigest := "digest"
    programInput := none
    executionProfile := .object [("name", .string "direct"), ("resumable", .bool false)]
    sdkContractVersion := 1
    runnerContractVersion := 1
    retentionUntil := retentionUntil }

def sampleSuccess : ExecutionTransition :=
  { origin := [.running]
    target := .succeeded
    event := plainEvent .succeeded (.object [])
    terminalReasonCode := none
    resultMetadata := none
    resultPayload := none
    resumeContext := none }

def sampleCalls : List Call :=
  [⟨.submit (sampleNew 1 1000) ⟨[], []⟩, 0⟩,
    ⟨.claim "t" 1 7 30 "return 1" (.object []), 1⟩,
    ⟨.transition ⟨1, "t", 7, 1⟩ sampleSuccess, 2⟩]

def sampleLater : List Call :=
  [⟨.requestCancellation "t" "s" "i" 1, 3⟩,
    ⟨.purgeExpiredState ⟨[], []⟩, 1000⟩]

theorem executions_fenced_sample :
    (rows (run sampleCalls)).map Execution.status = [.succeeded]
    ∧ (rows (run (sampleCalls ++ sampleLater))).map Execution.status = []
    ∧ ∀ e ∈ rows (run sampleCalls), e.status.isTerminal = true →
      e ∈ rows (run (sampleCalls ++ sampleLater)) ∨ Deleted sampleCalls sampleLater e.id := by
  refine ⟨by decide +kernel, by decide +kernel, (executions_fenced sampleCalls sampleLater ?_).1⟩
  simp only [sampleCalls, sampleLater, cons_append, nil_append, forall_mem_cons,
    Listed, sampleSuccess, targets]
  simp

end Sample

end Waygate.Codemode
