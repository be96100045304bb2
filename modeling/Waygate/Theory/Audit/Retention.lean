import Mathlib.Data.Countable.Basic
import Mathlib.Logic.Equiv.List
import Mathlib.Tactic.DeriveCountable
import Waygate.Theory.Audit.SweepProgress
import Waygate.Theory.Machine.Run

/-!
# Retention Never Breaks Verification

After every transaction of the recorder and of the sweep the tables represent a swept
ledger. So the chain that is left verifies, and a row that is gone is listed by a marker
that is not.

## Main definitions

* `recordedTables`: Tables with any number of recorded events.

## Theorems

* `exec_represents`, `verifyChain_after_retention`, `retention_accounts`
* `runRetentionSweep_reachable`: A sweep is a transaction that is allowed.
-/

namespace Waygate.Audit

open Ledger List

section Runs

variable {sha256 : List UInt8 → List UInt8} {J : ReasonJson} {db db' : AuditTables}
  {tenantId : String} {L : SweptLedger sha256}

variable {cutoff : OffsetDateTime} {stamps : Nat → MarkerStamp} {report : SweepReport}

theorem sweepCandidates_other (hJ : J.Faithful) (hrep : Represents J.fromStr db tenantId L)
    {other label : String} (hother : other ≠ tenantId) {candidates : List CandidateRow}
    {flag : Bool} (h : sweepCandidates sha256 J db other label cutoff stamps candidates flag
      = .ok (db', report)) : Represents J.fromStr db' tenantId L := by
  unfold sweepCandidates at h
  split at h
  · rw [← (Prod.mk.inj (Except.ok.inj h)).1]
    exact hrep
  dsimp only at h
  split at h
  · cases h
  rename_i db₁ hwrite
  split at h
  · cases h
  rename_i db₂ n hdelete
  rw [← (Prod.mk.inj (Except.ok.inj h)).1]
  rcases writeMarkers_frame hJ _ _ hwrite with ⟨added, hrows, hadded, hindex⟩
  rcases auditLogSweepDelete_ok hdelete with ⟨hlog, hindex', -⟩
  have hadded' : ∀ l ∈ added, l.columns.tenant ≠ tenantId := by
    intro l hl
    rcases mem_iff_getElem?.mp hl with ⟨i, hi⟩
    rcases forall₂_getElem? hadded hi with ⟨w, -, hrow⟩
    exact hrow.tenant ▸ hother
  have hrep₁ := hrep.append_other hrows (fun l hl => Or.inl (hadded' l hl)) hindex
  refine hrep₁.mono ?_ (fun l hl hcat => ?_) (fun e he => hindex' ▸ he)
  · -- Only rows of the swept tenant are deleted.
    rw [chainedRows, hlog, filter_filter, chainedRows]
    refine congrArg _ (filter_congr (fun l _ => ?_))
    by_cases hten : l.columns.tenant = tenantId
    · simp only [hten, Ne.symm hother, false_and, not_false_eq_true, decide_true, Bool.and_self]
    · simp [hten]
  · grind

/-- Every transaction keeps the tables a picture of a swept ledger, whose
    history only grows. -/
theorem exec_represents (hJ : J.Faithful) (hdig : Digest sha256) {tx : Transaction}
    (hadm : tx.Admissible db) (hrep : Represents J.fromStr db tenantId L) :
    ∃ L' : SweptLedger sha256, Represents J.fromStr (tx.exec sha256 J db) tenantId L'
      ∧ L.history <+: L'.history := by
  cases hrun : tx.run sha256 J db with
  | error e =>
    rw [Transaction.exec, hrun]
    exact ⟨L, hrep, prefix_rfl⟩
  | ok db' =>
    rw [Transaction.exec, hrun]
    dsimp only
    cases tx with
    | insertEvent event chainSeq =>
      rcases insertAuditLog_ok hrun with ⟨hrows, hindex⟩
      refine ⟨L, hrep.append_other hrows (fun l hl => Or.inr ?_) hindex, prefix_rfl⟩
      rw [mem_singleton.mp hl]
      rfl
    | insertChainedEvent event chainSeq =>
      rcases insertAuditLog_ok hrun with ⟨hrows, hindex⟩
      by_cases hten : event.tenant = tenantId
      · have hseq : ∀ r ∈ L.history, r.chainSeq < chainSeq :=
          L.lt_of_survivors (orderedChain_eq hrep ▸ hten ▸ hadm)
        exact ⟨_, hrep.append hten (storedRow_toChainVerifyRow _ _ _)
          (hten ▸ hrep.selectPrevHash) (recordedRow_hashed _ _ _) hseq hrows hindex,
          prefix_append _ _⟩
      · refine ⟨L, hrep.append_other hrows (fun l hl => Or.inl ?_) hindex, prefix_rfl⟩
        rw [mem_singleton.mp hl]
        exact hten
    | sweep other label cutoff stamps rows flag =>
      rcases hadm with ⟨hdistinct, hrows, hnew, hord⟩
      cases hsweep : sweepCandidates sha256 J db other label cutoff stamps (batchOf rows) flag with
      | error e =>
        rw [Transaction.run, hsweep] at hrun
        cases hrun
      | ok result =>
        rw [Transaction.run, hsweep] at hrun
        have hdb : result.1 = db' := Except.ok.inj hrun
        rw [← hdb]
        by_cases hten : other = tenantId
        · subst hten
          rcases batchOf_eq rows with ⟨batch, hperm, hbatch⟩
          rw [hbatch] at hsweep
          have hdel : Deletable db other batch :=
            ⟨hperm.nodup_iff.mpr hdistinct, fun l hl => (hrows l (hperm.mem_iff.mp hl)).1,
              fun l hl => (hrows l (hperm.mem_iff.mp hl)).2.1,
              fun l hl => (hrows l (hperm.mem_iff.mp hl)).2.2⟩
          exact sweepCandidates_represents hJ hdig hrep hdel
            (fun i => L.lt_of_survivors (orderedChain_eq hrep ▸ hnew i)) hord hsweep
        · exact ⟨L, sweepCandidates_other hJ hrep hten hsweep, prefix_rfl⟩

def SweptLedger.empty (sha256 : List UInt8 → List UInt8) : SweptLedger sha256 where
  history := []
  marks := []
  linked := linked_nil _ _
  hashed := fun r hr => absurd hr List.not_mem_nil
  ordered := List.Pairwise.nil
  tiled := ⟨nofun, nofun,
    List.nodup_nil⟩
  head := fun r hr => absurd hr (by simp only [List.getLast?_nil, Option.mem_def, reduceCtorEq,
    not_false_eq_true])
  live := fun m hm => absurd hm List.not_mem_nil
  later := fun m hm => absurd hm List.not_mem_nil

/-- Reachable tables represent a swept ledger. -/
theorem reachableTables_represents (hJ : J.Faithful) (hdig : Digest sha256)
    (h : ReachableTables sha256 J tenantId db) :
    ∃ L : SweptLedger sha256, Represents J.fromStr db tenantId L := by
  induction h with
  | start db hempty =>
    refine ⟨SweptLedger.empty sha256, List.Perm.of_eq ?_, fun m hm => absurd hm not_mem_nil⟩
    have hnil : db.auditLog.filter (fun r => r.columns.tenant = tenantId) = [] :=
      filter_eq_nil_iff.mpr (fun r hr => by
        rw [decide_eq_true_eq]
        exact hempty r hr)
    rw [chainedRows, hnil]
    rfl
  | step db tx _ hadm ih => grind [exec_represents]

theorem exec_orderedChain_ne_nil (hJ : J.Faithful) (hdig : Digest sha256)
    (hrun : ReachableTables sha256 J tenantId db) {tx : Transaction} (hadm : tx.Admissible db)
    (hne : orderedChain db tenantId ≠ []) : orderedChain (tx.exec sha256 J db) tenantId ≠ [] := by
  rcases reachableTables_represents hJ hdig hrun with ⟨L, hrep⟩
  rcases exec_represents hJ hdig hadm hrep with ⟨L', hrep', hgrow⟩
  rw [orderedChain_eq hrep] at hne
  rw [orderedChain_eq hrep']
  intro hnil
  -- The last row of the history is never swept, so there is no history at all.
  have hlast := L'.getLast?_survivors
  rw [hnil, getLast?_nil] at hlast
  rw [getLast?_eq_none_iff.mp hlast.symm, prefix_nil] at hgrow
  rw [SweptLedger.survivors, hgrow] at hne
  exact hne rfl

theorem selectCandidates_selected (db : AuditTables) (tenantId : String)
    (selection : SweepSelection) (cutoff : OffsetDateTime) :
    (selectCandidates db tenantId selection cutoff).Nodup
    ∧ ∀ r ∈ selectCandidates db tenantId selection cutoff, r ∈ db.auditLog
      ∧ r.columns.tenant = tenantId ∧ r.category ≠ some RetentionMarker.KIND := by
  refine ⟨((perm_insertionSort _ _).nodup_iff.mpr
    ((List.Nodup.of_map _ db.primaryKey).filter _)).sublist (take_sublist _ _), fun r hr => ?_⟩
  have hmem := (perm_insertionSort _ _).mem_iff.mp ((take_sublist _ _).subset hr)
  rcases mem_filter.mp hmem with ⟨hstored, hselected⟩
  rcases of_decide_eq_true hselected with ⟨htenant, -, hkind, -⟩
  exact ⟨hstored, htenant, fun h => hkind (by rw [AuditLogRow.sweepCategory, h]; rfl)⟩

/-- A sweep that succeeds is an admissible transaction, whatever policies it was guarded
    with, so what holds of the tables that transactions reach holds after it. -/
theorem runRetentionSweepSelection_reachable {tenant : String} {selection : SweepSelection}
    {current : List RetentionPolicy} {policyGuard : Option PolicyGuard} {db' : AuditTables}
    (hrun : ReachableTables sha256 J tenantId db)
    (hlater : ∀ i, ∀ r ∈ orderedChain db tenant, r.chainSeq < (stamps i).chainSeq)
    (hordered : ∀ i j, i < j → (stamps i).chainSeq < (stamps j).chainSeq)
    (h : runRetentionSweepSelection sha256 J db tenant selection cutoff current policyGuard stamps
      = .ok (db', report)) : ReachableTables sha256 J tenantId db' := by
  unfold runRetentionSweepSelection at h
  split at h
  · cases h
  · simp only at h
    rcases selectCandidates_selected db tenant selection cutoff with ⟨hnodup, hselected⟩
    set rows := selectCandidates db tenant selection cutoff
    cases hsweep : sweepCandidates sha256 J db tenant selection.reportLabel cutoff stamps
        (batchOf (rows.take RETENTION_SWEEP_BATCH_ROWS))
        (decide (RETENTION_SWEEP_BATCH_ROWS < rows.length)) with
    | error e =>
      rw [hsweep] at h
      cases h
    | ok swept =>
      rw [hsweep] at h
      obtain rfl : swept = (db', report) := Except.ok.inj h
      have hexec : Transaction.exec sha256 J db (.sweep tenant selection.reportLabel cutoff stamps
          (rows.take RETENTION_SWEEP_BATCH_ROWS)
          (decide (RETENTION_SWEEP_BATCH_ROWS < rows.length))) = db' := by
        rw [Transaction.exec, Transaction.run, hsweep]
        rfl
      exact hexec ▸ .step _ _ hrun ⟨hnodup.sublist (take_sublist _ _),
        fun r hr => hselected r ((take_sublist _ _).subset hr), hlater, hordered⟩

theorem runRetentionSweep_reachable {tenant category : String} {db' : AuditTables}
    (hrun : ReachableTables sha256 J tenantId db)
    (hlater : ∀ i, ∀ r ∈ orderedChain db tenant, r.chainSeq < (stamps i).chainSeq)
    (hordered : ∀ i j, i < j → (stamps i).chainSeq < (stamps j).chainSeq)
    (h : runRetentionSweep sha256 J db tenant category cutoff stamps = .ok (db', report)) :
    ReachableTables sha256 J tenantId db' := by
  unfold runRetentionSweep at h
  split at h
  · cases h
  · exact runRetentionSweepSelection_reachable hrun hlater hordered h

end Runs

section Countable

instance countableChar : Countable Char :=
  Function.Injective.countable (f := Char.toNat) (fun _ _ h => Char.toNat_inj.mp h)

instance countableString : Countable String :=
  Function.Injective.countable (f := String.toList) (fun _ _ h => String.toList_injective h)

instance countableUuid : Countable Uuid :=
  Function.Injective.countable (f := BitVec.toNat) (fun _ _ h => BitVec.eq_of_toNat_eq h)

deriving instance Countable for DeletedRow
deriving instance Countable for DeletedUnchainedRow
deriving instance Countable for RetentionMarker

end Countable

section Samples

variable (sha256 : List UInt8 → List UInt8) (J : ReasonJson)

def sampleEvent (n : Nat) : AuditEvent :=
  { id := BitVec.ofNat 128 n
    ts := .unixEpoch
    category := .invocation
    tenant := "default"
    principal := none
    action := "tools/call"
    server := none
    tool := none
    operation := none
    outcome := .success
    riskLevel := none
    pii := none
    policyIds := []
    reason := none
    traceId := none
    latencyMs := none
    target := none
    reqScopes := []
    authMethod := none
    reqRoles := []
    sideEffects := none
    actingAgent := none
    invocationHierarchy := none }

def sampleStamps (i : Nat) : MarkerStamp :=
  { id := BitVec.ofNat 128 (2 + i), ts := .unixEpoch, chainSeq := 2 + i }

def emptyTables : AuditTables :=
  { auditLog := []
    bridgeIndex := []
    primaryKey := List.nodup_nil
    markerKey := List.nodup_nil
    startUnique := startUnique_nil
    reference := fun _ he => absurd he List.not_mem_nil }

def recordedTables : Nat → AuditTables
  | 0 => emptyTables
  | n + 1 => (Transaction.insertChainedEvent (sampleEvent n) n).exec sha256 J (recordedTables n)

structure Recorded (n : Nat) (db : AuditTables) : Prop where
  count : db.auditLog.length = n
  unindexed : db.bridgeIndex = []
  numbered : ∀ l ∈ db.auditLog, ∃ k < n, l.columns.id = BitVec.ofNat 128 k ∧ l.chainSeq = k
  chained : ∀ l ∈ db.auditLog, l.columns.tenant = "default" ∧ l.category = some "invocation"
    ∧ l.rowHash.isSome

variable {db : AuditTables} {n : Nat}

theorem Recorded.chainSeq_lt (h : Recorded n db) {r : ChainVerifyRow}
    (hr : r ∈ orderedChain db "default") : r.chainSeq < n := by
  rcases mem_filterMap.mp ((mem_insertionSort _).mp hr) with ⟨l, hl, hdec⟩
  rcases h.numbered l (mem_filter.mp hl).1 with ⟨k, hk, -, hseq⟩
  rcases Option.map_eq_some_iff.mp hdec with ⟨v, -, hrow⟩
  rw [← hrow]
  simp only [hseq]
  omega

theorem length_orderedChain_le (db : AuditTables) (tenantId : String) :
    (orderedChain db tenantId).length ≤ db.auditLog.length := by
  rw [orderedChain, length_insertionSort]
  exact (length_filterMap_le _ _).trans (length_filter_le _ _)

theorem Recorded.length_orderedChain (h : Recorded n db) :
    (orderedChain db "default").length = n := by
  have hall : db.auditLog.filter (fun r => r.columns.tenant = "default") = db.auditLog :=
    filter_eq_self.mpr (fun l hl => decide_eq_true (h.chained l hl).1)
  rw [orderedChain, length_insertionSort, hall, length_filterMap_eq_countP, ← h.count,
    countP_eq_length]
  intro l hl
  rw [AuditLogRow.toChainVerifyRow, Option.isSome_map]
  exact (h.chained l hl).2.2

theorem sampleId_inj {k m : Nat} (hk : k < 2 ^ 128) (hm : m < 2 ^ 128)
    (h : BitVec.ofNat 128 k = BitVec.ofNat 128 m) : k = m := by
  have hsame := congrArg BitVec.toNat h
  rw [BitVec.toNat_ofNat, BitVec.toNat_ofNat, Nat.mod_eq_of_lt hk, Nat.mod_eq_of_lt hm] at hsame
  exact hsame

theorem recordedTables_recorded (n : Nat) (hn : n ≤ 2 ^ 128) :
    Recorded n (recordedTables sha256 J n)
      ∧ ReachableTables sha256 J "default" (recordedTables sha256 J n) := by
  induction n with
  | zero =>
    exact ⟨⟨rfl, rfl, fun l hl => absurd hl not_mem_nil, fun l hl => absurd hl not_mem_nil⟩,
      .start _ (fun r hr => absurd hr not_mem_nil)⟩
  | succ n ih =>
    rcases ih (by omega) with ⟨hrec, hrun⟩
    refine ⟨?_, .step _ _ hrun (fun r hr => hrec.chainSeq_lt hr)⟩
    have hfresh : (sampleEvent n).id
        ∉ (recordedTables sha256 J n).auditLog.map (fun r => r.columns.id) := by
      intro hmem
      rcases mem_map.mp hmem with ⟨l, hl, hid⟩
      rcases hrec.numbered l hl with ⟨k, hk, hlid, -⟩
      have hsame := sampleId_inj (by omega) (by omega) (hlid.symm.trans hid)
      omega
    obtain ⟨db₁, hinsert, hrows, hindex⟩ :=
      insertChainedEvent_progress sha256 J hfresh (fun hcat => by cases hcat) n
    have hexec : recordedTables sha256 J (n + 1) = db₁ := by
      have hok : Transaction.run sha256 J (recordedTables sha256 J n)
          (.insertChainedEvent (sampleEvent n) n) = .ok db₁ := hinsert
      rw [recordedTables, Transaction.exec, hok]
    rw [hexec]
    refine ⟨?_, hindex.trans hrec.unindexed, fun l hl => ?_, fun l hl => ?_⟩
    · rw [hrows, length_append, hrec.count]
      rfl
    · rw [hrows] at hl
      rcases mem_append.mp hl with hl | hl
      · rcases hrec.numbered l hl with ⟨k, hk, hlid⟩
        exact ⟨k, by omega, hlid⟩
      · rw [mem_singleton.mp hl]
        exact ⟨n, by omega, rfl, rfl⟩
    · rw [hrows] at hl
      rcases mem_append.mp hl with hl | hl
      · exact hrec.chained l hl
      · rw [mem_singleton.mp hl]
        exact ⟨rfl, rfl, rfl⟩

/-- A sweep of the first of two recorded rows succeeds, and leaves the other
    and a marker. -/
theorem recordedTables_sweep (hJ : J.Faithful) (hdig : Digest sha256) :
    ∃ (l : AuditLogRow) (db' : AuditTables) (report : SweepReport),
      sweepCandidates sha256 J (recordedTables sha256 J 2) "default" "*" .unixEpoch sampleStamps
        (batchOf [l]) false = .ok (db', report)
      ∧ report.rowsDeleted = 1 ∧ db'.auditLog.length ≤ 2
      ∧ Transaction.Admissible (recordedTables sha256 J 2)
        (.sweep "default" "*" .unixEpoch sampleStamps [l] false)
      ∧ Transaction.exec sha256 J (recordedTables sha256 J 2)
        (.sweep "default" "*" .unixEpoch sampleStamps [l] false) = db'
      ∧ orderedChain db' "default" ≠ [] := by
  rcases recordedTables_recorded sha256 J 2 (by decide) with ⟨hrec, hrun⟩
  rcases reachableTables_represents hJ hdig hrun with ⟨L, hrep⟩
  rcases length_eq_two.mp hrec.count with ⟨l, l', hlog⟩
  have hl : l ∈ (recordedTables sha256 J 2).auditLog := hlog ▸ mem_cons_self
  have hdel : Deletable (recordedTables sha256 J 2) "default" [l] :=
    ⟨nodup_singleton l, forall_mem_singleton.mpr hl,
      forall_mem_singleton.mpr (hrec.chained l hl).1,
      forall_mem_singleton.mpr (by rw [(hrec.chained l hl).2.1]; decide)⟩
  have hfresh : (sampleStamps 0).id
      ∉ (recordedTables sha256 J 2).auditLog.map (fun r => r.columns.id) := by
    intro hmem
    rcases mem_map.mp hmem with ⟨r, hr, hid⟩
    rcases hrec.numbered r hr with ⟨k, hk, hrid, -⟩
    have hsame := sampleId_inj (by omega) (by omega) (hrid.symm.trans hid)
    omega
  rcases Option.isSome_iff_exists.mp (hrec.chained l hl).2.2 with ⟨h, hhash⟩
  have hne : h ≠ "" := by
    have hchained : ({ l.columns with
        chainSeq := l.chainSeq, prevHash := l.prevHash, rowHash := h } : ChainVerifyRow)
          ∈ chainedOf [l] := by
      simp [chainedOf, AuditLogRow.toChainVerifyRow, hhash]
    exact L.rowHash_ne_empty hdig
      (L.mem_survivors.mp (hrep.stored.mem_iff.mp (hdel.chainedOf_stored hchained))).1
  rcases sweepCandidates_single sha256 hJ hhash hne hdel hrec.unindexed hfresh "*" .unixEpoch false
    with ⟨db', hsweep⟩
  have hbatch : [l.candidate] = batchOf [l] := rfl
  rw [hbatch] at hsweep
  have hadm : Transaction.Admissible (recordedTables sha256 J 2)
      (.sweep "default" "*" .unixEpoch sampleStamps [l] false) := by
    refine ⟨hdel.distinct, fun r hr => ⟨hdel.stored r hr, hdel.tenant r hr, hdel.notMarker r hr⟩,
      fun i r hr => ?_, fun i j hij => ?_⟩
    · have hlt := hrec.chainSeq_lt hr
      rw [sampleStamps]
      dsimp only
      omega
    · rw [sampleStamps, sampleStamps]
      dsimp only
      omega
  have hexec : Transaction.exec sha256 J (recordedTables sha256 J 2)
      (.sweep "default" "*" .unixEpoch sampleStamps [l] false) = db' := by
    rw [Transaction.exec, Transaction.run, hsweep]
    rfl
  have hne : orderedChain (recordedTables sha256 J 2) "default" ≠ [] := by
    intro hnil
    have hlen := hrec.length_orderedChain
    rw [hnil] at hlen
    cases hlen
  have hreport := sweepCandidates_report hJ hsweep
  refine ⟨l, db', _, hsweep, rfl, ?_, hadm, hexec,
    hexec ▸ exec_orderedChain_ne_nil hJ hdig hrun hadm hne⟩
  rw [hrec.count] at hreport
  dsimp only at hreport
  omega

end Samples

theorem exists_faithful : ∃ J : ReasonJson, J.Faithful := by
  obtain ⟨number, hnumber⟩ := exists_injective_nat RetentionMarker
  have hinj : Function.Injective (fun m => String.ofList (List.replicate (number m) '1')) := by
    intro m m' h
    have hlen := congrArg List.length (String.ofList_injective h)
    rw [length_replicate, length_replicate] at hlen
    exact hnumber hlen
  let fromStr := Function.partialInv (fun m => String.ofList (List.replicate (number m) '1'))
  refine ⟨{ toReason := fun m => String.ofList (List.replicate (number m) '1')
            fromStr := fromStr
            jsonb := fun s => (fromStr s).elim (.error .invalidTextRepresentation)
              (fun m => .ok (markerJson m))
            render := fun _ => "" }, Function.partialInv_left hinj, fun m => ?_⟩
  simp only [fromStr, Function.partialInv_left hinj m, Option.elim_some]

section Verification

variable {sha256 : List UInt8 → List UInt8} {J : ReasonJson} {db : AuditTables} {tenantId : String}

/-- Whatever was recorded and swept before, the tenant's remaining chain
    verifies: as a success when the walk reaches all of it, and as incomplete
    when the limit the walk runs with stops it short. -/
theorem verifyChain_after_retention (hJ : J.Faithful) (hdig : Digest sha256)
    (hrun : ReachableTables sha256 J tenantId db) (hne : orderedChain db tenantId ≠ [])
    (limit : Int) :
    (verifyChain sha256 J.fromStr db tenantId none none none limit).status
      = if (orderedChain db tenantId).length ≤ clampLimit limit then .ok else .incomplete := by
  rcases reachableTables_represents hJ hdig hrun with ⟨L, hrep⟩
  exact verifyChain_represents hrep hdig hne limit

/-- Nothing goes without a trace. Whatever is recorded and swept from here on, a row of
    the chain is still there, or a marker that came after it is, whose payload lists it. -/
theorem retention_accounts (hJ : J.Faithful) (hdig : Digest sha256)
    (hrun : ReachableTables sha256 J tenantId db) (txs : List Transaction)
    (hadm : Machine.Along (Transaction.exec sha256 J) Transaction.Admissible db txs) :
    ∀ r ∈ orderedChain db tenantId,
      r ∈ orderedChain (txs.foldl (Transaction.exec sha256 J) db) tenantId ∨
      ∃ marker ∈ orderedChain (txs.foldl (Transaction.exec sha256 J) db) tenantId,
        r.chainSeq < marker.chainSeq ∧
        ∃ p, marker.reason.bind (RetentionMarker.fromReason J.fromStr) = some p ∧
          r.deletedRow ∈ p.deletedRows := by
  rcases reachableTables_represents hJ hdig hrun with ⟨L, hrep⟩
  have hlater : ∃ L' : SweptLedger sha256,
      Represents J.fromStr (txs.foldl (Transaction.exec sha256 J) db) tenantId L'
        ∧ L.history <+: L'.history := by
    refine hadm.invariant (I := fun db => ∃ L' : SweptLedger sha256,
      Represents J.fromStr db tenantId L' ∧ L.history <+: L'.history) ?_ ⟨L, hrep, prefix_rfl⟩
    rintro db tx hadm ⟨L₁, hrep₁, hgrown⟩
    rcases exec_represents hJ hdig hadm hrep₁ with ⟨L₂, hrep₂, hgrows⟩
    exact ⟨L₂, hrep₂, hgrown.trans hgrows⟩
  rcases hlater with ⟨L', hrep', hgrown⟩
  intro r hr
  rw [orderedChain_eq hrep, L.mem_survivors] at hr
  rw [orderedChain_eq hrep']
  by_cases hswept : r ∈ sweptRows L'.marks
  · -- A row of a deleted segment is in the payload of the segment's marker.
    rcases mem_sweptRows.mp hswept with ⟨m, hm, hmem⟩
    rcases (hrep'.attested m hm).payload with ⟨p, hp, hrows⟩
    exact .inr ⟨m.marker, L'.mem_survivors.mpr (L'.live m hm), L'.later m hm r hmem, p, hp,
      hrows ▸ mem_map_of_mem hmem⟩
  · exact .inl (L'.mem_survivors.mpr ⟨hgrown.subset hr.1, hswept⟩)

end Verification

theorem verifyChain_after_retention_swept :
    ∃ (J : ReasonJson) (db' : AuditTables) (rows : List AuditLogRow) (report : SweepReport),
      sweepCandidates (0 :: ·) J (recordedTables (0 :: ·) J 2) "default" "*" .unixEpoch sampleStamps
        (batchOf rows) false = .ok (db', report) ∧ report.rowsDeleted = 1
      ∧ (verifyChain (0 :: ·) J.fromStr db' "default" none none none 100).status = .ok := by
  rcases exists_faithful with ⟨J, hJ⟩
  have hdig : Digest (0 :: ·) := ⟨cons_injective, fun _ => cons_ne_nil _ _⟩
  rcases recordedTables_sweep (0 :: ·) J hJ hdig with
    ⟨l, db', report, hsweep, hcount, hlen, hadm, rfl, hne⟩
  refine ⟨J, _, [l], report, hsweep, hcount, ?_⟩
  have hrun := (recordedTables_recorded (0 :: ·) J 2 (by decide)).2
  rw [verifyChain_after_retention hJ hdig (.step _ _ hrun hadm) hne, if_pos]
  exact (length_orderedChain_le _ "default").trans (hlen.trans (by decide))

/-- A chain of more than ten thousand rows is not walked to its end, whatever
    the limit. -/
theorem verifyChain_after_retention_clamped :
    ∃ (J : ReasonJson) (db : AuditTables), J.Faithful ∧ ReachableTables (0 :: ·) J "default" db
      ∧ (orderedChain db "default").length = 10001
      ∧ (verifyChain (0 :: ·) J.fromStr db "default" none none none 10001).status
        = .incomplete := by
  rcases exists_faithful with ⟨J, hJ⟩
  have hdig : Digest (0 :: ·) := ⟨cons_injective, fun _ => cons_ne_nil _ _⟩
  rcases recordedTables_recorded (0 :: ·) J 10001 (by decide)
    with ⟨hrec, hrun⟩
  rcases reachableTables_represents hJ hdig hrun with ⟨L, hrep⟩
  have hlen := hrec.length_orderedChain
  have hne : orderedChain (recordedTables (0 :: ·) J 10001) "default" ≠ [] := by
    intro hnil
    rw [hnil] at hlen
    cases hlen
  refine ⟨J, _, hJ, hrun, hlen, ?_⟩
  rw [verifyChain_represents hrep hdig hne, if_neg]
  rw [hlen]
  decide

theorem retention_accounts_swept :
    ∃ (J : ReasonJson) (db' : AuditTables) (rows : List AuditLogRow) (report : SweepReport),
      sweepCandidates (0 :: ·) J (recordedTables (0 :: ·) J 2) "default" "*" .unixEpoch sampleStamps
        (batchOf rows) false = .ok (db', report) ∧ report.rowsDeleted = 1
      ∧ ∀ r ∈ orderedChain (recordedTables (0 :: ·) J 2) "default",
        r ∈ orderedChain db' "default" ∨
        ∃ marker ∈ orderedChain db' "default", r.chainSeq < marker.chainSeq ∧
          ∃ p, marker.reason.bind (RetentionMarker.fromReason J.fromStr) = some p ∧
            r.deletedRow ∈ p.deletedRows := by
  rcases exists_faithful with ⟨J, hJ⟩
  have hdig : Digest (0 :: ·) := ⟨cons_injective, fun _ => cons_ne_nil _ _⟩
  rcases recordedTables_sweep (0 :: ·) J hJ hdig with
    ⟨l, db', report, hsweep, hcount, -, hadm, rfl, -⟩
  have hrun := (recordedTables_recorded (0 :: ·) J 2 (by decide)).2
  exact ⟨J, _, [l], report, hsweep, hcount,
    retention_accounts hJ hdig hrun [.sweep _ _ _ _ _ _] ⟨hadm, trivial⟩⟩

end Waygate.Audit
