import Waygate.Theory.Audit.Sweep

/-!
# A Sweep Succeeds

A sweep may be refused by the database: a marker whose segment starts where another one
does violates the index, and the deletion checks that the markers cover every row. None
of that happens to a chained row swept alone before anything else was.

## Theorems

* `sweepCandidates_single`
* `writeMarker_first`, `auditLogSweepDelete_single`: Its marker, and its deletion.
-/

namespace Waygate.Audit

open Ledger List

variable {l : AuditLogRow} (sha256 : List UInt8 → List UInt8) {J : ReasonJson} {db : AuditTables}
  {tenantId : String}

theorem writeMarker_first (tenantId : String) (chainHead : Option String) (hJ : J.Faithful)
    {stamp : MarkerStamp}
    {p : RetentionMarker} {b : RetentionBridge} (hkind : p.kind = RetentionMarker.KIND)
    (hempty : db.bridgeIndex = []) (hfresh : stamp.id ∉ db.auditLog.map (fun r => r.columns.id))
    (hb : p.bridge = some b) (hend : b.endHash ≠ "") :
    ∃ db' rowHash, writeMarker sha256 J db tenantId chainHead stamp p = .ok (db', rowHash)
      ∧ db'.bridgeIndex = [⟨stamp.id, tenantId, b.start, b.endHash⟩] := by
  obtain ⟨row, hrow⟩ : ∃ row, row = storedRow (markerColumns tenantId (J.toReason p) stamp)
      stamp.chainSeq chainHead (some (computeRowHash sha256 chainHead
        (canonicalAuditBytes (markerColumns tenantId (J.toReason p) stamp)))) := ⟨_, rfl⟩
  have hid : row.columns.id = stamp.id := by rw [hrow]; rfl
  have hten : row.columns.tenant = tenantId := by rw [hrow]; rfl
  have hcat : row.category = some RetentionMarker.KIND := by rw [hrow]; rfl
  have hhash : row.rowHash.isSome := by rw [hrow]; rfl
  have hreason : row.columns.reason = some (J.toReason p) := by rw [hrow]; rfl
  rcases insertAuditLog_of_fresh J row (hid ▸ hfresh) with ⟨db₁, hrows, hindex, hinsert⟩
  have hmem : row ∈ db₁.auditLog := hrows ▸ mem_append_right _ mem_cons_self
  obtain ⟨db₂, hbridge, hrows₂, hindex₂⟩ : ∃ db₂,
      insertBridge db₁ ⟨row.columns.id, row.columns.tenant, b.start, b.endHash⟩ = .ok db₂
        ∧ db₂.auditLog = db₁.auditLog
        ∧ db₂.bridgeIndex = [⟨row.columns.id, row.columns.tenant, b.start, b.endHash⟩] := by
    unfold insertBridge
    rw [dif_neg (by simp [hindex, hempty]), dif_neg (by simp [hindex, hempty]),
      dif_pos (mem_map_of_mem hmem)]
    exact ⟨_, rfl, rfl, by simp [hindex, hempty]⟩
  -- The trigger indexes the marker, so the explicit call finds it indexed.
  have hmarker₁ : auditRetentionBridgeIndexMarker J db₁ row.columns.id = .ok (db₂, true) := by
    rw [auditRetentionBridgeIndexMarker_payload hJ hmem hcat hhash hreason hkind hb, if_neg hend,
      hbridge]
    rfl
  have hmarker₂ : auditRetentionBridgeIndexMarker J db₂ row.columns.id = .ok (db₂, true) := by
    rw [auditRetentionBridgeIndexMarker_payload hJ (hrows₂ ▸ hmem) hcat hhash hreason hkind hb,
      if_neg hend, insertBridge, dif_pos (by simp [hindex₂])]
    rfl
  rw [writeMarker, ← hrow, hinsert, ← hid, auditRetentionBridgeIndexAfterInsert,
    if_pos ⟨hcat, hhash, by rw [hreason]; rfl⟩, hmarker₁]
  simp only [hmarker₂]
  exact ⟨_, _, rfl, by rw [hindex₂, hten]⟩

theorem filter_eq_singleton (hl : l ∈ db.auditLog) {p : AuditLogRow → Bool} (hp : p l = true)
    (hid : ∀ r, p r = true → r.columns.id = l.columns.id) :
    db.auditLog.filter p = [l] := by
  refine perm_singleton.mp ((perm_ext_iff_of_nodup
    ((List.Nodup.of_map _ db.primaryKey).filter _) (nodup_singleton l)).mpr (fun r => ?_))
  rw [mem_filter, mem_singleton]
  constructor
  · rintro ⟨hr, hpr⟩
    exact inj_on_of_nodup_map db.primaryKey hr hl (hid r hpr)
  · rintro rfl
    exact ⟨hl, hp⟩

theorem auditLogSweepDelete_single {m : AuditLogRow} (hl : l ∈ db.auditLog) (hm : m ∈ db.auditLog)
    (hten : l.columns.tenant = tenantId ∧ m.columns.tenant = tenantId)
    (hcat : l.category ≠ some RetentionMarker.KIND) (hmcat : m.category = some RetentionMarker.KIND)
    (hstored : m.columns.reason.isSome ∧ m.rowHash.isSome) {c : List Json × List Json}
    (hc : markerCoverage J m = .ok c) (hcovers : coversRow J l c = true)
    (hindex : ∀ e ∈ db.bridgeIndex, e.markerId = m.columns.id) :
    ∃ db', auditLogSweepDelete J db tenantId [l.columns.id] [m.columns.id] = .ok (db', 1) := by
  have hmarkers : db.auditLog.filter (fun r => r.columns.id ∈ [m.columns.id]
      ∧ r.columns.tenant = tenantId ∧ r.category = some RetentionMarker.KIND
      ∧ r.columns.reason.isSome ∧ r.rowHash.isSome) = [m] :=
    filter_eq_singleton hm (by simp [hten, hmcat, hstored]) (fun r hr => by simp_all)
  have hcovered : db.auditLog.filter (fun al => al.columns.id ∈ [l.columns.id]
      ∧ al.columns.tenant = tenantId ∧ [c].any (coversRow J al) = true) = [l] :=
    filter_eq_singleton hl (by simp [hten, hcovers]) (fun r hr => by simp_all)
  have hdeleted : db.auditLog.filter (fun r => !decide (¬ (r.columns.tenant = tenantId
      ∧ r.columns.id ∈ [l.columns.id] ∧ r.category ≠ some RetentionMarker.KIND))) = [l] :=
    filter_eq_singleton hl (by simp [hten, hcat]) (fun r hr => by simp_all)
  have hsum := length_eq_length_filter_add (l := db.auditLog) (fun r =>
    decide (¬ (r.columns.tenant = tenantId ∧ r.columns.id ∈ [l.columns.id]
      ∧ r.category ≠ some RetentionMarker.KIND)))
  rw [hdeleted, length_singleton] at hsum
  unfold auditLogSweepDelete
  rw [if_neg (by simp), if_neg (by simp), hmarkers]
  simp only [mapM_cons, mapM_nil, hc, bind, Except.bind, pure, Except.pure]
  rw [hcovered, if_neg (by simp), dif_pos, hsum, Nat.add_sub_cancel_left]
  · exact ⟨_, rfl⟩
  · -- The only entry is the marker's own, and no sweep deletes a marker.
    intro e he
    rw [hindex e he]
    exact mem_map_of_mem (mem_filter.mpr ⟨hm, by simp [hmcat]⟩)

theorem coversRow_chained (hJ : J.Faithful) (marker : AuditLogRow) {p : RetentionMarker}
    {d : DeletedRow} (hreason : marker.columns.reason = some (J.toReason p))
    (hhash : l.rowHash = some d.rowHash) (hd : d ∈ p.deletedRows) :
    ∃ c, markerCoverage J marker = .ok c ∧ coversRow J l c = true := by
  rw [markerCoverage, hreason, Option.getD_some, hJ.jsonb_toReason]
  refine ⟨_, rfl, ?_⟩
  rw [coversRow, hhash]
  refine any_eq_true.mpr ⟨_, mem_map_of_mem hd, decide_eq_true ?_⟩
  rw [(fieldText_deletedRow _).2]

/-- A sweep of one chained row, before anything is indexed, deletes it. -/
theorem sweepCandidates_single (hJ : J.Faithful) {h : String} (hhash : l.rowHash = some h)
    (hne : h ≠ "") (hdel : Deletable db tenantId [l]) (hempty : db.bridgeIndex = [])
    {stamps : Nat → MarkerStamp} (hfresh : (stamps 0).id ∉ db.auditLog.map (fun r => r.columns.id))
    (label : String) (cutoff : OffsetDateTime) (flag : Bool) :
    ∃ db', sweepCandidates sha256 J db tenantId label cutoff stamps [l.candidate] flag
      = .ok (db', ⟨tenantId, label, cutoff, 1, 1, flag⟩) := by
  have hl : l ∈ [l] := mem_singleton_self l
  obtain ⟨p, hp, hrows, hkind⟩ : ∃ p, batchMarkers tenantId label stamps [l.candidate]
      = [(stamps 0, p)] ∧ p.deletedRows = [⟨l.prevHash, h⟩] ∧ p.kind = RetentionMarker.KIND := by
    refine ⟨segmentPayload tenantId label [l.candidate] 0 [⟨l.prevHash, h⟩], ?_, rfl, rfl⟩
    have hchained : chainedCandidates [l.candidate] = [⟨l.prevHash, h⟩] := by
      simp [chainedCandidates, CandidateRow.deletedRow, AuditLogRow.candidate, hhash]
    rw [batchMarkers, batchSegments, groupIntoChainSegments_eq, hchained]
    rfl
  have hb : p.bridge = some ⟨l.prevHash, h⟩ := by rw [RetentionMarker.bridge, hrows]; rfl
  rcases writeMarker_first sha256 tenantId (selectPrevHash db tenantId) hJ hkind hempty hfresh hb
    hne with ⟨db₁, rowHash, hwrite, hindex⟩
  rcases writeMarker_ok hJ hwrite with ⟨-, hlog, -, -⟩
  have hcovers := coversRow_chained hJ (storedRow (markerColumns tenantId (J.toReason p)
    (stamps 0)) (stamps 0).chainSeq (selectPrevHash db tenantId) (some rowHash)) rfl hhash
    (by rw [hrows]; exact mem_singleton_self _)
  rcases hcovers with ⟨c, hc, hcovers⟩
  have hkept : l ∈ db₁.auditLog := hlog ▸ mem_append_left _ (hdel.stored l hl)
  rcases auditLogSweepDelete_single hkept
    (hlog ▸ mem_append_right _ (mem_singleton_self _)) ⟨hdel.tenant l hl, rfl⟩ (hdel.notMarker l hl)
    rfl ⟨rfl, rfl⟩ hc hcovers (by rw [hindex]; simp; rfl) with ⟨db₂, hdelete⟩
  refine ⟨db₂, ?_⟩
  rw [sweepCandidates, if_neg (by simp), hp]
  simp only [writeMarkers, hwrite]
  have hdelete' : auditLogSweepDelete J db₁ tenantId ([l.candidate].map CandidateRow.id)
      ([(stamps 0, p)].map (fun m => m.1.id)) = .ok (db₂, 1) := hdelete
  rw [hdelete']
  rfl

end Waygate.Audit
