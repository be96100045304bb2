import Waygate.Theory.Audit.Recording

/-!
# A Sweep on a Swept Ledger

The runs of a batch are consecutive because they are grouped by the hashes their rows
name. The head survives because a marker was appended last, and no marker is swept
because no batch contains one.

## Main definitions

* `Deletable`, `newMarks`

## Theorems

* `sweepCandidates_represents`, `sweepCandidates_report`
* `newMarks_sweepable`, `newMarks_attested`: The marks of a batch belong to the ledger.
-/

namespace Waygate.Audit

open Ledger List

section Batch

variable {r : ChainVerifyRow} {s : List ChainVerifyRow} {label : String}
  {stamps : Nat → MarkerStamp} {candidates : List CandidateRow} {sha256 : List UInt8 → List UInt8}
  {J : ReasonJson} {db db' : AuditTables} {tenantId : String} {batch : List AuditLogRow}

/-- The rows a sweep may delete: distinct rows of the tenant, none a marker. -/
structure Deletable (db : AuditTables) (tenantId : String) (batch : List AuditLogRow) : Prop where
  distinct : batch.Nodup
  stored : ∀ l ∈ batch, l ∈ db.auditLog
  tenant : ∀ l ∈ batch, l.columns.tenant = tenantId
  notMarker : ∀ l ∈ batch, l.category ≠ some RetentionMarker.KIND

def chainedOf (batch : List AuditLogRow) : List ChainVerifyRow :=
  batch.filterMap AuditLogRow.toChainVerifyRow

def segmentsOf (batch : List AuditLogRow) : List (List ChainVerifyRow) :=
  (chainedOf batch).splitBy (fun a b => follows a.deletedRow b.deletedRow)

theorem toChainVerifyRow_columns {l : AuditLogRow} (h : l.toChainVerifyRow = some r) :
    r.toAuditColumns = l.columns := by
  rcases Option.map_eq_some_iff.mp h with ⟨v, -, hr⟩
  rw [← hr]

theorem Deletable.ids (h : Deletable db tenantId batch) :
    (batch.map (fun l => l.columns.id)).Nodup := by
  refine pairwise_map.mpr (h.distinct.imp_of_mem (fun {a b} ha hb hne hid => hne ?_))
  exact inj_on_of_nodup_map db.primaryKey (h.stored a ha) (h.stored b hb) hid

theorem Deletable.chainedOf_nodup (h : Deletable db tenantId batch) : (chainedOf batch).Nodup := by
  refine pairwise_filterMap.mpr ((pairwise_map.mp h.ids).imp ?_)
  intro a b hne r hr r' hr' heq
  rw [← toChainVerifyRow_columns hr, ← toChainVerifyRow_columns hr', heq] at hne
  exact hne rfl

theorem Deletable.chainedOf_stored (h : Deletable db tenantId batch) (hr : r ∈ chainedOf batch) :
    r ∈ chainedRows db tenantId := by
  rcases mem_filterMap.mp hr with ⟨l, hl, hdec⟩
  exact mem_filterMap.mpr ⟨l, mem_filter.mpr ⟨h.stored l hl,
    decide_eq_true (h.tenant l hl)⟩, hdec⟩

theorem Deletable.chainedOf_category (h : Deletable db tenantId batch) (hr : r ∈ chainedOf batch) :
    r.category ≠ RetentionMarker.KIND := by
  rcases mem_filterMap.mp hr with ⟨l, hl, hdec⟩
  have hcat := h.notMarker l hl
  rw [toChainVerifyRow_columns hdec, l.decoded]
  cases hc : l.category with
  | none => decide
  | some c =>
    intro heq
    exact hcat (by rw [hc]; exact congrArg some heq)

theorem Deletable.marker_notMem (h : Deletable db tenantId batch) {db₁ : AuditTables}
    (hr : ∃ l ∈ db₁.auditLog, l.columns.tenant = tenantId
      ∧ l.category = some RetentionMarker.KIND ∧ l.toChainVerifyRow = some r) :
    r ∉ chainedOf batch := by
  rcases hr with ⟨l, -, -, hcat, hdec⟩
  intro hmem
  refine h.chainedOf_category hmem ?_
  rw [toChainVerifyRow_columns hdec, l.decoded, hcat]
  rfl

theorem Deletable.chainedRows_delete (h : Deletable db tenantId batch) {db₁ : AuditTables}
    (hrows : ∀ l ∈ db.auditLog, l ∈ db₁.auditLog)
    (hdel : db'.auditLog = db₁.auditLog.filter (fun r => ¬ (r.columns.tenant = tenantId
      ∧ r.columns.id ∈ batch.map (fun l => l.columns.id)
      ∧ r.category ≠ some RetentionMarker.KIND))) :
    chainedRows db' tenantId
      = (chainedRows db₁ tenantId).filter (fun r => r ∉ chainedOf batch) := by
  rw [chainedRows, chainedRows, hdel, filter_filter, filterMap_filter,
    filter_filterMap, filterMap_filter]
  refine filterMap_congr (fun l hl => ?_)
  by_cases hten : l.columns.tenant = tenantId
  · cases hdec : l.toChainVerifyRow with
    | none => simp only [ite_self, Option.filter_none]
    | some r =>
      -- Ids are unique, so a stored row with an id of the batch is in it.
      have hmem : l.columns.id ∈ batch.map (fun l => l.columns.id) ↔ r ∈ chainedOf batch := by
        constructor
        · intro hid
          rcases mem_map.mp hid with ⟨l', hl', hid'⟩
          have heq : l' = l := inj_on_of_nodup_map db₁.primaryKey
            (hrows l' (h.stored l' hl')) hl hid'
          exact mem_filterMap.mpr ⟨l', hl', heq ▸ hdec⟩
        · intro hr
          rcases mem_filterMap.mp hr with ⟨l', hl', hdec'⟩
          refine mem_map.mpr ⟨l', hl', ?_⟩
          rw [← toChainVerifyRow_columns hdec', toChainVerifyRow_columns hdec]
      by_cases hr : r ∈ chainedOf batch
      · have hcat : l.category ≠ some RetentionMarker.KIND :=
          fun hcat => h.marker_notMem ⟨l, hl, hten, hcat, hdec⟩ hr
        simp only [hten, hmem.mpr hr, hcat, ne_eq, not_false_eq_true, and_self, not_true_eq_false,
          decide_false, Bool.and_false, Bool.false_eq_true, if_false, decide_true, if_true,
          Option.filter_some, hr]
      · grind
  · simp [hten]

theorem batchOf_eq (rows : List AuditLogRow) :
    ∃ batch : List AuditLogRow, batch.Perm rows ∧ batchOf rows = batch.map AuditLogRow.candidate :=
  ⟨rows.insertionSort (fun a b => a.chainSeq ≤ b.chainSeq), perm_insertionSort _ _,
    (map_insertionSort _ _ AuditLogRow.candidate rows (fun _ _ _ _ => Iff.rfl)).symm⟩

theorem chainedCandidates_map (batch : List AuditLogRow) :
    chainedCandidates (batch.map AuditLogRow.candidate)
      = (chainedOf batch).map ChainVerifyRow.deletedRow := by
  rw [chainedCandidates, chainedOf, filterMap_map, map_filterMap]
  refine filterMap_congr (fun l _ => ?_)
  simp only [Function.comp_apply, CandidateRow.deletedRow, AuditLogRow.candidate,
    AuditLogRow.toChainVerifyRow, Option.map_map]
  rfl

theorem batchSegments_eq (batch : List AuditLogRow) :
    batchSegments (batch.map AuditLogRow.candidate)
      = if (segmentsOf batch).isEmpty then [[]]
        else (segmentsOf batch).map (List.map ChainVerifyRow.deletedRow) := by
  rw [batchSegments, groupIntoChainSegments_eq, chainedCandidates_map, splitBy_map, segmentsOf]
  simp

theorem batchMarkers_getElem? (label : String) (stamps : Nat → MarkerStamp) {i : Nat}
    (hs : (segmentsOf batch)[i]? = some s) :
    (batchMarkers tenantId label stamps (batch.map AuditLogRow.candidate))[i]?
      = some (stamps i, segmentPayload tenantId label (batch.map AuditLogRow.candidate) i
          (s.map ChainVerifyRow.deletedRow)) := by
  have hne : (segmentsOf batch).isEmpty = false := by grind
  rw [batchMarkers, batchSegments_eq, hne]
  simp [hs]

theorem batchMarkers_kind :
    ∀ w ∈ batchMarkers tenantId label stamps candidates, w.2.kind = RetentionMarker.KIND := by
  intro w hw
  rcases mem_map.mp hw with ⟨s, -, hsw⟩
  rw [← hsw]
  rfl

theorem batchMarkers_forall (P : MarkerStamp → Prop)
    (h : ∀ i < (batchSegments candidates).length, P (stamps i)) :
    ∀ w ∈ batchMarkers tenantId label stamps candidates, P w.1 := by
  intro w hw
  rcases mem_map.mp hw with ⟨s, hs, hsw⟩
  rw [← hsw]
  exact h s.2 (snd_lt_of_mem_zipIdx hs)

theorem batchMarkers_pairwise (R : MarkerStamp → MarkerStamp → Prop)
    (h : ∀ i j, i < j → j < (batchSegments candidates).length → R (stamps i) (stamps j)) :
    (batchMarkers tenantId label stamps candidates).Pairwise (fun w w' => R w.1 w'.1) := by
  refine pairwise_map.mpr (pairwise_iff_getElem.mpr (fun i j hi hj hij => ?_))
  rw [length_zipIdx] at hj
  rw [getElem_zipIdx, getElem_zipIdx]
  exact h _ _ (by omega) (by omega)

theorem batchMarkers_length_pos (label : String) (stamps : Nat → MarkerStamp) :
    batchMarkers tenantId label stamps (batch.map AuditLogRow.candidate) ≠ [] := by
  rw [batchMarkers, batchSegments_eq]
  cases hs : segmentsOf batch with
  | nil => simp only [isEmpty_nil, if_true, zipIdx_cons, map_cons, ne_eq,
      reduceCtorEq, not_false_eq_true]
  | cons s ss => simp

theorem segmentsOf_sublist (hs : s ∈ segmentsOf batch) :
    s.Sublist (chainedOf batch) := by
  have := sublist_flatten_of_mem hs
  rw [segmentsOf, flatten_splitBy] at this
  exact this

theorem segmentsOf_run (hs : s ∈ segmentsOf batch) :
    s.IsChain (fun a b => follows a.deletedRow b.deletedRow = true) :=
  isChain_of_mem_splitBy hs

theorem fromReason_segmentPayload (hJ : J.Faithful) (h : Deletable db tenantId batch)
    (hnd : ((chainedOf batch).map ChainVerifyRow.rowHash).Nodup) (label : String) (i : Nat)
    (hs : s ∈ segmentsOf batch) :
    RetentionMarker.fromReason J.fromStr (J.toReason (segmentPayload tenantId label
        (batch.map AuditLogRow.candidate) i (s.map ChainVerifyRow.deletedRow)))
      = some (segmentPayload tenantId label (batch.map AuditLogRow.candidate) i
          (s.map ChainVerifyRow.deletedRow)) := by
  have hids : ((segmentPayload tenantId label (batch.map AuditLogRow.candidate) i
      (s.map ChainVerifyRow.deletedRow)).deletedUnchainedRows.map
        DeletedUnchainedRow.id).Nodup := by
    unfold segmentPayload
    by_cases hi : i = 0
    · simp only [hi, if_true, map_map]
      refine h.ids.sublist ?_
      have hsub := (filter_sublist (p := fun c : CandidateRow => c.rowHash.isNone)
        (l := batch.map AuditLogRow.candidate)).map CandidateRow.id
      rw [map_map] at hsub
      exact hsub
    · simp [hi]
  have hvalid : (segmentPayload tenantId label (batch.map AuditLogRow.candidate) i
      (s.map ChainVerifyRow.deletedRow)).validate = true := by
    refine validate_segment (m := segmentPayload ..)
      (?_ : (((chainedOf batch).map ChainVerifyRow.deletedRow).map _).Nodup) ?_ rfl hids
    · rw [map_map]
      exact hnd
    · rw [splitBy_map]
      exact mem_map_of_mem hs
  rw [RetentionMarker.fromReason, hJ.fromStr_toReason]
  simp only [hvalid, Bool.not_true, Bool.false_eq_true, if_false]
  simp [segmentPayload]

end Batch

section Sweep

variable {sha256 : List UInt8 → List UInt8} {J : ReasonJson} {db db' : AuditTables}
  {tenantId : String} {batch : List AuditLogRow}

/-- The new marks of a sweep: the markers written, with the runs they were
    written for. -/
def newMarks (rows : List ChainVerifyRow) (batch : List AuditLogRow) : List Mark :=
  (rows.zip (segmentsOf batch)).map (fun p => { marker := p.1, segment := p.2 })

variable {L L' : SweptLedger sha256} {rows : List ChainVerifyRow} {label : String}
  {stamps : Nat → MarkerStamp}

section Written

variable (hw : MarkersWritten J db' tenantId
  (batchMarkers tenantId label stamps (batch.map AuditLogRow.candidate)) L L' rows)

include hw

theorem newMarks_segments :
    (newMarks rows batch).map Mark.segment = segmentsOf batch := by
  have hlen : (segmentsOf batch).length ≤ rows.length := by
    rw [← hw.written.length_eq]
    by_contra hlt
    rw [not_le] at hlt
    have hmark := (getElem?_eq_none le_rfl).symm.trans
      (batchMarkers_getElem? label stamps (getElem?_eq_getElem hlt))
    cases hmark
  rw [newMarks, map_map]
  exact map_snd_zip hlen

theorem sweptRows_newMarks :
    sweptRows (newMarks rows batch) = chainedOf batch := by
  rw [sweptRows, newMarks_segments hw, segmentsOf, flatten_splitBy]

theorem newMarks_written {m : Mark} (hm : m ∈ newMarks rows batch) :
    ∃ i, m.segment ∈ segmentsOf batch ∧ m.marker ∈ rows ∧
      Written J db' tenantId (stamps i, segmentPayload tenantId label
        (batch.map AuditLogRow.candidate) i (m.segment.map ChainVerifyRow.deletedRow))
          m.marker := by
  rcases mem_map.mp hm with ⟨p, hp, rfl⟩
  rcases mem_iff_getElem?.mp hp with ⟨i, hi⟩
  rcases getElem?_zip_eq_some.mp hi with ⟨hr, hs⟩
  rcases forall₂_getElem? hw.written hr with ⟨w, hwi, hwritten⟩
  rw [batchMarkers_getElem? label stamps hs] at hwi
  exact ⟨i, mem_of_getElem? hs, mem_of_getElem? hr, Option.some.inj hwi ▸ hwritten⟩

/-- The runs of a batch are segments of the history, none of them swept before. -/
theorem newMarks_sweepable (hdig : Digest sha256) (hrep : Represents J.fromStr db tenantId L)
    (hdel : Deletable db tenantId batch)
    (hnew : ∀ i, ∀ r ∈ L.history, r.chainSeq < (stamps i).chainSeq) :
    L'.Sweepable (newMarks rows batch) := by
  have hsurvives : ∀ r ∈ chainedOf batch, r ∈ L.survivors := fun r hr =>
    hrep.stored.mem_iff.mp (hdel.chainedOf_stored hr)
  have hhist : ∀ r ∈ chainedOf batch, r ∈ L.history := fun r hr =>
    (L.mem_survivors.mp (hsurvives r hr)).1
  have hswept := sweptRows_newMarks hw
  have hmarker : ∀ r, (∃ l ∈ db'.auditLog, l.columns.tenant = tenantId
      ∧ l.category = some RetentionMarker.KIND ∧ l.toChainVerifyRow = some r) →
      r ∈ L'.survivors := by
    rintro r ⟨l, hl, hten, -, hdec⟩
    exact hw.represents.stored.mem_iff.mp (mem_filterMap.mpr
      ⟨l, mem_filter.mpr ⟨hl, decide_eq_true hten⟩, hdec⟩)
  refine ⟨⟨?_, ?_, ?_⟩, ?_, ?_, ?_, ?_, ?_⟩
  · rw [newMarks_segments hw]
    exact fun s hs => ne_nil_of_mem_splitBy hs
  · -- Each run names its own order, so its rows are consecutive.
    rw [newMarks_segments hw]
    intro s hs
    refine infix_of_linked L'.linked (L'.nodup hdig) (fun r hr => ?_)
      ((segmentsOf_run hs).imp (fun a b hab => beq_iff_eq.mp hab))
    rw [hw.history]
    exact mem_append_left _ (hhist r ((segmentsOf_sublist hs).subset hr))
  · rw [newMarks_segments hw, segmentsOf, flatten_splitBy]
    exact hdel.chainedOf_nodup
  · intro r hr
    rw [hswept] at hr
    rw [hw.marks]
    exact (L.mem_survivors.mp (hsurvives r hr)).2
  · -- At least one marker was written, so the last row is a new one.
    intro r hr hmem
    rw [hswept] at hmem
    have hrows : rows ≠ [] := by
      intro hnil
      have hlen := hw.written.length_eq
      rw [hnil, length_nil, length_eq_zero_iff] at hlen
      exact batchMarkers_length_pos label stamps hlen
    rw [hw.history, getLast?_append_of_ne_nil _ hrows] at hr
    rcases mem_iff_getElem?.mp (mem_of_mem_getLast? hr) with ⟨i, hi⟩
    rcases forall₂_getElem? hw.written hi with ⟨w, -, hwritten⟩
    exact hdel.marker_notMem hwritten.stored hmem
  · intro m hm
    rcases newMarks_written hw hm with ⟨i, -, -, hwritten⟩
    exact hmarker m.marker hwritten.stored
  · intro m hm
    rw [hswept]
    rcases mem_append.mp hm with hm | hm
    · exact hdel.marker_notMem (hw.represents.attested m hm).stored
    · rcases newMarks_written hw hm with ⟨i, -, -, hwritten⟩
      exact hdel.marker_notMem hwritten.stored
  · intro m hm r hr
    rcases newMarks_written hw hm with ⟨i, hs, -, hwritten⟩
    rw [hwritten.chainSeq]
    exact hnew i r (hhist r ((segmentsOf_sublist hs).subset hr))

theorem newMarks_attested (hJ : J.Faithful) (hdig : Digest sha256)
    (hrep : Represents J.fromStr db tenantId L) (hdel : Deletable db tenantId batch)
    {m : Mark} (hm : m ∈ newMarks rows batch) : Attests J.fromStr db' tenantId m := by
  have hnd : ((chainedOf batch).map ChainVerifyRow.rowHash).Nodup := by
    refine List.Nodup.map_on (fun a ha b hb hab => ?_) hdel.chainedOf_nodup
    have hhist : ∀ {r}, r ∈ chainedOf batch → r ∈ L.history := fun hr =>
      (L.mem_survivors.mp (hrep.stored.mem_iff.mp (hdel.chainedOf_stored hr))).1
    exact inj_on_of_nodup_map (L.nodup hdig) (hhist ha) (hhist hb) hab
  rcases newMarks_written hw hm with ⟨i, hs, -, hwritten⟩
  refine ⟨hwritten.stored, ⟨segmentPayload tenantId label (batch.map AuditLogRow.candidate) i
    (m.segment.map ChainVerifyRow.deletedRow), ?_, rfl⟩, fun first hfirst last hlast => ?_⟩
  · rw [hwritten.reason, Option.bind_some]
    exact fromReason_segmentPayload hJ hdel hnd label i hs
  · refine hwritten.indexed { start := first.prevHash, endHash := last.rowHash } ?_
    simp only [RetentionMarker.bridge, segmentPayload, head?_map, getLast?_map,
      Option.mem_def.mp hfirst, Option.mem_def.mp hlast, Option.map_some]
    rfl

end Written

/-- A sweep leaves the tables representing the ledger with its markers added
    and its segments deleted. -/
theorem sweepCandidates_represents (hJ : J.Faithful) (hdig : Digest sha256)
    (hrep : Represents J.fromStr db tenantId L) (hdel : Deletable db tenantId batch)
    (hnew : ∀ i, ∀ r ∈ L.history, r.chainSeq < (stamps i).chainSeq)
    (hord : ∀ i j, i < j → (stamps i).chainSeq < (stamps j).chainSeq) {cutoff : OffsetDateTime}
    {flag : Bool} {report : SweepReport}
    (h : sweepCandidates sha256 J db tenantId label cutoff stamps
      (batch.map AuditLogRow.candidate) flag = .ok (db', report)) :
    ∃ L' : SweptLedger sha256, Represents J.fromStr db' tenantId L' ∧ L.history <+: L'.history := by
  unfold sweepCandidates at h
  split at h
  · rw [← (Prod.mk.inj (Except.ok.inj h)).1]
    exact ⟨L, hrep, prefix_rfl⟩
  dsimp only at h
  split at h
  · cases h
  rename_i db₁ hwrite
  split at h
  · cases h
  rename_i db₂ n hdelete
  rw [← (Prod.mk.inj (Except.ok.inj h)).1]
  rcases writeMarkers_frame hJ _ _ hwrite with ⟨added, hrows, -, -⟩
  rw [hrep.selectPrevHash] at hwrite
  rcases writeMarkers_represents hJ _ L hrep batchMarkers_kind
    (batchMarkers_forall (fun w => ∀ r ∈ L.history, r.chainSeq < w.chainSeq) (fun i _ => hnew i))
    (batchMarkers_pairwise (fun w w' => w.chainSeq < w'.chainSeq) (fun i j hij _ => hord i j hij))
    hwrite with ⟨L₁, rows, hw⟩
  have hsweep := newMarks_sweepable hw hdig hrep hdel hnew
  rcases auditLogSweepDelete_ok hdelete with ⟨hlog, hindex, -⟩
  rw [map_map] at hlog
  have hkept : ∀ l ∈ db₁.auditLog, l.category = some RetentionMarker.KIND → l ∈ db₂.auditLog := by
    grind
  refine ⟨L₁.sweep (newMarks rows batch) hsweep, ⟨?_, fun m hm => ?_⟩, rows, hw.history.symm⟩
  · rw [L₁.survivors_sweep, sweptRows_newMarks hw, hdel.chainedRows_delete
      (fun l hl => hrows ▸ mem_append_left _ hl) hlog]
    exact hw.represents.stored.filter _
  · have hatt : Attests J.fromStr db₁ tenantId m := by
      rcases mem_append.mp hm with hm | hm
      · exact hw.represents.attested m hm
      · exact newMarks_attested hw hJ hdig hrep hdel hm
    exact hatt.mono hkept (fun e he => hindex ▸ he)

/-- The report of a sweep accounts for every row. -/
theorem sweepCandidates_report (hJ : J.Faithful) {cutoff : OffsetDateTime} {flag : Bool}
    {candidates : List CandidateRow} {report : SweepReport}
    (h : sweepCandidates sha256 J db tenantId label cutoff stamps candidates flag
      = .ok (db', report)) :
    db'.auditLog.length + report.rowsDeleted = db.auditLog.length + report.markersWritten := by
  unfold sweepCandidates at h
  split at h
  · rw [← (Prod.mk.inj (Except.ok.inj h)).1, ← (Prod.mk.inj (Except.ok.inj h)).2]
  dsimp only at h
  split at h
  · cases h
  rename_i db₁ hwrite
  split at h
  · cases h
  rename_i db₂ n hdelete
  rcases writeMarkers_frame hJ _ _ hwrite with ⟨added, hrows, hadded, -⟩
  rcases auditLogSweepDelete_ok hdelete with ⟨-, -, hcount⟩
  rw [← (Prod.mk.inj (Except.ok.inj h)).1, ← (Prod.mk.inj (Except.ok.inj h)).2, hcount, hrows,
    length_append, hadded.length_eq]

end Sweep

end Waygate.Audit
