import Waygate.Theory.Audit.Segments
import Waygate.Theory.Audit.SweptLedger

/-!
# Recording on a Swept Ledger

A marker is a recorded row too, and the index holds the boundaries of its segment as
soon as it is written: the trigger on the table or, failing that, the sweep's own call
derives them from the payload.

## Main definitions

* `MarkersWritten`
* `recordedRow`: The row of an event.

## Theorems

* `insertChainedEvent_progress`, `writeMarker_ok`, `writeMarkers_represents`
-/

namespace Waygate.Audit

open Ledger List

section Database

variable {row : AuditLogRow} {J : ReasonJson} {db db' : AuditTables}

theorem insertBridge_ok {e : BridgeIndexEntry} (h : insertBridge db e = .ok db') :
    db'.auditLog = db.auditLog ∧ db.bridgeIndex <+: db'.bridgeIndex ∧
      (e.markerId ∉ db.bridgeIndex.map BridgeIndexEntry.markerId → e ∈ db'.bridgeIndex) := by
  unfold insertBridge at h
  split at h
  · grind
  · grind

theorem auditRetentionBridgeIndexMarker_ok {markerId : Uuid} {b : Bool}
    (h : auditRetentionBridgeIndexMarker J db markerId = .ok (db', b)) :
    db'.auditLog = db.auditLog ∧ db.bridgeIndex <+: db'.bridgeIndex := by
  unfold auditRetentionBridgeIndexMarker at h
  split at h
  · cases h
  split at h
  · cases h
  split at h
  · cases h
  dsimp only at h
  split at h
  · cases h
  split at h
  · -- A marker of unchained rows only has nothing to index.
    rw [← (Prod.mk.inj (Except.ok.inj h)).1]
    exact ⟨rfl, prefix_rfl⟩
  split at h
  · cases h
  split at h
  · cases h
  · rename_i db₁ hinsert
    rw [← (Prod.mk.inj (Except.ok.inj h)).1]
    exact ⟨(insertBridge_ok hinsert).1, (insertBridge_ok hinsert).2.1⟩

theorem insertAuditLog_of_fresh (J : ReasonJson) (row : AuditLogRow)
    (hfresh : row.columns.id ∉ db.auditLog.map (fun r => r.columns.id)) :
    ∃ db₁ : AuditTables, db₁.auditLog = db.auditLog ++ [row] ∧ db₁.bridgeIndex = db.bridgeIndex ∧
      insertAuditLog J db row = auditRetentionBridgeIndexAfterInsert J db₁ row := by
  rw [insertAuditLog, dif_neg hfresh]
  refine ⟨_, ?_, ?_, rfl⟩
  · rfl
  · rfl

theorem insertAuditLog_cases (h : insertAuditLog J db row = .ok db') :
    row.columns.id ∉ db.auditLog.map (fun r => r.columns.id) ∧
      ∃ db₁ : AuditTables, db₁.auditLog = db.auditLog ++ [row] ∧ db₁.bridgeIndex = db.bridgeIndex ∧
        (db' = db₁ ∨ ∃ b, auditRetentionBridgeIndexMarker J db₁ row.columns.id = .ok (db', b)) := by
  by_cases hkey : row.columns.id ∈ db.auditLog.map (fun r => r.columns.id)
  · rw [insertAuditLog, dif_pos hkey] at h
    cases h
  · rcases insertAuditLog_of_fresh J row hkey with ⟨db₁, hrows, hindex, hinsert⟩
    rw [hinsert] at h
    refine ⟨hkey, db₁, hrows, hindex, ?_⟩
    unfold auditRetentionBridgeIndexAfterInsert at h
    split at h
    · grind
    · exact .inl (Except.ok.inj h).symm

theorem insertAuditLog_ok (h : insertAuditLog J db row = .ok db') :
    db'.auditLog = db.auditLog ++ [row] ∧ db.bridgeIndex <+: db'.bridgeIndex := by
  rcases insertAuditLog_cases h with ⟨-, db₁, hrows, hindex, heq | ⟨b, hmarker⟩⟩
  · rw [heq, hindex]
    exact ⟨hrows, prefix_rfl⟩
  · rcases auditRetentionBridgeIndexMarker_ok hmarker with ⟨hrows', hgrow⟩
    exact ⟨hrows'.trans hrows, hindex ▸ hgrow⟩

theorem auditLogSweepDelete_ok {tenant : String} {ids markerIds : List Uuid} {n : Nat}
    (h : auditLogSweepDelete J db tenant ids markerIds = .ok (db', n)) :
    db'.auditLog = db.auditLog.filter (fun r => ¬ (r.columns.tenant = tenant ∧ r.columns.id ∈ ids
        ∧ r.category ≠ some RetentionMarker.KIND)) ∧
      db'.bridgeIndex = db.bridgeIndex ∧ db'.auditLog.length + n = db.auditLog.length := by
  unfold auditLogSweepDelete at h
  split at h
  · rename_i hlen
    rw [← (Prod.mk.inj (Except.ok.inj h)).1, ← (Prod.mk.inj (Except.ok.inj h)).2,
      length_eq_zero_iff.mp hlen]
    refine ⟨(filter_eq_self.mpr (fun r _ => ?_)).symm, rfl, rfl⟩
    simp
  split at h
  · cases h
  split at h
  · cases h
  dsimp only at h
  split at h
  · cases h
  split at h
  · rw [← (Prod.mk.inj (Except.ok.inj h)).1, ← (Prod.mk.inj (Except.ok.inj h)).2]
    exact ⟨rfl, rfl, Nat.add_sub_of_le (length_filter_le _ _)⟩
  · cases h

end Database

section Payload

variable {row : AuditLogRow} {J : ReasonJson} {db : AuditTables}

theorem fieldText_kind (m : RetentionMarker) :
    fieldText J (some (markerJson m)) "kind" = some m.kind :=
  rfl

theorem markerJson_deletedRows (m : RetentionMarker) :
    (markerJson m).get "deleted_rows" = some (.array (m.deletedRows.map (fun d =>
      .object [("prev_hash", optJson .string d.prevHash), ("row_hash", .string d.rowHash)]))) :=
  rfl

theorem fieldText_deletedRow (d : DeletedRow) :
    fieldText J (some (.object [("prev_hash", optJson .string d.prevHash),
        ("row_hash", .string d.rowHash)])) "prev_hash" = d.prevHash ∧
    fieldText J (some (.object [("prev_hash", optJson .string d.prevHash),
        ("row_hash", .string d.rowHash)])) "row_hash" = some d.rowHash := by
  cases hd : d.prevHash with
  | none => exact ⟨rfl, rfl⟩
  | some p => exact ⟨rfl, rfl⟩

/-- The boundaries that are indexed are those of the payload. -/
theorem auditRetentionBridgeIndexMarker_payload (hJ : J.Faithful) {p : RetentionMarker}
    {b : RetentionBridge} (hrow : row ∈ db.auditLog)
    (hcat : row.category = some RetentionMarker.KIND) (hhash : row.rowHash.isSome)
    (hreason : row.columns.reason = some (J.toReason p)) (hkind : p.kind = RetentionMarker.KIND)
    (hb : p.bridge = some b) :
    auditRetentionBridgeIndexMarker J db row.columns.id =
      if b.endHash = "" then
        .error (.raiseException "retention bridge index: final row_hash is required")
      else (insertBridge db
          { markerId := row.columns.id
            tenantId := row.columns.tenant
            startHash := b.start
            endHash := b.endHash }).map (·, true) := by
  unfold RetentionMarker.bridge at hb
  split at hb
  · rename_i first last hfirst hlast
    rw [← Option.some.inj hb]
    -- The first and the last row of the payload are the ones the SQL reads.
    have hne : p.deletedRows.length ≠ 0 := by grind
    unfold auditRetentionBridgeIndexMarker
    rw [find?_eq_some_of_id hrow (decide_eq_true ⟨rfl, hcat, hhash, by rw [hreason]; rfl⟩)
      (fun r hr => (of_decide_eq_true hr).1)]
    simp only [hreason, Option.getD_some, hJ.jsonb_toReason, fieldText_kind, hkind, Option.any_some,
      ne_eq, not_true_eq_false, decide_false, Bool.false_eq_true, if_false, markerJson_deletedRows,
      notArray, arrayLength, length_map, Option.some.injEq, hne, Option.bind_some, Json.item,
      getElem?_map, ← head?_eq_getElem?, head?_map, ← getLast?_eq_getElem?,
      hfirst, hlast, Option.map_some, (fieldText_deletedRow _).1, (fieldText_deletedRow _).2]
    congr 1
    cases insertBridge db ⟨row.columns.id, row.columns.tenant, first.prevHash, last.rowHash⟩ <;> rfl
  · cases hb

theorem bridge_mem_of_indexed (hJ : J.Faithful) {db' : AuditTables} {p : RetentionMarker}
    {b : RetentionBridge} {flag : Bool} (hrow : row ∈ db.auditLog)
    (hcat : row.category = some RetentionMarker.KIND) (hhash : row.rowHash.isSome)
    (hreason : row.columns.reason = some (J.toReason p)) (hkind : p.kind = RetentionMarker.KIND)
    (hb : p.bridge = some b) (hnew : row.columns.id ∉ db.bridgeIndex.map BridgeIndexEntry.markerId)
    (h : auditRetentionBridgeIndexMarker J db row.columns.id = .ok (db', flag)) :
    { markerId := row.columns.id
      tenantId := row.columns.tenant
      startHash := b.start
      endHash := b.endHash } ∈ db'.bridgeIndex := by
  rw [auditRetentionBridgeIndexMarker_payload hJ hrow hcat hhash hreason hkind hb] at h
  split at h
  · cases h
  unfold Except.map at h
  split at h
  · cases h
  · rename_i db₁ hinsert
    rw [← (Prod.mk.inj (Except.ok.inj h)).1]
    exact (insertBridge_ok hinsert).2.2 hnew

/-- Writing a marker adds its row, and leaves the boundaries of its segment in
    the index. -/
theorem writeMarker_ok {sha256 : List UInt8 → List UInt8} (hJ : J.Faithful) {db' : AuditTables}
    {tenantId : String} {chainHead : Option String} {stamp : MarkerStamp}
    {payload : RetentionMarker}
    {rowHash : String}
    (h : writeMarker sha256 J db tenantId chainHead stamp payload = .ok (db', rowHash)) :
    rowHash = computeRowHash sha256 chainHead
        (canonicalAuditBytes (markerColumns tenantId (J.toReason payload) stamp)) ∧
      db'.auditLog = db.auditLog ++ [storedRow (markerColumns tenantId (J.toReason payload) stamp)
        stamp.chainSeq chainHead (some rowHash)] ∧
      db.bridgeIndex <+: db'.bridgeIndex ∧
      (payload.kind = RetentionMarker.KIND → ∀ b, payload.bridge = some b →
        { markerId := stamp.id
          tenantId := tenantId
          startHash := b.start
          endHash := b.endHash } ∈ db'.bridgeIndex) := by
  unfold writeMarker at h
  dsimp only at h
  split at h
  · cases h
  rename_i db₁ hinsert
  split at h
  · cases h
  rename_i db₂ flag hindex
  rw [Except.ok.injEq, Prod.mk.injEq] at h
  rcases h with ⟨hdb, hhash⟩
  subst hdb hhash
  rcases insertAuditLog_ok hinsert with ⟨hrows, hgrow⟩
  rcases auditRetentionBridgeIndexMarker_ok hindex with ⟨hrows', hgrow'⟩
  refine ⟨rfl, hrows'.trans hrows, hgrow.trans hgrow', fun hkind b hb => ?_⟩
  rcases insertAuditLog_cases hinsert with ⟨hfresh, db₀, hrows₀, hindex₀, hcase⟩
  -- An entry refers to a row, so no entry can wait for the marker's new id.
  have hnew : stamp.id ∉ db₀.bridgeIndex.map BridgeIndexEntry.markerId := by
    intro hmem
    rw [hindex₀] at hmem
    rcases mem_map.mp hmem with ⟨e, he, heid⟩
    have href := db.reference e he
    rw [heid] at href
    exact hfresh href
  have hlast : ∀ {l : List AuditLogRow} {r : AuditLogRow}, r ∈ l ++ [r] :=
    mem_append_right _ mem_cons_self
  rcases hcase with heq | ⟨flag', hmarker⟩
  · -- The trigger skipped the row, and the explicit call indexes it.
    subst heq
    exact bridge_mem_of_indexed hJ (hrows₀ ▸ hlast) rfl rfl rfl hkind hb hnew hindex
  · have hmem := bridge_mem_of_indexed hJ (hrows₀ ▸ hlast) rfl rfl rfl hkind hb hnew hmarker
    exact hgrow'.subset hmem

end Payload

section Frame

variable {added : List AuditLogRow} {fromStr : String → Option RetentionMarker}
  {db db' : AuditTables} {tenantId : String}

theorem Attests.mono {m : Mark} (h : Attests fromStr db tenantId m)
    (hmarkers : ∀ l ∈ db.auditLog, l.category = some RetentionMarker.KIND → l ∈ db'.auditLog)
    (hindex : ∀ e ∈ db.bridgeIndex, e ∈ db'.bridgeIndex) : Attests fromStr db' tenantId m := by
  rcases h.stored with ⟨l, hl, hten, hcat, hrow⟩
  exact ⟨⟨l, hmarkers l hl hcat, hten, hcat, hrow⟩, h.payload,
    fun first hfirst last hlast => hindex _ (h.indexed first hfirst last hlast)⟩

theorem Represents.mono {sha256 : List UInt8 → List UInt8} {L : SweptLedger sha256}
    (h : Represents fromStr db tenantId L)
    (hchain : chainedRows db' tenantId = chainedRows db tenantId)
    (hmarkers : ∀ l ∈ db.auditLog, l.category = some RetentionMarker.KIND → l ∈ db'.auditLog)
    (hindex : ∀ e ∈ db.bridgeIndex, e ∈ db'.bridgeIndex) : Represents fromStr db' tenantId L :=
  ⟨hchain ▸ h.stored, fun m hm => (h.attested m hm).mono hmarkers hindex⟩

theorem chainedRows_append (hrows : db'.auditLog = db.auditLog ++ added) :
    chainedRows db' tenantId = chainedRows db tenantId
      ++ (added.filter (fun r => r.columns.tenant = tenantId)).filterMap
        AuditLogRow.toChainVerifyRow := by
  rw [chainedRows, hrows, filter_append, filterMap_append]
  rfl

theorem chainedRows_append_of_other (hrows : db'.auditLog = db.auditLog ++ added)
    (hother : ∀ l ∈ added, l.columns.tenant ≠ tenantId ∨ l.rowHash = none) :
    chainedRows db' tenantId = chainedRows db tenantId := by
  have hnil : (added.filter (fun r => r.columns.tenant = tenantId)).filterMap
      AuditLogRow.toChainVerifyRow = [] := by
    refine filterMap_eq_nil_iff.mpr (fun l hl => ?_)
    rcases mem_filter.mp hl with ⟨hl, hten⟩
    rcases hother l hl with hne | hnone
    · exact absurd (of_decide_eq_true hten) hne
    · rw [AuditLogRow.toChainVerifyRow, hnone, Option.map_none]
  rw [chainedRows_append hrows, hnil, append_nil]

theorem Represents.append_other {sha256 : List UInt8 → List UInt8} {L : SweptLedger sha256}
    (h : Represents fromStr db tenantId L) (hrows : db'.auditLog = db.auditLog ++ added)
    (hother : ∀ l ∈ added, l.columns.tenant ≠ tenantId ∨ l.rowHash = none)
    (hindex : db.bridgeIndex <+: db'.bridgeIndex) : Represents fromStr db' tenantId L :=
  h.mono (chainedRows_append_of_other hrows hother)
    (fun _ hl _ => hrows ▸ mem_append_left _ hl) (fun _ he => hindex.subset he)

end Frame

section Recording

variable {sha256 : List UInt8 → List UInt8} {fromStr : String → Option RetentionMarker}
  {db db' : AuditTables} {tenantId : String} {L : SweptLedger sha256}

def recordedRow (sha256 : List UInt8 → List UInt8) (c : AuditColumns) (chainSeq : Int)
    (prevHash : Option String) : ChainVerifyRow :=
  sealedRow sha256 { c with ts := c.ts.truncMicros } chainSeq prevHash

theorem storedRow_toChainVerifyRow (c : AuditColumns) (chainSeq : Int) (prevHash : Option String) :
    (storedRow c chainSeq prevHash (some (computeRowHash sha256 prevHash
      (canonicalAuditBytesWithExt5 c)))).toChainVerifyRow
      = some (recordedRow sha256 c chainSeq prevHash) := by
  have hbytes : canonicalAuditBytesWithExt5 c
      = canonicalAuditBytesWithExt5 { c with ts := c.ts.truncMicros } :=
    canonicalAuditBytesWithExt5_congr _ _ ⟨c.ts.truncMicros_unixMicros.symm, rfl⟩
  rw [hbytes]
  rfl

theorem recordedRow_hashed (c : AuditColumns) (chainSeq : Int) (prevHash : Option String) :
    recomputeRowHash sha256 (recordedRow sha256 c chainSeq prevHash)
      = (recordedRow sha256 c chainSeq prevHash).rowHash :=
  rfl

theorem Represents.selectPrevHash (h : Represents fromStr db tenantId L) :
    selectPrevHash db tenantId = cursor ChainVerifyRow.rowHash L.history := by
  rw [Audit.selectPrevHash, orderedChain_eq h, L.getLast?_survivors, cursor]

theorem Represents.append (h : Represents fromStr db tenantId L) {l : AuditLogRow}
    {row : ChainVerifyRow} (hten : l.columns.tenant = tenantId)
    (hrow : l.toChainVerifyRow = some row)
    (hprev : row.prevHash = cursor ChainVerifyRow.rowHash L.history)
    (hhash : recomputeRowHash sha256 row = row.rowHash)
    (hseq : ∀ r ∈ L.history, r.chainSeq < row.chainSeq)
    (hrows : db'.auditLog = db.auditLog ++ [l]) (hindex : db.bridgeIndex <+: db'.bridgeIndex) :
    Represents fromStr db' tenantId (L.append row hprev hhash hseq) := by
  refine ⟨?_, fun m hm => ?_⟩
  · rw [L.survivors_append, chainedRows_append hrows]
    refine h.stored.append (List.Perm.of_eq ?_)
    simp [hten, hrow]
  · exact (h.attested m hm).mono (fun _ hl _ => hrows ▸ mem_append_left _ hl)
      (fun _ he => hindex.subset he)

/-- A fresh event that is no marker is recorded at the head. -/
theorem insertChainedEvent_progress (sha256 : List UInt8 → List UInt8) (J : ReasonJson)
    {event : AuditEvent}
    (hfresh : event.id ∉ db.auditLog.map (fun r => r.columns.id))
    (hcat : event.category ≠ .retentionSweep) (chainSeq : Int) :
    ∃ db', insertChainedEvent sha256 J db event chainSeq = .ok db' ∧
      db'.auditLog = db.auditLog ++ [storedRow event.columns chainSeq
        (Audit.selectPrevHash db event.tenant) (some (computeRowHash sha256
          (Audit.selectPrevHash db event.tenant) (canonicalAuditBytesWithExt5 event.columns)))] ∧
      db'.bridgeIndex = db.bridgeIndex := by
  rw [insertChainedEvent, insertEvent]
  rcases insertAuditLog_of_fresh J (storedRow event.columns chainSeq
    (Audit.selectPrevHash db event.tenant) (some (computeRowHash sha256
      (Audit.selectPrevHash db event.tenant) (canonicalAuditBytesWithExt5 event.columns)))) hfresh
    with ⟨db₁, hrows, hindex, hinsert⟩
  refine ⟨db₁, ?_, hrows, hindex⟩
  have hkind : event.category.asStr ≠ RetentionMarker.KIND := by
    revert hcat
    cases event.category <;> decide
  rw [hinsert, auditRetentionBridgeIndexAfterInsert, if_neg (fun h => hkind (Option.some.inj h.1))]

end Recording

section Markers

variable {sha256 : List UInt8 → List UInt8} {J : ReasonJson} {db db' : AuditTables}
  {tenantId : String}

theorem canonicalAuditBytes_markerColumns (reason : String) (stamp : MarkerStamp) :
    canonicalAuditBytes (markerColumns tenantId reason stamp)
      = canonicalAuditBytesWithExt5 (markerColumns tenantId reason stamp) := by
  simp only [canonicalAuditBytesWithExt5, canonicalAuditBytesWithExt4, canonicalAuditBytesWithExt3,
    markerColumns, append_nil]
  rfl

theorem forall₂_getElem? {α β : Type} {R : α → β → Prop} {l : List α} {m : List β}
    (h : List.Forall₂ R l m) {i : Nat} {b : β} (hb : m[i]? = some b) :
    ∃ a, l[i]? = some a ∧ R a b := by
  induction h generalizing i with
  | nil => cases hb
  | @cons a b' l m hab _ ih => grind

structure MarkerRow (J : ReasonJson) (tenantId : String) (w : MarkerStamp × RetentionMarker)
    (l : AuditLogRow) : Prop where
  id : l.columns.id = w.1.id
  tenant : l.columns.tenant = tenantId
  category : l.category = some RetentionMarker.KIND
  reason : l.columns.reason = some (J.toReason w.2)
  chained : l.rowHash.isSome

theorem writeMarkers_frame (hJ : J.Faithful) (markers : List (MarkerStamp × RetentionMarker))
    (chainHead : Option String)
    (h : writeMarkers sha256 J tenantId markers db chainHead = .ok db') :
    ∃ added, db'.auditLog = db.auditLog ++ added ∧
      List.Forall₂ (MarkerRow J tenantId) markers added ∧ db.bridgeIndex <+: db'.bridgeIndex := by
  induction markers generalizing db chainHead with
  | nil =>
    rw [← Except.ok.inj h]
    exact ⟨[], (append_nil _).symm, List.Forall₂.nil, prefix_rfl⟩
  | cons marker markers ih =>
    rw [writeMarkers] at h
    split at h
    · cases h
    rename_i db₁ rowHash hwrite
    rcases writeMarker_ok hJ hwrite with ⟨-, hrows, hindex, -⟩
    rcases ih (some rowHash) h with ⟨added, hrows', hadded, hindex'⟩
    refine ⟨storedRow (markerColumns tenantId (J.toReason marker.2) marker.1) marker.1.chainSeq
      chainHead (some rowHash) :: added, ?_, ?_, hindex.trans hindex'⟩
    · rw [hrows', hrows, append_assoc, singleton_append]
    · exact List.Forall₂.cons ⟨rfl, rfl, rfl, rfl, rfl⟩ hadded

structure Written (J : ReasonJson) (db : AuditTables) (tenantId : String)
    (w : MarkerStamp × RetentionMarker) (r : ChainVerifyRow) : Prop where
  stored : ∃ l ∈ db.auditLog, l.columns.tenant = tenantId ∧ l.category = some RetentionMarker.KIND
    ∧ l.toChainVerifyRow = some r
  reason : r.reason = some (J.toReason w.2)
  chainSeq : r.chainSeq = w.1.chainSeq
  indexed : ∀ b, w.2.bridge = some b →
    { markerId := r.id, tenantId := tenantId, startHash := b.start, endHash := b.endHash }
      ∈ db.bridgeIndex

/-- A ledger that its tables' tenant has extended by marker rows. -/
structure MarkersWritten (J : ReasonJson) (db : AuditTables) (tenantId : String)
    (markers : List (MarkerStamp × RetentionMarker)) (L L' : SweptLedger sha256)
    (rows : List ChainVerifyRow) : Prop where
  represents : Represents J.fromStr db tenantId L'
  marks : L'.marks = L.marks
  history : L'.history = L.history ++ rows
  written : List.Forall₂ (Written J db tenantId) markers rows

/-- One marker after another, by induction. -/
theorem writeMarkers_represents (hJ : J.Faithful) (markers : List (MarkerStamp × RetentionMarker))
    (L : SweptLedger sha256) (hrep : Represents J.fromStr db tenantId L)
    (hkind : ∀ w ∈ markers, w.2.kind = RetentionMarker.KIND)
    (hnew : ∀ w ∈ markers, ∀ r ∈ L.history, r.chainSeq < w.1.chainSeq)
    (hord : markers.Pairwise (fun w w' => w.1.chainSeq < w'.1.chainSeq))
    (h : writeMarkers sha256 J tenantId markers db (cursor ChainVerifyRow.rowHash L.history)
      = .ok db') :
    ∃ (L' : SweptLedger sha256) (rows : List ChainVerifyRow),
      MarkersWritten J db' tenantId markers L L' rows := by
  induction markers generalizing db L with
  | nil =>
    rw [← Except.ok.inj h]
    exact ⟨L, [], hrep, rfl, (append_nil _).symm, List.Forall₂.nil⟩
  | cons marker markers ih =>
    rw [writeMarkers] at h
    split at h
    · cases h
    rename_i db₁ rowHash hwrite
    rcases writeMarker_ok hJ hwrite with ⟨hhash, hrows, hindex, hbridge⟩
    rw [canonicalAuditBytes_markerColumns] at hhash
    rcases writeMarkers_frame hJ markers (some rowHash) h with ⟨added, hrows', -, hindex'⟩
    rcases pairwise_cons.mp hord with ⟨hfirst, hord'⟩
    -- The marker's row, as the verifier will decode it.
    obtain ⟨row, hdef⟩ : ∃ row, row = recordedRow sha256
        (markerColumns tenantId (J.toReason marker.2) marker.1) marker.1.chainSeq
        (cursor ChainVerifyRow.rowHash L.history) := ⟨_, rfl⟩
    have hrow : (storedRow (markerColumns tenantId (J.toReason marker.2) marker.1)
        marker.1.chainSeq (cursor ChainVerifyRow.rowHash L.history) (some rowHash)).toChainVerifyRow
        = some row := by
      rw [hhash, hdef]
      exact storedRow_toChainVerifyRow _ _ _
    have hprev : row.prevHash = cursor ChainVerifyRow.rowHash L.history := by
      rw [hdef]
      rfl
    have hsealed : recomputeRowHash sha256 row = row.rowHash := by
      rw [hdef]
      exact recordedRow_hashed _ _ _
    have hchainSeq : row.chainSeq = marker.1.chainSeq := by
      rw [hdef]
      rfl
    have hseq : ∀ r ∈ L.history, r.chainSeq < row.chainSeq := by
      rw [hchainSeq]
      exact hnew marker mem_cons_self
    have hcur : some rowHash
        = cursor ChainVerifyRow.rowHash (L.append row hprev hsealed hseq).history := by
      rcases Option.map_eq_some_iff.mp hrow with ⟨v, hv, hrowv⟩
      rw [Option.some.inj (hv : some rowHash = some v)]
      exact (congrArg some (congrArg ChainVerifyRow.rowHash hrowv)).trans
        (cursor_append_singleton _ _ _).symm
    have hnew' : ∀ w ∈ markers, ∀ r ∈ (L.append row hprev hsealed hseq).history,
        r.chainSeq < w.1.chainSeq := by
      intro w hw r hr
      rcases mem_append.mp hr with hr | hr
      · exact hnew w (mem_cons_of_mem _ hw) r hr
      · rw [mem_singleton.mp hr, hchainSeq]
        exact hfirst w hw
    rw [hcur] at h
    rcases ih (L.append row hprev hsealed hseq)
      (hrep.append rfl hrow hprev hsealed hseq hrows hindex)
      (fun w hw => hkind w (mem_cons_of_mem _ hw)) hnew' hord' h with ⟨L', rows, hwritten⟩
    refine ⟨L', row :: rows, hwritten.represents, hwritten.marks, ?_,
      List.Forall₂.cons ⟨⟨_, ?_, rfl, rfl, hrow⟩, ?_, hchainSeq, fun b hb => ?_⟩
        hwritten.written⟩
    · rw [hwritten.history]
      exact append_assoc _ _ _
    · rw [hrows', hrows]
      exact mem_append_left _ (mem_append_right _ mem_cons_self)
    · rw [hdef]
      rfl
    · have hid : row.id = marker.1.id := by
        rw [hdef]
        rfl
      rw [hid]
      exact hindex'.subset (hbridge (hkind marker mem_cons_self) b hb)

end Markers

end Waygate.Audit
