import Waygate.Theory.Audit.HeadCommits
import Waygate.Theory.Audit.Paging
import Waygate.Theory.Ledger.Segments

/-!
# Swept Ledgers Verify

What retention leaves behind, described without the tables: the chain as it was written,
the segments deleted from it, and the marker rows that attest them. A marker is itself a
row with a gap before it, but it is written after the rows it attests and never deleted,
so the markers of a gap all stand after it.

## Main definitions

* `SweptLedger`, `Represents`
* `SweptLedger.sweep`: A further sweep.

## Theorems

* `survivor_firstPath`, `justified_of_mark`, `verifyChain_represents`
-/

namespace Waygate.Audit

open Ledger Reach List

structure Mark where
  marker : ChainVerifyRow
  segment : List ChainVerifyRow

def sweptRows (marks : List Mark) : List ChainVerifyRow :=
  (marks.map Mark.segment).flatten

variable {r row : ChainVerifyRow} {before after : List ChainVerifyRow} {m : Mark}

theorem mem_sweptRows {marks : List Mark} :
    r ∈ sweptRows marks ↔ ∃ m ∈ marks, r ∈ m.segment := by
  simp [sweptRows]

/-- A chain as it was written, with the segments deleted from it. The last row
    is never deleted, and a marker is a survivor that comes after the segment
    it attests. -/
structure SweptLedger (sha256 : List UInt8 → List UInt8) where
  history : List ChainVerifyRow
  marks : List Mark
  linked : Linked ChainVerifyRow.prevHash ChainVerifyRow.rowHash history
  hashed : ∀ r ∈ history, recomputeRowHash sha256 r = r.rowHash
  ordered : history.Pairwise (fun a b => a.chainSeq < b.chainSeq)
  tiled : Tiled history (marks.map Mark.segment)
  head : ∀ r ∈ history.getLast?, r ∉ sweptRows marks
  live : ∀ m ∈ marks, m.marker ∈ history ∧ m.marker ∉ sweptRows marks
  later : ∀ m ∈ marks, ∀ r ∈ m.segment, r.chainSeq < m.marker.chainSeq

section Ledger

variable {sha256 : List UInt8 → List UInt8} (L : SweptLedger sha256)

def SweptLedger.survivors : List ChainVerifyRow :=
  L.history.filter (fun r => r ∉ sweptRows L.marks)

theorem SweptLedger.mem_survivors :
    r ∈ L.survivors ↔ r ∈ L.history ∧ r ∉ sweptRows L.marks := by
  simp [survivors]

theorem SweptLedger.nodup (hdig : Digest sha256) :
    (L.history.map ChainVerifyRow.rowHash).Nodup := by
  have hhex : ∀ r ∈ L.history, HexHash r.prevHash := by
    intro r hr h hh
    rcases append_of_mem hr with ⟨before, after, hsplit⟩
    rw [L.linked before r after hsplit] at hh
    rcases eq_nil_or_concat before with hnil | ⟨init, p, hbefore⟩
    · rw [hnil] at hh
      cases hh
    · rw [concat_eq_append] at hbefore
      have hp : p ∈ L.history := by grind
      rw [hbefore, cursor_append_singleton, ← L.hashed p hp] at hh
      exact hexHash_computeRowHash hdig _ _ h hh
  refine linked_nodup L.linked (fun a ha b hb hab => ?_)
  rw [← L.hashed a ha, ← L.hashed b hb] at hab
  exact (computeRowHash_inj hdig _ _ (hhex a ha) (hhex b hb) _ _ hab).1

theorem SweptLedger.rowHash_ne_empty (hdig : Digest sha256) (hr : r ∈ L.history) :
    r.rowHash ≠ "" := by
  rw [← L.hashed r hr]
  exact hexEncode_ne_empty _ (hdig.nonempty _)

theorem SweptLedger.chainSeq_inj {a b : ChainVerifyRow} (ha : a ∈ L.history) (hb : b ∈ L.history)
    (hab : a.chainSeq = b.chainSeq) : a = b :=
  inj_on_of_nodup_map (pairwise_map.mpr (L.ordered.imp ne_of_lt)) ha hb hab

theorem SweptLedger.mem_before (hsplit : L.history = before ++ row :: after) (hr : r ∈ L.history) :
    r ∈ before ↔ r.chainSeq < row.chainSeq := by
  have hord := L.ordered
  rw [hsplit] at hr hord
  rw [pairwise_append, pairwise_cons] at hord
  constructor
  · intro h
    exact hord.2.2 r h row mem_cons_self
  · grind

end Ledger

section Operations

variable {sha256 : List UInt8 → List UInt8} (L : SweptLedger sha256)

theorem SweptLedger.mem_of_swept (hr : r ∈ sweptRows L.marks) :
    r ∈ L.history := by
  rcases mem_sweptRows.mp hr with ⟨m, hm, hrm⟩
  exact (L.tiled.consecutive m.segment (mem_map_of_mem hm)).subset hrm

theorem SweptLedger.getLast?_survivors : L.survivors.getLast? = L.history.getLast? := by
  rcases eq_nil_or_concat L.history with hnil | ⟨init, r, hhist⟩
  · rw [survivors, hnil, filter_nil]
  · rw [concat_eq_append] at hhist
    have hlast : L.history.getLast? = some r := by rw [hhist, getLast?_concat]
    have hlive := L.head r hlast
    rw [survivors, hlast, hhist, filter_append]
    simp [hlive]

theorem SweptLedger.lt_of_survivors {chainSeq : Int}
    (h : ∀ r ∈ L.survivors, r.chainSeq < chainSeq) : ∀ r ∈ L.history, r.chainSeq < chainSeq := by
  intro r hr
  rcases eq_nil_or_concat L.history with hnil | ⟨init, last, hhist⟩
  · rw [hnil] at hr
    cases hr
  · rw [concat_eq_append] at hhist
    have hlast : L.history.getLast? = some last := by rw [hhist, getLast?_concat]
    have hmem : last ∈ L.survivors :=
      L.mem_survivors.mpr ⟨mem_of_mem_getLast? hlast, L.head last hlast⟩
    have hlt := h last hmem
    have hord := L.ordered
    rw [hhist, pairwise_append] at hord
    rw [hhist] at hr
    rcases mem_append.mp hr with hr | hr
    · have := hord.2.2 r hr last mem_cons_self
      omega
    · rw [mem_singleton.mp hr]
      exact hlt

def SweptLedger.append (row : ChainVerifyRow)
    (hprev : row.prevHash = cursor ChainVerifyRow.rowHash L.history)
    (hhash : recomputeRowHash sha256 row = row.rowHash)
    (hseq : ∀ r ∈ L.history, r.chainSeq < row.chainSeq) : SweptLedger sha256 where
  history := L.history ++ [row]
  marks := L.marks
  linked := linked_append_singleton.mpr ⟨L.linked, hprev⟩
  hashed := by
    intro r hr
    rcases List.mem_append.mp hr with hr | hr
    · exact L.hashed r hr
    · rw [List.mem_singleton.mp hr]
      exact hhash
  ordered := by
    refine List.pairwise_append.mpr ⟨L.ordered, List.pairwise_singleton _ _, fun a ha b hb => ?_⟩
    rw [List.mem_singleton.mp hb]
    exact hseq a ha
  tiled := ⟨L.tiled.nonempty, fun s hs => (L.tiled.consecutive s hs).trans
    (List.prefix_append _ _).isInfix, L.tiled.disjoint⟩
  head := by
    intro r hr hswept
    rw [List.getLast?_concat] at hr
    have := hseq r (L.mem_of_swept hswept)
    rw [← Option.some.inj hr] at this
    omega
  live := fun m hm => ⟨List.mem_append_left _ (L.live m hm).1, (L.live m hm).2⟩
  later := L.later

theorem SweptLedger.survivors_append (row : ChainVerifyRow)
    (hprev : row.prevHash = cursor ChainVerifyRow.rowHash L.history)
    (hhash : recomputeRowHash sha256 row = row.rowHash)
    (hseq : ∀ r ∈ L.history, r.chainSeq < row.chainSeq) :
    (L.append row hprev hhash hseq).survivors = L.survivors ++ [row] := by
  have hlive : row ∉ sweptRows L.marks :=
    (L.append row hprev hhash hseq).head row getLast?_concat
  show (L.history ++ [row]).filter (fun r => decide (r ∉ sweptRows L.marks)) = L.survivors ++ [row]
  rw [filter_append]
  simp [hlive, survivors]

theorem sweptRows_append (ms ms' : List Mark) :
    sweptRows (ms ++ ms') = sweptRows ms ++ sweptRows ms' := by
  rw [sweptRows, map_append, flatten_append]
  rfl

/-- What new marks must satisfy: their segments are runs of survivors other
    than the last row, and their markers are survivors after them. No marker,
    old or new, is in a segment. -/
structure SweptLedger.Sweepable (marks : List Mark) : Prop where
  tiled : Tiled L.history (marks.map Mark.segment)
  present : ∀ r ∈ sweptRows marks, r ∉ sweptRows L.marks
  head : ∀ r ∈ L.history.getLast?, r ∉ sweptRows marks
  live : ∀ m ∈ marks, m.marker ∈ L.survivors
  kept : ∀ m ∈ L.marks ++ marks, m.marker ∉ sweptRows marks
  later : ∀ m ∈ marks, ∀ r ∈ m.segment, r.chainSeq < m.marker.chainSeq

def SweptLedger.sweep (marks : List Mark) (h : L.Sweepable marks) : SweptLedger sha256 where
  history := L.history
  marks := L.marks ++ marks
  linked := L.linked
  hashed := L.hashed
  ordered := L.ordered
  tiled := by
    refine ⟨fun s hs => ?_, fun s hs => ?_, ?_⟩
    · rw [List.map_append] at hs
      rcases List.mem_append.mp hs with hs | hs
      · exact L.tiled.nonempty s hs
      · exact h.tiled.nonempty s hs
    · rw [List.map_append] at hs
      rcases List.mem_append.mp hs with hs | hs
      · exact L.tiled.consecutive s hs
      · exact h.tiled.consecutive s hs
    · rw [List.map_append, List.flatten_append]
      refine List.nodup_append.mpr ⟨L.tiled.disjoint, h.tiled.disjoint, fun a ha b hb hab => ?_⟩
      exact h.present b hb (hab ▸ ha)
  head := by
    intro r hr
    rw [sweptRows_append, List.mem_append, not_or]
    exact ⟨L.head r hr, h.head r hr⟩
  live := by
    intro m hm
    rw [sweptRows_append, List.mem_append, not_or]
    have hkept := h.kept m hm
    rcases List.mem_append.mp hm with hm | hm
    · exact ⟨(L.live m hm).1, (L.live m hm).2, hkept⟩
    · rcases L.mem_survivors.mp (h.live m hm) with ⟨hhist, hlive⟩
      exact ⟨hhist, hlive, hkept⟩
  later := by
    intro m hm
    rcases List.mem_append.mp hm with hm | hm
    · exact L.later m hm
    · exact h.later m hm

theorem SweptLedger.survivors_sweep (marks : List Mark) (h : L.Sweepable marks) :
    (L.sweep marks h).survivors = L.survivors.filter (fun r => r ∉ sweptRows marks) := by
  show L.history.filter (fun r => decide (r ∉ sweptRows (L.marks ++ marks))) = _
  rw [survivors, filter_filter]
  refine filter_congr (fun r _ => ?_)
  simp only [sweptRows_append, mem_append, not_or, Bool.decide_and, Bool.and_comm]

end Operations

section Tables

variable (fromStr : String → Option RetentionMarker) (db : AuditTables) (tenantId : String)

def chainedRows : List ChainVerifyRow :=
  (db.auditLog.filter (fun r => r.columns.tenant = tenantId)).filterMap AuditLogRow.toChainVerifyRow

def ChainVerifyRow.deletedRow (r : ChainVerifyRow) : DeletedRow :=
  { prevHash := r.prevHash, rowHash := r.rowHash }

/-- The tables hold a mark: the marker row, a payload that lists the segment,
    and the index entry for its boundaries. -/
structure Attests (m : Mark) : Prop where
  stored : ∃ l ∈ db.auditLog, l.columns.tenant = tenantId ∧ l.category = some RetentionMarker.KIND
    ∧ l.toChainVerifyRow = some m.marker
  payload : ∃ p, m.marker.reason.bind (RetentionMarker.fromReason fromStr) = some p
    ∧ p.deletedRows = m.segment.map ChainVerifyRow.deletedRow
  indexed : ∀ first ∈ m.segment.head?, ∀ last ∈ m.segment.getLast?,
    { markerId := m.marker.id
      tenantId := tenantId
      startHash := first.prevHash
      endHash := last.rowHash } ∈ db.bridgeIndex

/-- The tables hold the survivors of a ledger and its marks. -/
structure Represents {sha256 : List UInt8 → List UInt8} (L : SweptLedger sha256) : Prop where
  stored : (chainedRows db tenantId).Perm L.survivors
  attested : ∀ m ∈ L.marks, Attests fromStr db tenantId m

end Tables

section Represents

variable {sha256 : List UInt8 → List UInt8} {fromStr : String → Option RetentionMarker}
  {db : AuditTables} {tenantId : String} {L : SweptLedger sha256}
  (h : Represents fromStr db tenantId L)

include h

/-- The chain in the tables is that of the survivors. -/
theorem orderedChain_eq : orderedChain db tenantId = L.survivors := by
  have hord : L.survivors.Pairwise (fun a b => a.chainSeq < b.chainSeq) :=
    L.ordered.filter _
  have hmem : ∀ {r}, r ∈ L.survivors → r ∈ L.history := fun hr => (L.mem_survivors.mp hr).1
  have hperm : (orderedChain db tenantId).Perm L.survivors :=
    (perm_insertionSort (fun a b : ChainVerifyRow => a.chainSeq ≤ b.chainSeq) _).trans h.stored
  refine List.Perm.eq_of_pairwise (fun a b ha hb hab hba => ?_)
    (pairwise_insertionSort (fun a b : ChainVerifyRow => a.chainSeq ≤ b.chainSeq) _)
    (hord.imp le_of_lt) hperm
  exact L.chainSeq_inj (hmem (hperm.mem_iff.mp ha)) (hmem hb) (le_antisymm hab hba)

theorem priorHash_survivors (hsplit : L.history = before ++ row :: after) :
    priorHash db tenantId row.chainSeq
      = cursor ChainVerifyRow.rowHash (before.filter (fun r => r ∉ sweptRows L.marks)) := by
  have hfilter : (orderedChain db tenantId).filter (fun r => r.chainSeq < row.chainSeq)
      = before.filter (fun r => r ∉ sweptRows L.marks) := by
    rw [orderedChain_eq h, SweptLedger.survivors, filter_filter]
    have hcongr : L.history.filter (fun r => decide (r.chainSeq < row.chainSeq)
        && decide (r ∉ sweptRows L.marks))
        = L.history.filter (fun r => decide (r ∈ before) && decide (r ∉ sweptRows L.marks)) := by
      refine filter_congr (fun r hr => ?_)
      rw [decide_eq_decide.mpr (L.mem_before hsplit hr)]
    have hlast : (row :: after).filter (fun r => decide (r ∈ before)
        && decide (r ∉ sweptRows L.marks)) = [] := by
      refine filter_eq_nil_iff.mpr (fun r hr => ?_)
      have hmem : r ∈ L.history := hsplit ▸ mem_append_right before hr
      have hord := L.ordered
      rw [hsplit, pairwise_append, pairwise_cons] at hord
      have hnot : r ∉ before := by grind
      simp [hnot]
    rw [hcongr, hsplit, filter_append, hlast, append_nil]
    refine filter_congr (fun r hr => ?_)
    simp [hr]
  rw [priorHash, hfilter, cursor]

end Represents

section Candidates

variable (sha256 : List UInt8 → List UInt8) (fromStr : String → Option RetentionMarker)
  (db : AuditTables) (tenantId : String)

def CandidateOf (m : Mark) (c : RetentionBridgeCandidate) : Prop :=
  ∃ e ∈ indexEntries db tenantId, e.markerId = m.marker.id ∧
    indexCandidate sha256 fromStr db tenantId e = some c

variable {sha256 fromStr db tenantId}

theorem candidateOf_inj {m' : Mark} {c c' : RetentionBridgeCandidate}
    (hc : CandidateOf sha256 fromStr db tenantId m c)
    (hc' : CandidateOf sha256 fromStr db tenantId m' c') (hm : m.marker = m'.marker) : c = c' := by
  rcases hc with ⟨e, he, heid, hcand⟩
  rcases hc' with ⟨e', he', heid', hcand'⟩
  have hee : e = e' := inj_on_of_nodup_map db.markerKey
    ((mem_indexEntries db tenantId e).mp he).1 ((mem_indexEntries db tenantId e').mp he').1
    (by rw [heid, heid', hm])
  rw [hee, hcand', Option.some.injEq] at hcand
  exact hcand.symm

theorem edge_candidateOf {c : RetentionBridgeCandidate}
    (hc : CandidateOf sha256 fromStr db tenantId m c) :
    edge (indexedCandidates sha256 fromStr db tenantId) c.bridge.start
      = some (c, some c.bridge.endHash) := by
  rcases hc with ⟨e, he, -, hcand⟩
  have hmem : c ∈ indexedCandidates sha256 fromStr db tenantId :=
    mem_filterMap.mpr ⟨e, he, hcand⟩
  have hnd : (indexEntries db tenantId).Nodup :=
    (List.Nodup.of_map _ db.markerKey).filter _
  exact edge_eq_some.mpr ⟨hmem, uniqueStart_filterMap sha256 fromStr db tenantId _ hnd
    (fun e he => he) c hmem, rfl, rfl⟩

theorem find?_eq_some_of_id {p : AuditLogRow → Bool} {l : AuditLogRow} (hl : l ∈ db.auditLog)
    (hp : p l = true) (hid : ∀ r, p r = true → r.columns.id = l.columns.id) :
    db.auditLog.find? p = some l := by
  cases hcase : db.auditLog.find? p with
  | none => exact absurd hp (find?_eq_none.mp hcase l hl)
  | some l' =>
    rw [inj_on_of_nodup_map db.primaryKey (mem_of_find?_eq_some hcase) hl
      (hid l' (find?_some hcase))]

theorem markerRow_eq_some {l : AuditLogRow} (hl : l ∈ db.auditLog)
    (hten : l.columns.tenant = tenantId) (hcat : l.category = some RetentionMarker.KIND)
    (hrow : l.toChainVerifyRow = some r) : markerRow db tenantId r.id = some r := by
  rcases Option.map_eq_some_iff.mp hrow with ⟨hash, hhash, hr⟩
  have hid : l.columns.id = r.id := by rw [← hr]
  have hfind : db.auditLog.find? (fun r' => r'.columns.id = r.id ∧ r'.columns.tenant = tenantId
      ∧ r'.category = some RetentionMarker.KIND ∧ r'.rowHash.isSome) = some l := by
    grind [find?_eq_some_of_id]
  rw [markerRow, hfind, Option.bind_some, hrow]

end Candidates

section Verify

variable {sha256 : List UInt8 → List UInt8} {fromStr : String → Option RetentionMarker}
  {db : AuditTables} {tenantId : String} {L : SweptLedger sha256}
  (h : Represents fromStr db tenantId L)

include h

theorem mark_candidate (hm : m ∈ L.marks) {first last : ChainVerifyRow}
    (hfirst : first ∈ m.segment.head?) (hlast : last ∈ m.segment.getLast?) :
    ∃ c, CandidateOf sha256 fromStr db tenantId m c ∧
      c.bridge = { start := first.prevHash, endHash := last.rowHash } := by
  have hatt := h.attested m hm
  rcases hatt.stored with ⟨l, hl, hten, hcat, hrow⟩
  rcases hatt.payload with ⟨p, hpayload, hdeleted⟩
  have hmark := markerRow_eq_some hl hten hcat hrow
  have hbridge : p.bridge = some { start := first.prevHash, endHash := last.rowHash } := by
    rw [RetentionMarker.bridge, hdeleted, head?_map, getLast?_map, hfirst, hlast]
    rfl
  have hchecked : markerPayload sha256 fromStr m.marker = some p := by
    rw [markerPayload, L.hashed m.marker (L.live m hm).1]
    simp [hpayload]
  refine ⟨⟨⟨first.prevHash, last.rowHash⟩, priorHash db tenantId m.marker.chainSeq,
    m.marker.prevHash⟩, ⟨_, (mem_indexEntries db tenantId _).mpr
      ⟨hatt.indexed first hfirst last hlast, rfl⟩, rfl, ?_⟩, rfl⟩
  rw [indexCandidate, markerAdmissionRow, hmark, Option.map_some, Option.bind_some,
    admissionCandidate, hchecked, Option.bind_some, hbridge]
  simp

theorem candidateOf_link (hm : m ∈ L.marks) {c : RetentionBridgeCandidate}
    (hc : CandidateOf sha256 fromStr db tenantId m c) :
    c.expectedPrev = priorHash db tenantId m.marker.chainSeq ∧
      c.markerPrev = m.marker.prevHash := by
  rcases hc with ⟨e, -, heid, hcand⟩
  rcases (h.attested m hm).stored with ⟨l, hl, hten, hcat, hrow⟩
  rcases indexCandidate_eq_some sha256 fromStr db tenantId e c hcand with ⟨-, -, r, hr, hexp, hprev⟩
  rw [heid, markerRow_eq_some hl hten hcat hrow, Option.some.injEq] at hr
  rw [hexp, hprev, hr]
  exact ⟨rfl, rfl⟩

/-- The gap before a survivor is a first path through the candidates of the
    marks that fill it, and their markers do not come before the survivor. -/
theorem survivor_firstPath (hdig : Digest sha256) (hsplit : L.history = before ++ row :: after)
    (hrow : row ∉ sweptRows L.marks) :
    ∃ es, FirstPath (edge (indexedCandidates sha256 fromStr db tenantId)) row.prevHash
        (priorHash db tenantId row.chainSeq) es ∧
      ∀ c ∈ es, ∃ m ∈ L.marks, CandidateOf sha256 fromStr db tenantId m c ∧
        row.chainSeq ≤ m.marker.chainSeq := by
  rcases exists_gap (fun r => decide (r ∉ sweptRows L.marks)) before with
    ⟨kept, gap, hbefore, hgap, hkept, hlast⟩
  have hgap : ∀ r ∈ gap, r ∈ sweptRows L.marks := by grind
  have hg : Gap L.history (L.marks.map Mark.segment) kept gap (row :: after) := by
    refine ⟨by rw [hsplit, hbefore, append_assoc], hgap, fun s hs a ha b _ has => ?_,
      fun a ha => ?_⟩
    · -- The last row kept is a survivor, so no segment is under way.
      have hlive := of_decide_eq_true (hkept a ha)
      exact absurd (mem_flatten.mpr ⟨s, hs, has⟩) hlive
    · rw [← Option.some.inj (ha : some row = some a)]
      exact hrow
  have hedge : ∀ s ∈ L.marks.map Mark.segment, ∀ first ∈ s.head?, ∀ last ∈ s.getLast?,
      ∃ c, (∃ m ∈ L.marks, m.segment = s ∧ CandidateOf sha256 fromStr db tenantId m c) ∧
        edge (indexedCandidates sha256 fromStr db tenantId) first.prevHash
          = some (c, some last.rowHash) := by
    intro s hs first hfirst last hlast
    rcases mem_map.mp hs with ⟨m, hm, hseg⟩
    subst hseg
    rcases mark_candidate h hm hfirst hlast with ⟨c, hcand, hbridge⟩
    have hedge := edge_candidateOf hcand
    rw [hbridge] at hedge
    exact ⟨c, ⟨m, hm, rfl, hcand⟩, hedge⟩
  rcases gap_firstPath (L.nodup hdig) L.linked L.tiled _ hedge gap.length kept gap (row :: after)
    rfl hg with ⟨es, hes, hpath⟩
  refine ⟨es, ?_, fun c hc => ?_⟩
  · rw [priorHash_survivors h hsplit, cursor, hlast, L.linked before row after hsplit, hbefore]
    exact hpath
  · rcases hes c hc with ⟨s, hs, hsub, m, hm, hseg, hcand⟩
    refine ⟨m, hm, hcand, ?_⟩
    by_contra hlt
    rw [not_le] at hlt
    -- A marker before the survivor would stand before the gap it attests.
    rcases exists_mem_of_ne_nil s (L.tiled.nonempty s hs) with ⟨x, hx⟩
    have hmem : m.marker ∈ kept ++ gap := by
      rw [← hbefore]
      exact (L.mem_before hsplit (L.live m hm).1).mpr hlt
    have hord := L.ordered
    rw [hg.split, pairwise_append] at hord
    have hlater := L.later m hm x (hseg ▸ hx)
    rcases mem_append.mp hmem with hin | hin
    · have := hord.2.2 m.marker hin x (mem_append_left _ (hsub x hx))
      omega
    · exact absurd (hgap m.marker hin) (L.live m hm).2

/-- Every mark's marker is admitted. The induction goes through the markers
    from the last to the first. -/
theorem justified_of_mark (hdig : Digest sha256) :
    ∀ (n : Nat) (m : Mark) (before after : List ChainVerifyRow) (c : RetentionBridgeCandidate),
      m ∈ L.marks → L.history = before ++ m.marker :: after → after.length = n →
      CandidateOf sha256 fromStr db tenantId m c →
      Justified (indexedCandidates sha256 fromStr db tenantId) c := by
  intro n
  induction n using Nat.strong_induction_on with
  | _ n ih =>
    intro m before after c hm hsplit hn hc
    rcases survivor_firstPath h hdig hsplit (L.live m hm).2 with ⟨es, hpath, hes⟩
    rcases candidateOf_link h hm hc with ⟨hexp, hprev⟩
    rcases edge_eq_some.mp (edge_candidateOf hc) with ⟨hmem, hunique, -, -⟩
    refine Justified.intro c hmem hunique es (by rw [hexp, hprev]; exact hpath) ?_
    intro d hd hdc
    rcases hes d hd with ⟨m', hm', hd', hle⟩
    rcases eq_or_lt_of_le hle with heq | hlt
    · -- The same marker gives the same candidate.
      exact absurd (candidateOf_inj hd' hc
        (L.chainSeq_inj (L.live m' hm').1 (L.live m hm).1 heq.symm)) hdc
    · have hafter : m'.marker ∈ after := by
        have hin := (L.live m' hm').1
        rw [hsplit, mem_append, mem_cons] at hin
        rcases hin with hin | hin | hin
        · have := (L.mem_before hsplit (L.live m' hm').1).mp hin
          omega
        · rw [hin] at hlt
          omega
        · exact hin
      rcases append_of_mem hafter with ⟨between, rest, hrest⟩
      refine ih rest.length ?_ m' (before ++ m.marker :: between) rest d hm' ?_ rfl hd'
      · rw [← hn, hrest, length_append, length_cons]
        omega
      · rw [hsplit, hrest]
        simp

/-- The walk accepts the survivors. -/
theorem chainAccepted_survivors (hdig : Digest sha256) :
    ChainAccepted sha256 (allBridges sha256 fromStr db tenantId) none L.survivors := by
  refine chainAccepted_of_forall sha256 _ none _ (fun kept row rest hkept => ?_)
  -- A place among the survivors is a place in the history.
  rcases filter_eq_append_iff.mp hkept with ⟨front, back, hfront, hf, hb⟩
  rcases filter_eq_cons_iff.mp hb with ⟨skipped, after, hback, hskip, hlive, -⟩
  have hsplit : L.history = (front ++ skipped) ++ row :: after := by
    rw [hfront, hback, append_assoc]
  have hcur : lastHash none kept = priorHash db tenantId row.chainSeq := by
    rw [priorHash_survivors h hsplit, filter_append, hf, filter_eq_nil_iff.mpr hskip,
      append_nil, lastHash_eq_getLast, Option.or_none, cursor]
  rcases survivor_firstPath h hdig hsplit (of_decide_eq_true hlive) with ⟨es, hpath, hes⟩
  have hmem : row ∈ L.history := by
    rw [hsplit]
    exact mem_append_right _ mem_cons_self
  refine ⟨Or.inr ((reaches_admitted _ _ _).mpr ⟨es, hcur ▸ hpath, fun c hc => ?_⟩),
    L.hashed row hmem⟩
  rcases hes c hc with ⟨m, hm, hcand, -⟩
  rcases append_of_mem (L.live m hm).1 with ⟨before', after', hsplit'⟩
  exact justified_of_mark h hdig after'.length m before' after' c hm hsplit' rfl hcand

/-- Tables that represent a ledger verify: the report is a success when the
    walk reaches every survivor, and says so when it does not. -/
theorem verifyChain_represents (hdig : Digest sha256) (hne : orderedChain db tenantId ≠ [])
    (limit : Int) :
    (verifyChain sha256 fromStr db tenantId none none none limit).status
      = if (orderedChain db tenantId).length ≤ clampLimit limit then .ok else .incomplete := by
  have hselect : selectRows db tenantId none none = orderedChain db tenantId := by
    simp [selectRows]
  rw [verifyChain_page sha256 fromStr db tenantId none none none rfl none limit, hselect,
    (verifyPage_eq sha256 fromStr db tenantId none none _ hne _ (clampLimit_pos limit)).2]
  -- Nothing is stored before the first survivor.
  have hhead : (orderedChain db tenantId).head?.bind (fun r => priorHash db tenantId r.chainSeq)
      = none := by
    rcases exists_cons_of_ne_nil hne with ⟨first, rest, hfirst⟩
    rw [hfirst, head?_cons, Option.bind_some]
    rw [orderedChain_eq h] at hfirst
    rcases filter_eq_cons_iff.mp hfirst with ⟨skipped, after, hsplit, hskip, -, -⟩
    rw [priorHash_survivors h hsplit, filter_eq_nil_iff.mpr hskip, cursor_nil]
  have hpage : ChainAccepted sha256 (allBridges sha256 fromStr db tenantId) none
      ((orderedChain db tenantId).take (clampLimit limit)) := by
    have hall := chainAccepted_survivors h hdig
    rw [← orderedChain_eq h, ← take_append_drop (clampLimit limit) (orderedChain db tenantId),
      chainAccepted_append] at hall
    exact hall.1
  rw [hhead, (firstBad_eq_none sha256 _ none _).mpr hpage]
  by_cases hle : (orderedChain db tenantId).length ≤ clampLimit limit
  · rw [if_pos hle]
    simp only [Option.isSome_none, Bool.false_eq_true, if_false, not_lt.mpr hle]
  · rw [if_neg hle]
    simp only [Option.isSome_none, Bool.false_eq_true, if_false, not_le.mp hle, if_true]

end Verify

end Waygate.Audit
