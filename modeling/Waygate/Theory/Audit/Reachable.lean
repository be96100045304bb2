import Mathlib.Data.List.ProdSigma
import Waygate.Core.Audit.VerifyChain
import Waygate.Theory.Audit.Admission
import Waygate.Theory.Audit.Canonical
import Waygate.Theory.Audit.Walk

/-!
# Loading Only Reachable Markers

Verification reads only the markers that a recursive query reaches from the broken links
of the window, and reports what admission over all the tenant's markers would give. Both
look things up only along first paths, and the jobs of the query are the ends of such
paths.

## Main definitions

* `ExploredClosed`
* `loadedCandidates`, `payloadCandidates`: The markers that are loaded, and all of them.

## Theorems

* `mem_markerJobs`, `jobs_follow`, `verifyChainRows_reachable_markers`
* `justified_iff_of_explored`: Justification is the same.
-/

namespace Waygate.Audit

open Reach List

section Explored

variable {a t : Option String} {all loaded : List RetentionBridgeCandidate}
  {Explored : Option String → Option String → Prop}

/-- The loaded candidates are closed under what a walk towards an explored
    target can look up: the next bridge is loaded, the rest of the walk is
    explored, and so is the link of every loaded candidate. -/
structure ExploredClosed (all loaded : List RetentionBridgeCandidate)
    (Explored : Option String → Option String → Prop) : Prop where
  sub : ∀ c ∈ loaded, c ∈ all
  uniqueAll : ∀ c ∈ all, UniqueStart all c
  uniqueLoaded : ∀ c ∈ loaded, UniqueStart loaded c
  follow : ∀ a t c, Explored a t → c ∈ all → c.bridge.start = a →
    c ∈ loaded ∧ (some c.bridge.endHash = t ∨ Explored (some c.bridge.endHash) t)
  link : ∀ c ∈ loaded, c.expectedPrev = c.markerPrev ∨ Explored c.expectedPrev c.markerPrev

variable (h : ExploredClosed all loaded Explored)

include h

theorem edge_loaded {y : Option String} {c : RetentionBridgeCandidate} :
    edge loaded a = some (c, y) ↔ c ∈ loaded ∧ edge all a = some (c, y) := by
  simp only [edge_eq_some]
  constructor
  · rintro ⟨hc, -, hrest⟩
    exact ⟨hc, h.sub c hc, h.uniqueAll c (h.sub c hc), hrest⟩
  · rintro ⟨hc, -, -, hrest⟩
    exact ⟨hc, h.uniqueLoaded c hc, hrest⟩

theorem firstPath_loaded {es : List RetentionBridgeCandidate} (hat : a = t ∨ Explored a t)
    (hpath : FirstPath (edge all) t a es) : ∀ d ∈ es, d ∈ loaded := by
  induction hpath with
  | here => exact nofun
  | @step a b c es hne hedge _ ih =>
    rcases edge_eq_some.mp hedge with ⟨hc, -, hstart, hb⟩
    rcases hat with hat | hat
    · exact absurd hat hne
    · rcases h.follow a t c hat hc hstart with ⟨hload, hnext⟩
      intro d hd
      rcases mem_cons.mp hd with hd | hd
      · exact hd ▸ hload
      · exact ih (hb ▸ hnext) d hd

theorem firstPath_loaded_iff {es : List RetentionBridgeCandidate} (hat : a = t ∨ Explored a t) :
    FirstPath (edge loaded) t a es ↔ FirstPath (edge all) t a es := by
  grind [firstPath_restrict, edge_loaded, firstPath_loaded]

theorem justified_iff_of_explored {c : RetentionBridgeCandidate} (hc : c ∈ loaded) :
    Justified loaded c ↔ Justified all c := by
  constructor
  · intro hj
    induction hj with
    | intro c hcl _ es hpath _ ih =>
      have hpath := (firstPath_loaded_iff h (h.link c hcl)).mp hpath
      exact Justified.intro c (h.sub c hcl) (h.uniqueAll c (h.sub c hcl)) es hpath
        (fun d hd hdc => ih d hd hdc (firstPath_loaded h (h.link c hcl) hpath d hd))
  · intro hj
    induction hj with
    | intro c _ _ es hpath _ ih =>
      exact Justified.intro c hc (h.uniqueLoaded c hc) es
        ((firstPath_loaded_iff h (h.link c hc)).mpr hpath)
        (fun d hd hdc => ih d hd hdc (firstPath_loaded h (h.link c hc) hpath d hd))

theorem reaches_of_explored (hat : a = t ∨ Explored a t) :
    markerBridgeReaches a t (bridgeIndexOf (admitRetentionBridges loaded)) none
      = markerBridgeReaches a t (bridgeIndexOf (admitRetentionBridges all)) none := by
  rw [Bool.eq_iff_iff, reaches_admitted, reaches_admitted]
  constructor
  · grind [firstPath_loaded_iff, justified_iff_of_explored, firstPath_loaded]
  · rintro ⟨es, hpath, hes⟩
    exact ⟨es, (firstPath_loaded_iff h hat).mpr hpath, fun d hd =>
      (justified_iff_of_explored h (firstPath_loaded h hat hpath d hd)).mpr (hes d hd)⟩

end Explored

section Queries

variable (db : AuditTables) (tenantId : String)

theorem startKey_inj (a b : Option String) (h : startKey a = startKey b) : a = b := by
  have hne : ∀ v : String, "null" ≠ "hash:" ++ v := by
    intro v hv
    have := congrArg (fun s : String => s.toList.head?) hv
    simp only [String.toList_append] at this
    exact absurd this (by simp)
  cases a with
  | none =>
    cases b with
    | none => rfl
    | some w => exact absurd h (hne w)
  | some v =>
    cases b with
    | none => exact absurd h.symm (hne v)
    | some w => exact congrArg some (String.append_right_inj _ |>.mp h)

theorem bridgeAt_eq_some (cursor : Option String) (e : BridgeIndexEntry) :
    bridgeAt db tenantId cursor = some e ↔
      e ∈ db.bridgeIndex ∧ e.tenantId = tenantId ∧ e.startHash = cursor := by
  unfold bridgeAt
  constructor
  · grind [startKey_inj]
  · rintro ⟨he, hten, hstart⟩
    cases hfind : db.bridgeIndex.find? (fun e => decide (e.tenantId = tenantId
        ∧ startKey e.startHash = startKey cursor)) with
    | none =>
      have hno := find?_eq_none.mp hfind e he
      simp only [hten, hstart, and_self, decide_true, not_true_eq_false] at hno
    | some e' =>
      have hp := find?_some hfind
      simp only [decide_eq_true_eq] at hp
      refine congrArg some (inj_on_of_nodup_map db.startUnique
        (mem_of_find?_eq_some hfind) he ?_)
      rw [hp.1, hp.2, hten, hstart]

def indexEntries : List BridgeIndexEntry :=
  db.bridgeIndex.filter (fun e => e.tenantId = tenantId)

theorem mem_indexEntries (e : BridgeIndexEntry) :
    e ∈ indexEntries db tenantId ↔ e ∈ db.bridgeIndex ∧ e.tenantId = tenantId := by
  simp [indexEntries]

theorem mem_orderedChain (r : ChainVerifyRow) :
    r ∈ orderedChain db tenantId ↔
      ∃ l ∈ db.auditLog, l.columns.tenant = tenantId ∧ l.toChainVerifyRow = some r := by
  simp only [orderedChain, mem_insertionSort, mem_filterMap, mem_filter,
    decide_eq_true_eq, and_assoc]

theorem priorHash_mem (chainSeq : Int) :
    priorHash db tenantId chainSeq = none ∨
      priorHash db tenantId chainSeq ∈ db.auditLog.map AuditLogRow.rowHash := by
  unfold priorHash
  cases hlast : ((orderedChain db tenantId).filter (fun r => r.chainSeq < chainSeq)).getLast? with
  | none => exact Or.inl rfl
  | some r =>
    refine Or.inr ?_
    have hr := mem_of_mem_filter (mem_of_getLast? hlast)
    rcases (mem_orderedChain db tenantId r).mp hr with ⟨l, hl, -, hdec⟩
    rcases Option.map_eq_some_iff.mp hdec with ⟨h, hh, hrow⟩
    refine mem_map.mpr ⟨l, hl, ?_⟩
    rw [hh, ← hrow, Option.map_some]

theorem markerRow_prevHash_mem (markerId : Uuid) (m : ChainVerifyRow)
    (h : markerRow db tenantId markerId = some m) :
    m.prevHash ∈ db.auditLog.map AuditLogRow.prevHash := by
  rcases Option.bind_eq_some_iff.mp h with ⟨l, hfind, hdec⟩
  rcases Option.map_eq_some_iff.mp hdec with ⟨hash, -, hrow⟩
  exact mem_map.mpr ⟨l, mem_of_find?_eq_some hfind, by rw [← hrow]⟩

/-- The marker query computes the least set of jobs closed under its rule. -/
theorem mem_markerJobs (seeds : List GapJob) (hseeds : ∀ seed ∈ seeds, seed.1 ≠ seed.2)
    (job : GapJob) :
    job ∈ markerJobs db tenantId seeds ↔ Closure (spawnJobs db tenantId) seeds job := by
  have hfilter : seeds.filter (fun seed => seed.1 ≠ seed.2) = seeds :=
    filter_eq_self.mpr (fun seed hseed => decide_eq_true (hseeds seed hseed))
  -- A job is at a seed's hash, the end of a bridge or a stored hash, and is
  -- after a seed's target or a stored link.
  let cursors := seeds.map Prod.fst ++ db.bridgeIndex.map (fun e => some e.endHash)
    ++ db.auditLog.map AuditLogRow.rowHash ++ [none]
  let targets := seeds.map Prod.snd ++ db.auditLog.map AuditLogRow.prevHash
  have hcursor : ∀ a, a ∈ cursors ↔ ((a ∈ seeds.map Prod.fst ∨
      a ∈ db.bridgeIndex.map (fun e => some e.endHash)) ∨
      a ∈ db.auditLog.map AuditLogRow.rowHash) ∨ a = none := by
    intro a
    simp only [cursors, mem_append, mem_singleton]
  have htarget : ∀ a, a ∈ targets ↔ a ∈ seeds.map Prod.snd ∨
      a ∈ db.auditLog.map AuditLogRow.prevHash := by
    intro a
    simp [targets]
  unfold markerJobs
  simp only [hfilter]
  refine mem_recursiveUnion (spawnJobs db tenantId) seeds (cursors ×ˢ targets) _
    (fun seed hseed => ?_) (fun a ha b hb => ?_) ?_ job
  · exact mem_product.mpr
      ⟨(hcursor _).mpr (Or.inl (Or.inl (Or.inl (mem_map_of_mem hseed)))),
        (htarget _).mpr (Or.inl (mem_map_of_mem hseed))⟩
  · unfold spawnJobs at hb
    split at hb
    · cases hb
    · rename_i e he
      split at hb
      · cases hb
      · rename_i m hm
        have hb := mem_of_mem_filter hb
        simp only [mem_cons, not_mem_nil, or_false] at hb
        rcases hb with hb | hb
        · rw [hb]
          refine mem_product.mpr ⟨(hcursor _).mpr (Or.inl (Or.inl (Or.inr ?_))),
            (mem_product.mp ha).2⟩
          exact mem_map.mpr ⟨e, ((bridgeAt_eq_some db tenantId _ e).mp he).1, rfl⟩
        · rw [hb]
          refine mem_product.mpr ⟨(hcursor _).mpr ?_,
            (htarget _).mpr (Or.inr (markerRow_prevHash_mem db tenantId _ m hm))⟩
          rcases priorHash_mem db tenantId m.chainSeq with hnone | hmem
          · exact Or.inr hnone
          · exact Or.inl (Or.inr hmem)
  · rw [length_product]
    simp only [cursors, targets, length_append, length_map, length_singleton,
      jobRounds]
    exact Nat.lt_succ_self _

end Queries

section Candidates

variable (sha256 : List UInt8 → List UInt8) (fromStr : String → Option RetentionMarker)
  (db : AuditTables) (tenantId : String)

/-- The candidate of an indexed bridge, if its marker passes every check. -/
def indexCandidate (e : BridgeIndexEntry) : Option RetentionBridgeCandidate :=
  (markerAdmissionRow db tenantId e).bind (admissionCandidate sha256 fromStr)

def indexedCandidates : List RetentionBridgeCandidate :=
  (indexEntries db tenantId).filterMap (indexCandidate sha256 fromStr db tenantId)

theorem indexCandidate_eq_some (e : BridgeIndexEntry) (c : RetentionBridgeCandidate)
    (h : indexCandidate sha256 fromStr db tenantId e = some c) :
    c.bridge.start = e.startHash ∧ c.bridge.endHash = e.endHash ∧
      ∃ m, markerRow db tenantId e.markerId = some m ∧
        c.expectedPrev = priorHash db tenantId m.chainSeq ∧ c.markerPrev = m.prevHash := by
  rcases Option.bind_eq_some_iff.mp h with ⟨row, hrow, hcand⟩
  rcases Option.map_eq_some_iff.mp hrow with ⟨m, hm, hrow⟩
  unfold admissionCandidate at hcand
  split at hcand
  · cases hcand
  · grind

theorem uniqueStart_filterMap (es : List BridgeIndexEntry) (hnd : es.Nodup)
    (hsub : ∀ e ∈ es, e ∈ indexEntries db tenantId) :
    ∀ c ∈ es.filterMap (indexCandidate sha256 fromStr db tenantId),
      UniqueStart (es.filterMap (indexCandidate sha256 fromStr db tenantId)) c := by
  refine uniqueStart_of_nodup ?_
  rw [List.Nodup, pairwise_map, pairwise_filterMap]
  refine hnd.imp_of_mem (fun {e e'} he he' hne c hc c' hc' hstart => hne ?_)
  rw [(indexCandidate_eq_some sha256 fromStr db tenantId e c hc).1,
    (indexCandidate_eq_some sha256 fromStr db tenantId e' c' hc').1] at hstart
  rcases (mem_indexEntries db tenantId e).mp (hsub e he) with ⟨hmem, hten⟩
  rcases (mem_indexEntries db tenantId e').mp (hsub e' he') with ⟨hmem', hten'⟩
  exact inj_on_of_nodup_map db.startUnique hmem hmem' (by rw [hten, hten', hstart])

def reachableEntries (seeds : List GapJob) : List BridgeIndexEntry :=
  ((markerJobs db tenantId seeds).filterMap (fun job => bridgeAt db tenantId job.1)).dedup

def loadedCandidates (seeds : List GapJob) : List RetentionBridgeCandidate :=
  (reachableRetentionMarkers db tenantId seeds).filterMap (admissionCandidate sha256 fromStr)

variable (seeds : List GapJob)

theorem loadedCandidates_perm :
    (loadedCandidates sha256 fromStr db tenantId seeds).Perm
      ((reachableEntries db tenantId seeds).filterMap
        (indexCandidate sha256 fromStr db tenantId)) := by
  have hsort := perm_insertionSort
    (fun a b : MarkerAdmissionRow => a.row.chainSeq ≤ b.row.chainSeq)
    ((reachableEntries db tenantId seeds).filterMap (markerAdmissionRow db tenantId))
  have hperm := hsort.filterMap (admissionCandidate sha256 fromStr)
  rw [filterMap_filterMap] at hperm
  exact hperm

/-- A job leads on: its bridge's candidate is loaded, the rest of the job is a
    job unless it is done, and so is the candidate's own link. -/
theorem jobs_follow (a t : Option String) (e : BridgeIndexEntry)
    (c : RetentionBridgeCandidate) (hjob : Closure (spawnJobs db tenantId) seeds (a, t))
    (he : bridgeAt db tenantId a = some e)
    (hc : indexCandidate sha256 fromStr db tenantId e = some c) :
    (some e.endHash = t ∨ Closure (spawnJobs db tenantId) seeds (some e.endHash, t)) ∧
    (c.expectedPrev = c.markerPrev ∨
      Closure (spawnJobs db tenantId) seeds (c.expectedPrev, c.markerPrev)) := by
  rcases indexCandidate_eq_some sha256 fromStr db tenantId e c hc with ⟨-, -, m, hm, hexp, hprev⟩
  have hspawn : spawnJobs db tenantId (a, t)
      = [(some e.endHash, t), (c.expectedPrev, c.markerPrev)].filter
          (fun spawned => spawned.1 ≠ spawned.2) := by
    simp only [spawnJobs, he, hm, hexp, hprev]
  constructor
  · by_cases hdone : some e.endHash = t
    · exact Or.inl hdone
    · refine Or.inr (Closure.next hjob ?_)
      rw [hspawn]
      exact mem_filter.mpr ⟨mem_cons_self, decide_eq_true hdone⟩
  · by_cases hdone : c.expectedPrev = c.markerPrev
    · exact Or.inl hdone
    · refine Or.inr (Closure.next hjob ?_)
      rw [hspawn]
      exact mem_filter.mpr
        ⟨mem_cons_of_mem _ mem_cons_self, decide_eq_true hdone⟩

theorem exploredClosed_loadedCandidates (hseeds : ∀ seed ∈ seeds, seed.1 ≠ seed.2) :
    ExploredClosed (indexedCandidates sha256 fromStr db tenantId)
      (loadedCandidates sha256 fromStr db tenantId seeds)
      (fun a t => Closure (spawnJobs db tenantId) seeds (a, t)) := by
  have hjobs := mem_markerJobs db tenantId seeds hseeds
  have hperm := loadedCandidates_perm sha256 fromStr db tenantId seeds
  have hentry : ∀ e, e ∈ reachableEntries db tenantId seeds ↔
      ∃ a t, Closure (spawnJobs db tenantId) seeds (a, t) ∧ bridgeAt db tenantId a = some e := by
    intro e
    simp [reachableEntries, hjobs]
  have hsub : ∀ e ∈ reachableEntries db tenantId seeds, e ∈ indexEntries db tenantId := by
    grind [bridgeAt_eq_some, mem_indexEntries]
  have hload : ∀ c, c ∈ loadedCandidates sha256 fromStr db tenantId seeds ↔
      ∃ e ∈ reachableEntries db tenantId seeds,
        indexCandidate sha256 fromStr db tenantId e = some c := by
    intro c
    rw [hperm.mem_iff, mem_filterMap]
  refine ⟨fun c hc => ?_, ?_, fun c hc => ?_, fun a t c hjob hc hstart => ?_, fun c hc => ?_⟩
  · rcases (hload c).mp hc with ⟨e, he, hce⟩
    exact mem_filterMap.mpr ⟨e, hsub e he, hce⟩
  · exact uniqueStart_filterMap sha256 fromStr db tenantId _
      (db.markerKey.of_map.filter _) (fun _ he => he)
  · rw [UniqueStart, hperm.countP_eq]
    exact uniqueStart_filterMap sha256 fromStr db tenantId _ (nodup_dedup _) hsub c
      (hperm.mem_iff.mp hc)
  · rcases mem_filterMap.mp hc with ⟨e, he, hce⟩
    rcases indexCandidate_eq_some sha256 fromStr db tenantId e c hce with ⟨hs, hend, -⟩
    rcases (mem_indexEntries db tenantId e).mp he with ⟨hmem, hten⟩
    have hat : bridgeAt db tenantId a = some e :=
      (bridgeAt_eq_some db tenantId a e).mpr ⟨hmem, hten, hs.symm.trans hstart⟩
    refine ⟨(hload c).mpr ⟨e, (hentry e).mpr ⟨a, t, hjob, hat⟩, hce⟩, ?_⟩
    rw [hend]
    exact (jobs_follow sha256 fromStr db tenantId seeds a t e c hjob hat hce).1
  · rcases (hload c).mp hc with ⟨e, he, hce⟩
    rcases (hentry e).mp he with ⟨a, t, hjob, hat⟩
    exact (jobs_follow sha256 fromStr db tenantId seeds a t e c hjob hat hce).2

end Candidates

section Window

variable (sha256 : List UInt8 → List UInt8) (fromStr : String → Option RetentionMarker)
  (db : AuditTables) (tenantId : String)

theorem mem_destutter_ne {α : Type*} [DecidableEq α] (l : List α) (x : α) :
    x ∈ l.destutter (· ≠ ·) ↔ x ∈ l := by
  have key : ∀ (l : List α) (a : α), x ∈ l.destutter' (· ≠ ·) a ↔ x = a ∨ x ∈ l := by
    intro l
    induction l with
    | nil => intro a; simp only [destutter'_nil, mem_singleton, not_mem_nil, or_false]
    | cons b l ih =>
      intro a
      by_cases hab : a = b
      · rw [destutter'_cons_neg _ (not_not.mpr hab), ih, mem_cons, hab, ← or_assoc,
          or_self]
      · rw [destutter'_cons_pos _ hab, mem_cons, ih, mem_cons]
  cases l with
  | nil => rfl
  | cons a l => rw [destutter_cons', key, mem_cons]

variable (prevHead : Option String) (rows : List ChainVerifyRow)

theorem mem_verificationGapJobs (job : GapJob) :
    job ∈ verificationGapJobs prevHead rows ↔ job ∈ brokenLinks prevHead rows := by
  rw [verificationGapJobs, mem_destutter_ne, mem_insertionSort]

theorem brokenLinks_ne :
    ∀ job ∈ brokenLinks prevHead rows, job.1 ≠ job.2 := by
  induction rows generalizing prevHead with
  | nil => exact nofun
  | cons row rows ih =>
    intro job hjob
    unfold brokenLinks at hjob
    split at hjob
    · grind
    · exact ih _ job hjob

/-- A walk asks an index only about its own broken links. -/
theorem walkRows_congr (index index' : BridgeIndex) (report : ChainVerifyReport)
    (expectedPrev : Option String) (rows : List ChainVerifyRow)
    (h : ∀ job ∈ brokenLinks expectedPrev rows,
      markerBridgeReaches job.1 job.2 index none = markerBridgeReaches job.1 job.2 index' none) :
    walkRows sha256 index report expectedPrev rows
      = walkRows sha256 index' report expectedPrev rows := by
  induction rows generalizing report expectedPrev with
  | nil => rfl
  | cons row rows ih =>
    have hcheck : (row.prevHash ≠ expectedPrev
          ∧ markerBridgeReaches expectedPrev row.prevHash index none = false) ↔
        (row.prevHash ≠ expectedPrev
          ∧ markerBridgeReaches expectedPrev row.prevHash index' none = false) := by
      refine and_congr_right (fun hne => ?_)
      rw [h (expectedPrev, row.prevHash) (by
        unfold brokenLinks
        rw [if_pos hne]
        exact mem_cons_self)]
    have hrest : ∀ job ∈ brokenLinks (some row.rowHash) rows,
        markerBridgeReaches job.1 job.2 index none
          = markerBridgeReaches job.1 job.2 index' none := by
      intro job hjob
      refine h job ?_
      unfold brokenLinks
      split
      · exact mem_cons_of_mem _ hjob
      · exact hjob
    unfold walkRows
    simp only [hcheck, ih _ _ hrest]

theorem verifyChainRowsWithBridges_congr (fromTs toTs : Option OffsetDateTime)
    (prevHead : Option String) (rows : List ChainVerifyRow) (bridges bridges' : List RetentionBridge)
    (h : ∀ job ∈ brokenLinks prevHead rows,
      markerBridgeReaches job.1 job.2 (bridgeIndexOf bridges) none
        = markerBridgeReaches job.1 job.2 (bridgeIndexOf bridges') none) :
    verifyChainRowsWithBridges sha256 tenantId fromTs toTs prevHead rows bridges
      = verifyChainRowsWithBridges sha256 tenantId fromTs toTs prevHead rows bridges' := by
  unfold verifyChainRowsWithBridges
  simp only [walkRows_congr sha256 _ _ _ prevHead rows h]

theorem reaches_loadBridges (job : GapJob)
    (hjob : job ∈ brokenLinks prevHead rows) :
    markerBridgeReaches job.1 job.2 (bridgeIndexOf (loadBridges sha256 fromStr db tenantId
        (verificationGapJobs prevHead rows))) none
      = markerBridgeReaches job.1 job.2 (bridgeIndexOf (admitRetentionBridges
          (indexedCandidates sha256 fromStr db tenantId))) none := by
  have hmem := (mem_verificationGapJobs prevHead rows job).mpr hjob
  have hne : (verificationGapJobs prevHead rows).isEmpty = false := by grind
  rw [loadBridges, hne]
  exact reaches_of_explored (exploredClosed_loadedCandidates sha256 fromStr db tenantId
    (verificationGapJobs prevHead rows) (fun seed hseed => brokenLinks_ne prevHead rows seed
      ((mem_verificationGapJobs prevHead rows seed).mp hseed))) (Or.inr (Closure.seed hmem))

/-- Loading what a window's broken links can reach gives the report of
    loading every indexed marker. -/
theorem verifyChainRowsWithBridges_loadBridges (fromTs toTs : Option OffsetDateTime)
    (prevHead : Option String) (rows : List ChainVerifyRow) :
    verifyChainRowsWithBridges sha256 tenantId fromTs toTs prevHead rows
        (loadBridges sha256 fromStr db tenantId (verificationGapJobs prevHead rows))
      = verifyChainRowsWithBridges sha256 tenantId fromTs toTs prevHead rows
        (admitRetentionBridges (indexedCandidates sha256 fromStr db tenantId)) :=
  verifyChainRowsWithBridges_congr sha256 tenantId fromTs toTs prevHead rows _ _
    (reaches_loadBridges sha256 fromStr db tenantId prevHead rows)

/-- A candidate from a marker row whose hash recomputes and whose payload
    validates, whatever the index recorded for it. -/
def payloadCandidate (m : MarkerAdmissionRow) : Option RetentionBridgeCandidate :=
  ((markerPayload sha256 fromStr m.row).bind RetentionMarker.bridge).map (fun bridge =>
    { bridge := bridge, expectedPrev := m.expectedPrev, markerPrev := m.row.prevHash })

/-- The candidates of all the tenant's indexed markers whose hash recomputes
    and whose payload validates. -/
def payloadCandidates : List RetentionBridgeCandidate :=
  ((indexEntries db tenantId).filterMap (markerAdmissionRow db tenantId)).filterMap
    (payloadCandidate sha256 fromStr)

/-- Every indexed pair of boundaries is the pair its marker's payload has. -/
def PayloadIndexed : Prop :=
  ∀ e ∈ indexEntries db tenantId, ∀ m, markerRow db tenantId e.markerId = some m →
    ∀ b, (markerPayload sha256 fromStr m).bind RetentionMarker.bridge = some b →
      b = { start := e.startHash, endHash := e.endHash }

theorem payloadCandidates_eq (hix : PayloadIndexed sha256 fromStr db tenantId) :
    payloadCandidates sha256 fromStr db tenantId = indexedCandidates sha256 fromStr db tenantId := by
  rw [payloadCandidates, indexedCandidates, filterMap_filterMap]
  refine filterMap_congr (fun e he => ?_)
  unfold indexCandidate markerAdmissionRow
  cases hm : markerRow db tenantId e.markerId with
  | none => rfl
  | some m =>
    simp only [Option.map_some, Option.bind_some, payloadCandidate, admissionCandidate]
    cases hb : (markerPayload sha256 fromStr m).bind RetentionMarker.bridge with
    | none => rfl
    | some b =>
      have hpair := hix e he m hm b hb
      simp [hpair]

theorem reaches_admitted_perm {candidates candidates' : List RetentionBridgeCandidate}
    (hperm : candidates'.Perm candidates) (start target : Option String) :
    markerBridgeReaches start target (bridgeIndexOf (admitRetentionBridges candidates')) none
      = markerBridgeReaches start target (bridgeIndexOf (admitRetentionBridges candidates)) none := by
  have hone : ∀ {cs ds : List RetentionBridgeCandidate}, cs.Perm ds →
      (∃ es, FirstPath (edge ds) target start es ∧ ∀ d ∈ es, Justified ds d) →
      ∃ es, FirstPath (edge cs) target start es ∧ ∀ d ∈ es, Justified cs d := by
    rintro cs ds hcd ⟨es, hpath, hes⟩
    exact ⟨es, firstPath_restrict (fun a d y _ => edge_perm hcd a d y) hpath,
      fun d hd => justified_perm ds hcd (hes d hd)⟩
  rw [Bool.eq_iff_iff, reaches_admitted, reaches_admitted]
  exact ⟨hone hperm.symm, hone hperm⟩

/-- Verifying a window with the markers its broken links reach gives the same
    report as verifying it with all of the tenant's indexed markers whose hash
    recomputes and whose payload validates, taken in any order. -/
theorem verifyChainRows_reachable_markers (hix : PayloadIndexed sha256 fromStr db tenantId)
    (fromTs toTs : Option OffsetDateTime) (prevHead : Option String) (rows : List ChainVerifyRow)
    (candidates : List RetentionBridgeCandidate)
    (hall : candidates.Perm (payloadCandidates sha256 fromStr db tenantId)) :
    verifyChainRowsWithBridges sha256 tenantId fromTs toTs prevHead rows
        (loadBridges sha256 fromStr db tenantId (verificationGapJobs prevHead rows))
      = verifyChainRowsWithBridges sha256 tenantId fromTs toTs prevHead rows
        (admitRetentionBridges candidates) := by
  rw [payloadCandidates_eq sha256 fromStr db tenantId hix] at hall
  rw [verifyChainRowsWithBridges_loadBridges]
  exact verifyChainRowsWithBridges_congr sha256 tenantId fromTs toTs prevHead rows _ _
    (fun job _ => (reaches_admitted_perm hall job.1 job.2).symm)

end Window

def sweptColumns : AuditColumns :=
  { tailedColumns 0 with
    category := RetentionMarker.KIND
    action := "retention.sweep"
    reason := some "swept" }

def sweptTables : AuditTables :=
  { auditLog :=
      [{ columns := sweptColumns
         category := some RetentionMarker.KIND
         chainSeq := 2
         prevHash := some "aa"
         rowHash := some "ab"
         decoded := rfl }]
    bridgeIndex :=
      [{ markerId := sweptColumns.id, tenantId := "default", startHash := none, endHash := "aa" }]
    primaryKey := List.nodup_singleton _
    markerKey := List.nodup_singleton _
    startUnique := List.nodup_singleton _
    reference := fun e he => by
      rw [List.mem_singleton.mp he]
      exact List.mem_cons_self }

def sweptFromStr (reason : String) : Option RetentionMarker :=
  if reason = "swept" then
    some
      { kind := RetentionMarker.KIND
        deletedRows := [{ prevHash := none, rowHash := "aa" }]
        deletedUnchainedRows := []
        deletedChainSeqMin := some 1
        deletedChainSeqMax := some 1
        policy := none }
  else none

theorem sweptTables_payloadIndexed :
    PayloadIndexed (fun _ => [171]) sweptFromStr sweptTables "default" := by
  intro e he m hm b hb
  have he : e = ⟨sweptColumns.id, "default", none, "aa"⟩ :=
    mem_singleton.mp (mem_of_mem_filter he)
  subst he
  have hrow : markerRow sweptTables "default" sweptColumns.id
      = some { sweptColumns with chainSeq := 2, prevHash := some "aa", rowHash := "ab" } := by
    decide
  rw [hrow, Option.some.injEq] at hm
  subst hm
  have hpayload : (markerPayload (fun _ => [171]) sweptFromStr
      { sweptColumns with chainSeq := 2, prevHash := some "aa", rowHash := "ab" }).bind
      RetentionMarker.bridge = some { start := none, endHash := "aa" } := by
    decide
  rw [hpayload, Option.some.injEq] at hb
  exact hb.symm

theorem verifyChainRows_reachable_markers_swept :
    loadBridges (fun _ => [171]) sweptFromStr sweptTables "default"
        (verificationGapJobs none (orderedChain sweptTables "default"))
      = [{ start := none, endHash := "aa" }] ∧
    verifyChainRowsWithBridges (fun _ => [171]) "default" none none none
        (orderedChain sweptTables "default")
        (loadBridges (fun _ => [171]) sweptFromStr sweptTables "default"
          (verificationGapJobs none (orderedChain sweptTables "default")))
      = verifyChainRowsWithBridges (fun _ => [171]) "default" none none none
        (orderedChain sweptTables "default")
        (admitRetentionBridges (payloadCandidates (fun _ => [171]) sweptFromStr sweptTables
          "default")) :=
  ⟨by decide, verifyChainRows_reachable_markers (fun _ => [171]) sweptFromStr sweptTables "default"
    sweptTables_payloadIndexed none none none (orderedChain sweptTables "default") _
    (List.Perm.refl _)⟩

end Waygate.Audit
