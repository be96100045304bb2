import Waygate.Theory.Audit.Reachable

/-!
# Paged Verification Is One Walk

An operator verifies a long chain in pages. The pages together say what one walk over
the window would have said, if no two rows of the tenant carry one `chain_seq`: a page
continues strictly after the last one's, and the schema does not declare it unique.

## Main definitions

* `Pages`, `DistinctChainSeq`, `PagedWalk`

## Theorems

* `verifyPage_eq`, `priorHash_window`, `pages_suffix`, `verifyChain_pages`, `verifyChain_pages_tied`
-/

namespace Waygate.Audit

open List

section

variable (sha256 : List UInt8 → List UInt8) (fromStr : String → Option RetentionMarker)
  (db : AuditTables) (tenantId : String) (fromTs toTs : Option OffsetDateTime)

def windowRows : List ChainVerifyRow :=
  match chainSeqRange db tenantId fromTs toTs with
  | none => []
  | some range => selectRows db tenantId range none

/-- One walk over all the rows of a window, with the bridges its own broken
    links reach. -/
def singleWalk : ChainVerifyReport :=
  let rows := windowRows db tenantId fromTs toTs
  let prevHead := rows.head?.bind (fun first => priorHash db tenantId first.chainSeq)
  verifyChainRowsWithBridges sha256 tenantId fromTs toTs prevHead rows
    (loadBridges sha256 fromStr db tenantId (verificationGapJobs prevHead rows))

def walkedRows (limit : Int) (afterChainSeq : Option Int) : List ChainVerifyRow :=
  match chainSeqRange db tenantId fromTs toTs with
  | none => []
  | some range => pageRows (selectRows db tenantId range afterChainSeq) (clampLimit limit)

/-- The cursors of calls that each continue from the previous report and stop
    at the first report that is not truncated. -/
inductive Pages (limit : Int) : Option Int → List (Option Int) → Prop
  | last (cursor : Option Int)
      (h : (verifyChain sha256 fromStr db tenantId fromTs toTs cursor limit).truncated = false) :
      Pages limit cursor [cursor]
  | more (cursor : Option Int) (cursors : List (Option Int))
      (h : (verifyChain sha256 fromStr db tenantId fromTs toTs cursor limit).truncated = true)
      (hrest : Pages limit
        (verifyChain sha256 fromStr db tenantId fromTs toTs cursor limit).nextAfterChainSeq cursors) :
      Pages limit cursor (cursor :: cursors)

/-- No two of the tenant's chained rows share a `chain_seq`. -/
def DistinctChainSeq : Prop :=
  ((orderedChain db tenantId).map ChainVerifyRow.chainSeq).Nodup

/-- The bridges of every indexed marker that admission accepts. -/
def allBridges : BridgeIndex :=
  bridgeIndexOf (admitRetentionBridges (indexedCandidates sha256 fromStr db tenantId))

variable (selected : List ChainVerifyRow)

theorem isTruncated_iff (limit : Nat) :
    isTruncated selected limit = true ↔ limit < selected.length := by
  rw [isTruncated, decide_eq_true_eq, length_take]
  omega

theorem pageRows_eq (limit : Nat) :
    pageRows selected limit = selected.take limit := by
  unfold pageRows
  by_cases h : isTruncated selected limit = true
  · rw [if_pos h, take_take, Nat.min_eq_left (Nat.le_succ limit)]
  · -- Nothing was fetched past the limit, so nothing is dropped.
    rw [if_neg h]
    rw [isTruncated_iff, not_lt] at h
    rw [take_of_length_le h, take_of_length_le (by omega)]

theorem clampLimit_pos (limit : Int) : 0 < clampLimit limit := by
  unfold clampLimit
  omega

/-- A page reports the first bad row of its own, as all bridges would have it. -/
theorem verifyPage_eq (hne : selected ≠ []) (limit : Nat)
    (hlimit : 0 < limit) :
    (verifyPage sha256 fromStr db tenantId fromTs toTs selected limit).firstMismatch
        = firstBad sha256 (allBridges sha256 fromStr db tenantId)
            (selected.head?.bind (fun r => priorHash db tenantId r.chainSeq))
            (selected.take limit) ∧
    (verifyPage sha256 fromStr db tenantId fromTs toTs selected limit).status
        = (if (firstBad sha256 (allBridges sha256 fromStr db tenantId)
              (selected.head?.bind (fun r => priorHash db tenantId r.chainSeq))
              (selected.take limit)).isSome then .mismatch
          else if limit < selected.length then .incomplete else .ok) := by
  rcases exists_cons_of_ne_nil hne with ⟨first, rest, hsel⟩
  rcases Nat.exists_eq_succ_of_ne_zero (Nat.pos_iff_ne_zero.mp hlimit) with ⟨k, hk⟩
  have hhead : (selected.take limit).head? = selected.head? := by
    rw [hsel, hk]
    rfl
  have hwalked : selected.take limit ≠ [] := by
    rw [hsel, hk]
    exact cons_ne_nil _ _
  have hempty : (selected.take limit).isEmpty = false := by
    rw [hsel, hk]
    rfl
  unfold verifyPage
  simp only [pageRows_eq, hhead, verifyChainRowsWithBridges_loadBridges]
  unfold verifyChainRowsWithBridges
  simp only [hempty, Bool.false_eq_true, if_false]
  rcases walkRows_eq sha256 (allBridges sha256 fromStr db tenantId)
    (ChainVerifyReport.skeleton tenantId fromTs toTs) rfl
    (selected.head?.bind (fun r => priorHash db tenantId r.chainSeq)) (selected.take limit) with
    ⟨hmis, hstatus⟩
  unfold allBridges at hmis hstatus ⊢
  refine ⟨hmis, ?_⟩
  rw [hstatus]
  by_cases hbad : (firstBad sha256
      (bridgeIndexOf (admitRetentionBridges (indexedCandidates sha256 fromStr db tenantId)))
      (selected.head?.bind (fun r => priorHash db tenantId r.chainSeq))
      (selected.take limit)).isSome = true
  · simp [hbad]
  · simp [hbad, isTruncated_iff]

theorem verifyChain_truncated_ne_ok (afterChainSeq : Option Int) (limit : Int)
    (h : (verifyChain sha256 fromStr db tenantId fromTs toTs afterChainSeq limit).truncated
      = true) :
    (verifyChain sha256 fromStr db tenantId fromTs toTs afterChainSeq limit).status ≠ .ok := by
  unfold verifyChain at h ⊢
  split at h
  · exact absurd h Bool.false_ne_true
  · rename_i range hrange
    have htrunc : isTruncated (selectRows db tenantId range afterChainSeq) (clampLimit limit)
        = true := h
    simp only [verifyPage, htrunc, true_and]
    split
    · decide
    · assumption

variable {db tenantId} in
theorem orderedChain_pairwise (hdist : DistinctChainSeq db tenantId) :
    (orderedChain db tenantId).Pairwise (fun r s => r.chainSeq < s.chainSeq) := by
  have hle : (orderedChain db tenantId).Pairwise (fun r s => r.chainSeq ≤ s.chainSeq) :=
    pairwise_insertionSort (fun a b : ChainVerifyRow => a.chainSeq ≤ b.chainSeq) _
  have hne : (orderedChain db tenantId).Pairwise (fun r s => r.chainSeq ≠ s.chainSeq) :=
    pairwise_map.mp hdist
  exact (hle.and hne).imp (fun h => lt_of_le_of_ne h.1 h.2)

theorem selectRows_pairwise (hdist : DistinctChainSeq db tenantId) (range : Option (Int × Int))
    (afterChainSeq : Option Int) :
    (selectRows db tenantId range afterChainSeq).Pairwise (fun r s => r.chainSeq < s.chainSeq) :=
  (orderedChain_pairwise hdist).filter _

theorem mem_selectRows (range : Option (Int × Int)) (afterChainSeq : Option Int)
    (r : ChainVerifyRow) :
    r ∈ selectRows db tenantId range afterChainSeq ↔ r ∈ orderedChain db tenantId ∧
      (∀ a ∈ afterChainSeq, a < r.chainSeq) ∧
      ∀ b ∈ range, b.1 ≤ r.chainSeq ∧ r.chainSeq ≤ b.2 := by
  simp only [selectRows, mem_filter, Bool.and_eq_true, Option.all_eq_true, decide_eq_true_eq,
    Option.mem_def]

theorem selectRows_after (hdist : DistinctChainSeq db tenantId) (range : Option (Int × Int))
    (done rest : List ChainVerifyRow) (last : ChainVerifyRow)
    (hsplit : selectRows db tenantId range none = done ++ last :: rest) :
    selectRows db tenantId range (some last.chainSeq) = rest := by
  have hsorted := selectRows_pairwise db tenantId hdist range none
  have hfilter : selectRows db tenantId range (some last.chainSeq)
      = (selectRows db tenantId range none).filter (fun r => last.chainSeq < r.chainSeq) := by
    simp [selectRows]
  rw [hfilter, hsplit] at *
  rw [pairwise_append] at hsorted
  rcases hsorted with ⟨-, hlast, hcross⟩
  rw [pairwise_cons] at hlast
  -- Nothing up to the last row is past it, and everything behind it is.
  have hdone : done.filter (fun r => last.chainSeq < r.chainSeq) = [] := by
    refine filter_eq_nil_iff.mpr (fun r hr => ?_)
    have := hcross r hr last mem_cons_self
    simp only [decide_eq_true_eq]
    omega
  have hrest : rest.filter (fun r => last.chainSeq < r.chainSeq) = rest :=
    filter_eq_self.mpr (fun r hr => decide_eq_true (hlast.1 r hr))
  rw [filter_append, hdone, filter_cons, hrest]
  simp

/-- The hash stored before a later page is the one the page before it ended on. -/
theorem priorHash_window (hdist : DistinctChainSeq db tenantId) (range : Option (Int × Int))
    (done rest : List ChainVerifyRow) (before row : ChainVerifyRow)
    (hsplit : selectRows db tenantId range none = done ++ before :: row :: rest) :
    priorHash db tenantId row.chainSeq = some before.rowHash := by
  have hchain := orderedChain_pairwise hdist
  have hsorted := selectRows_pairwise db tenantId hdist range none
  have hmem := mem_selectRows db tenantId range none
  have hbefore : before ∈ selectRows db tenantId range none := by grind
  have hrow : row ∈ selectRows db tenantId range none := by grind
  have hbr : before.chainSeq < row.chainSeq := by grind
  -- Let `x` be the last row of the chain before `row`.
  have hin : before ∈ (orderedChain db tenantId).filter (fun r => r.chainSeq < row.chainSeq) :=
    mem_filter.mpr ⟨((hmem before).mp hbefore).1, decide_eq_true hbr⟩
  rcases eq_nil_or_concat ((orderedChain db tenantId).filter
    (fun r => r.chainSeq < row.chainSeq)) with hnil | ⟨init, x, hx⟩
  · rw [hnil] at hin
    cases hin
  rw [concat_eq_append] at hx
  have hxin : x ∈ (orderedChain db tenantId).filter (fun r => r.chainSeq < row.chainSeq) := by
    rw [hx]
    exact mem_append_right _ mem_cons_self
  have hxlt : x.chainSeq < row.chainSeq := of_decide_eq_true (mem_filter.mp hxin).2
  have hle : before.chainSeq ≤ x.chainSeq := by
    have hpw := hchain.filter (fun r => decide (r.chainSeq < row.chainSeq))
    rw [hx, pairwise_append] at hpw
    rw [hx] at hin
    rcases mem_append.mp hin with hin | hin
    · exact le_of_lt (hpw.2.2 before hin x mem_cons_self)
    · rw [mem_singleton.mp hin]
  -- It lies in the window, between `before` and `row`, so it is `before`.
  have hxwin : x ∈ selectRows db tenantId range none := by grind
  have hxb : x = before := by
    rw [hsplit] at hxwin hsorted
    rw [pairwise_append, pairwise_cons, pairwise_cons] at hsorted
    rcases hsorted with ⟨-, ⟨-, hrest, -⟩, hcross⟩
    rcases mem_append.mp hxwin with hd | hd
    · have := hcross x hd before mem_cons_self
      omega
    · grind
  rw [priorHash, hx, getLast?_concat, Option.map_some, hxb]

theorem verifyChain_page (range : Option (Int × Int))
    (hrange : chainSeqRange db tenantId fromTs toTs = some range) (cursor : Option Int)
    (limit : Int) :
    verifyChain sha256 fromStr db tenantId fromTs toTs cursor limit
      = verifyPage sha256 fromStr db tenantId fromTs toTs (selectRows db tenantId range cursor)
          (clampLimit limit) := by
  rw [verifyChain, hrange]

theorem head_priorHash (hdist : DistinctChainSeq db tenantId) (range : Option (Int × Int))
    (done rest : List ChainVerifyRow)
    (hsplit : selectRows db tenantId range none = done ++ rest) (hne : rest ≠ []) :
    rest.head?.bind (fun r => priorHash db tenantId r.chainSeq)
      = lastHash ((selectRows db tenantId range none).head?.bind
          (fun r => priorHash db tenantId r.chainSeq)) done := by
  rcases eq_nil_or_concat done with hnil | ⟨init, before, hdone⟩
  · rw [hsplit, hnil]
    rfl
  · rcases exists_cons_of_ne_nil hne with ⟨row, rest', hrest⟩
    rw [concat_eq_append] at hdone
    rw [hdone, lastHash_append_singleton, hrest, head?_cons, Option.bind_some]
    refine priorHash_window db tenantId hdist range init rest' before row ?_
    rw [hsplit, hdone, hrest, append_assoc, singleton_append]

/-- The calls made from a cursor walk exactly `rest`, all succeed exactly when
    a walk over `rest` meets no mismatch, and otherwise the first that does
    not reports the mismatch such a walk meets. -/
structure PagedWalk (limit : Int) (cursor : Option Int) (cursors : List (Option Int))
    (expectedPrev : Option String) (rest : List ChainVerifyRow) : Prop where
  pages : Pages sha256 fromStr db tenantId fromTs toTs limit cursor cursors
  rows : cursors.flatMap (walkedRows db tenantId fromTs toTs limit) = rest
  clean : (∀ c ∈ cursors,
      (verifyChain sha256 fromStr db tenantId fromTs toTs c limit).status = .ok ∨
      (verifyChain sha256 fromStr db tenantId fromTs toTs c limit).status = .incomplete) ↔
    firstBad sha256 (allBridges sha256 fromStr db tenantId) expectedPrev rest = none
  found : ((cursors.map (fun c => verifyChain sha256 fromStr db tenantId fromTs toTs c limit)).find?
      (fun report => report.status = .mismatch)).bind ChainVerifyReport.firstMismatch
    = firstBad sha256 (allBridges sha256 fromStr db tenantId) expectedPrev rest

/-- Paging through what is left of a window ends, and finds what a walk over
    it finds. The induction is on how much is left: a truncated page takes at
    least one row off. -/
theorem pages_suffix (hdist : DistinctChainSeq db tenantId) (range : Option (Int × Int))
    (hrange : chainSeqRange db tenantId fromTs toTs = some range) (limit : Int) :
    ∀ (n : Nat) (done rest : List ChainVerifyRow) (cursor : Option Int), rest.length ≤ n →
      rest ≠ [] → selectRows db tenantId range none = done ++ rest →
      selectRows db tenantId range cursor = rest →
      ∃ cursors, PagedWalk sha256 fromStr db tenantId fromTs toTs limit cursor cursors
        (lastHash ((selectRows db tenantId range none).head?.bind
          (fun r => priorHash db tenantId r.chainSeq)) done) rest := by
  intro n
  induction n with
  | zero =>
    intro done rest cursor hlen hne
    exact absurd (length_eq_zero_iff.mp (Nat.le_zero.mp hlen)) hne
  | succ n ih =>
    intro done rest cursor hlen hne hsplit hcursor
    have hpos := clampLimit_pos limit
    have hcall := verifyChain_page sha256 fromStr db tenantId fromTs toTs range hrange cursor limit
    rw [hcursor] at hcall
    have hwalked : walkedRows db tenantId fromTs toTs limit cursor
        = rest.take (clampLimit limit) := by
      rw [walkedRows, hrange]
      simp only [hcursor, pageRows_eq]
    have htrunc : (verifyChain sha256 fromStr db tenantId fromTs toTs cursor limit).truncated
        = isTruncated rest (clampLimit limit) := by
      rw [hcall]
      rfl
    rcases verifyPage_eq sha256 fromStr db tenantId fromTs toTs rest hne (clampLimit limit) hpos
      with ⟨hmis, hstatus⟩
    rw [← hcall, head_priorHash db tenantId hdist range done rest hsplit hne] at hmis hstatus
    by_cases hlast : rest.length ≤ clampLimit limit
    · -- The page holds everything that is left.
      have hfull : rest.take (clampLimit limit) = rest := take_of_length_le hlast
      have hnot : ¬ isTruncated rest (clampLimit limit) = true := by
        rw [isTruncated_iff]
        omega
      rw [hfull] at hmis hstatus hwalked
      refine ⟨[cursor], Pages.last cursor (htrunc.trans (Bool.eq_false_of_not_eq_true hnot)), ?_,
        ?_, ?_⟩
      · rw [flatMap_singleton, hwalked]
      · simp only [mem_singleton, forall_eq, hstatus, not_lt.mpr hlast, if_false]
        cases firstBad sha256 (allBridges sha256 fromStr db tenantId) _ rest with
        | none => simp only [Option.isSome_none, Bool.false_eq_true, if_false, true_or]
        | some m => simp
      · rw [map_singleton, find?_singleton]
        simp only [hstatus, not_lt.mpr hlast, if_false]
        cases hbad : firstBad sha256 (allBridges sha256 fromStr db tenantId) _ rest with
        | none => simp only [Option.isSome_none, Bool.false_eq_true, if_false, reduceCtorEq,
            decide_false, Option.bind_none]
        | some m =>
          simp only [Option.isSome_some, if_true, decide_true, Option.bind_some]
          rw [hmis, hbad]
    · rw [not_le] at hlast
      -- The page ends before a row that is left for the next call.
      have htake : rest.take (clampLimit limit) ≠ [] := by
        intro h
        have := congrArg List.length h
        rw [length_take, length_nil] at this
        omega
      rcases eq_nil_or_concat (rest.take (clampLimit limit)) with hnil | ⟨init, last, hpage⟩
      · exact absurd hnil htake
      rw [concat_eq_append] at hpage
      have hparts : rest = (init ++ [last]) ++ rest.drop (clampLimit limit) := by
        rw [← hpage, take_append_drop]
      have hnext : (verifyChain sha256 fromStr db tenantId fromTs toTs cursor
          limit).nextAfterChainSeq = some last.chainSeq := by
        have hyes : isTruncated rest (clampLimit limit) = true := (isTruncated_iff _ _).mpr hlast
        rw [hcall, verifyPage]
        simp [hyes, pageRows_eq, hpage]
      have hsel : selectRows db tenantId range (some last.chainSeq)
          = rest.drop (clampLimit limit) := by
        refine selectRows_after db tenantId hdist range (done ++ init) _ last ?_
        rw [hsplit]
        conv_lhs => rw [hparts]
        simp
      have hdrop : rest.drop (clampLimit limit) ≠ [] := by grind
      rcases ih (done ++ rest.take (clampLimit limit)) (rest.drop (clampLimit limit))
        (some last.chainSeq) (by rw [length_drop]; omega) hdrop
        (by rw [hsplit, append_assoc, take_append_drop]) hsel with
        ⟨cursors, hpages, hrows, hall, hfind⟩
      have hsum := firstBad_append sha256 (allBridges sha256 fromStr db tenantId)
        (lastHash ((selectRows db tenantId range none).head?.bind
          (fun r => priorHash db tenantId r.chainSeq)) done) (rest.take (clampLimit limit))
        (rest.drop (clampLimit limit))
      rw [take_append_drop, ← lastHash_append] at hsum
      refine ⟨cursor :: cursors, Pages.more cursor cursors
        (htrunc.trans ((isTruncated_iff _ _).mpr hlast)) (hnext ▸ hpages), ?_, ?_, ?_⟩
      · rw [flatMap_cons, hwalked, hrows, take_append_drop]
      · simp only [mem_cons, forall_eq_or_imp, hall, hstatus, hlast, if_true, hsum]
        cases firstBad sha256 (allBridges sha256 fromStr db tenantId) _
            (rest.take (clampLimit limit)) with
        | none => simp only [Option.isSome_none, Bool.false_eq_true, if_false, or_true, true_and,
            Option.none_or]
        | some m => simp
      · rw [map_cons, find?_cons, hsum]
        simp only [hstatus, hlast, if_true]
        cases hbad : firstBad sha256 (allBridges sha256 fromStr db tenantId) _
            (rest.take (clampLimit limit)) with
        | none => grind
        | some m => grind

theorem pages_unique (limit : Int) (cursor : Option Int) (cs ds : List (Option Int))
    (h : Pages sha256 fromStr db tenantId fromTs toTs limit cursor cs)
    (h' : Pages sha256 fromStr db tenantId fromTs toTs limit cursor ds) : ds = cs := by
  induction h generalizing ds with
  | last cursor htrunc =>
    cases h' with
    | last _ _ => rfl
    | more _ _ htrunc' _ => exact absurd (htrunc.symm.trans htrunc') Bool.false_ne_true
  | more cursor cs htrunc _ ih =>
    cases h' with
    | last _ htrunc' => exact absurd (htrunc'.symm.trans htrunc) Bool.false_ne_true
    | more _ ds _ hrest => rw [ih ds hrest]

theorem pages_empty (limit : Int) (hnil : windowRows db tenantId fromTs toTs = []) :
    (verifyChain sha256 fromStr db tenantId fromTs toTs none limit).truncated = false ∧
    (verifyChain sha256 fromStr db tenantId fromTs toTs none limit).status = .empty ∧
    walkedRows db tenantId fromTs toTs limit none = [] := by
  unfold windowRows at hnil
  unfold verifyChain walkedRows
  cases hrange : chainSeqRange db tenantId fromTs toTs with
  | none => exact ⟨rfl, rfl, rfl⟩
  | some range =>
    rw [hrange] at hnil
    simp only [hnil, pageRows_eq, take_nil, and_true]
    exact ⟨rfl, rfl⟩

theorem singleWalk_eq (hne : windowRows db tenantId fromTs toTs ≠ []) :
    (singleWalk sha256 fromStr db tenantId fromTs toTs).firstMismatch
        = firstBad sha256 (allBridges sha256 fromStr db tenantId)
            ((windowRows db tenantId fromTs toTs).head?.bind
              (fun r => priorHash db tenantId r.chainSeq)) (windowRows db tenantId fromTs toTs) ∧
    ((singleWalk sha256 fromStr db tenantId fromTs toTs).status = .ok ↔
      firstBad sha256 (allBridges sha256 fromStr db tenantId)
        ((windowRows db tenantId fromTs toTs).head?.bind
          (fun r => priorHash db tenantId r.chainSeq)) (windowRows db tenantId fromTs toTs)
        = none) := by
  have hempty : ¬ (windowRows db tenantId fromTs toTs).isEmpty = true := by
    rw [List.isEmpty_iff]
    exact hne
  unfold singleWalk
  simp only [verifyChainRowsWithBridges_loadBridges]
  unfold verifyChainRowsWithBridges
  rw [if_neg hempty, firstBad_eq_none]
  exact ⟨(walkRows_eq sha256 _ (ChainVerifyReport.skeleton tenantId fromTs toTs) rfl _ _).1,
    walkRows_status_ok sha256 _ (ChainVerifyReport.skeleton tenantId fromTs toTs) rfl _ _⟩

/-- Following the reports from the first page ends, after one particular
    sequence of calls. Their rows are the window's rows in order; they all
    succeed exactly when one walk over the window does, and otherwise the
    first mismatch among them is that walk's. A truncated page is never a
    success. -/
theorem verifyChain_pages (hdist : DistinctChainSeq db tenantId) (limit : Int) :
    ∃ cursors,
      (∀ cs, Pages sha256 fromStr db tenantId fromTs toTs limit none cs ↔ cs = cursors) ∧
      cursors.flatMap (walkedRows db tenantId fromTs toTs limit)
        = windowRows db tenantId fromTs toTs ∧
      ((∀ c ∈ cursors,
          (verifyChain sha256 fromStr db tenantId fromTs toTs c limit).status = .ok ∨
          (verifyChain sha256 fromStr db tenantId fromTs toTs c limit).status = .incomplete) ↔
        (singleWalk sha256 fromStr db tenantId fromTs toTs).status = .ok) ∧
      ((cursors.map (fun c => verifyChain sha256 fromStr db tenantId fromTs toTs c limit)).find?
          (fun report => report.status = .mismatch)).bind ChainVerifyReport.firstMismatch
        = (singleWalk sha256 fromStr db tenantId fromTs toTs).firstMismatch ∧
      ∀ c, (verifyChain sha256 fromStr db tenantId fromTs toTs c limit).truncated = true →
        (verifyChain sha256 fromStr db tenantId fromTs toTs c limit).status ≠ .ok := by
  have htrunc := fun c => verifyChain_truncated_ne_ok sha256 fromStr db tenantId fromTs toTs c limit
  by_cases hnil : windowRows db tenantId fromTs toTs = []
  · rcases pages_empty sha256 fromStr db tenantId fromTs toTs limit hnil with
      ⟨hlast, hstatus, hrows⟩
    have hpages : Pages sha256 fromStr db tenantId fromTs toTs limit none [none] :=
      Pages.last none hlast
    have hsingle : singleWalk sha256 fromStr db tenantId fromTs toTs
        = ChainVerifyReport.skeleton tenantId fromTs toTs := by
      unfold singleWalk
      simp only [hnil]
      rfl
    refine ⟨[none],
      fun cs => ⟨fun h => pages_unique sha256 fromStr db tenantId fromTs toTs limit _ _
      _ hpages h, fun h => h ▸ hpages⟩, ?_, ?_, ?_, htrunc⟩
    · rw [flatMap_singleton, hrows, hnil]
    · simp [hstatus, hsingle, ChainVerifyReport.skeleton]
    · simp [hstatus, hsingle, ChainVerifyReport.skeleton]
  · rcases singleWalk_eq sha256 fromStr db tenantId fromTs toTs hnil with ⟨hmis, hok⟩
    cases hrange : chainSeqRange db tenantId fromTs toTs with
    | none => grind [windowRows]
    | some range =>
      have hwin : windowRows db tenantId fromTs toTs = selectRows db tenantId range none := by
        rw [windowRows, hrange]
      rcases pages_suffix sha256 fromStr db tenantId fromTs toTs hdist range hrange limit _ []
        (selectRows db tenantId range none) none le_rfl (hwin ▸ hnil) rfl rfl with
        ⟨cursors, hpages, hrows, hall, hfind⟩
      rw [hwin] at hmis hok ⊢
      exact ⟨cursors, fun cs => ⟨fun h => pages_unique sha256 fromStr db tenantId fromTs toTs limit
        _ _ _ hpages h, fun h => h ▸ hpages⟩, hrows, hall.trans hok.symm, hfind.trans hmis.symm,
        htrunc⟩

end

def plainLogRow (id : Uuid) (chainSeq : Int) (prevHash : Option String) : AuditLogRow :=
  { columns := { tailedColumns 0 with id := id }
    category := some "invocation"
    chainSeq := chainSeq
    prevHash := prevHash
    rowHash := some "ab"
    decoded := rfl }

/-- A chain of one row with a second row written beside it, whose link names
    no row of the chain. Where the second row stands is left open. -/
def forgedTables (chainSeq : Int) : AuditTables :=
  { auditLog := [plainLogRow 1 1 none, plainLogRow 2 chainSeq (some "zz")]
    bridgeIndex := []
    primaryKey := by
      simp only [List.map_cons, List.map_nil, plainLogRow]
      decide
    markerKey := List.nodup_nil
    startUnique := startUnique_nil
    reference := fun e he => absurd he List.not_mem_nil }

theorem verifyChain_pages_forged :
    DistinctChainSeq (forgedTables 2) "default" ∧
    ∃ cursors,
      (∀ cs, Pages (fun _ => [171]) (fun _ => none) (forgedTables 2) "default" none none 1 none cs ↔
        cs = cursors) ∧
      cursors.flatMap (walkedRows (forgedTables 2) "default" none none 1)
        = windowRows (forgedTables 2) "default" none none := by
  have hdist : DistinctChainSeq (forgedTables 2) "default" := by
    unfold DistinctChainSeq
    decide
  rcases verifyChain_pages (fun _ => [171]) (fun _ => none) (forgedTables 2) "default" none none
    hdist 1 with ⟨cursors, hpages, hrows, -⟩
  exact ⟨hdist, cursors, hpages, hrows⟩

/-- Two rows at one place: a page ends between them and the next page starts
    behind both. The single walk reports the second row's link as broken, the
    pages never walk that row, and none of them reports a mismatch. -/
theorem verifyChain_pages_tied :
    Pages (fun _ => [171]) (fun _ => none) (forgedTables 1) "default" none none 1 none
      [none, some 1] ∧
    [none, some 1].flatMap (walkedRows (forgedTables 1) "default" none none 1)
      ≠ windowRows (forgedTables 1) "default" none none ∧
    (singleWalk (fun _ => [171]) (fun _ => none) (forgedTables 1) "default" none none).status
      = .mismatch ∧
    ∀ cs, Pages (fun _ => [171]) (fun _ => none) (forgedTables 1) "default" none none 1 none cs →
      ∀ c ∈ cs, (verifyChain (fun _ => [171]) (fun _ => none) (forgedTables 1) "default" none none c
        1).status ≠ .mismatch := by
  have hfirst : verifyChain (fun _ => [171]) (fun _ => none) (forgedTables 1) "default" none none
      none 1 = ⟨"default", none, none, 1, .incomplete, none, true, some 1, some ⟨1, "ab"⟩⟩ := by
    decide
  have hsecond : verifyChain (fun _ => [171]) (fun _ => none) (forgedTables 1) "default" none none
      (some 1) 1 = ⟨"default", none, none, 0, .empty, none, false, none, some ⟨1, "ab"⟩⟩ := by
    decide
  have hpages : Pages (fun _ => [171]) (fun _ => none) (forgedTables 1) "default" none none 1 none
      [none, some 1] := by
    refine Pages.more none [some 1] (by rw [hfirst]) ?_
    rw [hfirst]
    exact Pages.last (some 1) (by rw [hsecond])
  refine ⟨hpages, by decide, by decide, fun cs hcs c hc => ?_⟩
  rw [pages_unique _ _ _ _ _ _ _ _ _ _ hpages hcs] at hc
  simp only [mem_cons, not_mem_nil, or_false] at hc
  rcases hc with hc | hc
  · rw [hc, hfirst]
    decide
  · rw [hc, hsecond]
    decide

end Waygate.Audit
