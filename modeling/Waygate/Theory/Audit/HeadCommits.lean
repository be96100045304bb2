import Waygate.Theory.Audit.Canonical
import Waygate.Theory.Audit.Walk

/-!
# The Chain Head Commits to the History

Two histories that verify and end on the same hash are the same history. A row's hash
determines the hash before it and the row's own bytes, because a zero byte separates the
two that no hexadecimal digest contains. The digest is asked to be injective, which
stands for the assumption that no collision is found.

## Main definitions

* `Digest`, `SameRow`

## Theorems

* `computeRowHash_inj`, `chainAccepted_lastHash_inj`, `verifyChainRows_head_commits`
-/

namespace Waygate.Audit

open Codec List

/-- What the chain asks of its digest: no two inputs share an output, and no
    output is empty. -/
structure Digest (sha256 : List UInt8 → List UInt8) : Prop where
  injective : Function.Injective sha256
  nonempty : ∀ bytes, sha256 bytes ≠ []

def hexPair (b : UInt8) : List Char :=
  [hexDigit (b.toNat / 16), hexDigit (b.toNat % 16)]

theorem hexDigit_inj (m n : Nat) (hm : m < 16) (hn : n < 16) (h : hexDigit m = hexDigit n) :
    m = n := by
  have key : ∀ a b : Fin 16, hexDigit a.val = hexDigit b.val → a = b := by decide
  exact congrArg Fin.val (key ⟨m, hm⟩ ⟨n, hn⟩ h)

theorem delimits_hexPair : Delimits (fun _ => True) Eq hexPair := by
  refine delimits_of_length 2 (fun b => rfl) (fun a b _ _ h => ?_)
  have ha : a.toNat < 256 := a.toNat_lt
  have hb : b.toNat < 256 := b.toNat_lt
  simp only [hexPair, List.cons.injEq, and_true] at h
  have hhigh := hexDigit_inj _ _ (by omega) (by omega) h.1
  have hlow := hexDigit_inj _ _ (by omega) (by omega) h.2
  exact UInt8.toNat_inj.mp (by omega)

theorem hexEncode_inj (d e : List UInt8) (h : hexEncode d = hexEncode e) : d = e := by
  have hlist : d.flatMap hexPair = e.flatMap hexPair := String.ofList_injective h
  have hlen : ∀ l : List UInt8, (l.flatMap hexPair).length = 2 * l.length := by
    intro l
    induction l with
    | nil => rfl
    | cons b l ih => simp only [flatMap_cons, length_append, ih, hexPair,
        length_cons, length_nil]; omega
  have heq : d.length = e.length := by
    have := congrArg List.length hlist
    rw [hlen, hlen] at this
    omega
  exact (flatMap_peel delimits_hexPair d e heq (fun _ _ => trivial) (fun _ _ => trivial) [] []
    (by rw [hlist])).1

theorem asBytes_ofList (l : List Char) :
    asBytes (String.ofList l) = l.flatMap String.utf8EncodeChar := by
  rw [asBytes, String.toByteArray_ofList, List.utf8Encode]
  exact toList_data_toByteArray

theorem asBytes_hexEncode (d : List UInt8) : (0 : UInt8) ∉ asBytes (hexEncode d) := by
  have hdigit : ∀ n : Fin 16, (0 : UInt8) ∉ String.utf8EncodeChar (hexDigit n.val) := by decide
  rw [hexEncode, asBytes_ofList]
  intro h
  rcases mem_flatMap.mp h with ⟨c, hc, hzero⟩
  rcases mem_flatMap.mp hc with ⟨b, -, hcb⟩
  have hb : b.toNat < 256 := b.toNat_lt
  simp only [mem_cons, not_mem_nil, or_false] at hcb
  rcases hcb with hcb | hcb
  · exact hdigit ⟨b.toNat / 16, by omega⟩ (hcb ▸ hzero)
  · exact hdigit ⟨b.toNat % 16, by omega⟩ (hcb ▸ hzero)

theorem hexEncode_ne_empty (d : List UInt8) (hd : d ≠ []) : hexEncode d ≠ "" := by
  intro h
  exact hd (hexEncode_inj d [] h)

/-- A hash that may precede a row's bytes: none, or the hexadecimal form of a
    non-empty digest. -/
def HexHash (p : Option String) : Prop :=
  ∀ h ∈ p, ∃ d : List UInt8, d ≠ [] ∧ h = hexEncode d

section

variable {sha256 : List UInt8 → List UInt8}

theorem hexHash_computeRowHash (hdig : Digest sha256) (p : Option String) (bytes : List UInt8) :
    HexHash (some (computeRowHash sha256 p bytes)) := by
  intro h hh
  rw [← Option.some.inj hh]
  exact ⟨_, hdig.nonempty _, rfl⟩

theorem hexHash_getD_inj (p q : Option String) (hp : HexHash p) (hq : HexHash q)
    (h : p.getD "" = q.getD "") : p = q := by
  have hne : ∀ v, HexHash (some v) → v ≠ "" := by
    intro v hv
    rcases hv v rfl with ⟨d, hd, hvd⟩
    rw [hvd]
    exact hexEncode_ne_empty d hd
  cases p with
  | none =>
    cases q with
    | none => rfl
    | some w => exact absurd h.symm (hne w hq)
  | some v =>
    cases q with
    | none => exact absurd h (hne v hp)
    | some w => exact congrArg some h

theorem hexHash_no_zero (p : Option String) (hp : HexHash p) :
    (0 : UInt8) ∉ asBytes (p.getD "") := by
  cases p with
  | none => decide
  | some v =>
    rcases hp v rfl with ⟨d, -, hvd⟩
    rw [Option.getD_some, hvd]
    exact asBytes_hexEncode d

/-- A row hash determines the hash before it and the bytes. -/
theorem computeRowHash_inj (hdig : Digest sha256) (p q : Option String) (hp : HexHash p)
    (hq : HexHash q) (bytes bytes' : List UInt8)
    (h : computeRowHash sha256 p bytes = computeRowHash sha256 q bytes') :
    p = q ∧ bytes = bytes' := by
  have hinput := hdig.injective (hexEncode_inj _ _ h)
  rcases delimits_terminated 0 (asBytes (p.getD "")) (asBytes (q.getD ""))
    (hexHash_no_zero p hp) (hexHash_no_zero q hq) bytes bytes' hinput with ⟨hpq, hbytes⟩
  exact ⟨hexHash_getD_inj p q hp hq (asBytes_inj _ _ hpq), hbytes⟩

end

/-- Two rows agree in both chain hashes and in every hashed column. -/
structure SameRow (r s : ChainVerifyRow) : Prop where
  prevHash : r.prevHash = s.prevHash
  rowHash : r.rowHash = s.rowHash
  columns : SameColumns r.toAuditColumns s.toAuditColumns

section

variable {sha256 : List UInt8 → List UInt8}

theorem chainAccepted_snoc (rows : List ChainVerifyRow) (row : ChainVerifyRow)
    (h : ChainAccepted sha256 ∅ none (rows ++ [row])) :
    ChainAccepted sha256 ∅ none rows ∧ row.prevHash = lastHash none rows
      ∧ row.rowHash = recomputeRowHash sha256 row := by
  rcases (chainAccepted_append sha256 ∅ none rows [row]).mp h with ⟨hinit, ⟨hlink, hhash⟩, -⟩
  refine ⟨hinit, ?_, hhash.symm⟩
  rcases hlink with hlink | hlink
  · exact hlink
  · exact ((markerBridgeReaches_empty _ _).mp hlink).symm

theorem hexHash_lastHash (hdig : Digest sha256) (rows : List ChainVerifyRow)
    (h : ChainAccepted sha256 ∅ none rows) : HexHash (lastHash none rows) := by
  rcases eq_nil_or_concat rows with hnil | ⟨init, row, hrows⟩
  · rw [hnil]
    exact nofun
  · rw [concat_eq_append] at hrows
    rw [hrows] at h ⊢
    rw [lastHash_append_singleton, (chainAccepted_snoc init row h).2.2]
    exact hexHash_computeRowHash hdig _ _

theorem lastHash_eq_none (rows : List ChainVerifyRow) (h : lastHash none rows = none) :
    rows = [] := by
  rcases eq_nil_or_concat rows with hnil | ⟨init, row, hrows⟩
  · exact hnil
  · grind [lastHash_append_singleton]

/-- Backwards from the common head, by induction over the first chain. -/
theorem chainAccepted_lastHash_inj (hdig : Digest sha256) (rows rows' : List ChainVerifyRow)
    (hsized : ∀ r ∈ rows, r.Sized) (hsized' : ∀ r ∈ rows', r.Sized)
    (h : ChainAccepted sha256 ∅ none rows) (h' : ChainAccepted sha256 ∅ none rows')
    (hhead : lastHash none rows = lastHash none rows') : List.Forall₂ SameRow rows rows' := by
  induction rows using List.reverseRecOn generalizing rows' with
  | nil =>
    rw [lastHash_eq_none rows' hhead.symm]
    exact List.Forall₂.nil
  | append_singleton init row ih =>
    rw [lastHash_append_singleton] at hhead
    rcases eq_nil_or_concat rows' with hnil | ⟨init', row', hrows'⟩
    · rw [hnil] at hhead
      cases hhead
    rw [concat_eq_append] at hrows'
    subst hrows'
    rw [lastHash_append_singleton] at hhead
    have hhash : row.rowHash = row'.rowHash := Option.some.inj hhead
    rcases chainAccepted_snoc init row h with ⟨hinit, hprev, hrow⟩
    rcases chainAccepted_snoc init' row' h' with ⟨hinit', hprev', hrow'⟩
    -- One step back: the hash gives the predecessor and the bytes.
    rcases computeRowHash_inj hdig row.prevHash row'.prevHash
      (hprev ▸ hexHash_lastHash hdig init hinit) (hprev' ▸ hexHash_lastHash hdig init' hinit') _ _
      (hrow.symm.trans (hhash.trans hrow')) with ⟨hpp, hbytes⟩
    have hmem : ∀ (l : List ChainVerifyRow) r, r ∈ l ++ [r] :=
      fun l r => mem_append_right l mem_cons_self
    rw [canonicalAuditBytesWithExt5_eq, canonicalAuditBytesWithExt5_eq] at hbytes
    rcases head_delimits _ _ (hsized row (hmem init row)) (hsized' row' (hmem init' row')) _ _
      hbytes with ⟨hcols, htails⟩
    have hcols := sameColumns_of_parts _ _ hcols
      (tailBytes_inj _ _ (hsized row (hmem init row)) (hsized' row' (hmem init' row')) htails)
    have hinits : List.Forall₂ SameRow init init' :=
      ih init' (fun r hr => hsized r (mem_append_left _ hr))
        (fun r hr => hsized' r (mem_append_left _ hr)) hinit hinit'
        (hprev.symm.trans (hpp.trans hprev'))
    exact rel_append hinits (List.Forall₂.cons ⟨hpp, hhash, hcols⟩ List.Forall₂.nil)

/-- Two lists of rows that verify from the start without markers and end on
    the same hash agree position by position: the head commits to every
    hashed column of every row, to their order and to their number. -/
theorem verifyChainRows_head_commits (hdig : Digest sha256)
    (tenantId tenantId' : String) (fromTs toTs fromTs' toTs' : Option OffsetDateTime)
    (rows rows' : List ChainVerifyRow)
    (hsized : ∀ r ∈ rows, r.Sized) (hsized' : ∀ r ∈ rows', r.Sized)
    (hok : (verifyChainRows sha256 tenantId fromTs toTs none rows []).status = .ok)
    (hok' : (verifyChainRows sha256 tenantId' fromTs' toTs' none rows' []).status = .ok)
    (hhead : rows.getLast?.map ChainVerifyRow.rowHash
      = rows'.getLast?.map ChainVerifyRow.rowHash) :
    rows.length = rows'.length ∧ List.Forall₂ SameRow rows rows' := by
  have hsame : List.Forall₂ SameRow rows rows' := by
    refine chainAccepted_lastHash_inj hdig rows rows' hsized hsized'
      ((verifyChainRowsWithBridges_status_ok sha256 _ _ _ _ _ _).mp hok).2
      ((verifyChainRowsWithBridges_status_ok sha256 _ _ _ _ _ _).mp hok').2 ?_
    rw [lastHash_eq_getLast, lastHash_eq_getLast, hhead]
  exact ⟨hsame.length_eq, hsame⟩

end

def sealedRow (sha256 : List UInt8 → List UInt8) (c : AuditColumns) (chainSeq : Int)
    (prevHash : Option String) : ChainVerifyRow :=
  { c with
    chainSeq := chainSeq
    prevHash := prevHash
    rowHash := computeRowHash sha256 prevHash (canonicalAuditBytesWithExt5 c) }

def twoRowHistory (nanos : Fin 1000) (chainSeq : Int) : List ChainVerifyRow :=
  let first := sealedRow (0 :: ·) (tailedColumns nanos) chainSeq none
  [first, sealedRow (0 :: ·) (tailedColumns nanos) (chainSeq + 1) (some first.rowHash)]

theorem twoRowHistory_ok (nanos : Fin 1000) (chainSeq : Int) :
    (verifyChainRows (0 :: ·) "default" none none none (twoRowHistory nanos chainSeq) []).status
      = .ok := by
  refine (verifyChainRowsWithBridges_status_ok _ _ _ _ _ _ _).mpr ⟨cons_ne_nil _ _, ?_⟩
  exact ⟨⟨Or.inl rfl, rfl⟩, ⟨Or.inl rfl, rfl⟩, trivial⟩

theorem verifyChainRows_head_commits_twoRows :
    twoRowHistory 1 7 ≠ twoRowHistory 999 40 ∧
    (twoRowHistory 1 7).length = (twoRowHistory 999 40).length ∧
    List.Forall₂ SameRow (twoRowHistory 1 7) (twoRowHistory 999 40) := by
  have hsized : ∀ nanos chainSeq, ∀ r ∈ twoRowHistory nanos chainSeq, r.Sized := by
    intro nanos chainSeq r hr
    simp only [twoRowHistory, mem_cons, not_mem_nil, or_false] at hr
    rcases hr with hr | hr <;> exact hr ▸ tailedColumns_sized nanos
  refine ⟨fun h => ?_, verifyChainRows_head_commits
    ⟨cons_injective, fun bytes => cons_ne_nil _ _⟩ "default" "default" none none none none
    (twoRowHistory 1 7) (twoRowHistory 999 40) (hsized 1 7) (hsized 999 40)
    (twoRowHistory_ok 1 7) (twoRowHistory_ok 999 40) rfl⟩
  have hseq : (7 : Int) = 40 := congrArg ChainVerifyRow.chainSeq (List.cons.inj h).1
  exact absurd hseq (by decide)

end Waygate.Audit
