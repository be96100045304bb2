import Mathlib.Tactic.Tauto
import Waygate.Core.Authz.Override
import Waygate.Theory.Authz.Preparse
import Waygate.Theory.Machine.Run

/-!
# Overrides Are Single-Use, Scoped and Audited

A token is held by a call from its claim on, and by the call's answer for good. Only a
row that is unused can be claimed, and a row whose token is held is used.

## Main definitions

* `Holds`
* `Sound`: What every step keeps.

## Theorems

* `Sound.claim`, `Sound.answer`, `override_sound`
* `run_sound`: Every run.
* `override_answered_late`: An answer after the token expired.
-/

namespace Waygate

namespace Authz

open Machine List

namespace BreakGlassToken

def unused (t : BreakGlassToken) : BreakGlassToken :=
  { t with usedAt := none }

structure Fits (facts : Facts) (t : BreakGlassToken) : Prop where
  tenant : t.tenantId = facts.tenant.tenantId.asStr
  sub : t.issuedTo = facts.principal.sub
  scope : scopePatternMatches t.scopePattern (fqTool facts) = true

def InTime (t : BreakGlassToken) : Prop :=
  ∃ u, t.usedAt = some u ∧ u.unixTimestampNanos < t.expiresAt.unixTimestampNanos

theorem id_of_unused {a b : BreakGlassToken} (h : a.unused = b.unused) : a.id = b.id :=
  congrArg (fun t => t.id) h

theorem Fits.of_unused {facts : Facts} {a b : BreakGlassToken} (ha : a.Fits facts)
    (h : a.unused = b.unused) : b.Fits facts where
  tenant := (congrArg (fun t => t.tenantId) h).symm.trans ha.tenant
  sub := (congrArg (fun t => t.issuedTo) h).symm.trans ha.sub
  scope := (congrArg (fun t => t.scopePattern) h) ▸ ha.scope

end BreakGlassToken

section Tables

variable {store store' : List BreakGlassToken} {now : OffsetDateTime} {tokenId : Uuid}

structure Later (store store' : List BreakGlassToken) : Prop where
  ids : (store'.map BreakGlassToken.id).Sublist (store.map BreakGlassToken.id)
  rows : ∀ t' ∈ store', ∃ t ∈ store, t'.unused = t.unused ∧ (t.usedAt ≠ none → t'.usedAt ≠ none)

theorem later_refl (store : List BreakGlassToken) : Later store store :=
  ⟨List.Sublist.refl _, fun t ht => ⟨t, ht, rfl, id⟩⟩

theorem later_delete (tenantId : String) (tokenId : Uuid) (store : List BreakGlassToken) :
    Later store (deleteToken tenantId tokenId store) :=
  ⟨filter_sublist.map _, fun t ht => ⟨t, (mem_filter.mp ht).1, rfl, id⟩⟩

theorem later_claim (now : OffsetDateTime) (tokenId : Uuid) (store : List BreakGlassToken) :
    Later store (tryClaim now tokenId store).2 := by
  have hids : (tryClaim now tokenId store).2.map BreakGlassToken.id
      = store.map BreakGlassToken.id := by
    simp only [tryClaim, map_map]
    refine map_congr_left (fun t _ => ?_)
    simp only [Function.comp_apply]
    split
    · rfl
    · rfl
  refine ⟨by rw [hids], fun t' ht' => ?_⟩
  · rcases mem_map.mp ht' with ⟨t, ht, rfl⟩
    refine ⟨t, ht, ?_, fun hused => ?_⟩
    · split
      · rfl
      · rfl
    · split
      · exact nofun
      · exact hused

theorem later_claimWithFault (fault : ClaimFault) (now : OffsetDateTime) (tokenId : Uuid)
    (store : List BreakGlassToken) :
    Later store (claimWithFault fault now tokenId store).2 := by
  cases fault with
  | answered | replyLost => exact later_claim now tokenId store
  | failed => exact later_refl store

def Spent (store : List BreakGlassToken) (tokenId : Uuid) : Prop :=
  ∀ t ∈ store, t.id = tokenId → t.usedAt ≠ none

theorem Spent.later (h : Spent store tokenId) (hlater : Later store store') :
    Spent store' tokenId := by
  intro t' ht' hid
  rcases hlater.rows t' ht' with ⟨t, ht, heq, hused⟩
  exact hused (h t ht ((BreakGlassToken.id_of_unused heq).symm.trans hid))

theorem claimWithFault_some {fault : ClaimFault} {claimed : BreakGlassToken}
    (hnodup : (store.map BreakGlassToken.id).Nodup)
    (h : (claimWithFault fault now tokenId store).1 = some claimed) :
    claimed.id = tokenId ∧ claimed.InTime
      ∧ (∃ t ∈ store, claimed.unused = t.unused ∧ t.usedAt = none)
      ∧ Spent (claimWithFault fault now tokenId store).2 tokenId := by
  cases fault with
  | failed => cases h
  | replyLost => cases h
  | answered =>
    rcases Option.map_eq_some_iff.mp h with ⟨t, hfind, rfl⟩
    have ht := mem_of_find?_eq_some hfind
    have hmatched := find?_some hfind
    simp only [Bool.and_eq_true, beq_iff_eq, BreakGlassToken.live, Option.isNone_iff_eq_none,
      decide_eq_true_eq] at hmatched
    refine ⟨hmatched.1, ⟨now, rfl, hmatched.2.2⟩, ⟨t, ht, rfl, hmatched.2.1⟩, ?_⟩
    intro t' ht' hid
    rcases mem_map.mp ht' with ⟨r, hr, rfl⟩
    split
    · intro hunused
      cases hunused
    · -- The ids are distinct, so this row is the one that was found.
      rename_i hother
      rw [if_neg hother] at hid
      have hrt : r = t := inj_on_of_nodup_map hnodup hr ht (hid.trans hmatched.1.symm)
      rw [hrt] at hother
      exact absurd (find?_some hfind) hother

end Tables

section States

variable {i : Nat} {c : Call} {inner : InnerGate} {debugStr : String → String} {s : GateSystem}

def Stage.token : Stage → Option BreakGlassToken
  | .recording token => some token
  | .recorded token => some token
  | _ => none

def Entry.call : Entry → Option Nat
  | .answered call _ _ _ _ => some call
  | _ => none

/-- The call an entry answers, and the token that turned its denial. -/
def Entry.use : Entry → Option (Nat × BreakGlassToken)
  | .answered call _ _ (some token) _ => some (call, token)
  | _ => none

/-- A call holds a token from its claim on, and has used it when it has answered
    with it. -/
def Holds (s : GateSystem) (i : Nat) (t : BreakGlassToken) : Prop :=
  (∃ c, s.calls.lookup i = some c ∧ c.stage.token = some t) ∨ (i, t) ∈ s.log.filterMap Entry.use

def StageSound (debugStr : String → String) (minted : List BreakGlassToken) (log : List Entry)
    (i : Nat) (c : Call) : Prop :=
  match c.stage with
  | .listing => True
  | .walking rest => ∀ t ∈ rest, t.Fits c.facts ∧ t.unused ∈ minted
  | .recording t => t.Fits c.facts ∧ t.InTime
  | .recorded t => t.Fits c.facts ∧ t.InTime
      ∧ ∃ eventId now, .recorded i (breakGlassUse debugStr eventId now c.facts t c.reason) ∈ log

theorem StageSound.mono {minted minted' : List BreakGlassToken} {log log' : List Entry}
    (h : StageSound debugStr minted log i c) (hminted : minted ⊆ minted') (hlog : log ⊆ log') :
    StageSound debugStr minted' log' i c := by grind [StageSound]

/-- What an answer must be, after what the log holds before it. An answer that
    used a token is a denial of the inner gate turned into an allow, for a call
    that the token fits and after its use was recorded. Any other answer is that
    of the inner gate. -/
def EntrySound (inner : InnerGate) (debugStr : String → String) (before : List Entry) :
    Entry → Prop
  | .answered _ facts verdict none _ => verdict = inner.authorizeToolCall facts
  | .answered call facts verdict (some t) _ =>
    verdict = .allow [] ∧ t.Fits facts ∧ t.InTime
      ∧ ∃ reason policyIds reasons, inner.authorizeToolCall facts
          = .deny reason policyIds reasons
        ∧ ∃ eventId now,
          .recorded call (breakGlassUse debugStr eventId now facts t reason) ∈ before
  | _ => True

def LogSound (inner : InnerGate) (debugStr : String → String) (log : List Entry) : Prop :=
  ∀ before e after, log = before ++ e :: after → EntrySound inner debugStr before e

theorem LogSound.append {log : List Entry} (h : LogSound inner debugStr log) {e : Entry}
    (he : EntrySound inner debugStr log e) : LogSound inner debugStr (log ++ [e]) := by
  intro before e' after heq
  rcases eq_nil_or_concat after with rfl | ⟨rest, last, rfl⟩
  · rcases append_inj' heq rfl with ⟨rfl, hlast⟩
    cases hlast
    exact he
  · rw [concat_eq_append, ← cons_append, ← append_assoc] at heq
    exact h before e' rest (append_inj' heq rfl).1

structure Sound (inner : InnerGate) (debugStr : String → String) (s : GateSystem) : Prop where
  ids : (s.minted.map BreakGlassToken.id).Nodup
  nodup : (s.store.map BreakGlassToken.id).Nodup
  rows : ∀ t ∈ s.store, t.unused ∈ s.minted
  calls : ∀ i c, s.calls.lookup i = some c → i < s.begun
    ∧ inner.authorizeToolCall c.facts = c.denial ∧ StageSound debugStr s.minted s.log i c
  log : LogSound inner debugStr s.log
  held : ∀ i t, Holds s i t → t.unused ∈ s.minted ∧ Spent s.store t.id
  exclusive : ∀ i j t t', Holds s i t → Holds s j t' → t.id = t'.id → i = j
  answered : (s.log.filterMap Entry.call).Nodup
  gone : ∀ i ∈ s.log.filterMap Entry.call, i < s.begun ∧ i ∉ s.calls

theorem empty_sound : Sound inner debugStr GateSystem.empty where
  ids := nodup_nil
  nodup := nodup_nil
  rows := fun t ht => absurd ht not_mem_nil
  calls := fun i c hc => by cases hc
  log := fun before e after heq => by cases before <;> cases heq
  held := fun i t h => by
    rcases h with ⟨c, hc, -⟩ | h
    · cases hc
    · cases h
  exclusive := fun i j t t' h => by
    rcases h with ⟨c, hc, -⟩ | h
    · cases hc
    · cases h
  answered := nodup_nil
  gone := fun i hi => absurd hi not_mem_nil

theorem Sound.withStore (h : Sound inner debugStr s) {store : List BreakGlassToken}
    (hlater : Later s.store store) : Sound inner debugStr (s.withStore store) where
  ids := h.ids
  nodup := h.nodup.sublist hlater.ids
  rows := fun t ht => by
    rcases hlater.rows t ht with ⟨r, hr, heq, -⟩
    rw [heq]
    exact h.rows r hr
  calls := h.calls
  log := h.log
  held := fun i t hi => ⟨(h.held i t hi).1, (h.held i t hi).2.later hlater⟩
  exclusive := h.exclusive
  answered := h.answered
  gone := h.gone

theorem Sound.note (h : Sound inner debugStr s) {e : Entry} (hcall : e.call = none)
    (huse : e.use = none) (hsound : EntrySound inner debugStr s.log e) :
    Sound inner debugStr (s.note e) := by
  have hcalls : (s.note e).log.filterMap Entry.call = s.log.filterMap Entry.call := by
    simp [GateSystem.note, hcall]
  have huses : (s.note e).log.filterMap Entry.use = s.log.filterMap Entry.use := by
    simp [GateSystem.note, huse]
  have hholds : ∀ i t, Holds (s.note e) i t → Holds s i t := by
    intro i t hi
    rw [Holds, huses] at hi
    exact hi
  refine ⟨h.ids, h.nodup, h.rows, fun i c hc => ?_, h.log.append hsound, ?_, ?_, ?_, ?_⟩
  · rcases h.calls i c hc with ⟨hi, hdenied, hstage⟩
    exact ⟨hi, hdenied, hstage.mono (List.Subset.refl _) (subset_append_left _ _)⟩
  · exact fun i t hi => h.held i t (hholds i t hi)
  · exact fun i j t t' hi hj => h.exclusive i j t t' (hholds i t hi) (hholds j t' hj)
  · rw [hcalls]
    exact h.answered
  · rw [hcalls]
    exact h.gone

theorem lookup_insert_cases {j : Nat} {c' : Call} (h : (s.calls.insert i c).lookup j = some c') :
    (j = i ∧ c' = c) ∨ (j ≠ i ∧ s.calls.lookup j = some c') := by
  by_cases hji : j = i
  · rw [hji, AList.lookup_insert] at h
    exact .inl ⟨hji, (Option.some.inj h).symm⟩
  · rw [AList.lookup_insert_ne hji] at h
    exact .inr ⟨hji, h⟩

theorem Sound.goTo (h : Sound inner debugStr s) (hc : s.calls.lookup i = some c) {stage : Stage}
    (hstage : StageSound debugStr s.minted s.log i { c with stage := stage })
    (htoken : ∀ t, stage.token = some t → c.stage.token = some t
      ∨ (t.unused ∈ s.minted ∧ Spent s.store t.id ∧ ∀ j t', Holds s j t' → t'.id ≠ t.id)) :
    Sound inner debugStr (s.goTo i c stage) := by
  have hholds : ∀ j t, Holds (s.goTo i c stage) j t → Holds s j t
      ∨ (j = i ∧ t.unused ∈ s.minted ∧ Spent s.store t.id
        ∧ ∀ k t', Holds s k t' → t'.id ≠ t.id) := by
    rintro j t (⟨c', hc', ht⟩ | hlog)
    · rcases lookup_insert_cases hc' with ⟨rfl, rfl⟩ | ⟨-, hold⟩
      · rcases htoken t ht with hkept | hnew
        · exact .inl (.inl ⟨c, hc, hkept⟩)
        · exact .inr ⟨rfl, hnew⟩
      · exact .inl (.inl ⟨c', hold, ht⟩)
    · exact .inl (.inr hlog)
  have hmem : i ∈ s.calls := AList.lookup_isSome.mp (by rw [hc]; rfl)
  refine ⟨h.ids, h.nodup, h.rows, fun j c' hc' => ?_, h.log, fun j t hj => ?_, ?_, h.answered, ?_⟩
  · rcases lookup_insert_cases hc' with ⟨rfl, rfl⟩ | ⟨-, hold⟩
    · exact ⟨(h.calls _ c hc).1, (h.calls _ c hc).2.1, hstage⟩
    · exact h.calls j c' hold
  · rcases hholds j t hj with hold | ⟨-, hminted, hspent, -⟩
    · exact h.held j t hold
    · exact ⟨hminted, hspent⟩
  · intro j k t t' hj hk hid
    rcases hholds j t hj with hj | ⟨hji, -, -, hfree⟩
    · rcases hholds k t' hk with hk | ⟨-, -, -, hfree⟩
      · exact h.exclusive j k t t' hj hk hid
      · exact absurd hid (hfree j t hj)
    · grind
  · intro j hj
    refine ⟨(h.gone j hj).1, fun hjcalls => (h.gone j hj).2 ?_⟩
    rcases (AList.mem_insert _).mp hjcalls with rfl | hold
    · exact hmem
    · exact hold

/-- An answer keeps its token in the log. -/
theorem Sound.answer (h : Sound inner debugStr s) (hc : s.calls.lookup i = some c)
    {verdict : AuthzVerdict} {token : Option BreakGlassToken} {now : OffsetDateTime}
    (htoken : ∀ t ∈ token, c.stage.token = some t)
    (hsound : EntrySound inner debugStr s.log (.answered i c.facts verdict token now)) :
    Sound inner debugStr (s.answer i c verdict token now) := by
  have hmem : i ∈ s.calls := AList.lookup_isSome.mp (by rw [hc]; rfl)
  have herase : ∀ j c', (s.calls.erase i).lookup j = some c' → s.calls.lookup j = some c' := by
    intro j c' hj
    by_cases hji : j = i
    · rw [hji, AList.lookup_erase] at hj
      cases hj
    · rw [AList.lookup_erase_ne hji] at hj
      exact hj
  have hcalls : (s.answer i c verdict token now).log.filterMap Entry.call
      = s.log.filterMap Entry.call ++ [i] := by
    simp only [GateSystem.answer, filterMap_append]
    rfl
  have hholds : ∀ j t, Holds (s.answer i c verdict token now) j t → Holds s j t := by
    rintro j t (⟨c', hc', ht⟩ | hlog)
    · exact .inl ⟨c', herase j c' hc', ht⟩
    · simp only [GateSystem.answer, filterMap_append, mem_append] at hlog
      rcases hlog with hold | hnew
      · exact .inr hold
      · cases token with
        | none => cases hnew
        | some t' =>
          cases mem_singleton.mp hnew
          exact .inl ⟨c, hc, htoken _ rfl⟩
  refine ⟨h.ids, h.nodup, h.rows, fun j c' hc' => ?_, h.log.append hsound, ?_, ?_, ?_, ?_⟩
  · rcases h.calls j c' (herase j c' hc') with ⟨hj, hdenied, hstage⟩
    exact ⟨hj, hdenied, hstage.mono (List.Subset.refl _) (subset_append_left _ _)⟩
  · exact fun j t hj => h.held j t (hholds j t hj)
  · exact fun j k t t' hj hk => h.exclusive j k t t' (hholds j t hj) (hholds k t' hk)
  · rw [hcalls]
    refine nodup_append.mpr ⟨h.answered, nodup_singleton i, ?_⟩
    intro j hj k hk hjk
    rw [mem_singleton.mp hk] at hjk
    exact (h.gone j hj).2 (hjk ▸ hmem)
  · rw [hcalls]
    intro j hj
    rcases mem_append.mp hj with hold | hnew
    · exact ⟨(h.gone j hold).1, fun hcontra => (h.gone j hold).2 (AList.mem_erase.mp hcontra).2⟩
    · rw [mem_singleton.mp hnew]
      exact ⟨(h.calls i c hc).1, fun hcontra => (AList.mem_erase.mp hcontra).1 rfl⟩

theorem Sound.mint (h : Sound inner debugStr s) {token : BreakGlassToken}
    (hid : ∀ t ∈ s.minted, t.id ≠ token.id) :
    Sound inner debugStr
      { s with store := mintToken token s.store, minted := s.minted ++ [token.unused] } := by
  have hrow : ∀ t ∈ s.store, t.id ≠ token.id := fun t ht => hid t.unused (h.rows t ht)
  have hmint : mintToken token s.store = s.store ++ [token.unused] := by
    refine if_neg (fun hany => ?_)
    rcases any_eq_true.mp hany with ⟨t, ht, heq⟩
    exact hrow t ht (beq_iff_eq.mp heq)
  rw [hmint]
  refine ⟨?_, ?_, fun t ht => ?_, fun i c hc => ?_, h.log, fun i t hi => ?_, h.exclusive,
    h.answered, h.gone⟩
  · rw [map_append, nodup_append]
    refine ⟨h.ids, nodup_singleton _, fun x hx y hy hxy => ?_⟩
    rcases mem_map.mp hx with ⟨t, ht, rfl⟩
    exact hid t ht (hxy.trans (mem_singleton.mp hy))
  · rw [map_append, nodup_append]
    refine ⟨h.nodup, nodup_singleton _, fun x hx y hy hxy => ?_⟩
    rcases mem_map.mp hx with ⟨t, ht, rfl⟩
    exact hrow t ht (hxy.trans (mem_singleton.mp hy))
  · rcases mem_append.mp ht with hold | hnew
    · exact mem_append_left _ (h.rows t hold)
    · rw [mem_singleton.mp hnew]
      exact mem_append_right _ (mem_singleton_self _)
  · rcases h.calls i c hc with ⟨hi, hdenied, hstage⟩
    exact ⟨hi, hdenied, hstage.mono (subset_append_left _ _) (List.Subset.refl _)⟩
  · rcases h.held i t hi with ⟨hminted, hspent⟩
    refine ⟨mem_append_left _ hminted, fun r hr heq => ?_⟩
    rcases mem_append.mp hr with hold | hnew
    · exact hspent r hold heq
    · rw [mem_singleton.mp hnew] at heq
      exact absurd heq.symm (hid t.unused hminted)

theorem Sound.begin (h : Sound inner debugStr s) (hstage : c.stage = .listing)
    (hdenied : inner.authorizeToolCall c.facts = c.denial) :
    Sound inner debugStr { s with calls := s.calls.insert s.begun c, begun := s.begun + 1 } := by
  have hholds : ∀ j t,
      Holds { s with calls := s.calls.insert s.begun c, begun := s.begun + 1 } j t →
      Holds s j t := by
    rintro j t (⟨c', hc', ht⟩ | hlog)
    · rcases lookup_insert_cases hc' with ⟨-, rfl⟩ | ⟨-, hold⟩
      · rw [hstage] at ht
        cases ht
      · exact .inl ⟨c', hold, ht⟩
    · exact .inr hlog
  refine ⟨h.ids, h.nodup, h.rows, fun j c' hc' => ?_, h.log, ?_, ?_, h.answered, fun j hj => ?_⟩
  · rcases lookup_insert_cases hc' with ⟨rfl, rfl⟩ | ⟨-, hold⟩
    · grind [StageSound]
    · rcases h.calls j c' hold with ⟨hj, hrest⟩
      exact ⟨Nat.lt_succ_of_lt hj, hrest⟩
  · exact fun j t hj => h.held j t (hholds j t hj)
  · exact fun j k t t' hj hk => h.exclusive j k t t' (hholds j t hj) (hholds k t' hk)
  · refine ⟨Nat.lt_succ_of_lt (h.gone j hj).1, fun hcontra => ?_⟩
    rcases (AList.mem_insert _).mp hcontra with heq | hold
    · exact Nat.lt_irrefl _ (heq ▸ (h.gone j hj).1)
    · exact (h.gone j hj).2 hold

theorem Sound.settle (h : Sound inner debugStr s) {facts : Facts} {now : OffsetDateTime} :
    Sound inner debugStr
      { s with
        begun := s.begun + 1
        log := s.log ++ [.answered s.begun facts (inner.authorizeToolCall facts) none now] } := by
  have hfresh : s.begun ∉ s.calls := by
    intro hmem
    rcases Option.isSome_iff_exists.mp (AList.lookup_isSome.mpr hmem) with ⟨c, hc⟩
    exact Nat.lt_irrefl _ (h.calls _ c hc).1
  have hcalls : ∀ e : Entry, e.call = some s.begun →
      (s.log ++ [e]).filterMap Entry.call = s.log.filterMap Entry.call ++ [s.begun] := by grind
  have hholds : ∀ j t, Holds { s with
      begun := s.begun + 1
      log := s.log ++ [.answered s.begun facts (inner.authorizeToolCall facts) none now] } j t →
        Holds s j t := by
    intro j t hj
    simp only [Holds, filterMap_append] at hj
    exact hj.imp_right (fun hlog => (mem_append.mp hlog).resolve_right (fun hnew => by cases hnew))
  refine ⟨h.ids, h.nodup, h.rows, fun j c hc => ?_, h.log.append rfl, ?_, ?_, ?_, fun j hj => ?_⟩
  · rcases h.calls j c hc with ⟨hj, hdenied, hstage⟩
    exact ⟨Nat.lt_succ_of_lt hj, hdenied,
      hstage.mono (List.Subset.refl _) (subset_append_left _ _)⟩
  · exact fun j t hj => h.held j t (hholds j t hj)
  · exact fun j k t t' hj hk => h.exclusive j k t t' (hholds j t hj) (hholds k t' hk)
  · rw [hcalls _ rfl]
    refine nodup_append.mpr ⟨h.answered, nodup_singleton _, fun j hj k hk hjk => ?_⟩
    rw [mem_singleton.mp hk] at hjk
    exact Nat.lt_irrefl _ (hjk ▸ (h.gone j hj).1)
  · rw [hcalls _ rfl] at hj
    rcases mem_append.mp hj with hold | hnew
    · exact ⟨Nat.lt_succ_of_lt (h.gone j hold).1, (h.gone j hold).2⟩
    · rw [mem_singleton.mp hnew]
      exact ⟨Nat.lt_succ_self _, hfresh⟩

/-- A claim that wins makes the call the only holder. -/
theorem Sound.claim (h : Sound inner debugStr s) (hc : s.calls.lookup i = some c)
    {token : BreakGlassToken} {rest : List BreakGlassToken}
    (hstage : c.stage = .walking (token :: rest)) (fault : ClaimFault) (now : OffsetDateTime) :
    (∀ claimed, (claimWithFault fault now token.id s.store).1 = some claimed →
      Sound inner debugStr ((s.withStore (claimWithFault fault now token.id s.store).2).goTo i c
        (.recording claimed)))
    ∧ Sound inner debugStr ((s.withStore (claimWithFault fault now token.id s.store).2).goTo i c
        (.walking rest)) := by
  have hsound := (h.calls i c hc).2.2
  rw [StageSound, hstage] at hsound
  have hnext := h.withStore (later_claimWithFault fault now token.id s.store)
  refine ⟨fun claimed hclaimed => ?_, hnext.goTo hc ?_ (fun t ht => by cases ht)⟩
  · rcases claimWithFault_some h.nodup hclaimed with ⟨hid, hin, ⟨t, ht, heq, hunused⟩, hspent⟩
    rcases hsound token mem_cons_self with ⟨hfits, hminted⟩
    -- The row that was claimed is the one that was listed, but for its use.
    have hsame : token.unused = claimed.unused := by
      have hclaimed' : claimed.unused ∈ s.minted := by
        rw [heq]
        exact h.rows t ht
      have hids : token.unused.id = claimed.unused.id := hid.symm
      exact inj_on_of_nodup_map h.ids hminted hclaimed' hids
    refine hnext.goTo hc ⟨hfits.of_unused hsame, hin⟩ (fun t' ht' => ?_)
    cases ht'
    refine .inr ⟨hsame ▸ hminted, hid ▸ hspent, fun j t' hj hcontra => ?_⟩
    exact (h.held j t' hj).2 t ht
      ((BreakGlassToken.id_of_unused heq).symm.trans hcontra.symm) hunused
  · exact fun t ht => hsound t (mem_cons_of_mem token ht)

theorem Sound.advance (h : Sound inner debugStr s) (hc : s.calls.lookup i = some c)
    (run : BreakGlassRun) (eventId : Uuid) :
    Sound inner debugStr (s.advance debugStr i c run eventId) := by
  rcases h.calls i c hc with ⟨-, hdenied, hsound⟩
  have hdeny : ∀ now, Sound inner debugStr (s.answer i c c.denial none now) := fun now =>
    h.answer hc (fun t ht => by cases ht) hdenied.symm
  rw [StageSound] at hsound
  unfold GateSystem.advance
  split
  · split
    · exact hdeny run.now
    · -- What is listed fits the call.
      rename_i listed hlisted
      refine h.goTo hc (fun t ht => ?_) (fun t ht => by cases ht)
      unfold candidates at hlisted
      split at hlisted
      · cases hlisted
      · cases hlisted
        rcases mem_listCandidates.mp ht with ⟨hmem, htenant, hsub, -, hscope⟩
        exact ⟨⟨htenant, hsub, hscope⟩, h.rows t hmem⟩
  · exact hdeny run.now
  · rename_i token rest hstage
    rw [hstage] at hsound
    have hclaim := h.claim hc hstage (run.claimFault token.id) run.now
    split
    · split
      · grind
      · grind
    · refine h.goTo hc (fun t ht => ?_) (fun t ht => by cases ht)
      exact hsound t (mem_cons_of_mem token ht)
  · rename_i token hstage
    rw [hstage] at hsound
    split
    · exact hdeny run.now
    · have hnoted := h.note (e := .recorded i (breakGlassUse debugStr eventId run.now c.facts token
        c.reason)) rfl rfl trivial
      refine hnoted.goTo hc ⟨hsound.1, hsound.2, eventId, run.now, ?_⟩ ?_
      · exact mem_append_right _ (mem_singleton_self _)
      · exact fun t ht => .inl (by rw [hstage]; exact ht)
  · rename_i token hstage
    rw [hstage] at hsound
    refine h.answer hc (fun t ht => ?_) ⟨rfl, hsound.1, hsound.2.1, _, _, _, hdenied, hsound.2.2⟩
    cases ht
    rw [hstage]
    rfl

theorem Sound.step (h : Sound inner debugStr s) (a : GateAction) :
    Sound inner debugStr (s.step inner debugStr a) := by
  cases a with
  | mint token =>
    simp only [GateSystem.step]
    split
    · exact h
    · rename_i hany
      refine h.mint (fun t ht heq => hany ?_)
      exact any_eq_true.mpr ⟨t, ht, beq_iff_eq.mpr heq⟩
  | delete tenantId tokenId => exact h.withStore (later_delete tenantId tokenId s.store)
  | mayCall principal tool => exact h.note rfl rfl trivial
  | probe run facts => exact h.note rfl rfl trivial
  | begin now facts =>
    simp only [GateSystem.step]
    split
    · rename_i reason policyIds reasons hverdict
      exact h.begin rfl hverdict
    · exact h.settle
  | advance call run eventId =>
    simp only [GateSystem.step]
    split
    · rename_i c hc
      exact h.advance hc run eventId
    · exact h

theorem run_sound (inner : InnerGate) (debugStr : String → String) (actions : List GateAction) :
    Sound inner debugStr (GateSystem.run inner debugStr actions) :=
  foldl_invariant (fun _ a _ h => h.step a) empty_sound

theorem uses_sublist (log : List Entry) :
    ((log.filterMap Entry.use).map Prod.fst).Sublist (log.filterMap Entry.call) := by
  induction log with
  | nil => exact List.Sublist.refl _
  | cons e rest ih =>
    cases e with
    | answered call facts verdict token now =>
      cases token with
      | none => exact ih.cons call
      | some t => exact ih.cons_cons call
    | recorded call event => exact ih
    | probed facts verdict => exact ih
    | discovered verdict => exact ih

theorem Sound.uses_nodup (h : Sound inner debugStr s) :
    ((s.log.filterMap Entry.use).map (fun u => u.2.id)).Nodup := by
  have hcalls : ((s.log.filterMap Entry.use).map Prod.fst).Nodup :=
    h.answered.sublist (uses_sublist s.log)
  refine List.Nodup.map_on (fun u hu v hv hid => ?_) (List.Nodup.of_map _ hcalls)
  have hcall : u.1 = v.1 := h.exclusive u.1 v.1 u.2 v.2 (.inr hu) (.inr hv) hid
  exact inj_on_of_nodup_map hcalls hu hv hcall

theorem probe_settled_deny (hagree : ∀ facts, inner.probeToolCall facts
      = .settled (inner.authorizeToolCall facts))
    {store : List BreakGlassToken} {facts : Facts} {run run' : BreakGlassRun}
    (hnow : run'.now = run.now) {reason : String} {policyIds reasons : List String}
    (hprobe : BreakGlassGate.probeToolCall inner run store facts
      = .settled (.deny reason policyIds reasons)) (allowed : List String) :
    (BreakGlassGate.authorizeToolCall inner run' store facts).1 ≠ .allow allowed := by
  simp only [BreakGlassGate.probeToolCall, hagree] at hprobe
  unfold BreakGlassGate.authorizeToolCall
  cases hverdict : inner.authorizeToolCall facts with
  | deny reason' policyIds' reasons' =>
    simp only [hverdict] at hprobe
    split at hprobe
    · cases hprobe
    · rename_i hnone
      have hoverride : tryOverride run' facts store = (none, store) :=
        tryOverride_eq_none (Bool.eq_false_of_not_eq_true hnone) rfl rfl rfl
          (le_of_eq (by rw [hnow]))
      simp only [hoverride]
      rintro ⟨⟩
  | allow ids =>
    simp only [hverdict] at hprobe
    cases hprobe
  | stepUpRequired | approvalRequired => rintro ⟨⟩

/-- Whatever steps the administrators, the probes and the calls take: no token is
    used twice, and each is used for a call it fits, whose denial it turns, by a
    claim made before it expired and after the use was recorded. Every other
    answer is that of the inner gate. Probes and discovery leave the table as it
    is, and a denial that the probe settles on is not turned at that time. -/
theorem override_sound (inner : InnerGate) (debugStr : String → String)
    (hagree : ∀ facts, inner.probeToolCall facts = .settled (inner.authorizeToolCall facts))
    (actions : List GateAction) :
    let s := GateSystem.run inner debugStr actions
    ((s.log.filterMap Entry.use).map (fun u => u.2.id)).Nodup
    ∧ (∀ before call facts verdict t now after,
      s.log = before ++ .answered call facts verdict (some t) now :: after →
        verdict = .allow [] ∧ t.tenantId = facts.tenant.tenantId.asStr
        ∧ t.issuedTo = facts.principal.sub
        ∧ scopePatternMatches t.scopePattern (fqTool facts) = true
        ∧ (∃ u, t.usedAt = some u ∧ u.unixTimestampNanos < t.expiresAt.unixTimestampNanos)
        ∧ ∃ reason policyIds reasons, inner.authorizeToolCall facts = .deny reason policyIds reasons
          ∧ ∃ eventId time,
            .recorded call (breakGlassUse debugStr eventId time facts t reason) ∈ before)
    ∧ (∀ call facts verdict now, .answered call facts verdict none now ∈ s.log →
        verdict = inner.authorizeToolCall facts)
    ∧ (∀ run facts, (s.step inner debugStr (.probe run facts)).store = s.store)
    ∧ (∀ principal tool, (s.step inner debugStr (.mayCall principal tool)).store = s.store)
    ∧ ∀ facts run run', run'.now = run.now → ∀ reason policyIds reasons,
        BreakGlassGate.probeToolCall inner run s.store facts
          = .settled (.deny reason policyIds reasons) →
        ∀ allowed,
          (BreakGlassGate.authorizeToolCall inner run' s.store facts).1 ≠ .allow allowed := by
  have hsound := run_sound inner debugStr actions
  refine ⟨hsound.uses_nodup, ?_, ?_, fun _ _ => rfl, fun _ _ => rfl, ?_⟩
  · intro before call facts verdict t now after hlog
    rcases hsound.log before _ after hlog with ⟨hverdict, hfits, hin, hrest⟩
    exact ⟨hverdict, hfits.tenant, hfits.sub, hfits.scope, hin, hrest⟩
  · intro call facts verdict now hmem
    rcases append_of_mem hmem with ⟨before, after, hlog⟩
    exact hsound.log before _ after hlog
  · exact fun facts run run' hnow reason policyIds reasons hprobe =>
      probe_settled_deny hagree hnow hprobe

end States

section Sample

def instant (n : Fin 1000) : OffsetDateTime :=
  { unixTimestampNanos := n.val
    lower := le_trans (by decide) (Int.natCast_nonneg _)
    upper := le_trans (Int.ofNat_le.mpr (Nat.le_of_lt n.isLt)) (by decide) }

def closedGate : InnerGate :=
  { authorizeToolCall := fun _ => .deny "closed" [] []
    probeToolCall := fun _ => .settled (.deny "closed" [] [])
    mayCallTool := fun _ _ => .deny "closed" [] [] }

def emergencyToken : BreakGlassToken :=
  { id := 1
    tenantId := "example"
    issuedTo := "alice"
    issuedBy := "root"
    reason := "outage"
    scopePattern := "example-messages.*"
    requiresAmr := []
    expiresAt := instant 10
    usedAt := none
    createdAt := instant 0 }

def emergencyFacts : Facts :=
  buildCallFacts (memberOf "mail-assistants" []) sendTool

def advanceAt (call : Nat) (n : Fin 1000) : GateAction :=
  .advance call { quietRun with now := instant n } 2

def slowOverride : List GateAction :=
  [.mint emergencyToken, .begin (instant 8) emergencyFacts, advanceAt 0 8, advanceAt 0 9,
    advanceAt 0 11, advanceAt 0 12]

def claimedToken : BreakGlassToken :=
  { emergencyToken with usedAt := some (instant 9) }

theorem slowOverride_log :
    (GateSystem.run closedGate id slowOverride).log
      = [.recorded 0 (breakGlassUse id 2 (instant 11) emergencyFacts claimedToken "closed")]
        ++ .answered 0 emergencyFacts (.allow []) (some claimedToken) (instant 12) :: [] := by
  rfl

theorem override_sound_slow :
    scopePatternMatches claimedToken.scopePattern (fqTool emergencyFacts) = true
      ∧ ∃ u, claimedToken.usedAt = some u
        ∧ u.unixTimestampNanos < claimedToken.expiresAt.unixTimestampNanos :=
  have hanswer := (override_sound closedGate id (fun _ => rfl) slowOverride).2.1 _ _ _ _ _ _ _
    slowOverride_log
  ⟨hanswer.2.2.2.1, hanswer.2.2.2.2.1⟩

theorem override_answered_late :
    ¬ ∀ (inner : InnerGate) (debugStr : String → String) (actions : List GateAction)
      (before : List Entry) (call : Nat) (facts : Facts) (verdict : AuthzVerdict)
      (t : BreakGlassToken) (now : OffsetDateTime) (after : List Entry),
      (∀ facts, inner.probeToolCall facts = .settled (inner.authorizeToolCall facts)) →
      (GateSystem.run inner debugStr actions).log
        = before ++ .answered call facts verdict (some t) now :: after →
      now.unixTimestampNanos < t.expiresAt.unixTimestampNanos := by
  intro h
  exact absurd (h closedGate id slowOverride _ _ _ _ _ _ _ (fun _ => rfl) slowOverride_log)
    (by decide)

end Sample

end Authz

end Waygate
