import Waygate.Theory.Quota.Window

/-!
# The Quota Probe Is Sound

The probe denies when a full second of refill would not give the bucket a token. Other
calls only lower the line the bucket's tokens lie on, so a second later there is still
none.

## Main definitions

* `Dry`, `Doomed`, `Refused`

## Theorems

* `Dry.step`, `Doomed.step`, `check_sound`
* `dry_of_check`: What the probe has seen.
-/

namespace Waygate.Quota

open RateLimit List

section Reads

variable {K : Type} [Field K] [LinearOrder K]

theorem forM_error {α ε : Type} {f : α → Except ε Unit} {l : List α} {e : ε}
    (h : l.forM f = .error e) : ∃ x ∈ l, f x = .error e := by
  induction l with
  | nil => cases h
  | cons x rest ih =>
    rw [forM_eq_forM, forM_cons] at h
    cases hx : f x with
    | error e' =>
      rw [hx] at h
      cases h
      exact ⟨x, mem_cons_self, hx⟩
    | ok u =>
      rw [hx] at h
      rcases ih h with ⟨y, hy, hfy⟩
      exact ⟨y, mem_cons_of_mem x hy, hfy⟩

theorem check_error [FloorRing K] {table : PolicyTable K}
    {read : Bucket → K × Option (Counter K)} {clock : K} {ctx : QuotaContext}
    {actions : List QuotaAction} {e : QuotaError}
    (h : check table read clock ctx actions = .error e) :
    actions.isEmpty = false ∧ ∃ app ∈ applicablePolicies table ctx actions, ∃ row,
      (read app.bucket).2 = some row
        ∧ tokensNow app.capacity app.refillPerSecond (read app.bucket).1 row
          + app.refillPerSecond < 1 := by
  unfold check at h
  split at h
  · cases h
  rename_i hactions
  refine ⟨Bool.eq_false_of_not_eq_true hactions, ?_⟩
  rcases forM_error h with ⟨app, happ, hdenied⟩
  refine ⟨app, happ, ?_⟩
  split at hdenied
  · cases hdenied
  rename_i now row hread
  split at hdenied
  · rename_i hlow
    exact ⟨row, by rw [hread], by rw [hread]; exact hlow⟩
  · cases hdenied

theorem upsert_eq_none [IsStrictOrderedRing K] {capacity refill now u : K} (hrefill : 0 ≤ refill)
    (hnow : now ≤ u) {row : Counter K} (hlow : row.level.line refill u < 1) :
    upsert capacity refill now (some row) = none := by
  refine if_neg (not_le.mpr ?_)
  calc tokensNow capacity refill now row ≤ row.level.line refill now := min_le_right _ _
    _ ≤ row.level.line refill u := line_mono hrefill _ hnow
    _ < 1 := hlow

end Reads

section Doomed

variable {K : Type} [Field K] [LinearOrder K]

/-- The bucket of a policy is without a token until after the time. -/
def Dry (app : ApplicablePolicy K) (u : K) (s : System K) : Prop :=
  ∃ row, s.counters app.bucket = some row ∧ row.level.line app.refillPerSecond u < 1

/-- The call has a policy before it whose bucket is dry until after the call's
    time. Of the results after the first `n`, its own are denials. -/
structure Doomed (table : PolicyTable K) (first : Bucket → Option (Counter K)) (id : Nat)
    (app : ApplicablePolicy K) (u now : K) (n : Nat) (s : System K) : Prop where
  consistent : s.Consistent table first
  dry : Dry app u s
  ahead : ∀ tx, s.txs.lookup id = some tx → tx.now = now ∧ app ∈ tx.remaining
  bound : n ≤ s.results.length
  denied : ∀ r, (id, r) ∈ s.results.drop n →
    ∃ policyId name seconds, r = .error (.rateLimited policyId name seconds)
  pending : id ∈ s.txs ∨ ∃ r, (id, r) ∈ s.results.drop n

variable {table : PolicyTable K} {first : Bucket → Option (Counter K)} {id : Nat}
  {app : ApplicablePolicy K} {u now : K} {n : Nat} {s : System K}

theorem Doomed.upsert_eq_none [IsStrictOrderedRing K] (h : Doomed table first id app u now n s)
    (hrefill : 0 ≤ app.refillPerSecond) (hnow : now ≤ u) {time : K}
    {rest : List (ApplicablePolicy K)} {writes : List (Bucket × Counter K)}
    (htx : s.txs.lookup id = some ⟨time, app :: rest, writes⟩) :
    upsert app.capacity app.refillPerSecond time
      (s.visible ⟨time, app :: rest, writes⟩ app.bucket) = none := by
  rcases h.dry with ⟨row, hrow, hline⟩
  have htime : time = now := (h.ahead _ htx).1
  rw [visible_of_not_mem s _ (h.consistent.txs id _ htx).next_not_mem, hrow]
  exact Quota.upsert_eq_none hrefill (htime ▸ hnow) hline

theorem upsert_of_mem_writes (hs : s.Consistent table first) (hgoverned : Governed table app)
    {id' : Nat} {tx : Tx K} (htx : s.txs.lookup id' = some tx) {row : Counter K}
    (hmem : (app.bucket, row) ∈ tx.writes) :
    upsert app.capacity app.refillPerSecond tx.now (s.counters app.bucket) = some row := by
  rcases (hs.txs id' tx htx).writes _ hmem with ⟨p, hp, hid, hupsert⟩
  rcases hgoverned with ⟨q, hq, hidq, hcapacity, hrefill⟩
  have hpq : p = q := inj_on_of_nodup_map table.ids hp hq (hid.symm.trans hidq)
  rw [hcapacity, hrefill, ← hpq]
  exact hupsert

theorem Dry.commit [IsStrictOrderedRing K] (h : Dry app u s) (hs : s.Consistent table first)
    (hgoverned : Governed table app) {id' : Nat} {tx : Tx K} (htx : s.txs.lookup id' = some tx) :
    ∃ row, (tx.writes.lookup app.bucket).or (s.counters app.bucket) = some row
      ∧ row.level.line app.refillPerSecond u < 1 := by
  rcases h with ⟨row, hrow, hline⟩
  cases hlookup : tx.writes.lookup app.bucket with
  | none => exact ⟨row, by rw [hrow, Option.none_or], hline⟩
  | some row' =>
    refine ⟨row', rfl, ?_⟩
    rcases lookup_eq_some_iff.mp hlookup with ⟨before, after, hwrites, -⟩
    have hmem : (app.bucket, row') ∈ tx.writes := by
      rw [hwrites]
      exact mem_append_right _ mem_cons_self
    have hupsert := upsert_of_mem_writes hs hgoverned htx hmem
    rw [hrow] at hupsert
    have hspend := upsert_level app.capacity app.refillPerSecond tx.now (some row)
    rw [hupsert] at hspend
    linarith [(line_spend hspend.symm u).1]

/-- A bucket that is dry stays dry. -/
theorem Dry.step [IsStrictOrderedRing K] [FloorRing K] (h : Dry app u s)
    (hs : s.Consistent table first) (hgoverned : Governed table app) {a : Action K}
    {s' : System K} (hstep : Stepped table s a s') : Dry app u s' := by
  cases hstep with
  | committed id' time writes htx => exact h.commit hs hgoverned htx
  | _ => exact h

theorem Dry.run [IsStrictOrderedRing K] [FloorRing K] (h : Dry app u s)
    (hs : s.Consistent table first) (hgoverned : Governed table app) (actions : List (Action K)) :
    Dry app u (s.run table actions) := by
  induction actions generalizing s with
  | nil => exact h
  | cons a rest ih =>
    have hstep : Stepped table s a (s.step table a) := step_stepped a
    exact ih (h.step hs hgoverned hstep) (step_consistent hs hstep)

theorem Doomed.finish (h : Doomed table first id app u now n s) (id' : Nat)
    (result : Except QuotaError Unit)
    (hresult : id' = id → ∃ policyId name seconds,
      result = .error (.rateLimited policyId name seconds)) :
    Doomed table first id app u now n (s.finish id' result) := by
  have hdrop : (s.finish id' result).results.drop n = s.results.drop n ++ [(id', result)] :=
    drop_append_of_le_length h.bound
  refine ⟨finish_consistent h.consistent id' result, h.dry, ?_, ?_, ?_, ?_⟩
  · exact fun tx htx => h.ahead tx (lookup_erased htx).2
  · exact le_trans h.bound (by simp [System.finish])
  · intro r hr
    rw [hdrop] at hr
    rcases mem_append.mp hr with hold | hnew
    · exact h.denied r hold
    · cases mem_singleton.mp hnew
      exact hresult rfl
  · rw [hdrop]
    by_cases heq : id = id'
    · exact .inr ⟨result, mem_append_right _ (by rw [heq]; exact mem_singleton_self _)⟩
    · rcases h.pending with htx | ⟨r, hr⟩
      · exact .inl (AList.mem_erase.mpr ⟨heq, htx⟩)
      · exact .inr ⟨r, mem_append_left _ hr⟩

theorem Doomed.put (h : Doomed table first id app u now n s) {id' : Nat} {tx : Tx K}
    (hconsistent : (s.put id' tx).Consistent table first)
    (hahead : id' = id → tx.now = now ∧ app ∈ tx.remaining) :
    Doomed table first id app u now n (s.put id' tx) where
  consistent := hconsistent
  dry := h.dry
  ahead := fun tx' htx => by
    rcases lookup_put htx with ⟨hid, heq⟩ | ⟨-, hold⟩
    · rw [heq]
      exact hahead hid.symm
    · exact h.ahead tx' hold
  bound := h.bound
  denied := h.denied
  pending := h.pending.imp_left (fun htx => (AList.mem_insert _).mpr (.inr htx))

def Disturbs (id : Nat) : Action K → Prop
  | .begin id' _ _ _ => id' = id
  | .fail id' => id' = id
  | _ => False

theorem Doomed.step [IsStrictOrderedRing K] [FloorRing K] (h : Doomed table first id app u now n s)
    (hgoverned : Governed table app) (hnow : now ≤ u) {a : Action K} (ha : ¬ Disturbs id a)
    {s' : System K} (hstep : Stepped table s a s') : Doomed table first id app u now n s' := by
  have hrefill : 0 ≤ app.refillPerSecond := by
    rcases hgoverned with ⟨p, hp, -, -, hrefill⟩
    rw [hrefill]
    exact table.refill p hp
  have hconsistent := step_consistent h.consistent hstep
  cases hstep with
  | idle => exact h
  | free id' | failed id' => exact h.finish id' _ (fun heq => absurd heq ha)
  | began id' time ctx actions hid => exact h.put hconsistent (fun heq => absurd heq ha)
  | debited id' clock time app' rest writes row htx hlock hrow =>
    refine h.put hconsistent (fun heq => ?_)
    subst heq
    rcases h.ahead _ htx with ⟨htime, hmem⟩
    refine ⟨htime, ?_⟩
    rcases mem_cons.mp hmem with happ | hrest
    · subst happ
      rw [h.upsert_eq_none hrefill hnow htx] at hrow
      cases hrow
    · exact hrest
  | denied id' clock time app' rest writes htx hlock hrow =>
    exact h.finish id' _ (fun _ => ⟨_, _, _, rfl⟩)
  | committed id' time writes htx =>
    -- The call itself does not commit: it has the policy before it.
    have hne : id' ≠ id := by
      intro heq
      subst heq
      exact absurd (h.ahead _ htx).2 not_mem_nil
    have hfinish := h.finish id' (.ok ()) (fun heq => absurd heq hne)
    exact ⟨hconsistent, h.dry.commit h.consistent hgoverned htx, hfinish.ahead, hfinish.bound,
      hfinish.denied, hfinish.pending⟩
  | probed time clock ctx actions probes =>
    exact ⟨hconsistent, h.dry, h.ahead, h.bound, h.denied, h.pending⟩

theorem Doomed.run [IsStrictOrderedRing K] [FloorRing K] (h : Doomed table first id app u now n s)
    (hgoverned : Governed table app) (hnow : now ≤ u) (actions : List (Action K))
    (hactions : ∀ a ∈ actions, ¬ Disturbs id a) :
    Doomed table first id app u now n (s.run table actions) :=
  Machine.foldl_invariant (I := Doomed table first id app u now n)
    (fun _ a ha h => h.step hgoverned hnow (hactions a ha) (step_stepped a)) h

end Doomed

section Open

variable {K : Type} {id : Nat} {now : K} {s : System K}

/-- No other transaction holds a row that the call is still to debit. -/
def Unblocked (id : Nat) (s : System K) : Prop :=
  ∀ tx, s.txs.lookup id = some tx → ∀ app ∈ tx.remaining, s.locked id app.bucket = false

theorem locked_put {tx : Tx K} {bucket : Bucket} (h : s.locked id bucket = false) :
    (s.put id tx).locked id bucket = false := by
  refine any_eq_false.mpr (fun i _ hi => ?_)
  simp only [Bool.and_eq_true, bne_iff_ne, ne_eq, Option.any_eq_true, any_eq_true,
    beq_iff_eq] at hi
  rcases hi with ⟨hne, tx', htx', w, hw, hbucket⟩
  rcases lookup_put htx' with ⟨heq, -⟩ | ⟨-, hold⟩
  · exact hne heq
  · exact not_mem_of_unlocked h hold hne (hbucket ▸ mem_map_of_mem hw)

/-- An open call has each of its policies before it or has debited it. -/
def Covers (id : Nat) (now : K) (apps : List (ApplicablePolicy K)) (s : System K) : Prop :=
  ∀ tx, s.txs.lookup id = some tx → tx.now = now
    ∧ ∀ app ∈ apps, app ∈ tx.remaining ∨ app.bucket ∈ tx.writes.map Prod.fst

theorem Covers.put {apps : List (ApplicablePolicy K)} (h : Covers id now apps s) {id' : Nat}
    {tx : Tx K} (htx : id' = id → tx.now = now
      ∧ ∀ app ∈ apps, app ∈ tx.remaining ∨ app.bucket ∈ tx.writes.map Prod.fst) :
    Covers id now apps (s.put id' tx) := by
  intro tx' htx'
  rcases lookup_put htx' with ⟨heq, rfl⟩ | ⟨-, hold⟩
  · exact htx heq.symm
  · exact h tx' hold

end Open

section Progress

variable {K : Type} [Field K] [LinearOrder K] {table : PolicyTable K}
  {first : Bucket → Option (Counter K)} {id : Nat} {app : ApplicablePolicy K} {u now : K} {n : Nat}
  {s : System K}

theorem doomed_open [IsStrictOrderedRing K] (hs : s.Consistent table first)
    {apps : List (ApplicablePolicy K)}
    (hcovers : Covers id now apps s) (hid : id ∈ s.txs) {app : ApplicablePolicy K}
    (happ : app ∈ apps) (hgoverned : Governed table app) (hdry : Dry app u s) (hnow : now ≤ u) :
    Doomed table first id app u now s.results.length s := by
  refine ⟨hs, hdry, fun tx htx => ?_, le_refl _, ?_, .inl hid⟩
  · rcases hcovers tx htx with ⟨htime, happs⟩
    refine ⟨htime, (happs app happ).resolve_right (fun hwritten => ?_)⟩
    rcases mem_map.mp hwritten with ⟨⟨bucket, row'⟩, hmem, hbucket⟩
    obtain rfl : bucket = app.bucket := hbucket
    have hupsert := upsert_of_mem_writes hs hgoverned htx hmem
    rcases hdry with ⟨row, hrow, hline⟩
    rcases hgoverned with ⟨p, hp, -, -, hrefill⟩
    have hr0 : 0 ≤ app.refillPerSecond := hrefill ▸ table.refill p hp
    rw [hrow, upsert_eq_none hr0 (htime ▸ hnow) hline] at hupsert
    cases hupsert
  · simp

variable [FloorRing K]

theorem Unblocked.statement (h : Unblocked id s) (table : PolicyTable K) (clock : K) {m : Nat}
    (hleft : ∀ tx, s.txs.lookup id = some tx → 0 < tx.remaining.length
      ∧ tx.remaining.length ≤ m + 1) :
    Unblocked id (s.step table (.statement id clock))
      ∧ ∀ tx, (s.step table (.statement id clock)).txs.lookup id = some tx →
        tx.remaining.length ≤ m := by
  cases htx : s.txs.lookup id with
  | none =>
    have hsame : s.step table (.statement id clock) = s := by simp only [System.step, htx]
    rw [hsame]
    exact ⟨h, fun tx htx' => by rw [htx] at htx'; cases htx'⟩
  | some tx =>
    rcases hleft tx htx with ⟨hpos, hbound⟩
    rcases tx with ⟨time, remaining, writes⟩
    rcases exists_cons_of_length_pos hpos with ⟨app, rest, rfl⟩
    have hlock := h _ htx app mem_cons_self
    obtain ⟨row, hput⟩ | ⟨result, hfinish⟩ : (∃ row, s.step table (.statement id clock)
          = s.put id ⟨time, rest, (app.bucket, row) :: writes⟩)
        ∨ ∃ result, s.step table (.statement id clock) = s.finish id result := by
      simp only [System.step, htx, hlock, Bool.false_eq_true, if_false]
      split
      · exact .inl ⟨_, rfl⟩
      · exact .inr ⟨_, rfl⟩
    · rw [hput]
      refine ⟨fun tx' htx' app' happ' => ?_, fun tx' htx' => ?_⟩
      all_goals
        rcases lookup_put htx' with ⟨-, heq⟩ | ⟨hne, -⟩
        case inr => exact absurd rfl hne
        subst heq
      · exact locked_put (h _ htx app' (mem_cons_of_mem app happ'))
      · exact Nat.le_of_succ_le_succ hbound
    · rw [hfinish]
      exact ⟨fun tx' htx' => absurd rfl (lookup_erased htx').1,
        fun tx' htx' => absurd rfl (lookup_erased htx').1⟩

theorem Doomed.finishes [IsStrictOrderedRing K] (h : Doomed table first id app u now n s)
    (hgoverned : Governed table app) (hnow : now ≤ u) (hfree : Unblocked id s) (clocks : List K)
    (hclocks : ∀ tx, s.txs.lookup id = some tx → tx.remaining.length ≤ clocks.length) :
    ∃ r, (id, r) ∈ (s.run table (clocks.map (Action.statement id))).results.drop n := by
  induction clocks generalizing s with
  | nil =>
    refine h.pending.resolve_left (fun hid => ?_)
    rcases Option.isSome_iff_exists.mp (AList.lookup_isSome.mpr hid) with ⟨tx, htx⟩
    have hempty := eq_nil_of_length_eq_zero (Nat.le_zero.mp (hclocks tx htx))
    exact not_mem_nil (hempty ▸ (h.ahead tx htx).2)
  | cons clock rest ih =>
    have hstep := h.step hgoverned hnow (a := .statement id clock) not_false (step_stepped _)
    have hnext := hfree.statement table clock (fun tx htx =>
      ⟨length_pos_of_mem (h.ahead tx htx).2, hclocks tx htx⟩)
    exact ih hstep hnext.1 hnext.2

end Progress

section Probe

variable {actions : List QuotaAction} {ctx : QuotaContext} {K : Type} [Field K] [LinearOrder K]
  [FloorRing K] {table : PolicyTable K} {first : Bucket → Option (Counter K)} {id : Nat} {u now : K}
  {n : Nat} {s : System K}

theorem Covers.step {apps : List (ApplicablePolicy K)} (h : Covers id now apps s) {a : Action K}
    (ha : ¬ Disturbs id a) {s' : System K} (hstep : Stepped table s a s') :
    Covers id now apps s' := by
  cases hstep with
  | idle | probed => exact h
  | free | denied | committed | failed => exact fun tx htx => h tx (lookup_erased htx).2
  | began id' time ctx actions hid => exact h.put (fun heq => absurd heq ha)
  | debited id' clock time app' rest writes row htx hlock hrow =>
    refine h.put (fun heq => ?_)
    subst heq
    rcases h _ htx with ⟨htime, hcovers⟩
    refine ⟨htime, fun app happ => ?_⟩
    rcases hcovers app happ with hmem | hwritten
    · grind
    · exact .inr (mem_cons_of_mem _ hwritten)

theorem Covers.run {apps : List (ApplicablePolicy K)} (h : Covers id now apps s)
    (actions : List (Action K)) (hactions : ∀ a ∈ actions, ¬ Disturbs id a) :
    Covers id now apps (s.run table actions) :=
  Machine.foldl_invariant (I := Covers id now apps)
    (fun _ a ha h => h.step (hactions a ha) (step_stepped a)) h

/-- From here on the call is denied: what it returns is a denial, it has returned
    it or is still open, and it returns it once nothing blocks it. -/
def Refused (table : PolicyTable K) (id : Nat) (n : Nat) (s : System K) : Prop :=
  (∀ r, (id, r) ∈ s.results.drop n →
    ∃ policyId name seconds, r = .error (.rateLimited policyId name seconds))
  ∧ (id ∈ s.txs ∨ ∃ r, (id, r) ∈ s.results.drop n)
  ∧ (Unblocked id s → ∀ clocks : List K,
    (∀ tx, s.txs.lookup id = some tx → tx.remaining.length ≤ clocks.length) →
      ∃ policyId name seconds, (id, .error (.rateLimited policyId name seconds))
        ∈ (s.run table (clocks.map (Action.statement id))).results.drop n)

theorem begin_eq_put {app : ApplicablePolicy K} (hid : id ∉ s.txs)
    (hactions : actions.isEmpty = false) (happ : app ∈ applicablePolicies table ctx actions) :
    s.step table (.begin id now ctx actions)
      = s.put id ⟨now, applicablePolicies table ctx actions, []⟩ := by
  have hne : (applicablePolicies table ctx actions).isEmpty = false :=
    isEmpty_eq_false_iff.mpr (ne_nil_of_mem happ)
  simp only [System.step, if_neg hid, hactions, hne, Bool.false_eq_true, if_false]

theorem doomed_begin (hs : s.Consistent table first) {app : ApplicablePolicy K} (hid : id ∉ s.txs)
    (hactions : actions.isEmpty = false) (happ : app ∈ applicablePolicies table ctx actions)
    (hdry : Dry app u s) :
    Doomed table first id app u now s.results.length
      (s.step table (.begin id now ctx actions)) := by
  have hconsistent := step_consistent hs (step_stepped (.begin id now ctx actions))
  rw [begin_eq_put hid hactions happ] at hconsistent ⊢
  refine ⟨hconsistent, hdry, fun tx htx => ?_, le_refl _, ?_, ?_⟩
  · rcases lookup_put htx with ⟨-, rfl⟩ | ⟨hne, -⟩
    · exact ⟨rfl, happ⟩
    · exact absurd rfl hne
  · intro r hr
    rw [System.put, drop_length] at hr
    cases hr
  · exact .inl ((AList.mem_insert _).mpr (.inl rfl))

theorem run_append (l l' : List (Action K)) :
    s.run table (l ++ l') = (s.run table l).run table l' :=
  foldl_append

variable [IsStrictOrderedRing K]

theorem Doomed.refused {app : ApplicablePolicy K} (h : Doomed table first id app u now n s)
    (hgoverned : Governed table app) (hnow : now ≤ u) : Refused table id n s := by
  refine ⟨h.denied, h.pending, fun hfree clocks hclocks => ?_⟩
  have hstatements : ∀ a ∈ clocks.map (Action.statement id), ¬ Disturbs id a := by
    intro a ha
    rcases mem_map.mp ha with ⟨clock, -, rfl⟩
    exact not_false
  rcases h.finishes hgoverned hnow hfree clocks hclocks with ⟨r, hr⟩
  rcases (h.run hgoverned hnow _ hstatements).denied r hr with ⟨policyId, name, seconds, rfl⟩
  exact ⟨policyId, name, seconds, hr⟩

theorem dry_of_check {t clock : K} {e : QuotaError}
    (h : check table (fun bucket => (t, s.counters bucket)) clock ctx actions = .error e) :
    actions.isEmpty = false ∧ ∃ app ∈ applicablePolicies table ctx actions,
      Governed table app ∧ Dry app (t + 1) s := by
  rcases check_error h with ⟨hactions, app, happ, row, hrow, hlow⟩
  have hgoverned := applicablePolicies_governed app happ
  refine ⟨hactions, app, happ, hgoverned, row, hrow, ?_⟩
  rcases hgoverned with ⟨p, hp, -, hcapacity, hrefill⟩
  have hp1 : (1 : K) ≤ app.capacity := by
    rw [hcapacity]
    exact_mod_cast table.capacity p hp
  have hr0 : 0 ≤ app.refillPerSecond := hrefill ▸ table.refill p hp
  -- At its capacity the bucket would have a token, so it is on its line.
  have hline : tokensNow app.capacity app.refillPerSecond t row
      = row.level.line app.refillPerSecond t := by
    refine min_eq_right (le_of_lt (lt_of_not_ge (fun hcap => ?_)))
    have hfull : tokensNow app.capacity app.refillPerSecond t row = app.capacity :=
      min_eq_left hcap
    simp only [hfull] at hlow
    linarith
  have hsecond : (t + 1 - t) * app.refillPerSecond = app.refillPerSecond := by ring
  simp only [hline] at hlow
  rw [line_shift _ _ t, hsecond]
  exact hlow

/-- The probe reads and writes nothing. When it denies a call, that call is
    denied if it begins after the probe, or is open at the probe, and its time is
    within a second of the probe's, whatever else happens before and after. -/
theorem check_sound (table : PolicyTable K) (counters : Bucket → Option (Counter K))
    (before after : List (Action K)) (id : Nat) (t clock now : K) (ctx : QuotaContext)
    (actions : List QuotaAction) (e : QuotaError)
    (hprobe : check table
      (fun bucket => (t, ((System.start counters).run table before).counters bucket)) clock ctx
        actions = .error e)
    (hnow : now ≤ t + 1) (hafter : ∀ a ∈ after, ¬ Disturbs id a) :
    (∀ between, id ∉ ((System.start counters).run table (before ++ between)).txs →
      Refused table id ((System.start counters).run table (before ++ between)).results.length
        ((((System.start counters).run table (before ++ between)).step table
          (.begin id now ctx actions)).run table after))
    ∧ (∀ earlier during, before = earlier ++ .begin id now ctx actions :: during →
      id ∉ ((System.start counters).run table earlier).txs →
      (∀ a ∈ during, ¬ Disturbs id a) →
      id ∈ ((System.start counters).run table before).txs →
      Refused table id ((System.start counters).run table before).results.length
        (((System.start counters).run table before).run table after))
    ∧ (((System.start counters).run table before).step table
        (.probe t clock ctx actions)).counters
      = ((System.start counters).run table before).counters := by
  rcases dry_of_check hprobe with ⟨hactions, app, happ, hgoverned, hdry⟩
  have hconsistent : ∀ l, ((System.start counters).run table l).Consistent table counters :=
    run_consistent (start_consistent table counters)
  refine ⟨fun between hid => ?_, fun earlier during hbefore hid hduring hopen => ?_, rfl⟩
  · have hlater : Dry app (t + 1) ((System.start counters).run table (before ++ between)) := by
      rw [run_append]
      exact hdry.run (hconsistent before) hgoverned between
    exact ((doomed_begin (hconsistent _) hid hactions happ hlater).run hgoverned hnow after
      hafter).refused hgoverned hnow
  · have hcovers : Covers id now (applicablePolicies table ctx actions)
        ((System.start counters).run table before) := by
      rw [hbefore, run_append]
      refine Covers.run (fun tx htx => ?_) during hduring
      rw [begin_eq_put hid hactions happ] at htx
      rcases lookup_put htx with ⟨-, rfl⟩ | ⟨hne, -⟩
      · exact ⟨rfl, fun app' happ' => .inl happ'⟩
      · exact absurd rfl hne
    exact ((doomed_open (hconsistent _) hcovers hopen happ hgoverned hdry hnow).run hgoverned hnow
      after hafter).refused hgoverned hnow

theorem check_sound_empty :
    Refused samplePolicies 1 0 (((System.start (fun _ => some ⟨0, 0⟩)).step samplePolicies
      (.begin 1 1 sampleContext [.call])).run samplePolicies [.statement 1 1]) :=
  (check_sound samplePolicies (fun _ => some ⟨0, 0⟩) [] [.statement 1 1] 1 0 0 1 sampleContext
    [.call] (.rateLimited 7 "tenant calls" 2) (by decide +kernel) (by norm_num)
    (by simp [Disturbs])).1 [] (by decide)

end Probe

end Waygate.Quota
