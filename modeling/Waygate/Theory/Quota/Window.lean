import Mathlib.Data.Rat.Floor
import Mathlib.Tactic.NormNum
import Waygate.Core.Quota.Service
import Waygate.Theory.Machine.Run
import Waygate.Theory.RateLimit.TokenBucket

/-!
# The Rate Limit Holds in Every Window

A transaction's writes lock their rows, so what it computed is still right when it
commits, and the debits of a bucket come in the order of the commits. Their times are
start times and come in any order.

## Main definitions

* `System.Consistent`, `InBounds`

## Theorems

* `commit_consistent`, `checkAndConsume_window`, `run_inBounds`
* `step_stepped`: What an action does.
* `step_consistent`, `run_consistent`: Every action, and every run.
-/

namespace Waygate.Quota

open RateLimit List

section Policies

variable {K : Type} [Field K] {ctx : QuotaContext}

theorem resolvePolicy_some {p : RateLimitPolicy K} {app : ApplicablePolicy K}
    (h : resolvePolicy ctx p = some app) :
    app.policyId = p.id ∧ app.capacity = (p.bucketCapacity : K)
      ∧ app.refillPerSecond = p.refillPerSecond := by
  rcases Option.bind_eq_some_iff.mp h with ⟨key, -, hkey⟩
  split at hkey
  · cases hkey
  · cases hkey
    exact ⟨rfl, rfl, rfl⟩

theorem map_policyId_sublist (policies : List (RateLimitPolicy K)) :
    ((policies.filterMap (resolvePolicy ctx)).map ApplicablePolicy.policyId).Sublist
      (policies.map RateLimitPolicy.id) := by
  induction policies with
  | nil => exact List.Sublist.slnil
  | cons p rest ih =>
    rw [map_cons, filterMap_cons]
    split
    · exact ih.cons _
    · rename_i app happ
      rw [map_cons, (resolvePolicy_some happ).1]
      exact ih.cons_cons _

variable [LinearOrder K] {table : PolicyTable K} {actions : List QuotaAction}

def Governed (table : PolicyTable K) (app : ApplicablePolicy K) : Prop :=
  ∃ p ∈ table.policies, app.policyId = p.id ∧ app.capacity = (p.bucketCapacity : K)
    ∧ app.refillPerSecond = p.refillPerSecond

theorem applicablePolicies_governed :
    ∀ app ∈ applicablePolicies table ctx actions, Governed table app := by
  intro app happ
  rcases mem_filterMap.mp happ with ⟨p, hp, hresolve⟩
  rw [(mergeSort_perm _ _).mem_iff] at hp
  exact ⟨p, (mem_filter.mp hp).1, resolvePolicy_some hresolve⟩

theorem applicablePolicies_nodup :
    ((applicablePolicies table ctx actions).map ApplicablePolicy.bucket).Nodup := by
  have hids : ((applicablePolicies table ctx actions).map ApplicablePolicy.policyId).Nodup := by
    refine List.Nodup.sublist (map_policyId_sublist _) ?_
    rw [((mergeSort_perm _ _).map RateLimitPolicy.id).nodup_iff]
    exact table.ids.sublist (filter_sublist.map _)
  refine List.Nodup.of_map Prod.fst ?_
  rw [map_map]
  exact hids

end Policies

section Steps

variable {K : Type} [Field K] [LinearOrder K] [FloorRing K] {table : PolicyTable K} {s : System K}

inductive Stepped (table : PolicyTable K) (s : System K) : Action K → System K → Prop
  | idle (a : Action K) : Stepped table s a s
  | free (id : Nat) (now : K) (ctx : QuotaContext) (actions : List QuotaAction)
      (hid : id ∉ s.txs) : Stepped table s (.begin id now ctx actions) (s.finish id (.ok ()))
  | began (id : Nat) (now : K) (ctx : QuotaContext) (actions : List QuotaAction)
      (hid : id ∉ s.txs) : Stepped table s (.begin id now ctx actions)
        (s.put id ⟨now, applicablePolicies table ctx actions, []⟩)
  | debited (id : Nat) (clock now : K) (app : ApplicablePolicy K) (rest : List (ApplicablePolicy K))
      (writes : List (Bucket × Counter K)) (row : Counter K)
      (htx : s.txs.lookup id = some ⟨now, app :: rest, writes⟩)
      (hlock : s.locked id app.bucket = false)
      (hrow : upsert app.capacity app.refillPerSecond now
        (s.visible ⟨now, app :: rest, writes⟩ app.bucket) = some row) :
      Stepped table s (.statement id clock)
        (s.put id ⟨now, rest, (app.bucket, row) :: writes⟩)
  | denied (id : Nat) (clock now : K) (app : ApplicablePolicy K) (rest : List (ApplicablePolicy K))
      (writes : List (Bucket × Counter K))
      (htx : s.txs.lookup id = some ⟨now, app :: rest, writes⟩)
      (hlock : s.locked id app.bucket = false)
      (hrow : upsert app.capacity app.refillPerSecond now
        (s.visible ⟨now, app :: rest, writes⟩ app.bucket) = none) :
      Stepped table s (.statement id clock) (s.finish id (.error (denial clock app
        (s.visible ⟨now, app :: rest, writes⟩ app.bucket))))
  | committed (id : Nat) (now : K) (writes : List (Bucket × Counter K))
      (htx : s.txs.lookup id = some ⟨now, [], writes⟩) :
      Stepped table s (.commit id)
        { s.finish id (.ok ()) with
          counters := fun bucket => (writes.lookup bucket).or (s.counters bucket)
          debits := s.debits ++ writes.reverse.map (fun w => (w.1, now)) }
  | failed (id : Nat) (hid : id ∈ s.txs) : Stepped table s (.fail id) (s.finish id (.error .sqlx))
  | probed (now clock : K) (ctx : QuotaContext) (actions : List QuotaAction)
      (probes : List (Except QuotaError Unit)) :
      Stepped table s (.probe now clock ctx actions) { s with probes := probes }

theorem step_stepped (a : Action K) : Stepped table s a (s.step table a) := by
  cases a with
  | begin id now ctx actions =>
    simp only [System.step]
    split
    · exact .idle _
    · rename_i hid
      by_cases hempty : actions.isEmpty = true
      · rw [if_pos hempty]
        exact .free id now ctx actions hid
      · rw [if_neg hempty]
        split
        · exact .free id now ctx actions hid
        · exact .began id now ctx actions hid
  | statement id clock =>
    simp only [System.step]
    split
    · rename_i now app rest writes htx
      split
      · exact .idle _
      · rename_i hlock
        have hfree := Bool.eq_false_of_not_eq_true hlock
        split
        · rename_i row hrow
          exact .debited id clock now app rest writes row htx hfree hrow
        · rename_i hrow
          exact .denied id clock now app rest writes htx hfree hrow
    · exact .idle _
  | commit id =>
    simp only [System.step]
    split
    · rename_i now writes htx
      exact .committed id now writes htx
    · exact .idle _
  | fail id =>
    simp only [System.step]
    split
    · rename_i hid
      exact .failed id hid
    · exact .idle _
  | probe now clock ctx actions => exact .probed now clock ctx actions _

theorem counters_of_not_commit {a : Action K} {s' : System K} (h : Stepped table s a s') :
    s'.counters = s.counters ∨ ∃ id, a = .commit id ∧ s'.results = s.results ++ [(id, .ok ())] := by
  cases h with
  | committed id now writes htx => exact Or.inr ⟨id, rfl, rfl⟩
  | _ => exact Or.inl rfl

end Steps

section Locks

variable {K : Type} {s : System K}

theorem not_mem_of_unlocked {id id' : Nat} {bucket : Bucket} (h : s.locked id bucket = false)
    {tx : Tx K} (htx : s.txs.lookup id' = some tx) (hne : id' ≠ id) :
    bucket ∉ tx.writes.map Prod.fst := by
  intro hmem
  rcases mem_map.mp hmem with ⟨w, hw, hbucket⟩
  have hkey : id' ∈ s.txs.keys := AList.mem_keys.mp (AList.lookup_isSome.mp (by rw [htx]; rfl))
  have hany := any_eq_false.mp h id' hkey
  rw [htx] at hany
  refine hany ?_
  simp only [Option.any_some, Bool.and_eq_true, bne_iff_ne, ne_eq, hne, not_false_eq_true,
    any_eq_true, beq_iff_eq, true_and]
  exact ⟨w, hw, hbucket⟩

theorem lookup_put {id id' : Nat} {tx tx' : Tx K} (h : (s.put id tx).txs.lookup id' = some tx') :
    (id' = id ∧ tx' = tx) ∨ (id' ≠ id ∧ s.txs.lookup id' = some tx') := by
  simp only [System.put] at h
  by_cases heq : id' = id
  · rw [heq, AList.lookup_insert] at h
    exact Or.inl ⟨heq, (Option.some.inj h).symm⟩
  · rw [AList.lookup_insert_ne heq] at h
    exact Or.inr ⟨heq, h⟩

theorem lookup_erased {txs : AList (fun _ : Nat => Tx K)} {id id' : Nat} {tx : Tx K}
    (h : (txs.erase id).lookup id' = some tx) : id' ≠ id ∧ txs.lookup id' = some tx := by
  by_cases heq : id' = id
  · rw [heq, AList.lookup_erase] at h
    cases h
  · rw [AList.lookup_erase_ne heq] at h
    exact ⟨heq, h⟩

theorem visible_of_not_mem (s : System K) (tx : Tx K) {bucket : Bucket}
    (h : bucket ∉ tx.writes.map Prod.fst) :
    s.visible tx bucket = s.counters bucket := by
  have hnone : tx.writes.lookup bucket = none := by grind
  rw [System.visible, hnone, Option.none_or]

def timesOf (bucket : Bucket) (debits : List (Bucket × K)) : List K :=
  (debits.filter (fun d => d.1 = bucket)).map Prod.snd

theorem lookup_writes {writes : List (Bucket × Counter K)}
    (hnodup : (writes.map Prod.fst).Nodup) {w : Bucket × Counter K} (hw : w ∈ writes) :
    writes.lookup w.1 = some w.2 := by
  rcases append_of_mem hw with ⟨before, after, rfl⟩
  rw [lookup_eq_some_iff]
  refine ⟨before, after, rfl, fun v hv => bne_iff_ne.mpr (fun heq => ?_)⟩
  rw [map_append, map_cons, nodup_middle] at hnodup
  exact (nodup_cons.mp hnodup).1
    (mem_append_left _ (heq ▸ mem_map_of_mem hv))

theorem timesOf_writes {writes : List (Bucket × Counter K)} (hnodup : (writes.map Prod.fst).Nodup)
    (bucket : Bucket) (now : K) :
    timesOf bucket (writes.map (fun w => (w.1, now)))
      = if bucket ∈ writes.map Prod.fst then [now] else [] := by
  induction writes with
  | nil => rfl
  | cons w rest ih => grind [timesOf]

theorem timesOf_append (bucket : Bucket) (ds es : List (Bucket × K)) :
    timesOf bucket (ds ++ es) = timesOf bucket ds ++ timesOf bucket es := by
  simp [timesOf]

end Locks

section Consistency

variable {K : Type} [Field K] [LinearOrder K] {table : PolicyTable K} {s : System K}

def Counter.level (row : Counter K) : Level K :=
  { tokens := row.tokensRemaining, since := row.lastRefill }

theorem upsert_level (capacity refill now : K) (row : Option (Counter K)) :
    (upsert capacity refill now row).map Counter.level
      = spend capacity refill now (row.map Counter.level) := by
  cases row with
  | none => rfl
  | some row =>
    by_cases htoken : 1 ≤ tokensNow capacity refill now row
    · rw [upsert, if_pos htoken]
      exact (if_pos htoken).symm
    · rw [upsert, if_neg htoken]
      exact (if_neg htoken).symm

/-- An open transaction: it debits no bucket twice, and what it wrote is what
    the committed row gives. -/
structure TxConsistent (table : PolicyTable K) (s : System K) (tx : Tx K) : Prop where
  governed : ∀ app ∈ tx.remaining, Governed table app
  nodup : (tx.writes.map Prod.fst ++ tx.remaining.map ApplicablePolicy.bucket).Nodup
  writes : ∀ w ∈ tx.writes, ∃ p ∈ table.policies, w.1.1 = p.id
    ∧ upsert (p.bucketCapacity : K) p.refillPerSecond tx.now (s.counters w.1) = some w.2

/-- The open transactions are consistent and hold their rows alone, and the
    committed debits lead from the first counters to these. -/
structure System.Consistent (table : PolicyTable K) (first : Bucket → Option (Counter K))
    (s : System K) : Prop where
  txs : ∀ id tx, s.txs.lookup id = some tx → TxConsistent table s tx
  exclusive : ∀ id tx id' tx', s.txs.lookup id = some tx → s.txs.lookup id' = some tx' → id ≠ id' →
    ∀ bucket ∈ tx.writes.map Prod.fst, bucket ∉ tx'.writes.map Prod.fst
  history : ∀ p ∈ table.policies, ∀ key,
    Spends (p.bucketCapacity : K) p.refillPerSecond ((first (p.id, key)).map Counter.level)
      (timesOf (p.id, key) s.debits) ((s.counters (p.id, key)).map Counter.level)

def System.start (counters : Bucket → Option (Counter K)) : System K :=
  { counters := counters, txs := ∅, debits := [], results := [], probes := [] }

theorem start_consistent (table : PolicyTable K) (counters : Bucket → Option (Counter K)) :
    (System.start counters).Consistent table counters where
  txs := nofun
  exclusive := nofun
  history := fun _ _ _ => .nil _

variable {first : Bucket → Option (Counter K)}

theorem finish_consistent (hs : s.Consistent table first) (id : Nat)
    (result : Except QuotaError Unit) : (s.finish id result).Consistent table first where
  txs := fun id' tx h => by
    have htx := hs.txs id' tx (lookup_erased h).2
    exact ⟨htx.governed, htx.nodup, htx.writes⟩
  exclusive := fun id₁ tx₁ id₂ tx₂ h₁ h₂ =>
    hs.exclusive id₁ tx₁ id₂ tx₂ (lookup_erased h₁).2 (lookup_erased h₂).2
  history := hs.history

theorem put_consistent (hs : s.Consistent table first) {id : Nat} {tx : Tx K}
    (htx : TxConsistent table s tx)
    (halone : ∀ id' tx', id' ≠ id → s.txs.lookup id' = some tx' →
      ∀ bucket ∈ tx.writes.map Prod.fst, bucket ∉ tx'.writes.map Prod.fst) :
    (s.put id tx).Consistent table first where
  txs := fun id' tx' h => by
    rcases lookup_put h with ⟨-, heq⟩ | ⟨-, hold⟩
    · rw [heq]
      exact ⟨htx.governed, htx.nodup, htx.writes⟩
    · have hother := hs.txs id' tx' hold
      exact ⟨hother.governed, hother.nodup, hother.writes⟩
  exclusive := by
    intro id₁ tx₁ id₂ tx₂ h₁ h₂ hne bucket hb₁ hb₂
    rcases lookup_put h₁ with ⟨hid₁, heq₁⟩ | ⟨hne₁, hold₁⟩
    · rcases lookup_put h₂ with ⟨hid₂, heq₂⟩ | ⟨hne₂, hold₂⟩
      · exact hne (hid₁.trans hid₂.symm)
      · rw [heq₁] at hb₁
        exact halone id₂ tx₂ hne₂ hold₂ bucket hb₁ hb₂
    · rcases lookup_put h₂ with ⟨hid₂, heq₂⟩ | ⟨hne₂, hold₂⟩
      · rw [heq₂] at hb₂
        exact halone id₁ tx₁ hne₁ hold₁ bucket hb₂ hb₁
      · exact hs.exclusive id₁ tx₁ id₂ tx₂ hold₁ hold₂ hne bucket hb₁ hb₂
  history := hs.history

theorem TxConsistent.next_not_mem {now : K} {app : ApplicablePolicy K}
    {rest : List (ApplicablePolicy K)} {writes : List (Bucket × Counter K)}
    (h : TxConsistent table s ⟨now, app :: rest, writes⟩) :
    app.bucket ∉ writes.map Prod.fst := by
  intro hmem
  have hdisjoint := (nodup_append.mp h.nodup).2.2
  exact hdisjoint _ hmem _ mem_cons_self rfl

theorem TxConsistent.debit {now : K} {app : ApplicablePolicy K}
    {rest : List (ApplicablePolicy K)} {writes : List (Bucket × Counter K)} {row : Counter K}
    (h : TxConsistent table s ⟨now, app :: rest, writes⟩)
    (hrow : upsert app.capacity app.refillPerSecond now
      (s.visible ⟨now, app :: rest, writes⟩ app.bucket) = some row) :
    TxConsistent table s ⟨now, rest, (app.bucket, row) :: writes⟩ := by
  refine ⟨fun a ha => h.governed a (mem_cons_of_mem app ha), ?_, fun w hw => ?_⟩
  · have hmiddle := h.nodup
    rw [map_cons, nodup_middle] at hmiddle
    exact hmiddle
  · rcases mem_cons.mp hw with heq | hold
    · rcases h.governed app mem_cons_self with ⟨p, hp, hid, hcapacity, hrefill⟩
      rw [visible_of_not_mem s _ h.next_not_mem, hcapacity, hrefill] at hrow
      rw [heq]
      exact ⟨p, hp, hid, hrow⟩
    · exact h.writes w hold

/-- What is committed was computed from the counters as they are. -/
theorem commit_consistent (hs : s.Consistent table first) {id : Nat} {now : K}
    {writes : List (Bucket × Counter K)} (htx : s.txs.lookup id = some ⟨now, [], writes⟩) :
    System.Consistent table first
      { s.finish id (.ok ()) with
        counters := fun bucket => (writes.lookup bucket).or (s.counters bucket)
        debits := s.debits ++ writes.reverse.map (fun w => (w.1, now)) } := by
  have hcommit := hs.txs id _ htx
  have hnodup : (writes.map Prod.fst).Nodup := (nodup_append.mp hcommit.nodup).1
  have hreverse : (writes.reverse.map Prod.fst).Nodup := by
    rw [map_reverse, nodup_reverse]
    exact hnodup
  have huntouched : ∀ bucket, bucket ∉ writes.map Prod.fst →
      (writes.lookup bucket).or (s.counters bucket) = s.counters bucket := by grind
  refine ⟨fun id' tx h => ?_, fun id₁ tx₁ id₂ tx₂ h₁ h₂ => ?_, fun p hp key => ?_⟩
  · -- The rows of the other transactions are not among those committed.
    rcases lookup_erased h with ⟨hne, hold⟩
    have hother := hs.txs id' tx hold
    refine ⟨hother.governed, hother.nodup, fun w hw => ?_⟩
    rcases hother.writes w hw with ⟨p, hp, hid, hrow⟩
    refine ⟨p, hp, hid, ?_⟩
    show upsert _ _ _ ((writes.lookup w.1).or (s.counters w.1)) = some w.2
    rw [huntouched w.1 (hs.exclusive id' tx id _ hold htx hne w.1 (mem_map_of_mem hw))]
    exact hrow
  · exact hs.exclusive id₁ tx₁ id₂ tx₂ (lookup_erased h₁).2 (lookup_erased h₂).2
  · rw [timesOf_append, timesOf_writes hreverse]
    have hhistory := hs.history p hp key
    by_cases hin : (p.id, key) ∈ writes.map Prod.fst
    · rw [if_pos (by rw [map_reverse, mem_reverse]; exact hin)]
      rcases mem_map.mp hin with ⟨w, hw, hbucket⟩
      rcases hcommit.writes w hw with ⟨q, hq, hid, hrow⟩
      have hpq : p = q := inj_on_of_nodup_map table.ids hp hq (by
        rw [← hid, hbucket])
      have hlookup := lookup_writes hnodup hw
      rw [hbucket] at hrow hlookup
      subst hpq
      refine hhistory.append ?_
      simp only [hlookup, Option.some_or, Option.map_some]
      refine .single ?_
      rw [← upsert_level, hrow, Option.map_some]
    · grind

end Consistency

section Window

variable {K : Type} [Field K] [LinearOrder K] [FloorRing K] {table : PolicyTable K}
  {first : Bucket → Option (Counter K)} {s : System K}

theorem step_consistent (hs : s.Consistent table first) {a : Action K} {s' : System K}
    (h : Stepped table s a s') : s'.Consistent table first := by
  cases h with
  | idle => exact hs
  | free id | denied id | failed id => exact finish_consistent hs id _
  | began id now ctx actions hid =>
    refine put_consistent hs ⟨applicablePolicies_governed, ?_, ?_⟩ ?_
    · exact applicablePolicies_nodup
    · exact nofun
    · exact nofun
  | debited id clock now app rest writes row htx hlock hrow =>
    refine put_consistent hs ((hs.txs id _ htx).debit hrow) ?_
    intro id' tx' hne hold bucket hb
    rcases mem_cons.mp hb with heq | hmem
    · rw [heq]
      exact not_mem_of_unlocked hlock hold hne
    · exact hs.exclusive id _ id' tx' htx hold (Ne.symm hne) bucket hmem
  | committed id now writes htx => exact commit_consistent hs htx
  | probed now clock ctx actions probes =>
    refine ⟨fun id tx h => ?_, hs.exclusive, hs.history⟩
    have htx := hs.txs id tx h
    exact ⟨htx.governed, htx.nodup, htx.writes⟩

theorem run_consistent (hs : s.Consistent table first) (actions : List (Action K)) :
    (s.run table actions).Consistent table first :=
  Machine.foldl_invariant (I := System.Consistent table first)
    (fun _ a _ h => step_consistent h (step_stepped a)) hs

/-- However the calls interleave, in a window of time a bucket is debited at
    most as often as its capacity and the window's refill allow. A step that
    changes a counter is the commit of a call that succeeds, so a call that is
    denied leaves every bucket as it was. -/
theorem checkAndConsume_window [IsStrictOrderedRing K] (table : PolicyTable K)
    (counters : Bucket → Option (Counter K)) (actions : List (Action K)) :
    (∀ p ∈ table.policies, ∀ (key : String) (s e : K), s ≤ e →
      ((((System.start counters).run table actions).debits.countP (fun d =>
          d.1 = (p.id, key) ∧ s ≤ d.2 ∧ d.2 ≤ e) : Nat) : K)
        ≤ (p.bucketCapacity : K) + (e - s) * p.refillPerSecond)
    ∧ ∀ (a : Action K),
      (((System.start counters).run table actions).step table a).counters
          = ((System.start counters).run table actions).counters
        ∨ ∃ id, a = .commit id ∧
          (((System.start counters).run table actions).step table a).results
            = ((System.start counters).run table actions).results ++ [(id, .ok ())] := by
  refine ⟨fun p hp key s e hse => ?_, fun a => counters_of_not_commit (step_stepped a)⟩
  have hhistory := (run_consistent (start_consistent table counters) actions).history
    p hp key
  have hcapacity : (1 : K) ≤ (p.bucketCapacity : K) := by exact_mod_cast table.capacity p hp
  have hwindow := hhistory.window hcapacity (table.refill p hp) hse
  rw [timesOf, countP_map, countP_filter] at hwindow
  refine le_trans (le_of_eq ?_) hwindow
  congr 1
  refine countP_congr (fun d _ => ?_)
  simp only [decide_eq_true_eq, Function.comp_apply, Bool.and_eq_true]
  tauto

/-- No bucket of a policy is overdrawn or overfull. -/
def InBounds (table : PolicyTable K) (counters : Bucket → Option (Counter K)) : Prop :=
  ∀ p ∈ table.policies, ∀ key, ∀ row ∈ counters (p.id, key),
    0 ≤ row.tokensRemaining ∧ row.tokensRemaining ≤ p.bucketCapacity

/-- However the calls interleave, and in whatever order their times come, the buckets
    stay within bounds. -/
theorem run_inBounds [IsStrictOrderedRing K] (table : PolicyTable K)
    (counters : Bucket → Option (Counter K)) (hstart : InBounds table counters)
    (actions : List (Action K)) :
    InBounds table ((System.start counters).run table actions).counters := by
  intro p hp key row hrow
  have hhistory := (run_consistent (start_consistent table counters) actions).history p hp key
  have hcapacity : (1 : K) ≤ (p.bucketCapacity : K) := by exact_mod_cast table.capacity p hp
  refine hhistory.bounded hcapacity ?_ row.level (Option.mem_map_of_mem _ hrow)
  intro l hl
  rcases Option.mem_map.mp hl with ⟨old, hold, rfl⟩
  exact hstart p hp key old hold

def samplePolicies : PolicyTable ℚ :=
  { policies :=
      [{ id := 7
         tenantId := "example"
         name := "tenant calls"
         scope := "tenant"
         scopeValue := none
         action := "call"
         bucketCapacity := 1
         refillPerSecond := 1 / 2 }]
    ids := by decide
    capacity := by decide
    refill := by decide +kernel }

def sampleContext : QuotaContext :=
  { tenantId := "example"
    principalSub := some "alice"
    clientId := none
    server := "example-messages"
    fqTool := "example-messages.send" }

def lateCalls : List (Action ℚ) :=
  [.begin 1 0 sampleContext [.call], .begin 2 3 sampleContext [.call], .statement 2 3, .commit 2,
    .statement 1 3, .commit 1]

theorem checkAndConsume_window_late :
    ((((System.start (fun _ => none)).run samplePolicies lateCalls).debits.countP (fun d =>
        d.1 = (7, "example") ∧ 0 ≤ d.2 ∧ d.2 ≤ 3) : Nat) : ℚ) ≤ ((1 : Int) : ℚ) + (3 - 0) * (1 / 2) :=
  (checkAndConsume_window samplePolicies (fun _ => none) lateCalls).1 _ mem_cons_self "example"
    0 3 (by norm_num)

theorem run_inBounds_late :
    InBounds samplePolicies
      ((System.start (fun _ => none)).run samplePolicies lateCalls).counters :=
  run_inBounds samplePolicies (fun _ => none) (fun _ _ _ _ hrow => nomatch hrow) lateCalls

end Window

end Waygate.Quota
