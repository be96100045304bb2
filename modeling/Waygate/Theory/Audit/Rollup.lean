import Waygate.Core.Audit.Rollup
import Waygate.Theory.Machine.Run

/-!
# The Rollup Equals the Log

A row that commits at most two hours after its timestamp is never older than the
watermark, so the buckets below it are complete when they are recomputed for the last
time. A worker that waited long for the lock moves the watermark back, which only makes
fewer buckets final.

## Main definitions

* `counted`, `Punctual`
* `Sound`: What the tables keep.

## Theorems

* `step_sound`, `rollup_exact`
* `stored_aggregate`: What the query counts.
-/

namespace Waygate.Rollup

open Machine (Along)

def stored (rollup : List RollupRow) (k : Key) : List RollupRow :=
  rollup.filter (fun r => r.key = k)

/-- An audit row is of a key: it is in the hour that begins with the bucket, it has the
    columns of the key, where no category is an invocation, and it is no entry of a call
    that has not been made. -/
def Under (k : Key) (r : AuditRow) : Prop :=
  (k.bucketHour % HOUR = 0 ∧ k.bucketHour ≤ r.ts ∧ r.ts < k.bucketHour + HOUR)
    ∧ r.tenantId = k.tenantId ∧ r.server = k.server ∧ r.tool = k.tool ∧ r.outcome = k.outcome
    ∧ (r.category = some k.category ∨ r.category = none ∧ k.category = "invocation")
    ∧ r.riskLevel = k.riskLevel ∧ r.pii = k.pii ∧ r.reason ≠ some "pre_call"

instance (k : Key) (r : AuditRow) : Decidable (Under k r) :=
  inferInstanceAs (Decidable (_ ∧ _))

/-- The rows a key should have: one with the number of its audit rows, or none. -/
def counted (log : List AuditRow) (k : Key) : List RollupRow :=
  let n := log.countP (fun r => Under k r)
  if n = 0 then [] else [⟨k, n⟩]

/-- Every audit row commits at most two hours after its timestamp. -/
def Punctual (s : Db) (a : Action) : Prop := ∀ row, a = .insert row → s.now ≤ row.ts + LAG

theorem truncHour_le (ts : Int) : truncHour ts ≤ ts := by
  unfold truncHour HOUR
  omega

theorem truncHour_mono {t u : Int} (h : t ≤ u) : truncHour t ≤ truncHour u := by
  unfold truncHour HOUR
  omega

theorem truncHour_idem (t : Int) : truncHour (truncHour t) = truncHour t := by
  unfold truncHour HOUR
  omega

theorem truncHour_eq_iff {t u : Int} :
    truncHour t = u ↔ u % HOUR = 0 ∧ u ≤ t ∧ t < u + HOUR := by
  unfold truncHour HOUR
  omega

theorem under_iff {k : Key} {r : AuditRow} : Under k r ↔ r.counts = true ∧ r.key = k := by
  have hcategory : r.category.getD "invocation" = k.category ↔
      r.category = some k.category ∨ r.category = none ∧ k.category = "invocation" := by
    cases r.category <;> simp [eq_comm]
  rw [Under, ← truncHour_eq_iff, ← hcategory]
  cases k
  simp only [AuditRow.counts, AuditRow.key, Key.mk.injEq, decide_eq_true_eq]
  grind

theorem counted_eq (log : List AuditRow) (k : Key) :
    counted log k = if log.countP (fun r => r.counts && r.key = k) = 0 then []
      else [⟨k, log.countP (fun r => r.counts && r.key = k)⟩] := by
  have hunder : (fun r => decide (Under k r)) = fun r => r.counts && decide (r.key = k) := by
    funext r
    simp [under_iff]
  simp only [counted, hunder]

section Window

variable {f : Option Int} {k : Key} {log : List AuditRow}

theorem inWindow_eq_false_iff {t : Int} : inWindow f t = false ↔ ∃ F ∈ f, t < F := by
  cases f <;> simp [inWindow]

theorem inWindow_truncHour (hf : ∀ F ∈ f, truncHour F = F) (ts : Int) :
    inWindow f (truncHour ts) = inWindow f ts := by
  cases f with
  | none => rfl
  | some F =>
    have halign := hf F rfl
    grind [inWindow, truncHour, HOUR]

theorem stored_aggregate (hf : ∀ F ∈ f, truncHour F = F) :
    stored (aggregate f log) k = if inWindow f k.bucketHour then counted log k else [] := by
  have hrows : (log.filter (fun r => inWindow f r.ts && r.counts)).countP (fun r => r.key = k)
      = if inWindow f k.bucketHour then log.countP (fun r => r.counts && r.key = k) else 0 := by
    rw [List.countP_filter]
    split
    · rename_i hk
      refine List.countP_congr (fun r _ => ?_)
      have hts (h : r.key = k) : inWindow f r.ts = true := by
        rw [← inWindow_truncHour hf, ← hk, ← h]
        rfl
      grind
    · rename_i hk
      refine List.countP_eq_zero.mpr (fun r _ h => hk ?_)
      simp only [Bool.and_eq_true, decide_eq_true_eq] at h
      rw [← h.1, ← h.2.1]
      exact inWindow_truncHour hf r.ts
  unfold stored aggregate
  dsimp only
  generalize log.filter (fun r => inWindow f r.ts && r.counts) = rows at hrows
  have hmem : k ∈ rows.map AuditRow.key ↔ rows.countP (fun r => r.key = k) ≠ 0 := by
    simp [List.countP_eq_zero]
  have hkeys : (rows.map AuditRow.key).dedup.filter (fun x => x = k)
      = if k ∈ rows.map AuditRow.key then [k] else [] := by
    rw [List.filter_eq, List.count_dedup]
    split <;> rfl
  rw [List.filter_map]
  show ((rows.map AuditRow.key).dedup.filter (fun x => x = k)).map _ = _
  rw [hkeys, counted_eq]
  simp only [hmem, hrows]
  split <;> split <;> simp_all

theorem stored_delete {rollup : List RollupRow} :
    stored (rollup.filter (fun r => !inWindow f r.key.bucketHour)) k
      = if inWindow f k.bucketHour then [] else stored rollup k := by
  unfold stored
  rw [List.filter_filter]
  split
  · rename_i hk
    simp_all
  · refine List.filter_congr (fun r _ => ?_)
    by_cases hr : r.key = k <;> simp_all

theorem counted_insert {row : AuditRow} (h : k.bucketHour < truncHour row.ts) :
    counted (log ++ [row]) k = counted log k := by
  have hne : row.key ≠ k := by
    rintro rfl
    exact Int.lt_irrefl _ h
  simp [counted_eq, hne]

end Window

/-- What is known of the worker in a place. A worker that holds the lock has read
    the watermark in force, and the buckets that will be final after its commit
    have all their rows. -/
def Good (s : Db) (i : Nat) : Phase → Prop
  | .begun now => now ≤ s.now
  | .locked now f => now ≤ s.now ∧ s.lock = some i ∧ f = s.finalizedHour
  | .deleted now f rollup => now ≤ s.now ∧ s.lock = some i ∧ f = s.finalizedHour
      ∧ ∀ k, stored rollup k = if inWindow f k.bucketHour then [] else counted s.auditLog k
  | .aggregated now rollup visible => now ≤ s.now ∧ s.lock = some i
      ∧ (∀ k, stored rollup k = counted visible k)
      ∧ ∀ k, k.bucketHour < truncHour (now - LAG) → counted visible k = counted s.auditLog k
  | .ended => True

structure Sound (s : Db) : Prop where
  aligned : ∀ F ∈ s.finalizedHour, truncHour F = F
  past : ∀ F ∈ s.finalizedHour, F ≤ s.now - LAG
  exact : ∀ k, inWindow s.finalizedHour k.bucketHour = false →
    stored s.rollup k = counted s.auditLog k
  workers : ∀ i p, s.workers[i]? = some p → Good s i p

section Steps

variable {s s' : Db} {i : Nat} {p : Phase}

theorem Good.unheld (h : Good s i p) (hlock : s.lock ≠ some i) (hnow : s.now ≤ s'.now) :
    Good s' i p := by
  cases p with
  | begun now => exact Int.le_trans h hnow
  | locked | deleted | aggregated => exact absurd h.2.1 hlock
  | ended => trivial

theorem Sound.put (h : Sound s) (hworkers : s'.workers = s.workers)
    (haligned : ∀ F ∈ s'.finalizedHour, truncHour F = F)
    (hpast : ∀ F ∈ s'.finalizedHour, F ≤ s'.now - LAG)
    (hexact : ∀ k, inWindow s'.finalizedHour k.bucketHour = false →
      stored s'.rollup k = counted s'.auditLog k)
    (hothers : ∀ j q, j ≠ i → Good s j q → Good s' j q) (hp : Good s' i p) :
    Sound (s'.put i p) := by
  refine ⟨haligned, hpast, hexact, fun j q hq => ?_⟩
  rw [Db.put, hworkers, List.getElem?_set] at hq
  split at hq
  · rename_i hij
    subst hij
    split at hq
    · cases hq
      exact hp
    · cases hq
  · rename_i hij
    exact hothers j q (Ne.symm hij) (h.workers j q hq)

theorem Sound.insert (h : Sound s) {row : AuditRow} (hrow : s.now ≤ row.ts + LAG) :
    Sound { s with auditLog := s.auditLog ++ [row] } := by
  have hfinal (k : Key) (hk : inWindow s.finalizedHour k.bucketHour = false) :
      counted (s.auditLog ++ [row]) k = counted s.auditLog k := by
    rcases inWindow_eq_false_iff.mp hk with ⟨F, hF, hlt⟩
    have hle : F ≤ truncHour row.ts := by
      rw [← h.aligned F hF]
      have := h.past F hF
      exact truncHour_mono (by omega)
    exact counted_insert (Int.lt_of_lt_of_le hlt hle)
  refine ⟨h.aligned, h.past, fun k hk => (h.exact k hk).trans (hfinal k hk).symm,
    fun i p hp => ?_⟩
  have hgood := h.workers i p hp
  cases p with
  | begun now => exact hgood
  | locked now f => exact hgood
  | deleted now f rollup =>
    rcases hgood with ⟨hnow, hlock, rfl, hstored⟩
    refine ⟨hnow, hlock, rfl, fun k => ?_⟩
    simp_all
  | aggregated now rollup visible =>
    rcases hgood with ⟨hnow, hlock, hstored, hclosed⟩
    refine ⟨hnow, hlock, hstored, fun k hk => (hclosed k hk).trans (counted_insert ?_).symm⟩
    have := truncHour_mono (t := now - LAG) (u := row.ts) (by omega)
    omega
  | ended => trivial

/-- Every statement keeps the counts below the watermark exact. -/
theorem step_sound (a : Action) (h : Sound s) (ha : Punctual s a) : Sound (step s a) := by
  cases a with
  | tick micros =>
    refine ⟨h.aligned, fun F hF => ?_, h.exact, fun i p hp => ?_⟩
    · have := h.past F hF
      simp only [step]
      omega
    · have hgood := h.workers i p hp
      cases p <;> simp only [Good, step] at * <;> grind
  | insert row => exact h.insert (ha row rfl)
  | begin =>
    refine ⟨h.aligned, h.past, h.exact, fun i p hp => ?_⟩
    simp only [step, List.getElem?_append] at hp
    split at hp
    · exact h.workers i p hp
    · have hmem := List.mem_of_getElem? hp
      rw [List.mem_singleton.mp hmem]
      exact Int.le_refl s.now
  | lock i =>
    simp only [step]
    split
    · rename_i now hi hlock
      exact h.put rfl h.aligned h.past h.exact
        (fun j q _ hq => hq.unheld (by simp [hlock]) (Int.le_refl _)) ⟨h.workers i _ hi, rfl, rfl⟩
    · exact h
  | delete i =>
    simp only [step]
    split
    · rename_i now f hi
      rcases h.workers i _ hi with ⟨hnow, hlock, rfl⟩
      refine h.put rfl h.aligned h.past h.exact (fun j q _ hq => hq) ⟨hnow, hlock, rfl, fun k => ?_⟩
      rw [stored_delete]
      split
      · rfl
      · rename_i hk
        exact h.exact k (Bool.eq_false_iff.mpr hk)
    · exact h
  | aggregate i =>
    simp only [step]
    split
    · rename_i now f rollup hi
      rcases h.workers i _ hi with ⟨hnow, hlock, rfl, hstored⟩
      refine h.put rfl h.aligned h.past h.exact (fun j q _ hq => hq)
        ⟨hnow, hlock, fun k => ?_, fun k _ => rfl⟩
      -- What was kept and what was recomputed complement each other.
      have hsplit : stored (rollup ++ aggregate s.finalizedHour s.auditLog) k
          = stored rollup k ++ stored (aggregate s.finalizedHour s.auditLog) k :=
        List.filter_append ..
      rw [hsplit, hstored k, stored_aggregate h.aligned]
      split <;> simp
    · exact h
  | commit i =>
    simp only [step]
    split
    · rename_i now rollup visible hi
      rcases h.workers i _ hi with ⟨hnow, hlock, hstored, hclosed⟩
      refine h.put rfl (fun F hF => ?_) (fun F hF => ?_) (fun k hk => ?_) (fun j q hj hq => ?_)
        trivial
      · cases hF
        exact truncHour_idem _
      · cases hF
        have := truncHour_le (now - LAG)
        simp only
        omega
      · rcases inWindow_eq_false_iff.mp hk with ⟨F, hF, hlt⟩
        simp_all
      · refine hq.unheld (fun hj' => hj ?_) (Int.le_refl _)
        exact Option.some.inj (hj'.symm.trans hlock)
    · exact h
  | abort i =>
    refine h.put rfl h.aligned h.past h.exact (fun j q hj hq => ?_) trivial
    by_cases hlock : s.lock = some j
    all_goals simp_all [Good]

end Steps

/-- After a worker commits, every key has one row with the number of audit rows
    that were visible to its aggregation, or no row if there were none. -/
theorem rollup_exact {start : Int} {actions : List Action}
    (h : Along step Punctual (.new start) actions) {i : Nat} {now : Int}
    {rollup : List RollupRow} {visible : List AuditRow}
    (hi : (run start actions).workers[i]? = some (.aggregated now rollup visible)) (k : Key) :
    stored (step (run start actions) (.commit i)).rollup k = counted visible k := by
  have hnew : Sound (.new start) := by
    refine ⟨fun F hF => ?_, fun F hF => ?_, fun k hk => ?_, fun j q hq => ?_⟩
    · cases hF
    · cases hF
    · cases hk
    · cases hq
  have hsound : Sound (run start actions) :=
    Along.invariant (I := Sound) (fun s a ha hs => step_sound a hs ha) hnew h
  simp only [step, hi]
  exact (hsound.workers i _ hi).2.2.1 k

def sampleRow (ts : Int) : AuditRow :=
  ⟨"default", ts, some "mail", some "send", "allowed", none, none, none, none⟩

theorem rollup_exact_queued :
    let actions := [.tick 18000000000, .insert (sampleRow 14400000000), .begin, .tick 10800000000,
      .begin, .lock 1, .delete 1, .aggregate 1, .commit 1, .insert (sampleRow 28800000000), .lock 0,
      .delete 0, .aggregate 0]
    (∃ rollup visible, (run 0 actions).workers[0]?
      = some (.aggregated 18000000000 rollup visible) ∧ visible.length = 2)
    ∧ stored (step (run 0 actions) (.commit 0)).rollup (sampleRow 14400000000).key
      = [⟨(sampleRow 14400000000).key, 1⟩] := by
  refine ⟨⟨_, _, rfl, rfl⟩, ?_⟩
  rw [rollup_exact _ rfl]
  · decide
  · refine ⟨?_, ?_, ?_, ?_, ?_, ?_, ?_, ?_, ?_, ?_, ?_, ?_, ?_, trivial⟩ <;>
      · intro row hrow
        cases hrow <;> decide

end Waygate.Rollup
