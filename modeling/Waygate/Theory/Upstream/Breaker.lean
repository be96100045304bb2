import Mathlib.Tactic.Tauto
import Waygate.Core.Upstream.Breaker
import Waygate.Theory.Machine.Run

/-!
# What the Breaker Keeps

The breaker is to have one probe in flight at a time, and to hand out no permit during a
cooldown. Neither holds of every run. A permit that was granted while the breaker was
closed may be reported in any state: a failure opens it under a probe that still runs,
and a success closes it in the middle of a cooldown.

## Main definitions

* `Exclusive`, `Clear`, `Cooling`, `Quiet`, `Live`

## Theorems

* `Exclusive.step`, `Cooling.step`, `Live.step`, `acquire_singleFlight_iff`, `acquire_cooldown`,
  `acquire_unwedged`
-/

namespace Waygate.Upstream

open Machine List

inductive Granted (cfg : BreakerConfig) (now : Nat) (g : State) : Permit → State → Prop
  | closed (h : g.state = .closed) : Granted cfg now g ⟨false⟩ g
  | opened (h : g.state = .opened) (hcooled : cfg.openDuration ≤ g.elapsed now) :
      Granted cfg now g ⟨true⟩ { g with state := .halfOpen, probeRunning := true }
  | halfOpen (h : g.state = .halfOpen) (hidle : g.probeRunning = false) :
      Granted cfg now g ⟨true⟩ { g with state := .halfOpen, probeRunning := true }

theorem acquire_cases (cfg : BreakerConfig) (now : Nat) (g : State) :
    (∃ p g', acquire cfg now g = (.ok p, g') ∧ Granted cfg now g p g')
      ∨ ∃ e, acquire cfg now g = (.error e, g) := by
  unfold acquire
  cases hstate : g.state with
  | closed => exact .inl ⟨_, _, rfl, .closed hstate⟩
  | opened =>
    by_cases hcooled : cfg.openDuration ≤ g.elapsed now
    · exact .inl ⟨_, _, if_pos hcooled, .opened hstate hcooled⟩
    · exact .inr ⟨_, if_neg hcooled⟩
  | halfOpen =>
    cases hrunning : g.probeRunning with
    | true => exact .inr ⟨_, rfl⟩
    | false => exact .inl ⟨_, _, rfl, .halfOpen hstate hrunning⟩

/-- What a step can do. A drop does what a failure does. -/
inductive Stepped (cfg : BreakerConfig) (s : System) : Event → System → Prop
  | idle (e : Event) (h : e.op ≠ .reset) : Stepped cfg s e s
  | granted (now : Nat) (p : Permit) (g : State) (h : Granted cfg now s.breaker p g) :
      Stepped cfg s ⟨now, .acquire⟩
        { breaker := g, permits := s.permits.insert s.granted p, granted := s.granted + 1 }
  | succeeded (now id : Nat) (p : Permit) (h : s.permits.lookup id = some p) :
      Stepped cfg s ⟨now, .success id⟩
        { s with breaker := (p.success s.breaker).2, permits := s.permits.erase id }
  | failed (now id : Nat) (op : Op) (p : Permit) (h : s.permits.lookup id = some p)
      (hop : op = .failure id ∨ op = .drop id) :
      Stepped cfg s ⟨now, op⟩
        { s with breaker := (p.failure cfg now s.breaker).2, permits := s.permits.erase id }
  | released (now id : Nat) (p : Permit) (h : s.permits.lookup id = some p) :
      Stepped cfg s ⟨now, .neutral id⟩
        { s with breaker := p.neutral s.breaker, permits := s.permits.erase id }
  | reset (now : Nat) : Stepped cfg s ⟨now, .reset⟩ { s with breaker := Upstream.reset }

theorem step_stepped (cfg : BreakerConfig) (s : System) (e : Event) :
    Stepped cfg s e (s.step cfg e) := by
  rcases e with ⟨now, op⟩
  cases op with
  | acquire =>
    rcases acquire_cases cfg now s.breaker with ⟨p, g, hacquire, hgranted⟩ | ⟨e, hacquire⟩
    · simp only [System.step, hacquire]
      exact .granted now p g hgranted
    · simp only [System.step, hacquire]
      exact .idle _ nofun
  | success id | failure id | neutral id | drop id =>
    simp only [System.step, System.report]
    cases hid : s.permits.lookup id with
    | none => exact .idle _ nofun
    | some p =>
      first
      | exact .succeeded now id p hid
      | exact .released now id p hid
      | exact .failed now id _ p hid (by simp)
  | reset => exact .reset now

section SingleFlight

variable {p : Permit} {g : State} {e : Event} {cfg : BreakerConfig} {s : System}

def Outstanding (s : System) (id : Nat) : Prop :=
  ∃ p, s.permits.lookup id = some p ∧ p.wasProbe = true

def SingleFlight (s : System) : Prop :=
  ∀ i j, Outstanding s i → Outstanding s j → i = j

/-- One probe is out at most, and none is while the breaker waits for one. -/
structure Exclusive (s : System) : Prop where
  single : SingleFlight s
  waiting : s.breaker.state = .halfOpen → s.breaker.probeRunning = false → ∀ i, ¬ Outstanding s i

/-- No probe is granted from an open breaker while another is outstanding. -/
def Clear (cfg : BreakerConfig) (s : System) (e : Event) : Prop :=
  e.op = .acquire → s.breaker.state = .opened → cfg.openDuration ≤ s.breaker.elapsed e.time →
    ∀ i, ¬ Outstanding s i

theorem outstanding_insert {granted i : Nat}
    (h : Outstanding ⟨g, s.permits.insert s.granted p, granted⟩ i) :
    (i = s.granted ∧ p.wasProbe = true) ∨ Outstanding s i := by
  rcases h with ⟨q, hq, hprobe⟩
  by_cases hi : i = s.granted
  · rw [hi, AList.lookup_insert] at hq
    cases hq
    exact .inl ⟨hi, hprobe⟩
  · rw [AList.lookup_insert_ne hi] at hq
    exact .inr ⟨q, hq, hprobe⟩

theorem outstanding_erase {granted id i : Nat} (h : Outstanding ⟨g, s.permits.erase id, granted⟩ i)
    :
    i ≠ id ∧ Outstanding s i := by
  rcases h with ⟨q, hq, hprobe⟩
  by_cases hi : i = id
  · rw [hi, AList.lookup_erase] at hq
    cases hq
  · rw [AList.lookup_erase_ne hi] at hq
    exact ⟨hi, q, hq, hprobe⟩

theorem Exclusive.erase (h : Exclusive s) {id : Nat} (hid : s.permits.lookup id = some p)
    (hwaiting : g.state = .halfOpen → g.probeRunning = false →
      (s.breaker.state = .halfOpen ∧ s.breaker.probeRunning = false) ∨ p.wasProbe = true) :
    Exclusive { s with breaker := g, permits := s.permits.erase id } where
  single := fun i j hi hj => h.single i j (outstanding_erase hi).2 (outstanding_erase hj).2
  waiting := fun hstate hidle i hi => by
    rcases hwaiting hstate hidle with ⟨hstate', hidle'⟩ | hprobe
    · exact h.waiting hstate' hidle' i (outstanding_erase hi).2
    · exact (outstanding_erase hi).1 (h.single i id (outstanding_erase hi).2 ⟨p, hid, hprobe⟩)

theorem Exclusive.insert (h : Exclusive s) (hprobe : p.wasProbe = true → ∀ i, ¬ Outstanding s i)
    (hwaiting : g.state = .halfOpen → g.probeRunning = true) :
    Exclusive ⟨g, s.permits.insert s.granted p, s.granted + 1⟩ where
  single := fun i j hi hj => by
    rcases outstanding_insert hi with ⟨rfl, hp⟩ | hi'
    · rcases outstanding_insert hj with ⟨rfl, -⟩ | hj'
      · rfl
      · exact absurd hj' (hprobe hp j)
    · rcases outstanding_insert hj with ⟨-, hp⟩ | hj'
      · exact absurd hi' (hprobe hp i)
      · exact h.single i j hi' hj'
  waiting := fun hstate hidle => by
    have hrunning : g.probeRunning = true := hwaiting hstate
    rw [show g.probeRunning = false from hidle] at hrunning
    cases hrunning

theorem Exclusive.step (h : Exclusive s) (hclear : Clear cfg s e) {s' : System}
    (hstep : Stepped cfg s e s') : Exclusive s' := by
  cases hstep with
  | idle => exact h
  | granted now p g hgranted =>
    cases hgranted with
    | closed hstate => exact h.insert nofun (fun hhalf => by rw [hstate] at hhalf; cases hhalf)
    | opened hstate hcooled => exact h.insert (fun _ => hclear rfl hstate hcooled) (fun _ => rfl)
    | halfOpen hstate hidle => exact h.insert (fun _ => h.waiting hstate hidle) (fun _ => rfl)
  | succeeded now id p hid => exact h.erase hid nofun
  | failed now id op p hid hop =>
    refine h.erase hid (fun hstate hidle => ?_)
    simp only [Permit.failure, onFailure] at hstate hidle
    split at hstate
    · cases hstate
    rename_i hprobe
    split at hstate
    · cases hstate
    · grind
  | released now id p hid =>
    refine h.erase hid (fun hstate hidle => ?_)
    by_cases hprobe : p.wasProbe = true
    · exact .inr hprobe
    · rw [Permit.neutral, if_neg hprobe] at hstate hidle
      exact .inl ⟨hstate, hidle⟩
  | reset now => exact ⟨h.single, nofun⟩

theorem new_exclusive : Exclusive System.new where
  single := fun i j hi _ => by
    rcases hi with ⟨p, hp, -⟩
    cases hp
  waiting := nofun

def Fresh (s : System) : Prop :=
  ∀ id ∈ s.permits, id < s.granted

theorem Fresh.erase (h : Fresh s) (id : Nat) (g : State) :
    Fresh { s with breaker := g, permits := s.permits.erase id } :=
  fun i hi => h i (AList.mem_erase.mp hi).2

theorem Fresh.step (h : Fresh s) {s' : System} (hstep : Stepped cfg s e s') :
    Fresh s' := by
  cases hstep with
  | idle | reset => exact h
  | granted now p g hgranted =>
    intro i hi
    rcases (AList.mem_insert _).mp hi with rfl | hold
    · exact Nat.lt_succ_self _
    · exact Nat.lt_succ_of_lt (h i hold)
  | succeeded | failed | released => exact h.erase _ _

theorem run_fresh (events : List Event) : Fresh (System.new.run cfg events) :=
  foldl_invariant (fun s e _ h => h.step (step_stepped cfg s e))
    (fun i hi => absurd hi (AList.notMem_empty i))

theorem clear_of_singleFlight (hfresh : Fresh s) (h : SingleFlight (s.step cfg e)) :
    Clear cfg s e := by
  intro hop hstate hcooled i hi
  have hacquire : acquire cfg e.time s.breaker
      = (.ok ⟨true⟩, { s.breaker with state := .halfOpen, probeRunning := true }) := by
    simp only [acquire, hstate, if_pos hcooled]
  simp only [System.step, hop, hacquire] at h
  have hlt : i < s.granted := by
    rcases hi with ⟨p, hp, -⟩
    exact hfresh i (AList.lookup_isSome.mp (by rw [hp]; rfl))
  refine absurd (h i s.granted ?_ ⟨_, AList.lookup_insert _, rfl⟩) (Nat.ne_of_lt hlt)
  rcases hi with ⟨p, hp, hprobe⟩
  exact ⟨p, by rw [AList.lookup_insert_ne (Nat.ne_of_lt hlt)]; exact hp, hprobe⟩

/-- In a run there is one probe in flight at a time, at every moment, exactly
    when no acquire finds the breaker open, with its cooldown over, while a probe
    permit is outstanding. -/
theorem acquire_singleFlight_iff (cfg : BreakerConfig) (events : List Event) :
    (∀ before, before <+: events → SingleFlight (System.new.run cfg before))
      ↔ Along (System.step cfg) (Clear cfg) System.new events := by
  refine ⟨fun h => along_iff_split.mpr (fun before e after heq => ?_), ?_⟩
  · have hnext := h (before ++ [e]) ⟨after, by rw [heq, append_assoc]; rfl⟩
    rw [System.run, foldl_append] at hnext
    exact clear_of_singleFlight (run_fresh before) hnext
  · rintro h before ⟨after, rfl⟩
    have hbefore : Along (System.step cfg) (Clear cfg) System.new before := by
      refine along_iff_split.mpr (fun l e l' heq => ?_)
      exact along_iff_split.mp h l e (l' ++ after) (by rw [heq, append_assoc]; rfl)
    exact (hbefore.invariant (fun s e hclear hs => Exclusive.step hs hclear (step_stepped cfg s e))
      new_exclusive).single

/-- Two calls are under way when the first fails and opens the breaker. A probe is
    granted after the cooldown. Then the second call fails, and the breaker is open
    again, for another probe. -/
def lateFailure : List Event :=
  [⟨0, .acquire⟩, ⟨0, .acquire⟩, ⟨1, .failure 0⟩, ⟨11, .acquire⟩, ⟨12, .failure 1⟩, ⟨22, .acquire⟩]

theorem acquire_singleFlight_late :
    ¬ ∀ (cfg : BreakerConfig) (events before : List Event), before <+: events →
      SingleFlight (System.new.run cfg before) := by
  intro h
  have htwo := h ⟨1, 10, by decide⟩ lateFailure lateFailure (prefix_refl _) 2 3
    ⟨⟨true⟩, by decide, rfl⟩ ⟨⟨true⟩, by decide, rfl⟩
  cases htwo

end SingleFlight

section Wedge

variable {p : Permit} {g : State} {e : Event} {cfg : BreakerConfig} {s : System}

/-- The slot of the probe is taken for a probe that is outstanding, and an open
    breaker has the time it was opened at. -/
structure Live (s : System) : Prop where
  fresh : Fresh s
  probe : s.breaker.probeRunning = true → ∃ i, Outstanding s i
  since : s.breaker.state = .opened → ∃ t, s.breaker.openedAt = some t

theorem Live.erase (h : Live s) {id : Nat} (hid : s.permits.lookup id = some p)
    (hprobe : g.probeRunning = true → p.wasProbe = false ∧ s.breaker.probeRunning = true)
    (hsince : g.state = .opened → ∃ t, g.openedAt = some t) :
    Live { s with breaker := g, permits := s.permits.erase id } where
  fresh := h.fresh.erase id g
  probe := fun hrunning => by
    rcases hprobe hrunning with ⟨hp, hbefore⟩
    rcases h.probe hbefore with ⟨i, q, hq, hprobe⟩
    have hne : i ≠ id := by
      rintro rfl
      rw [hid] at hq
      cases hq
      rw [hp] at hprobe
      cases hprobe
    exact ⟨i, q, (AList.lookup_erase_ne hne).trans hq, hprobe⟩
  since := hsince

theorem Live.step (h : Live s) {s' : System} (hstep : Stepped cfg s e s') : Live s' := by
  have hfresh := h.fresh.step hstep
  cases hstep with
  | idle => exact h
  | granted now p g hgranted =>
    cases hgranted with
    | closed hstate =>
      refine ⟨hfresh, fun hrunning => ?_, h.since⟩
      rcases h.probe hrunning with ⟨i, q, hq, hprobe⟩
      have hlt := h.fresh i (AList.lookup_isSome.mp (by rw [hq]; rfl))
      exact ⟨i, q, (AList.lookup_insert_ne (Nat.ne_of_lt hlt)).trans hq, hprobe⟩
    | opened | halfOpen => exact ⟨hfresh, fun _ => ⟨_, _, AList.lookup_insert _, rfl⟩, nofun⟩
  | succeeded now id p hid =>
    refine h.erase hid (fun hrunning => ?_) nofun
    simp only [Permit.success, onSuccess] at hrunning
    cases hp : p.wasProbe with
    | true => simp [hp] at hrunning
    | false => simpa [hp] using hrunning
  | failed now id op p hid hop =>
    refine h.erase hid (fun hrunning => ?_) (fun hstate => ?_)
    · simp only [Permit.failure, onFailure] at hrunning
      cases hp : p.wasProbe with
      | true => simp [hp] at hrunning
      | false => grind
    · have hsince := h.since
      simp only [Permit.failure, onFailure] at hstate ⊢
      grind
  | released now id p hid =>
    simp only [Permit.neutral]
    cases hp : p.wasProbe with
    | true => exact h.erase hid (by simp [releaseProbe]) h.since
    | false => exact h.erase hid (fun hrunning => ⟨hp, hrunning⟩) h.since
  | reset now => exact ⟨hfresh, nofun, nofun⟩

theorem run_live (events : List Event) : Live (System.new.run cfg events) :=
  foldl_invariant (fun s e _ h => h.step (step_stepped cfg s e))
    ⟨fun i hi => absurd hi (AList.notMem_empty i), nofun, nofun⟩

/-- The breaker cannot wedge. After every run, a probe that it takes to be running
    is outstanding. So if no permit is, it grants a probe when it is half open, and
    when it is open it does so once the cooldown is over. -/
theorem acquire_unwedged (cfg : BreakerConfig) (events : List Event) (now : Nat) :
    ((System.new.run cfg events).breaker.probeRunning = true →
        ∃ i, Outstanding (System.new.run cfg events) i)
      ∧ ((System.new.run cfg events).permits = ∅ →
        (System.new.run cfg events).breaker.state = .halfOpen →
          ∃ p, (acquire cfg now (System.new.run cfg events).breaker).1 = .ok p)
      ∧ ((System.new.run cfg events).breaker.state = .opened →
        ∃ t, (System.new.run cfg events).breaker.openedAt = some t
          ∧ (t + cfg.openDuration ≤ now →
            ∃ p, (acquire cfg now (System.new.run cfg events).breaker).1 = .ok p)) := by
  have h : Live (System.new.run cfg events) := run_live events
  refine ⟨h.probe, fun hnone hstate => ?_, fun hstate => ?_⟩
  · have hidle : (System.new.run cfg events).breaker.probeRunning = false := by
      refine eq_false_of_ne_true (fun hrunning => ?_)
      rcases h.probe hrunning with ⟨i, p, hp, -⟩
      rw [hnone] at hp
      cases hp
    exact ⟨⟨true⟩, by simp [acquire, hstate, hidle]⟩
  · rcases h.since hstate with ⟨t, ht⟩
    refine ⟨t, ht, fun helapsed => ⟨⟨true⟩, ?_⟩⟩
    have hcooled : cfg.openDuration ≤ now - t := by omega
    simp [acquire, hstate, State.elapsed, ht, hcooled]

end Wedge

section Cooldown

variable {g : State} {e : Event} {cfg : BreakerConfig} {s : System} {t : Nat}

/-- The breaker is open, and was opened no earlier than `t`. -/
def Cooling (t : Nat) (g : State) : Prop :=
  g.state = .opened ∧ ∃ u, g.openedAt = some u ∧ t ≤ u

def Trips (cfg : BreakerConfig) (s : System) (e : Event) : Prop :=
  (∃ id ∈ s.permits, e.op = .failure id ∨ e.op = .drop id)
    ∧ (s.step cfg e).breaker.state = .opened

/-- No success is reported while the breaker is open and its cooldown runs. -/
def Quiet (cfg : BreakerConfig) (s : System) (e : Event) : Prop :=
  ∀ id ∈ s.permits, e.op = .success id → s.breaker.state = .opened →
    cfg.openDuration ≤ s.breaker.elapsed e.time

/-- An open breaker has counted enough failures to open again with the next. -/
def Charged (cfg : BreakerConfig) (g : State) : Prop :=
  g.state = .opened → cfg.failureThreshold ≤ g.failures

theorem onFailure_charged (now : Nat) (wasProbe : Bool) (g : State) :
    Charged cfg g → Charged cfg (onFailure cfg now wasProbe g).2 := by
  intro h
  simp only [onFailure]
  split
  · exact fun _ => le_refl _
  · split
    · rename_i hreached
      exact fun _ => hreached
    · intro hstate
      have hbound := cfg.u32
      have hfailures := h hstate
      simp only [saturatingAdd]
      omega

theorem onFailure_opened {now : Nat} {wasProbe : Bool} (hg : Charged cfg g)
    (h : (onFailure cfg now wasProbe g).2.state = .opened) :
    (onFailure cfg now wasProbe g).2.openedAt = some now := by
  simp only [onFailure] at h ⊢
  split
  · rfl
  · rename_i hprobe
    rw [if_neg hprobe] at h
    split
    · rfl
    · rename_i hbelow
      rw [if_neg hbelow] at h
      have hbound := cfg.u32
      have hfailures := hg h
      simp only [saturatingAdd] at hbelow
      omega

theorem onFailure_of_opened (cfg : BreakerConfig) (now : Nat) (wasProbe : Bool)
    (h : g.state = .opened) :
    (onFailure cfg now wasProbe g).2.state = .opened := by
  simp only [onFailure]
  split
  · rfl
  · split
    · rfl
    · exact h

theorem Charged.step (h : Charged cfg s.breaker) {s' : System} (hstep : Stepped cfg s e s') :
    Charged cfg s'.breaker := by
  cases hstep with
  | idle => exact h
  | granted now p g hgranted =>
    cases hgranted with
    | closed hstate => exact h
    | opened | halfOpen => exact nofun
  | succeeded | reset => exact nofun
  | failed now id op p hid hop => exact onFailure_charged now p.wasProbe s.breaker h
  | released now id p hid =>
    simp only [Permit.neutral]
    split <;> exact h

theorem run_charged (events : List Event) : Charged cfg (System.new.run cfg events).breaker :=
  foldl_invariant (I := fun s => Charged cfg s.breaker)
    (fun s e _ h => h.step (step_stepped cfg s e)) (fun h => by cases h)

theorem cooling_of_trips (hcharged : Charged cfg s.breaker) (h : Trips cfg s e) :
    Cooling e.time (s.step cfg e).breaker := by
  rcases e with ⟨now, op⟩
  rcases h with ⟨⟨id, hid, hop⟩, hopened⟩
  refine ⟨hopened, now, ?_, le_refl _⟩
  rcases Option.isSome_iff_exists.mp (AList.lookup_isSome.mpr hid) with ⟨p, hp⟩
  rcases hop with rfl | rfl
  all_goals
    simp only [System.step, System.report, hp] at hopened ⊢
    exact onFailure_opened hcharged hopened

/-- A cooldown lasts through every event that is quiet. -/
theorem Cooling.step (h : Cooling t s.breaker) (hcharged : Charged cfg s.breaker)
    (hafter : t ≤ e.time) (hbefore : e.time < t + cfg.openDuration) (hquiet : Quiet cfg s e)
    (hreset : e.op ≠ .reset) {s' : System} (hstep : Stepped cfg s e s') :
    Cooling t s'.breaker := by
  rcases h with ⟨hopened, u, hu, hle⟩
  have helapsed : s.breaker.elapsed e.time < cfg.openDuration := by
    simp only [State.elapsed, hu, Option.map_some, Option.getD_some]
    omega
  cases hstep with
  | idle => exact ⟨hopened, u, hu, hle⟩
  | granted now p g hgranted =>
    cases hgranted with
    | closed hstate => exact ⟨hopened, u, hu, hle⟩
    | opened hstate hcooled => exact absurd hcooled (Nat.not_le.mpr helapsed)
    | halfOpen hstate hidle => rw [hopened] at hstate; cases hstate
  | succeeded now id p hid =>
    have hmem : id ∈ s.permits := AList.lookup_isSome.mp (by rw [hid]; rfl)
    exact absurd (hquiet id hmem rfl hopened) (Nat.not_le.mpr helapsed)
  | failed now id op p hid hop =>
    have hstate := onFailure_of_opened cfg now p.wasProbe hopened
    exact ⟨hstate, now, onFailure_opened hcharged hstate, hafter⟩
  | released now id p hid =>
    simp only [Permit.neutral]
    split <;> exact ⟨hopened, u, hu, hle⟩
  | reset now => exact absurd rfl hreset

theorem acquire_of_cooling (h : Cooling t g) {now : Nat} (hafter : t ≤ now)
    (hbefore : now < t + cfg.openDuration) : (acquire cfg now g).1 = .error .opened := by
  grind [Cooling, acquire, State.elapsed]

/-- In a run in which no success is reported while the breaker is open and its
    cooldown runs: a failure that leaves the breaker open is followed by no permit
    before the cooldown is over, unless the breaker was reset. -/
theorem acquire_cooldown (cfg : BreakerConfig) (events : List Event)
    (hclock : events.Pairwise (fun a b => a.time ≤ b.time))
    (hquiet : Along (System.step cfg) (Quiet cfg) System.new events)
    (before : List Event) (e : Event) (mid : List Event) (now : Nat) (after : List Event)
    (hevents : events = before ++ e :: (mid ++ ⟨now, .acquire⟩ :: after))
    (htrips : Trips cfg (System.new.run cfg before) e)
    (hreset : ∀ m ∈ mid, m.op ≠ .reset) (hnow : now < e.time + cfg.openDuration) :
    (acquire cfg now (System.new.run cfg (before ++ e :: mid)).breaker).1 = .error .opened := by
  subst hevents
  have hfrom : (e :: (mid ++ ⟨now, .acquire⟩ :: after)).Pairwise (fun a b => a.time ≤ b.time) :=
    (pairwise_append.mp hclock).2.1
  have hlast : ∀ m ∈ mid, m.time ≤ now := fun m hm =>
    (pairwise_append.mp (pairwise_cons.mp hfrom).2).2.2 m hm _ mem_cons_self
  have hafter : ∀ m ∈ mid, e.time ≤ m.time := fun m hm =>
    (pairwise_cons.mp hfrom).1 m (mem_append_left _ hm)
  have hrun : ∀ l, System.new.run cfg (before ++ e :: l)
      = l.foldl (System.step cfg) ((System.new.run cfg before).step cfg e) := fun l => by
    rw [System.run, foldl_append]
    rfl
  -- What is met at each step between the failure and the acquire.
  have hmid : Along (System.step cfg) (fun s m => Quiet cfg s m ∧ Charged cfg s.breaker ∧ m ∈ mid)
      ((System.new.run cfg before).step cfg e) mid := by
    refine along_iff_split.mpr (fun l m l' heq => ⟨?_, ?_, ?_⟩)
    · rw [← hrun]
      refine along_iff_split.mp hquiet (before ++ e :: l) m (l' ++ ⟨now, .acquire⟩ :: after) ?_
      simp only [heq, append_assoc, cons_append]
    · rw [← hrun]
      exact run_charged _
    · rw [heq]
      exact mem_append_right _ mem_cons_self
  have hcooling : Cooling e.time (System.new.run cfg (before ++ e :: mid)).breaker := by
    rw [hrun]
    refine hmid.invariant (I := fun s => Cooling e.time s.breaker) (fun s m hm hs => ?_)
      (cooling_of_trips (run_charged before) htrips)
    rcases hm with ⟨hm, hcharged, hmem⟩
    exact hs.step hcharged (hafter m hmem) (lt_of_le_of_lt (hlast m hmem) hnow) hm
      (hreset m hmem) (step_stepped cfg s m)
  have hacquire : e.time ≤ now :=
    (pairwise_cons.mp hfrom).1 _ (mem_append_right _ mem_cons_self)
  exact acquire_of_cooling hcooling hacquire hnow

/-- Two calls are under way, and the first fails. The second succeeds when the
    cooldown is over. -/
def cooledSuccess : List Event :=
  [⟨0, .acquire⟩, ⟨0, .acquire⟩, ⟨1, .failure 0⟩, ⟨5, .acquire⟩, ⟨11, .success 1⟩]

theorem acquire_cooldown_cooled :
    (acquire ⟨1, 10, by decide⟩ 5 (System.new.run ⟨1, 10, by decide⟩
      ([⟨0, .acquire⟩, ⟨0, .acquire⟩] ++ ⟨1, .failure 0⟩ :: [])).breaker).1 = .error .opened := by
  refine acquire_cooldown ⟨1, 10, by decide⟩ cooledSuccess ?_ ?_ [⟨0, .acquire⟩, ⟨0, .acquire⟩]
    ⟨1, .failure 0⟩ [] 5 [⟨11, .success 1⟩] rfl ⟨⟨0, by decide, .inl rfl⟩, by decide⟩ nofun
    (by decide)
  · simp [cooledSuccess]
  · refine ⟨nofun, nofun, nofun, nofun, ?_, trivial⟩
    intro id _ _ _
    decide

/-- The same two calls, but the second succeeds right after the first has
    failed. -/
theorem acquire_cooldown_late_success :
    ¬ ∀ (cfg : BreakerConfig) (events : List Event),
      events.Pairwise (fun a b => a.time ≤ b.time) →
      ∀ (before : List Event) (e : Event) (mid : List Event) (now : Nat) (after : List Event),
        events = before ++ e :: (mid ++ ⟨now, .acquire⟩ :: after) →
        Trips cfg (System.new.run cfg before) e → (∀ m ∈ mid, m.op ≠ .reset) →
        now < e.time + cfg.openDuration →
        ∀ p, (acquire cfg now (System.new.run cfg (before ++ e :: mid)).breaker).1 ≠ .ok p := by
  intro h
  refine h ⟨1, 10, by decide⟩
    [⟨0, .acquire⟩, ⟨0, .acquire⟩, ⟨1, .failure 0⟩, ⟨2, .success 1⟩, ⟨3, .acquire⟩] (by simp)
    [⟨0, .acquire⟩, ⟨0, .acquire⟩] ⟨1, .failure 0⟩ [⟨2, .success 1⟩] 3 [] rfl
    ⟨⟨0, by decide, .inl rfl⟩, by decide⟩ ?_ (by decide) ⟨false⟩ (by rfl)
  intro m hm
  cases mem_singleton.mp hm
  nofun

end Cooldown

end Waygate.Upstream
