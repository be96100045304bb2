import Waygate.Theory.Codemode.Fenced

/-!
# Starts of One Identity Form a Chain

The newest row of an identity is found by the time its transaction began, which is
before it had the lock. A caller names only a row that was returned before, and the
clock must tell the two apart, or, when it stands still, the identifiers.

## Main definitions

* `Linked`, `Allowed`
* `Chained`: What every action keeps.

## Theorems

* `finish_cases`, `Chained.step`, `starts_chained`, `starts_chained_exceptions`
-/

namespace Waygate.Codemode

open Lease Machine List

section Identity

variable {K : StartIdentity} {now : Int}

def StartIdentity.owns (K : StartIdentity) (e : Execution) : Bool :=
  e.tenantId == K.tenantId && e.principalSub == K.principalSub
    && e.principalIssuer == some K.principalIssuer && e.startDedupeKey == some K.dedupeKey
    && e.sourceDigest == K.sourceDigest && jsonbEq e.executionProfile K.executionProfile

theorem owns_congr {e e' : Execution} (h : e'.identity = e.identity) : K.owns e' = K.owns e := by
  grind [StartIdentity.owns, Execution.identity]

theorem matching_eq {start : StartExecution} (h : start.identity.same K = true) (e : Execution) :
    start.matching now e = (K.owns e && e.retained now) := by
  simp only [StartIdentity.same, StartExecution.identity, jsonbEq, Bool.and_eq_true,
    beq_iff_eq] at h
  obtain ⟨⟨⟨⟨⟨htenant, hsub⟩, hissuer⟩, hkey⟩, hdigest⟩, hprofile⟩ := h
  simp only [StartExecution.matching, StartIdentity.owns, jsonbEq, htenant, hsub, hissuer, hkey,
    hdigest, hprofile]

theorem owns_started (start : StartExecution) :
    K.owns (start.row now) = start.identity.same K := by
  simp only [StartIdentity.owns, StartIdentity.same, StartExecution.identity, StartExecution.row,
    NewExecution.row, Option.some_beq_some]

theorem owns_submitted (new : NewExecution) : K.owns (new.row now) = false := by
  simp [StartIdentity.owns, NewExecution.row]

def members (K : StartIdentity) (s : Tables) : List Execution :=
  (rows s).filter K.owns

theorem mem_members {s : Tables} {e : Execution} :
    e ∈ members K s ↔ e ∈ rows s ∧ K.owns e = true :=
  mem_filter

end Identity

section Order

theorem newer_trans {a b c : Execution} (h : a.newer b = true) (h' : b.newer c = true) :
    a.newer c = true := by
  rw [newer_iff] at h h' ⊢
  omega

theorem newest_sorted {l : List Execution} (h : l.Pairwise (fun a b => b.newer a = true)) :
    newest l = l.getLast? := by
  induction l with
  | nil => rfl
  | cons e rest ih =>
    rw [pairwise_cons] at h
    rw [newest, ih h.2]
    cases rest with
    | nil => rfl
    | cons e' rest => grind

theorem newer_congr {a a' b b' : Execution} (ha : a'.identity = a.identity)
    (hb : b'.identity = b.identity) : a'.newer b' = a.newer b := by
  have hat : a'.submittedAt = a.submittedAt := congrArg Identity.submittedAt ha
  have hai : a'.id = a.id := congrArg Identity.id ha
  have hbt : b'.submittedAt = b.submittedAt := congrArg Identity.submittedAt hb
  have hbi : b'.id = b.id := congrArg Identity.id hb
  rw [Execution.newer, Execution.newer, hat, hai, hbt, hbi]

end Order

section Links

variable {l : List Created}

/-- Every row was created by a start that named the row before it. -/
def Linked : Option Uuid → List Created → Prop
  | _, [] => True
  | previous, c :: rest => c.named = previous ∧ Linked (some c.id) rest

theorem Linked.concat {previous : Option Uuid} {c : Created} (h : Linked previous l)
    (hc : c.named = (l.getLast?.map Created.id).or previous) :
    Linked previous (l ++ [c]) := by
  induction l generalizing previous with
  | nil => exact ⟨hc, trivial⟩
  | cons first rest ih =>
    refine ⟨h.1, ih h.2 ?_⟩
    rw [hc]
    cases rest with
    | nil => rfl
    | cons second rest => grind

theorem Linked.named {previous : Option Uuid} (h : Linked previous l) :
    l.map Created.named = (previous :: l.map (fun c => some c.id)).take l.length := by
  induction l generalizing previous with
  | nil => rfl
  | cons first rest ih =>
    rw [map_cons, map_cons, length_cons, take_succ_cons, h.1, ih h.2]

theorem Linked.unique (h : Linked none l) (hnodup : (l.map Created.id).Nodup) {c c' : Created}
    (hc : c ∈ l) (hc' : c' ∈ l) (hnamed : c.named = c'.named) : c = c' := by
  have hall : (none :: l.map (fun c => some c.id)).Nodup := by grind
  have hnames : (l.map Created.named).Nodup := by
    rw [h.named]
    exact hall.sublist (take_sublist _ _)
  exact inj_on_of_nodup_map hnames hc hc' hnamed

end Links

section Retained

variable {s : Tables} {now : Int} {skipped : Skipped}

theorem mem_batch {ids : List Uuid} {p : Execution → Bool} {id : Uuid}
    (h : id ∈ batch ids p s.executions) : ∃ e ∈ rows s, p e = true ∧ e.id = id := by
  rcases mem_map.mp h with ⟨e, he, hid⟩
  have hmem := (mem_insertionSort _).mp (mem_of_mem_take he)
  rw [mem_filter, Bool.and_eq_true] at hmem
  exact ⟨e, hmem.1, hmem.2.1, hid⟩

theorem mem_delete {e : Execution} {ids : List Uuid} {p : Execution → Bool}
    (hnodup : ((rows s).map Execution.id).Nodup) (he : e ∈ rows s) (hp : p e = false) :
    e ∈ rows (deleteExecutions s (batch ids p s.executions)) := by
  rw [rows_deleteExecutions, mem_filter]
  refine ⟨he, ?_⟩
  rw [Bool.not_eq_true', ← Bool.not_eq_true, contains_iff_mem]
  intro hmem
  rcases mem_batch hmem with ⟨x, hx, hpx, hid⟩
  rw [inj_on_of_nodup_map hnodup hx he hid, hp] at hpx
  cases hpx

theorem not_swept (hnodup : ((rows s).map Execution.id).Nodup) {e : Execution}
    (he : e ∈ rows s) (hretained : e.retained now = true) : swept s skipped now e.id = false := by
  have hfirst : e ∈ rows (deleteLocators s skipped.locators now) := he
  have hsecond : e ∈ rows (deleteExecutions (deleteLocators s skipped.locators now)
      (batch skipped.executions (fun e => !e.retained now && e.completedAt.isSome)
        s.executions)) :=
    mem_delete hnodup hfirst (by rw [hretained]; rfl)
  have hkept : e ∈ rows (purgeExpiredState s skipped now) := by
    refine mem_delete ?_ hsecond (by rw [hretained]; rfl)
    rw [rows_deleteExecutions]
    exact hnodup.sublist (filter_sublist.map _)
  rw [swept, Bool.not_eq_false', any_eq_true]
  exact ⟨e, hkept, beq_self_eq_true _⟩

end Retained

section Chain

variable {K : StartIdentity}

/-- The rows of the identity are within their retention at a time. -/
def RetainedAt (K : StartIdentity) (s : Tables) (now : Int) : Prop :=
  ∀ e ∈ members K s, e.retained now = true

/-- The starts are of the identity, and the clock does not go back. A start names a
    row only after it was returned, and a row that is as old as the start has a
    smaller identifier. Everything else goes on beside the starts. -/
def Allowed (K : StartIdentity) (s : Starts) : StartAction → Prop
  | .begin start _ now =>
    start.identity.same K = true ∧ s.clock ≤ now
    ∧ (∀ id, start.repeatAfter = some id → id ∈ s.returned)
    ∧ ∀ e ∈ members K s.tables, start.repeatAfter = some e.id → e.submittedAt = now →
      e.id.toNat < start.execution.id.toNat
  | .finish i => ∀ w, s.waiting[i]? = some w → RetainedAt K s.tables w.now
  | .other call => Listed call ∧ RetainedAt K s.tables call.now
      ∧ ∀ start skipped, call.op = .startOrReuse start skipped → start.identity.same K = false

/-- A start that waits is of the identity, and comes after the row it names. -/
structure Waiting.Ready (K : StartIdentity) (s : Starts) (w : Waiting) : Prop where
  same : w.start.identity.same K = true
  clock : w.now ≤ s.clock
  named : ∀ id, w.start.repeatAfter = some id →
    ∃ e ∈ members K s.tables, e.id = id ∧ (w.start.row w.now).newer e = true

structure Chained (K : StartIdentity) (s : Starts) : Prop where
  fenced : ∃ ledger, Fenced ⟨s.tables, ledger⟩
  ids : (members K s.tables).map Execution.id = s.created.map Created.id
  sorted : (members K s.tables).Pairwise (fun a b => b.newer a = true)
  terminal : ∀ e ∈ (members K s.tables).dropLast, e.status.isTerminal = true
  linked : Linked none s.created
  returned : ∀ id ∈ s.returned, ∃ e ∈ members K s.tables, e.id = id
  clock : ∀ e ∈ members K s.tables, e.submittedAt ≤ s.clock
  waiting : ∀ w ∈ s.waiting, w.Ready K s

theorem Chained.empty : Chained K Starts.empty := by
  have hfenced : Fenced (history []) := history_fenced (fun _ h => absurd h not_mem_nil)
  refine ⟨⟨_, hfenced⟩, rfl, List.Pairwise.nil, fun _ h => ?_, trivial, fun _ h => ?_,
    fun _ h => ?_, fun _ h => ?_⟩
  all_goals cases h

theorem Chained.nodup {s : Starts} (h : Chained K s) :
    ((rows s.tables).map Execution.id).Nodup := by
  rcases h.fenced with ⟨ledger, hf⟩
  exact hf.nodup

theorem Chained.begin {s : Starts} (h : Chained K s) {start : StartExecution} {skipped : Skipped}
    {now : Int} (hallowed : Allowed K s (.begin start skipped now)) :
    Chained K (s.step (.begin start skipped now)) := by
  rcases hallowed with ⟨hsame, hclock, hreturned, htie⟩
  refine { h with
    clock := fun e he => Int.le_trans (h.clock e he) hclock
    waiting := fun w hw => ?_ }
  rcases mem_append.mp hw with hw | hw
  · have hready := h.waiting w hw
    exact ⟨hready.same, Int.le_trans hready.clock hclock, hready.named⟩
  · rw [mem_singleton.mp hw]
    refine ⟨hsame, Int.le_refl _, fun id hid => ?_⟩
    rcases h.returned id (hreturned id hid) with ⟨e, he, rfl⟩
    refine ⟨e, he, rfl, newer_iff.mpr ?_⟩
    -- The row was there when the transaction began.
    have hle : e.submittedAt ≤ now := Int.le_trans (h.clock e he) hclock
    have htie' := htie e he hid
    have htime : (start.row now).submittedAt = now := rfl
    have hid' : (start.row now).id = start.execution.id := rfl
    rw [htime, hid']
    omega

theorem members_carried {leave : Execution → Prop} {gone : Uuid → Bool}
    {g : Execution → Execution} {new : List Execution} {s s' : Tables}
    (hc : Carried leave gone g new s s')
    (hkept : ∀ e ∈ members K s, gone e.id = false) :
    members K s' = (members K s).map g ++ new.filter K.owns := by
  rw [members, hc.rows_eq, filter_append]
  congr 1
  rw [filter_map, filter_filter, members]
  congr 1
  refine filter_congr (fun e he => ?_)
  rw [Function.comp_apply, owns_congr (hc.advance e he).identity]
  by_cases howns : K.owns e = true
  · rw [hkept e (mem_members.mpr ⟨he, howns⟩), howns]
    rfl
  · rw [eq_false_of_ne_true howns, Bool.false_and]

theorem members_purge {s : Tables} {skipped : Skipped} {now : Int}
    (hnodup : ((rows s).map Execution.id).Nodup) (hretained : RetainedAt K s now) :
    members K (purgeExpiredState s skipped now) = members K s := by
  rw [members, rows_purge, filter_filter, members]
  refine filter_congr (fun e he => ?_)
  by_cases howns : K.owns e = true
  · rw [not_swept hnodup he (hretained e (mem_members.mpr ⟨he, howns⟩)), howns]
    rfl
  · rw [eq_false_of_ne_true howns, Bool.false_and]

theorem Chained.other {s : Starts} (h : Chained K s) {call : Call}
    (hallowed : Allowed K s (.other call)) : Chained K (s.step (.other call)) := by
  rcases hallowed with ⟨hlisted, hretained, hother⟩
  rcases h.fenced with ⟨ledger, hf⟩
  rcases effect_outcome s.tables call hlisted with ⟨g, new, hc, hborn, -⟩
  have hkept : ∀ e ∈ members K s.tables, purges s.tables call e.id = false := by
    intro e he
    rw [purges]
    split
    all_goals first
      | exact Bool.and_false _
      | rw [not_swept hf.nodup (mem_members.mp he).1 (hretained e he), Bool.and_false]
  have hnew : new.filter K.owns = [] := by
    rw [filter_eq_nil_iff]
    intro e he howns
    have hmem := hborn he
    rw [born] at hmem
    split at hmem
    · rw [mem_singleton.mp hmem, owns_submitted] at howns
      cases howns
    · rename_i start skipped hop
      rw [mem_singleton.mp hmem, owns_started, hother start skipped hop] at howns
      cases howns
    · cases hmem
  have hmembers : members K (s.step (.other call)).tables = (members K s.tables).map g := by
    have := members_carried hc hkept
    rw [hnew, append_nil] at this
    exact this
  have hadvance (e : Execution) (he : e ∈ members K s.tables) :
      Advance (leaves call e) e (g e) :=
    hc.advance e (mem_members.mp he).1
  refine ⟨⟨_, hf.record hlisted⟩, ?_, ?_, ?_, h.linked, fun id hid => ?_, fun e he => ?_,
    fun w hw => ?_⟩
  · rw [hmembers, map_map]
    exact (map_congr_left (fun e he => (hadvance e he).id_eq)).trans h.ids
  · rw [hmembers, pairwise_map]
    refine h.sorted.imp_of_mem (fun ha hb hnewer => ?_)
    rwa [newer_congr (hadvance _ hb).identity (hadvance _ ha).identity]
  · intro e he
    rw [hmembers, ← map_dropLast] at he
    rcases mem_map.mp he with ⟨x, hx, rfl⟩
    have hterminal := h.terminal x hx
    rwa [(hadvance x ((dropLast_sublist _).subset hx)).final hterminal]
  · rcases h.returned id hid with ⟨e, he, rfl⟩
    rw [hmembers]
    exact ⟨g e, mem_map_of_mem he, (hadvance e he).id_eq⟩
  · rw [hmembers] at he
    rcases mem_map.mp he with ⟨x, hx, rfl⟩
    rw [show (g x).submittedAt = x.submittedAt from
      congrArg Identity.submittedAt (hadvance x hx).identity]
    exact h.clock x hx
  · have hready := h.waiting w hw
    refine ⟨hready.same, hready.clock, fun id hid => ?_⟩
    rcases hready.named id hid with ⟨e, he, rfl, hnewer⟩
    rw [hmembers]
    refine ⟨g e, mem_map_of_mem he, (hadvance e he).id_eq, ?_⟩
    rwa [newer_congr rfl (hadvance e he).identity]

/-- A start creates the next row, or returns the newest, or fails. -/
theorem finish_cases {s : Starts} (h : Chained K s) {w : Waiting} (hready : w.Ready K s)
    (hretained : RetainedAt K s.tables w.now) :
    (∃ claim, (effect s.tables w.now (.startOrReuse w.start w.skipped)).1
        = .started (.claimed (w.start.row w.now) claim)
      ∧ members K (effect s.tables w.now (.startOrReuse w.start w.skipped)).2
        = members K s.tables ++ [w.start.row w.now]
      ∧ w.start.repeatAfter = (members K s.tables).getLast?.map Execution.id
      ∧ ∀ e, (members K s.tables).getLast? = some e → e.status.isTerminal = true)
    ∨ (members K (effect s.tables w.now (.startOrReuse w.start w.skipped)).2
        = members K s.tables
      ∧ ((∃ e, (members K s.tables).getLast? = some e
          ∧ (effect s.tables w.now (.startOrReuse w.start w.skipped)).1 = .started (.existing e))
        ∨ (∃ e ∈ members K s.tables, w.start.repeatAfter = some e.id
          ∧ e.status.isTerminal = false
          ∧ (effect s.tables w.now (.startOrReuse w.start w.skipped)).1
            = .started (.repeatNotTerminal e))
        ∨ ∃ error, effect s.tables w.now (.startOrReuse w.start w.skipped)
          = (.failed error, s.tables))) := by
  have hpurge : members K (purgeExpiredState s.tables w.skipped w.now) = members K s.tables :=
    members_purge h.nodup hretained
  -- All rows of the identity are retained, so the newest of them is the last.
  have hlatest : latest (purgeExpiredState s.tables w.skipped w.now) w.start w.now
      = (members K s.tables).getLast? := by
    rw [latest, ← newest_sorted h.sorted, ← hpurge, members]
    congr 1
    refine filter_congr (fun e he => ?_)
    rw [matching_eq hready.same]
    by_cases howns : K.owns e = true
    · rw [hretained e (hpurge ▸ mem_members.mpr ⟨he, howns⟩), Bool.and_true]
    · rw [eq_false_of_ne_true howns, Bool.false_and]
  rw [effect]
  cases hresult : startOrReuse s.tables w.now w.start w.skipped with
  | error error => exact .inr ⟨rfl, .inr (.inr ⟨error, rfl⟩)⟩
  | ok result =>
    rcases result with ⟨result, t⟩
    rcases startOrReuse_ok hresult with ⟨hrows, -, rfl, hwhy⟩ | ⟨hrows, hrest⟩
    · refine .inl ⟨_, rfl, ?_, ?_⟩
      · rw [commit, members, hrows, filter_append, ← members, hpurge,
          filter_singleton, owns_started, hready.same]
        rfl
      · grind
    · have hmembers : members K t = members K s.tables := by
        rw [members, hrows, ← members, hpurge]
      refine .inr ⟨hmembers, ?_⟩
      rcases hrest with ⟨e, hsome, rfl⟩ | ⟨e, he, hmatch, hrepeat, hopen, rfl⟩
        | ⟨hmissing, hnamed, rfl⟩
      · exact .inl ⟨e, hlatest ▸ hsome, rfl⟩
      · rw [matching_eq hready.same, Bool.and_eq_true] at hmatch
        exact .inr (.inl ⟨e, hpurge ▸ mem_members.mpr ⟨he, hmatch.1⟩, hrepeat, hopen, rfl⟩)
      · -- The row that is named is there: nothing deletes it.
        exfalso
        rcases Option.ne_none_iff_exists'.mp hnamed with ⟨id, hid⟩
        rcases hready.named id hid with ⟨e, he, rfl, -⟩
        have he' := mem_members.mp (hpurge.symm ▸ he)
        refine hmissing e he'.1 ?_ hid
        rw [matching_eq hready.same, he'.2, hretained e he]
        rfl

theorem Chained.answered {s : Starts} (h : Chained K s) {t : Tables} {waiting : List Waiting}
    {ids : List Uuid} (hfenced : ∃ ledger, Fenced ⟨t, ledger⟩)
    (hmembers : members K t = members K s.tables)
    (hids : ∀ id ∈ ids, ∃ e ∈ members K s.tables, e.id = id)
    (hwaiting : ∀ w ∈ waiting, w ∈ s.waiting) :
    Chained K { s with tables := t, waiting := waiting, returned := s.returned ++ ids } := by
  refine ⟨hfenced, ?_, ?_, ?_, h.linked, fun id hid => ?_, ?_, fun w hw => ?_⟩
  · rw [hmembers]
    exact h.ids
  · rw [hmembers]
    exact h.sorted
  · rw [hmembers]
    exact h.terminal
  · rw [hmembers]
    rcases mem_append.mp hid with hid | hid
    · exact h.returned id hid
    · exact hids id hid
  · rw [hmembers]
    exact h.clock
  · have hready := h.waiting w (hwaiting w hw)
    refine ⟨hready.same, hready.clock, ?_⟩
    rw [hmembers]
    exact hready.named

theorem Chained.extended {s : Starts} (h : Chained K s) {w : Waiting} (hready : w.Ready K s)
    {t : Tables} {waiting : List Waiting} (hfenced : ∃ ledger, Fenced ⟨t, ledger⟩)
    (hmembers : members K t = members K s.tables ++ [w.start.row w.now])
    (hnamed : w.start.repeatAfter = (members K s.tables).getLast?.map Execution.id)
    (hterminal : ∀ e, (members K s.tables).getLast? = some e → e.status.isTerminal = true)
    (hwaiting : ∀ w ∈ waiting, w ∈ s.waiting) :
    Chained K { s with
      tables := t
      waiting := waiting
      returned := s.returned ++ [w.start.execution.id]
      created := s.created ++ [⟨w.start.execution.id, w.start.repeatAfter⟩] } := by
  have hlast (e : Execution) (he : e ∈ members K s.tables) :
      ∃ last, (members K s.tables).getLast? = some last
        ∧ (e = last ∨ last.newer e = true) := by
    have hne := ne_nil_of_mem he
    refine ⟨_, getLast?_eq_some_getLast hne, ?_⟩
    have hsplit := dropLast_append_getLast hne
    rw [← hsplit, mem_append, mem_singleton] at he
    rcases he with he | he
    · have hsorted := h.sorted
      rw [← hsplit, pairwise_append] at hsorted
      exact .inr (hsorted.2.2 e he _ (mem_singleton_self _))
    · exact .inl he
  have hold (id : Uuid) (hex : ∃ e ∈ members K s.tables, e.id = id) :
      ∃ e ∈ members K t, e.id = id := by grind
  refine ⟨hfenced, ?_, ?_, ?_, ?_, fun id hid => ?_, ?_, fun x hx => ?_⟩
  · rw [hmembers, map_append, map_append, h.ids]
    rfl
  · rw [hmembers, pairwise_append]
    refine ⟨h.sorted, pairwise_singleton _ _, fun e he row hrow => ?_⟩
    rw [mem_singleton.mp hrow]
    -- The start comes after the row it names, which is the last.
    rcases hlast e he with ⟨last, hsome, hnewer⟩
    rw [hsome] at hnamed
    rcases hready.named last.id hnamed with ⟨e', he', hid, hafter⟩
    have heq := inj_on_of_nodup_map h.nodup (mem_members.mp he').1
      (mem_members.mp (mem_of_getLast? hsome)).1 hid
    subst heq
    rcases hnewer with rfl | hnewer
    · exact hafter
    · exact newer_trans hafter hnewer
  · intro e he
    rw [hmembers, dropLast_concat] at he
    have hne := ne_nil_of_mem he
    rw [← dropLast_append_getLast hne, mem_append, mem_singleton] at he
    rcases he with he | rfl
    · exact h.terminal e he
    · exact hterminal _ (getLast?_eq_some_getLast hne)
  · refine h.linked.concat ?_
    have hids : (s.created.getLast?.map Created.id) = (members K s.tables).getLast?.map
        Execution.id := by
      rw [← getLast?_map, ← getLast?_map, h.ids]
    rw [hids, Option.or_none]
    exact hnamed
  · rcases mem_append.mp hid with hid | hid
    · exact hold id (h.returned id hid)
    · rw [mem_singleton.mp hid]
      exact ⟨w.start.row w.now, hmembers ▸ mem_append_right _ (mem_singleton_self _), rfl⟩
  · intro e he
    rw [hmembers, mem_append, mem_singleton] at he
    rcases he with he | rfl
    · exact h.clock e he
    · exact hready.clock
  · have hx := h.waiting x (hwaiting x hx)
    refine ⟨hx.same, hx.clock, fun id hid => ?_⟩
    rcases hx.named id hid with ⟨e, he, hrest⟩
    exact ⟨e, hmembers ▸ mem_append_left _ he, hrest⟩

theorem Chained.finish {s : Starts} (h : Chained K s) {i : Nat}
    (hallowed : Allowed K s (.finish i)) : Chained K (s.step (.finish i)) := by
  rw [Starts.step]
  cases hw : s.waiting[i]? with
  | none => exact h
  | some w =>
    have hready := h.waiting w (mem_of_getElem? hw)
    rcases h.fenced with ⟨ledger, hf⟩
    have hlisted : Listed ⟨.startOrReuse w.start w.skipped, w.now⟩ := trivial
    have hfenced : ∃ ledger, Fenced
        ⟨(effect s.tables w.now (.startOrReuse w.start w.skipped)).2, ledger⟩ :=
      ⟨_, hf.record hlisted⟩
    have hwaiting (x : Waiting) (hx : x ∈ s.waiting.eraseIdx i) : x ∈ s.waiting :=
      mem_of_mem_eraseIdx hx
    rcases finish_cases h hready (hallowed w hw) with
      ⟨claim, hresult, hmembers, hnamed, hterminal⟩ | ⟨hmembers, hresult⟩
    · simp only [hresult]
      exact h.extended hready hfenced hmembers hnamed hterminal hwaiting
    · rcases hresult with ⟨e, hlast, hresult⟩ | ⟨e, he, -, -, hresult⟩ | ⟨error, hresult⟩
      · simp only [hresult, Response.createdId, Option.toList_none, map_nil, append_nil]
        refine h.answered hfenced hmembers (fun id hid => ?_) hwaiting
        exact ⟨e, mem_of_getLast? hlast, (mem_singleton.mp hid).symm⟩
      · simp only [hresult, Response.createdId, Option.toList_none, map_nil, append_nil]
        refine h.answered hfenced hmembers (fun id hid => ?_) hwaiting
        exact ⟨e, he, (mem_singleton.mp hid).symm⟩
      · rw [hresult] at hfenced hmembers
        simp only [hresult, Response.createdId, Option.toList_none, map_nil, append_nil]
        refine h.answered hfenced hmembers (fun id hid => ?_) hwaiting
        cases hid

/-- No action breaks the chain. -/
theorem Chained.step {s : Starts} {a : StartAction} (hallowed : Allowed K s a)
    (h : Chained K s) : Chained K (s.step a) := by
  cases a with
  | begin start skipped now => exact h.begin hallowed
  | finish i => exact h.finish hallowed
  | other call => exact h.other hallowed

theorem Chained.one_open {s : Starts} (h : Chained K s) {e e' : Execution}
    (he : e ∈ members K s.tables) (he' : e' ∈ members K s.tables)
    (hopen : e.status.isTerminal = false) (hopen' : e'.status.isTerminal = false) : e = e' := by
  have hne := ne_nil_of_mem he
  have hlast (x : Execution) (hx : x ∈ members K s.tables) (hxopen : x.status.isTerminal = false) :
      x = (members K s.tables).getLast hne := by
    rw [← dropLast_append_getLast hne, mem_append, mem_singleton] at hx
    rcases hx with hx | hx
    · rw [h.terminal x hx] at hxopen
      cases hxopen
    · exact hx
  rw [hlast e he hopen, hlast e' he' hopen']

/-- In every run, the rows of an identity are those that its starts created, each
    by a start that named the one before it, and one of them at most is not
    terminal. A start that has the lock creates the next row, when it names the last
    and that is terminal; or it returns the last row; or it reports that the row it
    named is not terminal; or it fails and has changed nothing. -/
theorem starts_chained (K : StartIdentity) (actions : List StartAction)
    (hallowed : Along Starts.step (Allowed K) Starts.empty actions) :
    let s := actions.foldl Starts.step Starts.empty
    (members K s.tables).map Execution.id = s.created.map Created.id
    ∧ Linked none s.created
    ∧ (∀ c ∈ s.created, ∀ c' ∈ s.created, c.named = c'.named → c = c')
    ∧ (∀ e ∈ members K s.tables, ∀ e' ∈ members K s.tables, e.status.isTerminal = false →
      e'.status.isTerminal = false → e = e')
    ∧ ∀ i w, s.waiting[i]? = some w → Allowed K s (.finish i) →
      let result := effect s.tables w.now (.startOrReuse w.start w.skipped)
      (∃ claim, result.1 = .started (.claimed (w.start.row w.now) claim)
        ∧ members K result.2 = members K s.tables ++ [w.start.row w.now]
        ∧ w.start.repeatAfter = (members K s.tables).getLast?.map Execution.id
        ∧ ∀ e, (members K s.tables).getLast? = some e → e.status.isTerminal = true)
      ∨ (members K result.2 = members K s.tables
        ∧ ((∃ e, (members K s.tables).getLast? = some e ∧ result.1 = .started (.existing e))
          ∨ (∃ e ∈ members K s.tables, w.start.repeatAfter = some e.id
            ∧ e.status.isTerminal = false ∧ result.1 = .started (.repeatNotTerminal e))
          ∨ ∃ error, result = (.failed error, s.tables))) := by
  intro s
  have h : Chained K s := Along.invariant (fun _ _ => Chained.step) Chained.empty hallowed
  have hnodup : (s.created.map Created.id).Nodup := by
    rw [← h.ids]
    exact h.nodup.sublist (filter_sublist.map _)
  refine ⟨h.ids, h.linked, fun c hc c' hc' => h.linked.unique hnodup hc hc',
    fun e he e' he' => h.one_open he he', fun i w hw hfinish => ?_⟩
  exact finish_cases h (h.waiting w (mem_of_getElem? hw)) (hfinish w hw)

section Sample

def sampleStart (id : Uuid) (digest : String) (locator : Option String)
    (repeatAfter : Option Uuid) : StartExecution :=
  { execution := { sampleNew id 1000 with sourceDigest := digest }
    dedupeKey := "k"
    sourceLocator := locator
    repeatAfter := repeatAfter
    owner := 7
    lease := 30
    source := "return 1"
    toolSnapshot := .object [] }

def sampleDigest : String :=
  "00000000000000000000000000000000000000000000000000000000000000d1"

def sampleFinish (id : Uuid) (now : Int) : StartAction :=
  .other ⟨.transition ⟨id, "t", 7, 1⟩ sampleSuccess, now⟩

def sampleStarts : List StartAction :=
  [.begin (sampleStart 9 sampleDigest none none) ⟨[], []⟩ 0, .finish 0, sampleFinish 9 1,
    .begin (sampleStart 2 sampleDigest none (some 9)) ⟨[], []⟩ 2, .finish 0]

theorem starts_chained_repeat :
    (sampleStarts.foldl Starts.step Starts.empty).created = [⟨9, none⟩, ⟨2, some 9⟩]
    ∧ Linked none (sampleStarts.foldl Starts.step Starts.empty).created := by
  refine ⟨by decide +kernel,
    (starts_chained (sampleStart 9 sampleDigest none none).identity sampleStarts ?_).2.1⟩
  refine ⟨⟨by decide +kernel, by decide, fun id h => ?_, fun e he => ?_⟩, fun w hw e he => ?_,
    ⟨⟨rfl, by decide⟩, ?_, fun start skipped h => ?_⟩,
    ⟨by decide +kernel, by decide, fun id h => ?_, ?_⟩, fun w hw => ?_, trivial⟩
  · cases h
  · cases he
  · cases hw
    cases he
  · unfold RetainedAt
    decide +kernel
  · cases h
  · cases h
    decide +kernel
  · decide +kernel
  · cases hw
    unfold RetainedAt
    decide +kernel

def sampleTie : List StartAction :=
  [.begin (sampleStart 9 sampleDigest none none) ⟨[], []⟩ 0, .finish 0, sampleFinish 9 0,
    .begin (sampleStart 2 sampleDigest none (some 9)) ⟨[], []⟩ 0, .finish 0,
    .begin (sampleStart 3 sampleDigest none (some 9)) ⟨[], []⟩ 0, .finish 0]

def sampleBound : List StartAction :=
  [.other ⟨.startOrReuse (sampleStart 1
      "00000000000000000000000000000000000000000000000000000000000000d0" (some sampleDigest) none)
      ⟨[], []⟩, 0⟩,
    .begin (sampleStart 9 sampleDigest none none) ⟨[], []⟩ 1, .finish 0,
    .begin (sampleStart 2 sampleDigest (some sampleDigest) none) ⟨[], []⟩ 2]

/-- In the first run a row has two successors. In the second, a start that finds a
    row of its identity fails over its locator. -/
theorem starts_chained_exceptions :
    (sampleTie.foldl Starts.step Starts.empty).created = [⟨9, none⟩, ⟨2, some 9⟩, ⟨3, some 9⟩]
    ∧ (sampleBound.foldl Starts.step Starts.empty).created = [⟨9, none⟩]
    ∧ (effect (sampleBound.foldl Starts.step Starts.empty).tables 2
      (.startOrReuse (sampleStart 2 sampleDigest (some sampleDigest) none) ⟨[], []⟩)).1.committed
        = false := by
  decide +kernel

end Sample

end Chain

end Waygate.Codemode
