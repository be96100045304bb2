import Waygate.Theory.As.Tokens

/-!
# Replayed Tokens

A refresh token that is presented again after its rotation ends its family: every token
that was rotated from it is revoked. The statement that does so selects the family from
a snapshot. A rotation that commits in between leaves a successor that the snapshot does
not have, so the family ends when no rotation of it commits while the statement runs.

## Main definitions

* `Family`, `Covered`, `Calm`

## Theorems

* `Ending.moves`, `replay_ends_family`, `replay_missed`, `family_one_live`
-/

namespace Waygate.As

open Machine Reach List

variable {now : Int} {r : RefreshToken} {left : List String} {env : AsState} {s s' : State}
  {rows : List RefreshToken} {t x y : String}

/-- What was rotated from a token of the table, directly or not, with the token
    itself. -/
def Family (rows : List RefreshToken) (t : String) : String → Prop :=
  Closure (rotatedTo rows) (named rows t)

theorem mem_rotatedTo :
    x ∈ rotatedTo rows t ↔ ∃ r ∈ rows, r.rotatedFrom = some t ∧ r.token = x := by
  simp [rotatedTo, and_assoc]

theorem mem_named : x ∈ named rows t ↔ t ∈ rows.map (·.token) ∧ x = t := by
  simp only [named, mem_map, mem_filter, beq_iff_eq]
  constructor
  · rintro ⟨r, ⟨hr, rfl⟩, rfl⟩
    exact ⟨⟨r, hr, rfl⟩, rfl⟩
  · rintro ⟨⟨r, hr, rfl⟩, rfl⟩
    exact ⟨r, ⟨hr, rfl⟩, rfl⟩

/-- The recursive query selects the family. -/
theorem mem_chain : x ∈ chain rows t ↔ Family rows t x := by
  refine mem_recursiveUnion (rotatedTo rows) _ (rows.map (·.token)) _ (fun a ha => ?_)
    (fun a _ b hb => ?_) (by simp) x
  · rcases mem_named.mp ha with ⟨ht, rfl⟩
    exact ht
  · rcases mem_rotatedTo.mp hb with ⟨r, hr, -, rfl⟩
    exact mem_map_of_mem hr

@[simp] theorem family_revokeRows {tokens : List String} :
    Family (revokeRows now tokens rows) t = Family rows t := by
  have hto : rotatedTo (revokeRows now tokens rows) = rotatedTo rows := by
    funext a
    simp [rotatedTo, revokeRows, filter_map, Function.comp_def]
  have hnamed : named (revokeRows now tokens rows) t = named rows t := by
    simp [named, revokeRows, filter_map, Function.comp_def]
  rw [Family, hto, hnamed, Family]

theorem family_authority (hkeyed : Keyed rows) {a : Authority} (ht : Known rows t a)
    (h : Family rows t x) : Known rows x a := by
  induction h with
  | seed h => exact (mem_named.mp h).2 ▸ ht
  | next _ hb ih =>
    rcases mem_rotatedTo.mp hb with ⟨r, hr, hfrom, rfl⟩
    rcases hkeyed.rotated r hr _ hfrom with ⟨q, hq, hqp, hauth, -⟩
    exact ⟨r, hr, rfl, hauth ▸ hkeyed.known_unique ⟨q, hq, hqp, rfl⟩ ih⟩

theorem family_append (hkeyed : Keyed rows) (hnew : r.token ∉ rows.map (·.token))
    (ht : t ∈ rows.map (·.token)) (h : Family (rows ++ [r]) t x) :
    Family rows t x ∨ x = r.token ∧ ∃ p, r.rotatedFrom = some p ∧ Family rows t p := by
  induction h with
  | seed h => exact .inl (.seed (mem_named.mpr ⟨ht, (mem_named.mp h).2⟩))
  | @next a b _ hb ih =>
    rcases mem_rotatedTo.mp hb with ⟨y, hy, hfrom, rfl⟩
    rcases mem_append.mp hy with hy | hy
    · -- An old row was rotated from an old row.
      rcases ih with ih | ⟨rfl, -⟩
      · exact .inl (.next ih (mem_rotatedTo.mpr ⟨y, hy, hfrom, rfl⟩))
      · rcases hkeyed.rotated y hy _ hfrom with ⟨q, hq, hqr, -⟩
        exact absurd (hqr ▸ mem_map_of_mem hq) hnew
    · grind

theorem Keyed.revoked_of_mem (h : Keyed rows) (hx : x ∈ rotatedTo rows t) {q : RefreshToken}
    (hq : q ∈ rows) (hqt : q.token = t) : q.revokedAt ≠ none := by
  rcases mem_rotatedTo.mp hx with ⟨r, hr, hfrom, -⟩
  rcases h.rotated r hr t hfrom with ⟨p, hp, hpt, -, hrev⟩
  rwa [h.unique hq hp (hqt.trans hpt.symm)]

theorem Keyed.successor_unique (h : Keyed rows) (hx : x ∈ rotatedTo rows t)
    (hy : y ∈ rotatedTo rows t) : x = y := by
  rcases mem_rotatedTo.mp hx with ⟨q, hq, hqt, rfl⟩
  rcases mem_rotatedTo.mp hy with ⟨r, hr, hrt, rfl⟩
  have hpair := pairwise_iff_getElem.mp (pairwise_filterMap.mp h.successors)
  rcases getElem_of_mem hq with ⟨i, hi, rfl⟩
  rcases getElem_of_mem hr with ⟨j, hj, rfl⟩
  rcases Nat.lt_trichotomy i j with hlt | rfl | hlt
  · exact absurd rfl (hpair i j hi hj hlt t hqt t hrt)
  · rfl
  · exact absurd rfl (hpair j i hj hi hlt t hrt t hqt)

theorem family_head (h : Family rows t x) :
    x = t ∨ ∃ y ∈ rotatedTo rows t, Family rows y x := by
  induction h with
  | seed h => exact .inl (mem_named.mp h).2
  | @next a b _ hb ih =>
    have hmem : b ∈ rows.map (·.token) := by
      rcases mem_rotatedTo.mp hb with ⟨r, hr, -, rfl⟩
      exact mem_map_of_mem hr
    rcases ih with rfl | ⟨y, hy, hfam⟩
    · exact .inr ⟨b, hb, .seed (mem_named.mpr ⟨hmem, rfl⟩)⟩
    · exact .inr ⟨y, hy, .next hfam hb⟩

/-- The live token of a family descends from all the others. -/
theorem Keyed.family_live (h : Keyed rows) {r : RefreshToken} (hr : r ∈ rows)
    (hlive : r.revokedAt = none) (hfam : Family rows t r.token) (hy : Family rows t y) :
    Family rows y r.token := by
  induction hy with
  | seed hseed => rwa [(mem_named.mp hseed).2]
  | next _ hb ih =>
    rcases family_head ih with heq | ⟨z, hz, hfam⟩
    · exact absurd hlive (h.revoked_of_mem hb hr heq)
    · rwa [h.successor_unique hb hz]

/-- The family is revoked, up to the rows that are about to be. -/
def Covered (rows : List RefreshToken) (t : String) (left : List String) : Prop :=
  t ∈ rows.map (·.token) ∧
  ∀ r ∈ rows, Family rows t r.token → r.revokedAt = none → r.token ∈ left

theorem Covered.revoke {tokens : List String} (h : Covered rows t left) :
    Covered (revokeRows now tokens rows) t left := by
  refine ⟨by rw [map_token_revokeRows]; exact h.1, fun r hr hfam hnone => ?_⟩
  rcases mem_map.mp hr with ⟨q, hq, rfl⟩
  rw [family_revokeRows, revokeRow_token] at hfam
  rw [revokeRow_token]
  exact h.2 q hq hfam (revokeRow_revokedAt.mp hnone).1

theorem Covered.done (h : Covered rows t left) :
    Covered (revokeRows now left rows) t [] := by
  refine ⟨by rw [map_token_revokeRows]; exact h.1, fun r hr hfam hnone => ?_⟩
  rcases mem_map.mp hr with ⟨q, hq, rfl⟩
  rw [family_revokeRows, revokeRow_token] at hfam
  rcases revokeRow_revokedAt.mp hnone with ⟨hlive, hnot⟩
  exact absurd (h.2 q hq hfam hlive) hnot

theorem Covered.append (h : Covered rows t left) (hkeyed : Keyed rows)
    (hnew : r.token ∉ rows.map (·.token)) (hout : ∀ p, r.rotatedFrom = some p → ¬ Family rows t p) :
    Covered (rows ++ [r]) t left := by
  have houtside : ∀ {x}, Family (rows ++ [r]) t x → Family rows t x := by
    intro x hfam
    rcases family_append hkeyed hnew h.1 hfam with hfam | ⟨-, p, hp, hfam⟩
    · exact hfam
    · exact absurd hfam (hout p hp)
  refine ⟨by rw [map_append]; exact mem_append_left _ h.1, fun y hy hfam hnone => ?_⟩
  rcases mem_append.mp hy with hy | hy
  · exact h.2 y hy (houtside hfam) hnone
  · rw [mem_singleton] at hy
    subst hy
    -- Everything in a family of the old table is in the old table.
    rcases known_of_mem h.1 with ⟨a, ha⟩
    exact absurd (family_authority hkeyed ha (houtside hfam)).mem hnew

/-- A rotation does not commit while a family that its predecessor is of is being
    revoked. -/
def Calm (s : State) : Action → Prop
  | .advance i _ => ∀ now access p successor rows,
      s.calls[i]? = some (.written now (.rotateRefresh access p successor) rows) →
      ∀ since t left, .chaining since t left ∈ s.calls → ¬ Family s.refresh t p
  | _ => True

def calmTest (s : State) : Action → Bool
  | .advance i _ => match s.calls[i]? with
    | some (.written _ (.rotateRefresh _ p _) _) => s.calls.all (fun c => match c with
      | .chaining _ t _ => p ∉ chain s.refresh t
      | _ => true)
    | _ => true
  | _ => true

theorem calm_iff {a : Action} : Calm s a ↔ calmTest s a = true := by
  cases a with
  | advance i fresh =>
    rw [Calm, calmTest]
    split
    · rename_i now access p successor rows hi
      simp only [hi, Option.some.injEq, all_eq_true]
      constructor
      · intro h c hc
        split
        · exact decide_eq_true (fun hp => h _ _ _ _ _ rfl _ _ _ hc (mem_chain.mp hp))
        · rfl
      · rintro h _ _ _ _ _ ⟨⟩ since t left hc hfam
        exact of_decide_eq_true (h _ hc) (mem_chain.mpr hfam)
    · rename_i hother
      exact iff_of_true (fun now access p successor rows hi =>
        absurd hi (hother now access p successor rows)) rfl
  | _ => exact iff_of_true trivial rfl

instance {a : Action} : Decidable (Calm s a) :=
  decidable_of_iff _ calm_iff.symm

/-- Families whose revocation has ended are revoked, and those whose revocation runs
    are revoked up to the rows it has selected. -/
structure Ending (s : State) : Prop where
  ended : ∀ t, .chainRevoked t ∈ s.log → Covered s.refresh t []
  running : ∀ now t left, .chaining now t left ∈ s.calls → Covered s.refresh t left

theorem Ending.outside (h : Ending s) (ht : .chainRevoked t ∈ s.log) (hr : r ∈ s.refresh)
    (hnone : r.revokedAt = none) : ¬ Family s.refresh t r.token :=
  fun hfam => absurd ((h.ended t ht).2 r hr hfam hnone) not_mem_nil

theorem Ending.put (h : Ending s) {i : Nat} {c' : Call}
    (hcalls : s'.calls = (s.put i c').calls) (hc : ∀ now t left, c' ≠ .chaining now t left)
    (hlog : ∀ t, .chainRevoked t ∈ s'.log → .chainRevoked t ∈ s.log)
    (hcovered : ∀ t left, (.chainRevoked t ∈ s.log ∧ left = [] ∨
      ∃ now, .chaining now t left ∈ s.calls) → Covered s.refresh t left →
      Covered s'.refresh t left) : Ending s' where
  ended t ht := hcovered t [] (.inl ⟨hlog t ht, rfl⟩) (h.ended t (hlog t ht))
  running now t left hmem := by
    rcases mem_put (hcalls ▸ hmem) with heq | ⟨j, -, hj⟩
    · exact absurd heq.symm (hc now t left)
    · have hmem := mem_of_getElem? hj
      exact hcovered t left (.inr ⟨now, hmem⟩) (h.running now t left hmem)

/-- A family that is ended, or is being ended, stays so. -/
theorem Ending.moves {a : Action} (h : Moves env s a s') (hs : Sound env s) (hcalm : Calm s a)
    (he : Ending s) : Ending s' := by
  have hlast : ∀ {e : Event} {t}, Event.chainRevoked t ∈ s.log ++ [e] →
      (∀ u, e ≠ .chainRevoked u) → .chainRevoked t ∈ s.log := by grind
  cases h with
  | stay a => exact he
  | tick n => exact ⟨he.ended, he.running⟩
  | @submit _ c hc =>
    refine ⟨he.ended, fun now t left hmem => ?_⟩
    rcases mem_append.mp hmem with hmem | hmem
    · exact he.running now t left hmem
    · grind
  | @turn _ i c c' hi ha hturn =>
    cases hturn with
    | snapshot token =>
      refine ⟨he.ended, fun now t left hmem => ?_⟩
      rcases mem_put hmem with heq | ⟨j, -, hj⟩
      · -- The snapshot selects what is unrevoked of the family.
        cases heq
        refine ⟨hs.fits _ (mem_of_getElem? hi), fun r hr hfam hnone => ?_⟩
        refine mem_map_of_mem (mem_filter.mpr ⟨hr, ?_⟩)
        rw [Bool.and_eq_true, contains_iff_mem, Option.isNone_iff_eq_none]
        exact ⟨mem_chain.mpr hfam, hnone⟩
      · exact he.running now t left (mem_of_getElem? hj)
    | _ =>
      refine he.put rfl ?_ (fun t ht => ht) (fun _ _ _ hc => hc)
      nofun
  | @taken i value req issued c' hi hfind hc' =>
    refine he.put rfl ?_ (fun t ht => ht) (fun _ _ _ hc => hc)
    intro now t left heq
    rcases hc' with ⟨-, rfl⟩ | ⟨e, rfl⟩ <;> cases heq
  | @minted i value req issued hi hnew =>
    refine he.put rfl nofun
      (fun t ht => hlast ht nofun) ?_
    intro t left _ hc
    exact hc.append hs.keyed hnew nofun
  | @chained i value now token rows hi hfree =>
    have hdone : Covered (revokeRows now rows s.refresh) token [] :=
      (he.running now token rows (mem_of_getElem? hi)).done
    refine ⟨fun t ht => ?_, fun since t left hmem => ?_⟩
    · rcases mem_append.mp ht with ht | ht
      · exact (he.ended t ht).revoke
      · cases mem_singleton.mp ht
        exact hdone
    · rcases mem_put hmem with heq | ⟨j, -, hj⟩
      · cases heq
      · exact (he.running since t left (mem_of_getElem? hj)).revoke
  | @rotated i value now access p successor rows hi hnew =>
    rcases hs.written hi with ⟨-, -, hfrom, -, -, q, hq, rfl, -, hnone⟩
    refine he.put rfl nofun
      (fun t ht => hlast ht nofun) ?_
    intro t left hwhich hc
    refine hc.revoke.append hs.keyed.revoke (by rwa [map_token_revokeRows]) (fun p' hp' => ?_)
    rw [hfrom] at hp'
    cases hp'
    rw [family_revokeRows]
    -- The predecessor is unrevoked, so its family has not ended, and none is running.
    rcases hwhich with ⟨ht, -⟩ | ⟨since, hmem⟩
    · exact he.outside ht hq hnone
    · exact hcalm now access q.token successor rows hi since t left hmem
  | @revoked i value now clientId sub rows hi =>
    exact he.put rfl nofun (fun t ht => hlast ht nofun) (fun t left _ hc => hc.revoke)

theorem issued_of_moves {a : Action} (h : Moves env s a s') {p : String} {rt : RefreshToken}
    {access : AccessTokenClaims} (hlog : s'.log = s.log ++ [.issued (.refresh p) rt access]) :
    ∃ (i : Nat) (now : Int) (rows : List String),
      s.calls[i]? = some (.written now (.rotateRefresh access p rt) rows) := by
  cases h with
  | @rotated i value now access' p' successor rows hi hnew =>
    have heq := append_cancel_left hlog
    cases heq
    exact ⟨i, now, rows, hi⟩
  | minted | chained | revoked =>
    have heq := append_cancel_left hlog
    cases heq
  | stay | tick | submit | turn | taken =>
    exact absurd hlog.symm (by simp [State.put, State.submit])

/-- In a calm run, once a replay has been answered every token of the family is
    revoked, and no refresh on the family succeeds any more. -/
theorem replay_ends_family (env : AsState) (start : State) (hstart : Start start)
    (actions : List Action) (hcalm : Along (step env) Calm start actions) (t : String)
    (ht : .chainRevoked t ∈ (run env start actions).log) :
    (∀ r ∈ (run env start actions).refresh,
      Family (run env start actions).refresh t r.token → r.revokedAt ≠ none) ∧
    ∀ a p rt access, (step env (run env start actions) a).log =
        (run env start actions).log ++ [.issued (.refresh p) rt access] →
      ¬ Family (run env start actions).refresh t p := by
  have hinv : Sound env (run env start actions) ∧ Ending (run env start actions) := by
    refine Along.invariant (I := fun s => Sound env s ∧ Ending s) (fun s a hc hs => ?_)
      ⟨hstart.sound, ?_⟩ hcalm
    · exact ⟨hs.1.moves (step_moves a), hs.2.moves (step_moves a) hs.1 hc⟩
    · constructor
      · intro t ht
        rw [hstart.log] at ht
        cases ht
      · intro now t left hmem
        rw [hstart.calls] at hmem
        cases hmem
  rcases hinv with ⟨hs, he⟩
  refine ⟨fun r hr hfam hnone => he.outside ht hr hnone hfam, fun a p rt access hlog => ?_⟩
  rcases issued_of_moves (step_moves a) hlog with ⟨i, now, rows, hi⟩
  rcases hs.written hi with ⟨-, -, -, -, -, q, hq, rfl, -, hnone⟩
  exact he.outside ht hq hnone

/-- In every interleaving, of the tokens that descend from one at most one is live. -/
theorem family_one_live (env : AsState) (start : State) (hstart : Start start)
    (actions : List Action) (t : String) :
    ∀ q ∈ (run env start actions).refresh, ∀ r ∈ (run env start actions).refresh,
      Family (run env start actions).refresh t q.token →
      Family (run env start actions).refresh t r.token →
      q.revokedAt = none → r.revokedAt = none → q = r := by
  have hs : Sound env (run env start actions) :=
    foldl_invariant (fun s a _ hs => hs.moves (step_moves a)) hstart.sound
  intro q hq r hr hqfam hrfam hqlive hrlive
  rcases family_head (hs.keyed.family_live hr hrlive hrfam hqfam) with heq | ⟨z, hz, -⟩
  · exact hs.keyed.unique hq hr heq.symm
  · exact absurd hqlive (hs.keyed.revoked_of_mem hz hq rfl)

def sampleEnv : AsState where
  issuer := "as"
  audience := "mcp"
  accessTokenTtl := 60
  refreshTokenTtl := 100
  s256 := id
  hashtext := fun _ => 0

def sampleRow (token : String) (rotatedFrom : Option String) (expiresAt : Int)
    (revokedAt : Option Int) : RefreshToken where
  sub := "u"
  email := none
  groups := []
  scopes := []
  clientId := "c"
  tenantId := "t"
  token := token
  rotatedFrom := rotatedFrom
  expiresAt := expiresAt
  revokedAt := revokedAt

def sampleFamily : State where
  clock := 5
  codes := []
  refresh := [sampleRow "A" none 90 (some 1), sampleRow "B" (some "A") 100 none]
  calls := []
  log := []

theorem sampleFamily_start : Start sampleFamily where
  keyed := ⟨by decide, by decide, by decide⟩
  calls := rfl
  log := rfl

def refreshRequest (token : String) : TokenRequest := ⟨none, none, none, none, some token⟩

def rotation : List Action :=
  [.refresh (refreshRequest "B"), .advance 0 "", .advance 0 "C", .advance 0 "", .advance 0 "",
    .advance 0 "", .advance 0 ""]

def sampleReplay : State :=
  run sampleEnv sampleFamily
    (rotation ++ [.refresh (refreshRequest "A"), .advance 1 "", .advance 1 "", .advance 1 "",
      .advance 1 ""])

theorem replay_ends_family_rotated :
    sampleReplay.refresh.map (·.token) = ["A", "B", "C"] ∧
    ¬ ∃ r ∈ sampleReplay.refresh, Family sampleReplay.refresh "A" r.token ∧
      r.revokedAt = none := by
  have hended := (replay_ends_family sampleEnv sampleFamily sampleFamily_start
    (rotation ++ [.refresh (refreshRequest "A"), .advance 1 "", .advance 1 "", .advance 1 "",
      .advance 1 ""]) (by decide +kernel) "A" (by decide +kernel)).1
  refine ⟨by decide +kernel, ?_⟩
  rintro ⟨r, hr, hfam, hnone⟩
  exact hended r hr hfam hnone

/-- `B` is rotated to `C` while the replay of `A` is answered. The snapshot has `B`,
    the commit revokes `B` and adds `C`, and the update finds nothing to do. -/
theorem replay_missed :
    ∃ actions, .chainRevoked "A" ∈ (run sampleEnv sampleFamily actions).log ∧
      ∃ r ∈ (run sampleEnv sampleFamily actions).refresh,
        Family (run sampleEnv sampleFamily actions).refresh "A" r.token ∧ r.revokedAt = none := by
  refine ⟨[.refresh (refreshRequest "B"), .refresh (refreshRequest "A"), .advance 0 "",
    .advance 0 "C", .advance 0 "", .advance 0 "", .advance 0 "", .advance 1 "", .advance 1 "",
    .advance 0 "", .advance 1 ""], by decide +kernel, sampleRow "C" (some "B") 105 none,
    by decide +kernel, mem_chain.mp (by decide +kernel), rfl⟩

def sampleRotated : State :=
  run sampleEnv sampleFamily rotation

theorem family_one_live_rotated :
    ¬ ∃ r ∈ sampleRotated.refresh, Family sampleRotated.refresh "A" r.token ∧
      r.revokedAt = none ∧ r.token ≠ "C" := by
  rintro ⟨r, hr, hfam, hlive, hne⟩
  have hC : sampleRow "C" (some "B") 105 none ∈ sampleRotated.refresh := by decide +kernel
  have hfamC : Family sampleRotated.refresh "A" "C" := mem_chain.mp (by decide +kernel)
  have heq := family_one_live sampleEnv sampleFamily sampleFamily_start _ "A" r hr _ hC hfam hfamC
    hlive rfl
  exact hne (congrArg (·.token) heq)

end Waygate.As
