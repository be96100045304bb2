import Waygate.Theory.As.Replay

/-!
# Revoked Sessions

The dashboard revokes the live refresh tokens of a client and a subject. A token that
has expired is left alone, and can still be rotated by a call that read it in time. So
the revoke is final when every rotation takes its predecessor before that expires.

## Main definitions

* `Shut`
* `InTime`: The condition on rotations.

## Theorems

* `Shut.moves`, `session_revoke_final`, `session_revived`
-/

namespace Waygate.As

open Machine List

variable {i : Nat} {now : Int} {env : AsState} {s s' : State}

def Action.ofSession : Action → Bool
  | .authCode _ => false
  | _ => true

def InTime (s : State) : Action → Prop
  | .advance i _ => ∀ now access p successor,
      s.calls[i]? = some (.locked now (.rotateRefresh access p successor)) →
      ∀ r ∈ s.refresh, r.token = p → s.clock < r.expiresAt
  | _ => True

def inTimeTest (s : State) : Action → Bool
  | .advance i _ => match s.calls[i]? with
    | some (.locked _ (.rotateRefresh _ p _)) =>
      s.refresh.all (fun r => r.token = p → s.clock < r.expiresAt)
    | _ => true
  | _ => true

theorem inTime_iff {a : Action} : InTime s a ↔ inTimeTest s a = true := by
  cases a with
  | advance i fresh =>
    rw [InTime, inTimeTest]
    split
    · rename_i now access p successor hi
      simp only [hi, Option.some.injEq, all_eq_true, decide_eq_true_eq]
      exact ⟨fun h => h _ _ _ _ rfl, fun h _ _ _ _ heq => by cases heq; exact h⟩
    · rename_i hother
      exact iff_of_true (fun now access p successor hi =>
        absurd hi (hother now access p successor)) rfl
  | _ => exact iff_of_true trivial rfl

instance {a : Action} : Decidable (InTime s a) :=
  decidable_of_iff _ inTime_iff.symm

def Authority.Of (a : Authority) (clientId sub : String) : Prop :=
  a.clientId = clientId ∧ a.sub = sub

def Call.Since (clock : Int) : Call → Prop
  | .begun now _ | .locked now _ | .written now _ _ => now ≤ clock
  | .authCode _ | .redeemed .. => False
  | _ => True

/-- A revoke that has not committed has selected what is live of the session. When it
    has committed nothing of the session is live, and no rotation of it is under way. -/
structure Shut (s : State) : Prop where
  since : ∀ c ∈ s.calls, c.Since s.clock
  closing : ∀ now w x rows, .written now (.revokeByClientSub w x) rows ∈ s.calls →
    ∀ r ∈ s.refresh, r.Of w x → r.revokedAt = none → now < r.expiresAt → r.token ∈ rows
  closed : ∀ w x tokens, .sessionRevoked w x tokens ∈ s.log →
    (∀ t ∈ tokens, ∃ a : Authority, a.Of w x ∧ Known s.refresh t a) ∧
    (∀ r ∈ s.refresh, r.Of w x → r.revokedAt = none → r.expiresAt ≤ s.clock) ∧
    ∀ now access p successor rows,
      .written now (.rotateRefresh access p successor) rows ∈ s.calls → ¬ successor.Of w x

theorem Sound.alone (hs : Sound env s) {j : Nat} {now' : Int} {w x p : String}
    {access : AccessTokenClaims} {successor : RefreshToken} {rows rows' : List String}
    (hi : s.calls[i]? = some (.written now (.revokeByClientSub w x) rows))
    (hj : s.calls[j]? = some (.written now' (.rotateRefresh access p successor) rows')) :
    ¬ successor.Of w x := by
  rintro ⟨rfl, rfl⟩
  have hij := hs.sessionLocks hi hj mem_cons_self mem_cons_self
  rw [hij, hj] at hi
  cases hi

theorem mem_of_live {tokens : List String} {rows : List RefreshToken} {r : RefreshToken}
    (hr : r ∈ revokeRows now tokens rows) (hnone : r.revokedAt = none) :
    r ∈ rows ∧ r.token ∉ tokens := by
  rcases mem_map.mp hr with ⟨q, hq, rfl⟩
  have hnot := (revokeRow_revokedAt.mp hnone).2
  have hrow : revokeRow now tokens q = q := if_neg (fun h => hnot h.2)
  rw [hrow]
  exact ⟨hq, hnot⟩

theorem Shut.put (h : Shut s) (hs : Sound env s) {c c' : Call} (hi : s.calls[i]? = some c)
    (hcalls : s'.calls = (s.put i c').calls) (hclock : s'.clock = s.clock)
    (hsince : c'.Since s.clock) (hknown : ∀ t a, Known s.refresh t a → Known s'.refresh t a)
    (hlive : ∀ r ∈ s'.refresh, r.revokedAt = none → r ∈ s.refresh ∨
      ∃ now access p rows, c = .written now (.rotateRefresh access p r) rows)
    (hclosing : ∀ now w x rows, c' = .written now (.revokeByClientSub w x) rows →
      ∀ r ∈ s'.refresh, r.Of w x → r.revokedAt = none → now < r.expiresAt → r.token ∈ rows)
    (hopen : ∀ now access p successor rows,
      c' = .written now (.rotateRefresh access p successor) rows →
      ∀ w x tokens, .sessionRevoked w x tokens ∈ s.log → ¬ successor.Of w x)
    (hlog : ∀ e ∈ s'.log, e ∈ s.log ∨ ∀ w x tokens, e ≠ .sessionRevoked w x tokens) :
    Shut s' := by
  refine ⟨fun d hd => ?_, fun now w x rows hd r hr hof hnone hexp => ?_, fun w x tokens he => ?_⟩
  · rw [hclock]
    rcases mem_put (hcalls ▸ hd) with rfl | ⟨j, -, hj⟩
    · exact hsince
    · exact h.since d (mem_of_getElem? hj)
  · rcases mem_put (hcalls ▸ hd) with heq | ⟨j, -, hj⟩
    · exact hclosing now w x rows heq.symm r hr hof hnone hexp
    · rcases hlive r hr hnone with hr | ⟨now', access, p, rows', rfl⟩
      · exact h.closing now w x rows (mem_of_getElem? hj) r hr hof hnone hexp
      · exact absurd hof (hs.alone hj hi)
  · have he : .sessionRevoked w x tokens ∈ s.log := by
      rcases hlog _ he with he | hne
      · exact he
      · exact absurd rfl (hne w x tokens)
    rcases h.closed w x tokens he with ⟨htokens, hexpired, hnot⟩
    refine ⟨fun t ht => ?_, fun r hr hof hnone => ?_, fun now access p successor rows hd => ?_⟩
    · rcases htokens t ht with ⟨a, ha, hk⟩
      exact ⟨a, ha, hknown t a hk⟩
    · grind
    · rcases mem_put (hcalls ▸ hd) with heq | ⟨j, -, hj⟩
      · exact hopen now access p successor rows heq.symm w x tokens he
      · exact hnot now access p successor rows (mem_of_getElem? hj)

/-- A revoke that commits has met every live token of its pair. -/
theorem Shut.commit (h : Shut s) (hs : Sound env s) {w x : String} {rows tokens : List String}
    (hi : s.calls[i]? = some (.written now (.revokeByClientSub w x) rows))
    (htokens : ∀ t ∈ tokens, ∃ a : Authority, a.Of w x ∧ Known s.refresh t a) :
    Shut { s.put i .finished with
      refresh := revokeRows now rows s.refresh
      log := s.log ++ [.sessionRevoked w x tokens] } := by
  have hmem := mem_of_getElem? hi
  -- The log apart, this is a move like the others.
  have hput : Shut { s.put i .finished with refresh := revokeRows now rows s.refresh } := by
    refine h.put hs hi rfl rfl trivial (fun t a hk => hk.revoke)
      (fun r hr hnone => .inl (mem_of_live hr hnone).1) ?_ ?_ (fun e he => .inl he)
    · intro now w x rows heq
      cases heq
    · intro now access p successor rows heq
      cases heq
  refine ⟨hput.since, hput.closing, fun w' x' tokens' he => ?_⟩
  rcases mem_append.mp he with he | he
  · exact hput.closed w' x' tokens' he
  · cases mem_singleton.mp he
    refine ⟨fun t ht => ?_, fun r hr hof hnone => ?_, fun now' access p successor rows' hd => ?_⟩
    · rcases htokens t ht with ⟨a, ha, hk⟩
      exact ⟨a, ha, hk.revoke⟩
    · rcases mem_of_live hr hnone with ⟨hr, hnot⟩
      by_contra hexp
      have hsince : now ≤ s.clock := h.since _ hmem
      have hexp' : s.clock < r.expiresAt := Int.not_le.mp hexp
      exact hnot (h.closing now w x rows hmem r hr hof hnone (Int.lt_of_le_of_lt hsince hexp'))
    · grind [mem_put, Sound.alone]

/-- No action gives a revoked session a live token. -/
theorem Shut.moves {a : Action} (h : Moves env s a s') (hs : Sound env s) (hof : a.ofSession)
    (htime : InTime s a) (hshut : Shut s) : Shut s' := by
  cases h with
  | stay a => exact hshut
  | tick n =>
    have hle : s.clock ≤ s.clock + n := Int.le_add_of_nonneg_right (Int.natCast_nonneg n)
    refine ⟨fun c hc => ?_, hshut.closing, fun w x tokens he => ?_⟩
    · have hsince := hshut.since c hc
      cases c with
      | begun | locked | written => exact Int.le_trans hsince hle
      | authCode | redeemed => exact hsince
      | refresh | found | replay | chaining | opening | failed | finished => trivial
    · rcases hshut.closed w x tokens he with ⟨htokens, hexpired, hnot⟩
      exact ⟨htokens, fun r hr hof hnone => Int.le_trans (hexpired r hr hof hnone) hle, hnot⟩
  | @submit _ c hc =>
    have hnew : c.Since s.clock ∧ ∀ now w rows, c ≠ .written now w rows := by
      rcases hc with ⟨e, rfl⟩ | ⟨t, rfl⟩ | ⟨w, x, rfl⟩ | ⟨req, r, rfl, rfl⟩
      all_goals first | cases hof | exact ⟨trivial, by intro _ _ _ h; cases h⟩
    have hold : ∀ {now w rows}, .written now w rows ∈ s.calls ++ [c] →
        .written now w rows ∈ s.calls := by grind
    refine ⟨fun d hd => ?_, fun now w x rows hd => hshut.closing now w x rows (hold hd),
      fun w x tokens he => ?_⟩
    · rcases mem_append.mp hd with hd | hd
      · exact hshut.since d hd
      · exact mem_singleton.mp hd ▸ hnew.1
    · rcases hshut.closed w x tokens he with ⟨htokens, hexpired, hnot⟩
      exact ⟨htokens, hexpired, fun now access p successor rows hd => hnot _ _ _ _ _ (hold hd)⟩
  | @turn _ i c c' hi ha hturn =>
    have hsince : c'.Since s.clock := by
      have hc := hshut.since c (mem_of_getElem? hi)
      cases hturn with
      | begun => exact Int.le_refl _
      | locked | written => exact hc
      | failed | found | replay | minted | snapshot => trivial
    refine hshut.put hs hi rfl rfl hsince (fun _ _ hk => hk) (fun r hr _ => .inl hr) ?_ ?_
      (fun e he => .inl he)
    · -- The update of a revoke selects what is live.
      rintro now w x rows rfl r hr ⟨rfl, rfl⟩ hnone hexp
      cases hturn with
      | written hrows hfree hwon =>
        rw [hrows]
        refine mem_map_of_mem (mem_filter.mpr ⟨hr, ?_⟩)
        simp [Work.selects, hnone, hexp]
    · -- A rotation that takes a row of a revoked session would be late.
      rintro now access p successor rows rfl w x tokens he hsession
      cases hturn with
      | written hrows hfree hwon =>
        rcases ha with ⟨value, rfl⟩ | ⟨e, heq⟩
        · rcases hs.fits _ (mem_of_getElem? hi) with ⟨⟨q, hq, hqp, hauth⟩, -⟩
          rcases exists_mem_of_ne_nil _ (hwon access p successor rfl) with ⟨t, ht⟩
          rw [hrows] at ht
          rcases mem_map.mp ht with ⟨r, hr, -⟩
          rcases mem_filter.mp hr with ⟨hr, hsel⟩
          simp only [Work.selects, Bool.and_eq_true, beq_iff_eq, Option.isNone_iff_eq_none] at hsel
          have hrq := hs.keyed.unique hr hq (hsel.1.trans hqp.symm)
          have hrof : r.Of w x := by
            rw [hrq, hauth]
            exact hsession
          have hexpired := (hshut.closed w x tokens he).2.1 r hr hrof hsel.2
          exact absurd (htime now access p successor hi r hr hsel.1) (Int.not_lt.mpr hexpired)
        · cases heq
  | taken hi | minted hi => exact absurd (hshut.since _ (mem_of_getElem? hi)) id
  | @chained i value now token rows hi hfree =>
    refine hshut.put hs hi rfl rfl trivial (fun t a hk => hk.revoke)
      (fun r hr hnone => .inl (mem_of_live hr hnone).1) ?_ ?_ (fun e he => ?_)
    · intro now w x rows heq
      cases heq
    · intro now access p successor rows heq
      cases heq
    · grind
  | @rotated i value now access p successor rows hi hnew =>
    refine hshut.put hs hi rfl rfl trivial (fun t a hk => hk.revoke.append) (fun r hr hnone => ?_)
      ?_ ?_ (fun e he => ?_)
    · rcases mem_append.mp hr with hr | hr
      · exact .inl (mem_of_live hr hnone).1
      · cases mem_singleton.mp hr
        exact .inr ⟨now, access, p, rows, rfl⟩
    · intro now w x rows heq
      cases heq
    · intro now access p successor rows heq
      cases heq
    · grind
  | @revoked i value now clientId sub rows hi =>
    refine hshut.commit hs hi (fun t ht => ?_)
    rcases mem_map.mp ht with ⟨r, hr, rfl⟩
    rcases mem_filter.mp hr with ⟨hr, hpair⟩
    rw [Bool.and_eq_true, beq_iff_eq, beq_iff_eq] at hpair
    exact ⟨r.toAuthority, hpair, r, hr, rfl, rfl⟩

/-- In a run of refresh calls and session revokes whose rotations are in time, no
    token that the session had when a revoke of it committed, and no descendant of
    one, is ever both unrevoked and unexpired. -/
theorem session_revoke_final (env : AsState) (start : State) (hstart : Start start)
    (actions : List Action)
    (htime : Along (step env) (fun s a => a.ofSession ∧ InTime s a) start actions)
    (clientId sub : String) (tokens : List String)
    (hrevoked : .sessionRevoked clientId sub tokens ∈ (run env start actions).log) :
    ∀ t ∈ tokens, ∀ r ∈ (run env start actions).refresh,
      Family (run env start actions).refresh t r.token →
      ¬ (r.revokedAt = none ∧ (run env start actions).clock < r.expiresAt) := by
  have hinv : Sound env (run env start actions) ∧ Shut (run env start actions) := by
    refine Along.invariant (I := fun s => Sound env s ∧ Shut s) (fun s a hc hs => ?_)
      ⟨hstart.sound, ?_⟩ htime
    · exact ⟨hs.1.moves (step_moves a), hs.2.moves (step_moves a) hs.1 hc.1 hc.2⟩
    · refine ⟨?_, ?_, ?_⟩
      · simp [hstart.calls]
      · simp [hstart.calls]
      · simp [hstart.log]
  rcases hinv with ⟨hs, hshut⟩
  rcases hshut.closed clientId sub tokens hrevoked with ⟨htokens, hexpired, -⟩
  intro t ht r hr hfam hlive
  rcases htokens t ht with ⟨a, hof, hknown⟩
  -- The descendants of a session's token are the session's.
  have hauth := hs.keyed.known_unique ⟨r, hr, rfl, rfl⟩ (family_authority hs.keyed hknown hfam)
  have hle := hexpired r hr (hauth ▸ hof) hlive.1
  exact absurd hlive.2 (Int.not_lt.mpr hle)

def sampleRevoke : State :=
  run sampleEnv sampleFamily
    (rotation ++ [.revokeByClientSub "c" "u", .advance 1 "", .advance 1 "", .advance 1 "",
      .advance 1 ""])

theorem session_revoke_final_rotated :
    sampleRevoke.refresh.map (·.token) = ["A", "B", "C"] ∧
    ¬ ∃ r ∈ sampleRevoke.refresh, Family sampleRevoke.refresh "A" r.token ∧
      r.revokedAt = none ∧ sampleRevoke.clock < r.expiresAt := by
  have hfinal := session_revoke_final sampleEnv sampleFamily sampleFamily_start
    (rotation ++ [.revokeByClientSub "c" "u", .advance 1 "", .advance 1 "", .advance 1 "",
      .advance 1 ""]) (by decide +kernel) "c" "u" ["A", "B", "C"] (by decide +kernel)
  refine ⟨by decide +kernel, ?_⟩
  rintro ⟨r, hr, hfam, hlive⟩
  exact hfinal "A" mem_cons_self r hr hfam hlive

def sampleLate : State :=
  { sampleFamily with refresh := [sampleRow "B" none 10 none] }

/-- A call reads `B` at 5, and the session is revoked at 15, when `B` has expired and
    is left alone. Then the call rotates `B` to `C`, which is live until 105. -/
theorem session_revived :
    Start sampleLate ∧ ∃ actions, (∀ a ∈ actions, a.ofSession) ∧
      .sessionRevoked "c" "u" ["B"] ∈ (run sampleEnv sampleLate actions).log ∧
      ∃ r ∈ (run sampleEnv sampleLate actions).refresh,
        Family (run sampleEnv sampleLate actions).refresh "B" r.token ∧
        r.revokedAt = none ∧ (run sampleEnv sampleLate actions).clock < r.expiresAt := by
  refine ⟨⟨⟨by decide, by decide, by decide⟩, rfl, rfl⟩, ?_⟩
  refine ⟨[.refresh (refreshRequest "B"), .advance 0 "", .advance 0 "C", .tick 10,
    .revokeByClientSub "c" "u", .advance 1 "", .advance 1 "", .advance 1 "", .advance 1 "",
    .advance 0 "", .advance 0 "", .advance 0 "", .advance 0 ""], by decide, by decide +kernel,
    sampleRow "C" (some "B") 105 none, by decide +kernel, mem_chain.mp (by decide +kernel), rfl,
    by decide +kernel⟩

end Waygate.As
