import Waygate.Core.As.Token
import Waygate.Theory.Machine.Locks
import Waygate.Theory.Machine.Run

/-!
# What Every Interleaving Keeps

A transaction that has written a row and not committed holds a row that is still
unrevoked, because whoever would revoke it must wait. So a rotation that commits revokes
its predecessor for the first time, and a refresh token is rotated once.

## Main definitions

* `Keyed`, `Sound`
* `Moves`: What an action can do to the tables and the calls.

## Theorems

* `step_moves`, `Sound.written`, `Sound.moves`
-/

namespace Waygate.As

open Machine List

variable {env : AsState} {s s' : State}

/-- A call moves on and writes nothing. -/
inductive Turn (env : AsState) (s : State) : Call → Call → Prop
  | failed (c : Call) (e : TokenError) : Turn env s c (.failed e)
  | found {rt : RefreshToken} (h : rt ∈ s.refresh) : Turn env s (.refresh rt.token) (.found rt)
  | replay {rt : RefreshToken} (h : rt ∈ s.refresh) :
      Turn env s (.refresh rt.token) (.replay rt.token)
  | minted {rt : RefreshToken} (value : String) (h : s.clock ≤ rt.expiresAt) :
      Turn env s (.found rt)
        (.opening (.rotateRefresh (mintAccessToken env rt.toAuthority s.clock) rt.token
          (mintRefresh env rt.toAuthority (some rt.token) value s.clock)))
  | snapshot (token : String) :
      Turn env s (.replay token) (.chaining s.clock token ((s.refresh.filter (fun r =>
        (chain s.refresh token).contains r.token && r.revokedAt.isNone)).map (·.token)))
  | begun (work : Work) : Turn env s (.opening work) (.begun s.clock work)
  | locked {now : Int} {work : Work} (h : s.sessionHeld env (work.sessionLock env) = false) :
      Turn env s (.begun now work) (.locked now work)
  | written {now : Int} {work : Work} {rows : List String}
      (hrows : rows = (s.refresh.filter (work.selects now)).map (·.token))
      (hfree : s.rowsHeld rows = false)
      (hwon : ∀ a p r, work = .rotateRefresh a p r → rows ≠ []) :
      Turn env s (.locked now work) (.written now work rows)

inductive Moves (env : AsState) (s : State) : Action → State → Prop
  | stay (a : Action) : Moves env s a s
  | tick (n : Nat) : Moves env s (.tick n) { s with clock := s.clock + n }
  | submit {a : Action} {c : Call} (hc : (∃ e, c = .failed e) ∨ (∃ t, c = .refresh t) ∨
      (∃ w x, c = .opening (.revokeByClientSub w x)) ∨
      ∃ req r, a = .authCode req ∧ c = .authCode r) :
      Moves env s a (s.submit c)
  | turn {a : Action} {i : Nat} {c c' : Call} (hi : s.calls[i]? = some c)
      (ha : (∃ value, a = .advance i value) ∨ ∃ e, c' = .failed e) (h : Turn env s c c') :
      Moves env s a (s.put i c')
  | taken {i : Nat} {value : String} {req : CodeRequest} {issued : IssuedCode} {c' : Call}
      (hi : s.calls[i]? = some (.authCode req))
      (hfind : (takeCode s.clock req.code s.codes).1 = some issued)
      (hc' : (checkCode env req issued = .ok () ∧ c' = .redeemed req issued) ∨
        ∃ e, c' = .failed e) :
      Moves env s (.advance i value)
        { s.put i c' with codes := (takeCode s.clock req.code s.codes).2 }
  | minted {i : Nat} {value : String} {req : CodeRequest} {issued : IssuedCode}
      (hi : s.calls[i]? = some (.redeemed req issued))
      (hnew : value ∉ s.refresh.map (·.token)) :
      Moves env s (.advance i value)
        { s.put i .finished with
          refresh := s.refresh ++ [mintRefresh env issued.toAuthority none value s.clock]
          log := s.log ++ [.issued (.code req issued)
            (mintRefresh env issued.toAuthority none value s.clock)
            (mintAccessToken env issued.toAuthority s.clock)] }
  | chained {i : Nat} {value : String} {now : Int} {token : String} {rows : List String}
      (hi : s.calls[i]? = some (.chaining now token rows)) (hfree : s.rowsHeld rows = false) :
      Moves env s (.advance i value)
        { s.put i (.failed .invalidRefresh) with
          refresh := revokeRows now rows s.refresh
          log := s.log ++ [.chainRevoked token] }
  | rotated {i : Nat} {value : String} {now : Int} {access : AccessTokenClaims}
      {predecessor : String} {successor : RefreshToken} {rows : List String}
      (hi : s.calls[i]? = some (.written now (.rotateRefresh access predecessor successor) rows))
      (hnew : successor.token ∉ s.refresh.map (·.token)) :
      Moves env s (.advance i value)
        { s.put i .finished with
          refresh := revokeRows now rows s.refresh ++ [successor]
          log := s.log ++ [.issued (.refresh predecessor) successor access] }
  | revoked {i : Nat} {value : String} {now : Int} {clientId sub : String} {rows : List String}
      (hi : s.calls[i]? = some (.written now (.revokeByClientSub clientId sub) rows)) :
      Moves env s (.advance i value)
        { s.put i .finished with
          refresh := revokeRows now rows s.refresh
          log := s.log ++ [.sessionRevoked clientId sub
            ((s.refresh.filter (fun r => r.clientId == clientId && r.sub == sub)).map
              (·.token))] }

variable {i : Nat} {c c' : Call}

theorem advance_moves (hi : s.calls[i]? = some c) (value : String) :
    Moves env s (.advance i value) (advance env s i value c) := by
  have hturn : ∀ {c' : Call}, Turn env s c c' → Moves env s (.advance i value) (s.put i c') :=
    fun h => .turn hi (.inl ⟨value, rfl⟩) h
  cases c with
  | authCode req =>
    simp only [advance]
    split
    · exact hturn (.failed _ _)
    · next issued hfind =>
      refine .taken hi hfind ?_
      split
      · exact .inr ⟨_, rfl⟩
      · next hcheck => exact .inl ⟨hcheck, rfl⟩
  | redeemed req issued =>
    simp only [advance]
    split
    · exact hturn (.failed _ _)
    · next hnew => exact .minted hi hnew
  | refresh token =>
    simp only [advance]
    split
    · exact hturn (.failed _ _)
    · next rt hfind =>
      have hmem := mem_of_find?_eq_some hfind
      have htoken := find?_some hfind
      rw [beq_iff_eq] at htoken
      subst htoken
      split
      · exact hturn (.replay hmem)
      · exact hturn (.found hmem)
  | found rt =>
    simp only [advance]
    split
    · exact hturn (.failed _ _)
    · next h => exact hturn (.minted value (Int.not_lt.mp h))
  | replay token => exact hturn (.snapshot token)
  | chaining now token rows =>
    simp only [advance]
    split
    · exact .stay _
    · next h => exact .chained hi (eq_false_of_ne_true h)
  | opening work => exact hturn (.begun work)
  | begun now work =>
    simp only [advance]
    split
    · exact .stay _
    · next h => exact hturn (.locked (eq_false_of_ne_true h))
  | locked now work =>
    simp only [advance]
    split
    · exact .stay _
    · next h =>
      split
      · exact hturn (.failed _ _)
      · next hne =>
        refine hturn (.written rfl (eq_false_of_ne_true h) (fun a p r hw hnil => ?_))
        exact hne a p r hw hnil
  | written now work rows =>
    cases work with
    | rotateRefresh access predecessor successor =>
      simp only [advance, commit]
      split
      · exact hturn (.failed _ _)
      · next hnew => exact .rotated hi hnew
    | revokeByClientSub clientId sub => exact .revoked hi
  | failed e => exact .stay _
  | finished => exact .stay _

/-- An action does one of the moves. -/
theorem step_moves (a : Action) : Moves env s a (step env s a) := by
  cases a with
  | tick n => exact .tick n
  | authCode req =>
    refine .submit ?_
    split
    · exact .inl ⟨_, rfl⟩
    · exact .inr (.inr (.inr ⟨_, _, rfl, rfl⟩))
  | refresh req =>
    refine .submit ?_
    split
    · exact .inl ⟨_, rfl⟩
    · exact .inr (.inl ⟨_, rfl⟩)
  | revokeByClientSub clientId sub => exact .submit (.inr (.inr (.inl ⟨_, _, rfl⟩)))
  | advance i value =>
    simp only [step]
    split
    · exact .stay _
    · next hi => exact advance_moves hi value
  | abort i =>
    cases hi : s.calls[i]? with
    | none =>
      have hput : s.put i (.failed .internal) = s := by
        rw [State.put, set_eq_of_length_le (getElem?_eq_none_iff.mp hi)]
      rw [step, hput]
      exact .stay _
    | some c => exact .turn hi (.inr ⟨_, rfl⟩) (.failed c .internal)

/-! ### The refresh table -/

section Rows

variable {t : String} {a : Authority} {now : Int} {tokens : List String}
  {rows rows' : List RefreshToken} {r : RefreshToken}

@[simp] theorem revokeRow_token : (revokeRow now tokens r).token = r.token := by
  unfold revokeRow
  split <;> rfl

@[simp] theorem revokeRow_toAuthority :
    (revokeRow now tokens r).toAuthority = r.toAuthority := by
  unfold revokeRow
  split <;> rfl

@[simp] theorem revokeRow_rotatedFrom :
    (revokeRow now tokens r).rotatedFrom = r.rotatedFrom := by
  unfold revokeRow
  split <;> rfl

@[simp] theorem revokeRow_revokedAt :
    (revokeRow now tokens r).revokedAt = none ↔ r.revokedAt = none ∧ r.token ∉ tokens := by
  unfold revokeRow
  split
  · next h => simp [h]
  · next h => exact ⟨fun hnone => ⟨hnone, fun hmem => h ⟨hnone, hmem⟩⟩, fun hnone => hnone.1⟩

@[simp] theorem map_token_revokeRows :
    (revokeRows now tokens rows).map (·.token) = rows.map (·.token) := by
  simp [revokeRows, Function.comp_def]

@[simp] theorem filterMap_rotatedFrom_revokeRows :
    (revokeRows now tokens rows).filterMap (·.rotatedFrom) = rows.filterMap (·.rotatedFrom) := by
  simp [revokeRows, filterMap_map]

def Known (rows : List RefreshToken) (t : String) (a : Authority) : Prop :=
  ∃ q ∈ rows, q.token = t ∧ q.toAuthority = a

theorem Known.revoke (h : Known rows t a) :
    Known (revokeRows now tokens rows) t a := by
  rcases h with ⟨q, hq, ht, ha⟩
  exact ⟨_, mem_map_of_mem hq, by simpa using ht, by simpa using ha⟩

theorem Known.append (h : Known rows t a) :
    Known (rows ++ rows') t a := by
  rcases h with ⟨q, hq, hqt⟩
  exact ⟨q, mem_append_left _ hq, hqt⟩

theorem known_of_mem (h : t ∈ rows.map (·.token)) : ∃ a, Known rows t a := by
  rcases mem_map.mp h with ⟨q, hq, rfl⟩
  exact ⟨_, q, hq, rfl, rfl⟩

theorem Known.mem (h : Known rows t a) :
    t ∈ rows.map (·.token) := by
  rcases h with ⟨q, hq, rfl, -⟩
  exact mem_map_of_mem hq

/-- The refresh table, as its keys and the rotations leave it: tokens are distinct,
    the predecessor of a row is in the table, revoked, and speaks for the same
    authority, and it has no other successor. -/
structure Keyed (rows : List RefreshToken) : Prop where
  tokens : (rows.map (·.token)).Nodup
  rotated : ∀ r ∈ rows, ∀ p, r.rotatedFrom = some p →
    ∃ q ∈ rows, q.token = p ∧ q.toAuthority = r.toAuthority ∧ q.revokedAt ≠ none
  successors : (rows.filterMap (·.rotatedFrom)).Nodup

theorem Keyed.unique (h : Keyed rows) {q r : RefreshToken} (hq : q ∈ rows) (hr : r ∈ rows)
    (ht : q.token = r.token) : q = r :=
  inj_on_of_nodup_map h.tokens hq hr ht

theorem Keyed.known_unique (h : Keyed rows) {b : Authority} (ha : Known rows t a)
    (hb : Known rows t b) : a = b := by
  rcases ha with ⟨q, hq, hqt, rfl⟩
  rcases hb with ⟨r, hr, hrt, rfl⟩
  rw [h.unique hq hr (hqt.trans hrt.symm)]

theorem Keyed.revoke (h : Keyed rows) : Keyed (revokeRows now tokens rows) where
  tokens := by rw [map_token_revokeRows]; exact h.tokens
  rotated := by
    intro r hr p hp
    rcases mem_map.mp hr with ⟨x, hx, rfl⟩
    rcases h.rotated x hx p (by simpa using hp) with ⟨q, hq, hqp, ha, hrev⟩
    refine ⟨_, mem_map_of_mem hq, by simpa using hqp, by simpa using ha, ?_⟩
    exact fun hnone => hrev (revokeRow_revokedAt.mp hnone).1
  successors := by rw [filterMap_rotatedFrom_revokeRows]; exact h.successors

theorem Keyed.append (h : Keyed rows) (hnew : r.token ∉ rows.map (·.token))
    (hrotated : ∀ p, r.rotatedFrom = some p →
      (∃ q ∈ rows, q.token = p ∧ q.toAuthority = r.toAuthority ∧ q.revokedAt ≠ none) ∧
      p ∉ rows.filterMap (·.rotatedFrom)) : Keyed (rows ++ [r]) where
  tokens := by
    rw [map_append, map_singleton, ← concat_eq_append]
    exact h.tokens.concat hnew
  rotated := by
    intro x hx p hp
    have hq : ∃ q ∈ rows, q.token = p ∧ q.toAuthority = x.toAuthority ∧ q.revokedAt ≠ none := by
      rcases mem_append.mp hx with hx | hx
      · exact h.rotated x hx p hp
      · grind
    rcases hq with ⟨q, hq, hqp⟩
    exact ⟨q, mem_append_left _ hq, hqp⟩
  successors := by
    rw [filterMap_append]
    cases hp : r.rotatedFrom with
    | none => simpa [hp] using h.successors
    | some p =>
      simp only [filterMap_cons, hp, filterMap_nil, ← concat_eq_append]
      exact h.successors.concat (hrotated p hp).2

theorem Keyed.unrotated (h : Keyed rows) (hr : r ∈ rows) (hnone : r.revokedAt = none) :
    r.token ∉ rows.filterMap (·.rotatedFrom) := by
  intro hmem
  rcases mem_filterMap.mp hmem with ⟨x, hx, hp⟩
  rcases h.rotated x hx _ hp with ⟨q, hq, hqt, -, hrev⟩
  exact hrev (h.unique hq hr hqt ▸ hnone)

end Rows

/-! ### The calls -/

def Work.Fits (env : AsState) (rows : List RefreshToken) : Work → Prop
  | .rotateRefresh access predecessor successor =>
    Known rows predecessor successor.toAuthority ∧ successor.rotatedFrom = some predecessor ∧
    successor.revokedAt = none ∧ ∃ now, access = mintAccessToken env successor.toAuthority now
  | .revokeByClientSub .. => True

def Call.Fits (env : AsState) (rows : List RefreshToken) : Call → Prop
  | .found rt => Known rows rt.token rt.toAuthority
  | .replay t | .chaining _ t _ => t ∈ rows.map (·.token)
  | .opening work | .begun _ work | .locked _ work => work.Fits env rows
  | .written _ work held => work.Fits env rows ∧ ∀ access predecessor successor,
      work = .rotateRefresh access predecessor successor →
      predecessor ∈ held ∧ ∀ t ∈ held, t = predecessor
  | _ => True

theorem Call.Fits.mono {rows rows' : List RefreshToken}
    (hknown : ∀ t a, Known rows t a → Known rows' t a) (h : c.Fits env rows) :
    c.Fits env rows' := by
  have hwork : ∀ {w : Work}, w.Fits env rows → w.Fits env rows' := by
    intro w hw
    cases w with
    | rotateRefresh access p successor => exact ⟨hknown _ _ hw.1, hw.2⟩
    | revokeByClientSub clientId sub => trivial
  have hmem : ∀ {t}, t ∈ rows.map (·.token) → t ∈ rows'.map (·.token) := by
    intro t ht
    rcases known_of_mem ht with ⟨a, ha⟩
    exact (hknown t a ha).mem
  cases c with
  | found rt => exact hknown _ _ h
  | replay | chaining => exact hmem h
  | opening | begun | locked => exact hwork h
  | written now w held => exact ⟨hwork h.1, h.2⟩
  | _ => trivial

theorem Turn.fits (h : Turn env s c c') (hc : c.Fits env s.refresh) :
    c'.Fits env s.refresh := by
  cases h with
  | failed c e => trivial
  | found hmem => exact ⟨_, hmem, rfl, rfl⟩
  | replay hmem => exact mem_map_of_mem hmem
  | minted value hexp => exact ⟨hc, rfl, rfl, s.clock, rfl⟩
  | snapshot token => exact hc
  | begun work => exact hc
  | locked hfree => exact hc
  | @written now work rows hrows hfree hwon =>
    refine ⟨hc, fun access p successor hw => ?_⟩
    -- The update of a rotation selects by the predecessor's token.
    have hall : ∀ t ∈ rows, t = p := by grind [Work.selects]
    rcases exists_mem_of_ne_nil _ (hwon access p successor hw) with ⟨t, ht⟩
    exact ⟨hall t ht ▸ ht, hall⟩

theorem mem_put (h : c ∈ (s.put i c').calls) :
    c = c' ∨ ∃ j, j ≠ i ∧ s.calls[j]? = some c := by
  rcases mem_iff_getElem?.mp h with ⟨j, hj⟩
  rw [State.put, getElem?_set] at hj
  by_cases hij : i = j
  · grind
  · rw [if_neg hij] at hj
    exact .inr ⟨j, fun heq => hij heq.symm, hj⟩

theorem not_held {rows : List String} (h : s.rowsHeld rows = false) (hc : c ∈ s.calls) {t : String}
    (ht : t ∈ c.rowLocks) : t ∉ rows := by
  intro hmem
  have hany : s.rowsHeld rows = true :=
    any_eq_true.mpr ⟨c, hc, any_eq_true.mpr ⟨t, ht, contains_iff_mem.mpr hmem⟩⟩
  rw [h] at hany
  cases hany

theorem Turn.rowLocks (h : Turn env s c c') :
    ∀ t ∈ c'.rowLocks, t ∈ c.rowLocks ∨ ∀ d ∈ s.calls, t ∉ d.rowLocks := by
  cases h with
  | written hrows hfree hwon =>
    exact fun t ht => .inr (fun d hd hmem => not_held hfree hd hmem ht)
  | _ => exact nofun

theorem Turn.sessionLock (h : Turn env s c c') :
    ∀ k ∈ c'.sessionLock env, k ∈ c.sessionLock env ∨ ∀ d ∈ s.calls, k ∉ d.sessionLock env := by
  cases h with
  | locked hfree =>
    intro k hk
    refine .inr (fun d hd hmem => ?_)
    rw [Call.sessionLock, mem_singleton] at hk
    have hany : s.sessionHeld env k = true :=
      any_eq_true.mpr ⟨d, hd, contains_iff_mem.mpr hmem⟩
    rw [hk, hfree] at hany
    cases hany
  | written hrows hfree hwon => exact fun k hk => .inl hk
  | _ => exact nofun

/-- What every interleaving keeps. A row that a transaction has written and not
    committed is still unrevoked. -/
structure Sound (env : AsState) (s : State) : Prop where
  keyed : Keyed s.refresh
  rowLocks : Exclusive Call.rowLocks s.calls
  sessionLocks : Exclusive (Call.sessionLock env) s.calls
  held : ∀ c ∈ s.calls, ∀ t ∈ c.rowLocks, ∃ r ∈ s.refresh, r.token = t ∧ r.revokedAt = none
  fits : ∀ c ∈ s.calls, c.Fits env s.refresh

theorem Sound.put (hs : Sound env s) (hi : s.calls[i]? = some c)
    (hcalls : s'.calls = (s.put i c').calls)
    (hrow : ∀ t ∈ c'.rowLocks, t ∈ c.rowLocks ∨ ∀ d ∈ s.calls, t ∉ d.rowLocks)
    (hsession : ∀ k ∈ c'.sessionLock env,
      k ∈ c.sessionLock env ∨ ∀ d ∈ s.calls, k ∉ d.sessionLock env) (hkeyed : Keyed s'.refresh)
    (hknown : ∀ t a, Known s.refresh t a → Known s'.refresh t a) (hfits : c'.Fits env s'.refresh)
    (hown : ∀ t ∈ c'.rowLocks, ∃ r ∈ s'.refresh, r.token = t ∧ r.revokedAt = none)
    (hkeep : ∀ j ≠ i, ∀ d, s.calls[j]? = some d → ∀ r ∈ s.refresh, r.token ∈ d.rowLocks →
      r.revokedAt = none → r ∈ s'.refresh) : Sound env s' where
  keyed := hkeyed
  rowLocks := hcalls ▸ hs.rowLocks.set hi hrow
  sessionLocks := hcalls ▸ hs.sessionLocks.set hi hsession
  held := by
    intro d hd t ht
    rcases mem_put (hcalls ▸ hd) with rfl | ⟨j, hj, hd⟩
    · exact hown t ht
    · rcases hs.held d (mem_of_getElem? hd) t ht with ⟨r, hr, rfl, hnone⟩
      exact ⟨r, hkeep j hj d hd r hr ht hnone, rfl, hnone⟩
  fits := by
    intro d hd
    rcases mem_put (hcalls ▸ hd) with rfl | ⟨j, -, hd⟩
    · exact hfits
    · exact (hs.fits d (mem_of_getElem? hd)).mono hknown

theorem mem_revokeRows_of_not {now : Int} {tokens : List String} {rows : List RefreshToken}
    {r : RefreshToken} (hr : r ∈ rows) (hnot : r.token ∉ tokens) :
    r ∈ revokeRows now tokens rows := by
  have hrow : revokeRow now tokens r = r := if_neg (fun h => hnot h.2)
  exact mem_map.mpr ⟨r, hr, hrow⟩

/-- A rotation about to commit holds its predecessor, unrevoked and unrotated. -/
theorem Sound.written (hs : Sound env s) {now : Int} {access : AccessTokenClaims} {p : String}
    {successor : RefreshToken} {rows : List String}
    (hi : s.calls[i]? = some (.written now (.rotateRefresh access p successor) rows)) :
    p ∈ rows ∧ (∀ t ∈ rows, t = p) ∧ successor.rotatedFrom = some p ∧
    successor.revokedAt = none ∧ (∃ now, access = mintAccessToken env successor.toAuthority now) ∧
    ∃ q ∈ s.refresh, q.token = p ∧ q.toAuthority = successor.toAuthority ∧
      q.revokedAt = none := by
  have hmem := mem_of_getElem? hi
  rcases hs.fits _ hmem with ⟨⟨hknown, hfrom, hlive, haccess⟩, hrows⟩
  rcases hrows _ _ _ rfl with ⟨hp, hall⟩
  rcases hs.held _ hmem p hp with ⟨q, hq, hqp, hnone⟩
  refine ⟨hp, hall, hfrom, hlive, haccess, q, hq, hqp, ?_, hnone⟩
  exact hs.keyed.known_unique ⟨q, hq, hqp, rfl⟩ hknown

/-- No action breaks the keys, the locks or what a call remembers. -/
theorem Sound.moves {a : Action} (h : Moves env s a s') (hs : Sound env s) : Sound env s' := by
  -- A commit keeps the rows of the others, since rows have one holder.
  have hothers : ∀ {i : Nat} {c : Call} {now : Int}, s.calls[i]? = some c →
      ∀ j ≠ i, ∀ d, s.calls[j]? = some d → ∀ r ∈ s.refresh, r.token ∈ d.rowLocks →
      r ∈ revokeRows now c.rowLocks s.refresh := by
    intro i c now hi j hj d hd r hr hmem
    exact mem_revokeRows_of_not hr (fun hc => hj (hs.rowLocks hd hi hmem hc))
  cases h with
  | stay a => exact hs
  | tick n => exact ⟨hs.keyed, hs.rowLocks, hs.sessionLocks, hs.held, hs.fits⟩
  | @submit _ c hc =>
    have hfree : c.rowLocks = [] ∧ c.sessionLock env = [] ∧ c.Fits env s.refresh := by
      rcases hc with ⟨e, rfl⟩ | ⟨t, rfl⟩ | ⟨w, x, rfl⟩ | ⟨req, r, -, rfl⟩ <;>
        exact ⟨rfl, rfl, trivial⟩
    refine ⟨hs.keyed, hs.rowLocks.append hfree.1, hs.sessionLocks.append hfree.2.1, ?_, ?_⟩
    · intro d hd t ht
      rcases mem_append.mp hd with hd | hd
      · exact hs.held d hd t ht
      · rw [mem_singleton.mp hd, hfree.1] at ht
        cases ht
    · intro d hd
      rcases mem_append.mp hd with hd | hd
      · exact hs.fits d hd
      · rw [mem_singleton.mp hd]
        exact hfree.2.2
  | @turn _ i c c' hi ha hturn =>
    refine hs.put hi rfl hturn.rowLocks hturn.sessionLock hs.keyed (fun _ _ hk => hk)
      (hturn.fits (hs.fits c (mem_of_getElem? hi))) ?_ (fun _ _ _ _ r hr _ _ => hr)
    cases hturn with
    | @written now work rows hrows hfree hwon =>
      intro t ht
      rw [Call.rowLocks, hrows] at ht
      rcases mem_map.mp ht with ⟨r, hr, rfl⟩
      rcases mem_filter.mp hr with ⟨hr, hsel⟩
      refine ⟨r, hr, rfl, ?_⟩
      cases work with
      | rotateRefresh access p successor =>
        simp only [Work.selects, Bool.and_eq_true, Option.isNone_iff_eq_none] at hsel
        exact hsel.2
      | revokeByClientSub clientId sub =>
        simp only [Work.selects, Bool.and_eq_true, Option.isNone_iff_eq_none] at hsel
        exact hsel.1.2
    | _ => nofun
  | @taken i value req issued c' hi hfind hc' =>
    have hc : c'.rowLocks = [] ∧ c'.sessionLock env = [] ∧ c'.Fits env s.refresh := by
      rcases hc' with ⟨-, rfl⟩ | ⟨e, rfl⟩ <;> exact ⟨rfl, rfl, trivial⟩
    exact hs.put hi rfl (by rw [hc.1]; nofun) (by rw [hc.2.1]; nofun) hs.keyed (fun _ _ hk => hk)
      hc.2.2 (by rw [hc.1]; nofun) (fun _ _ _ _ r hr _ _ => hr)
  | @minted i value req issued hi hnew =>
    refine hs.put hi rfl nofun nofun
      (hs.keyed.append hnew (fun p hp => ?_)) (fun _ _ hk => hk.append) trivial
      nofun (fun _ _ _ _ r hr _ _ => mem_append_left _ hr)
    cases hp
  | @chained i value now token rows hi hfree =>
    refine hs.put hi rfl nofun nofun hs.keyed.revoke
      (fun _ _ hk => hk.revoke) trivial nofun (fun j _ d hd r hr hmem _ => ?_)
    exact mem_revokeRows_of_not hr (not_held hfree (mem_of_getElem? hd) hmem)
  | @rotated i value now access p successor rows hi hnew =>
    rcases hs.written hi with ⟨hp, hall, hfrom, hlive, haccess, q, hq, hqp, hauth, hnone⟩
    refine hs.put hi rfl nofun nofun
      (hs.keyed.revoke.append ?_ ?_) (fun _ _ hk => hk.revoke.append) trivial
      nofun (fun j hj d hd r hr hmem _ => ?_)
    · rw [map_token_revokeRows]
      exact hnew
    · intro p' hp'
      rw [hfrom] at hp'
      cases hp'
      refine ⟨⟨_, mem_map_of_mem hq, by simpa using hqp, by simpa using hauth, ?_⟩, ?_⟩
      · exact fun hnil => (revokeRow_revokedAt.mp hnil).2 (hqp ▸ hp)
      · rw [filterMap_rotatedFrom_revokeRows, ← hqp]
        exact hs.keyed.unrotated hq hnone
    · exact mem_append_left _ (hothers hi j hj d hd r hr hmem)
  | @revoked i value now clientId sub rows hi =>
    exact hs.put hi rfl nofun nofun hs.keyed.revoke
      (fun _ _ hk => hk.revoke) trivial nofun
      (fun j hj d hd r hr hmem _ => hothers hi j hj d hd r hr hmem)

structure Start (s : State) : Prop where
  keyed : Keyed s.refresh
  calls : s.calls = []
  log : s.log = []

theorem Start.sound (h : Start s) : Sound env s where
  keyed := h.keyed
  rowLocks := by
    intro i j a b k hi
    rw [h.calls] at hi
    cases hi
  sessionLocks := by
    intro i j a b k hi
    rw [h.calls] at hi
    cases hi
  held := by
    intro c hc
    rw [h.calls] at hc
    cases hc
  fits := by
    intro c hc
    rw [h.calls] at hc
    cases hc

end Waygate.As
