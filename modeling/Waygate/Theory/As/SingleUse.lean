import Waygate.Theory.As.Replay

/-!
# Single Use

A code is in its table, with a call that has taken it, or in the log as the reason of a
token pair. No move raises the count of all three, since the statement that reads a code
also deletes it.

## Main definitions

* `uses`, `Issued`

## Theorems

* `uses_moves`, `Issuance.moves`, `single_use`
-/

namespace Waygate.As

open Machine List

variable {all : List IssuedCode} {env : AsState} {s s' : State} {codes : List IssuedCode}

def Call.redeems (code : String) : Call → Bool
  | .redeemed _ issued => issued.code == code
  | _ => false

def Event.redeems (code : String) : Event → Bool
  | .issued (.code _ c) _ _ => c.code == code
  | _ => false

/-- The places of a code: its table, a call that has taken it, and the log. -/
def uses (s : State) (code : String) : Nat :=
  s.codes.countP (fun c => c.code == code) + s.calls.countP (Call.redeems code) +
    s.log.countP (Event.redeems code)

theorem countP_put_le {i : Nat} {c c' : Call} {p : Call → Bool} (hi : s.calls[i]? = some c)
    (hc' : p c' = false) : (s.put i c').calls.countP p ≤ s.calls.countP p := by
  have hput := @countP_set_add _ _ _ _ c' hi p
  rw [hc', if_neg Bool.false_ne_true] at hput
  simp only [State.put]
  omega

theorem takeCode_some {now : Int} {code : String} {issued : IssuedCode}
    (h : (takeCode now code codes).1 = some issued) :
    issued ∈ codes ∧ issued.code = code ∧
    (takeCode now code codes).2.countP (fun c => c.code == code) + 1 ≤
      codes.countP (fun c => c.code == code) := by
  have hmem := mem_of_find?_eq_some h
  have hlive := find?_some h
  have hcode : issued.code = code := by
    rw [Bool.and_eq_true, beq_iff_eq] at hlive
    exact hlive.1
  refine ⟨hmem, hcode, ?_⟩
  have hsplit := countP_eq_countP_filter_add codes (fun c => c.code == code)
    (fun c => c.code == code && decide (now < c.expiresAt))
  have hpos : 0 < (codes.filter (fun c => c.code == code && decide (now < c.expiresAt))).countP
      (fun c => c.code == code) :=
    countP_pos_iff.mpr ⟨issued, mem_filter.mpr ⟨hmem, hlive⟩, by simp [hcode]⟩
  simp only [takeCode]
  omega

theorem takeCode_sublist (now : Int) (code : String) (codes : List IssuedCode) :
    (takeCode now code codes).2.Sublist codes :=
  filter_sublist

/-- No action gives a code another place. -/
theorem uses_moves {a : Action} (h : Moves env s a s') (code : String) :
    uses s' code ≤ uses s code := by
  cases h with
  | stay a => exact Nat.le_refl _
  | tick n => exact Nat.le_refl _
  | @submit _ c hc =>
    have hnot : c.redeems code = false := by
      rcases hc with ⟨e, rfl⟩ | ⟨t, rfl⟩ | ⟨w, x, rfl⟩ | ⟨req, r, -, rfl⟩ <;> rfl
    simp [uses, State.submit, countP_append, hnot]
  | @turn _ i c c' hi ha hturn =>
    have hnot : c'.redeems code = false := by cases hturn <;> rfl
    have hput := countP_put_le hi hnot
    simp only [uses, State.put] at hput ⊢
    omega
  | @taken i value req issued c' hi hfind hc' =>
    rcases takeCode_some hfind with ⟨-, hcode, hcount⟩
    have hput := @countP_set_add _ _ _ _ c' hi (Call.redeems code)
    have hle : (takeCode s.clock req.code s.codes).2.countP (fun c => c.code == code) ≤
        s.codes.countP (fun c => c.code == code) :=
      (takeCode_sublist s.clock req.code s.codes).countP_le
    -- The call may now hold the code, but then the table has lost it.
    have hgain : (if c'.redeems code then 1 else 0) = 0 ∨ req.code = code := by grind [Call.redeems]
    have hnone : Call.redeems code (.authCode req) = false := rfl
    rw [hnone] at hput
    simp only [uses, State.put, Bool.false_eq_true, if_false] at hput ⊢
    rcases hgain with hzero | rfl
    · omega
    · split at hput <;> omega
  | @minted i value req issued hi hnew =>
    have hput := @countP_set_add _ _ _ _ .finished hi (Call.redeems code)
    simp only [uses, State.put, countP_append, countP_singleton] at hput ⊢
    cases hcode : issued.code == code <;>
      simp only [Call.redeems, Event.redeems, hcode, if_true, Bool.false_eq_true, if_false]
        at hput ⊢ <;>
      omega
  | chained hi | rotated hi | revoked hi =>
    have hput := countP_put_le hi (rfl : Call.redeems code (.failed .invalidRefresh) = false)
    have hdone := countP_put_le hi (rfl : Call.redeems code .finished = false)
    simp only [uses, State.put, countP_append, countP_singleton, Event.redeems,
      Bool.false_eq_true, if_false] at hput hdone ⊢
    omega

inductive Derived (log : List Event) (issued : IssuedCode) :
    RefreshToken → AccessTokenClaims → Prop
  | redeemed {req : CodeRequest} {rt : RefreshToken} {access : AccessTokenClaims}
      (h : .issued (.code req issued) rt access ∈ log) : Derived log issued rt access
  | rotated {rt next : RefreshToken} {access after : AccessTokenClaims}
      (h : Derived log issued rt access)
      (hnext : .issued (.refresh rt.token) next after ∈ log) : Derived log issued next after

def Redeemed (env : AsState) (all : List IssuedCode) (req : CodeRequest) (issued : IssuedCode) :
    Prop :=
  issued ∈ all ∧ issued.code = req.code ∧ checkCode env req issued = .ok ()

/-- What the log says of an issued pair: the refresh token is in the table with the
    authority that the pair was issued for. -/
def Issued (env : AsState) (all : List IssuedCode) (rows : List RefreshToken) : Event → Prop
  | .issued source rt access =>
    Known rows rt.token rt.toAuthority ∧ (∃ now, access = mintAccessToken env rt.toAuthority now) ∧
    match source with
    | .code req c => Redeemed env all req c ∧ rt.toAuthority = c.toAuthority
    | .refresh p => Known rows p rt.toAuthority
  | _ => True

structure Issuance (env : AsState) (all : List IssuedCode) (s : State) : Prop where
  codes : ∀ c ∈ s.codes, c ∈ all
  calls : ∀ req issued, .redeemed req issued ∈ s.calls → Redeemed env all req issued
  log : ∀ e ∈ s.log, Issued env all s.refresh e

theorem Issued.mono {rows rows' : List RefreshToken}
    (hknown : ∀ t a, Known rows t a → Known rows' t a) {e : Event} (h : Issued env all rows e) :
    Issued env all rows' e := by
  cases e with
  | issued source rt access =>
    rcases h with ⟨hk, haccess, hsource⟩
    refine ⟨hknown _ _ hk, haccess, ?_⟩
    cases source with
    | code req c => exact hsource
    | refresh p => exact hknown _ _ hsource
  | chainRevoked t => trivial
  | sessionRevoked w x tokens => trivial

theorem Issuance.put (h : Issuance env all s) {i : Nat} {c' : Call}
    (hcalls : s'.calls = (s.put i c').calls)
    (hc : ∀ req issued, c' = .redeemed req issued → Redeemed env all req issued)
    (hcodes : ∀ c ∈ s'.codes, c ∈ s.codes)
    (hknown : ∀ t a, Known s.refresh t a → Known s'.refresh t a)
    (hlog : ∀ e ∈ s'.log, e ∈ s.log ∨ Issued env all s'.refresh e) : Issuance env all s' where
  codes c hmem := h.codes c (hcodes c hmem)
  calls req issued hmem := by
    rcases mem_put (hcalls ▸ hmem) with heq | ⟨j, -, hj⟩
    · exact hc req issued heq.symm
    · exact h.calls req issued (mem_of_getElem? hj)
  log e he := by
    rcases hlog e he with hold | hnew
    · exact (h.log e hold).mono hknown
    · exact hnew

/-- A token that is issued has the authority of its code or its predecessor. -/
theorem Issuance.moves {a : Action} (h : Moves env s a s') (hs : Sound env s)
    (hiss : Issuance env all s) : Issuance env all s' := by
  have hlast : ∀ {rows : List RefreshToken} {e e' : Event}, e' ∈ s.log ++ [e] →
      Issued env all rows e → e' ∈ s.log ∨ Issued env all rows e' := by grind
  cases h with
  | stay a => exact hiss
  | tick n => exact ⟨hiss.codes, hiss.calls, hiss.log⟩
  | @submit _ c hc =>
    refine ⟨hiss.codes, fun req issued hmem => ?_, hiss.log⟩
    rcases mem_append.mp hmem with hmem | hmem
    · exact hiss.calls req issued hmem
    · grind
  | @turn _ i c c' hi ha hturn =>
    refine hiss.put rfl ?_ (fun c hc => hc) (fun _ _ hk => hk) (fun e he => .inl he)
    rintro req issued rfl
    cases hturn
  | @taken i value req issued c' hi hfind hc' =>
    rcases takeCode_some hfind with ⟨hmem, hcode, -⟩
    refine hiss.put rfl ?_ (fun c hc => (takeCode_sublist _ _ _).subset hc) (fun _ _ hk => hk)
      (fun e he => .inl he)
    rintro req' issued' rfl
    rcases hc' with ⟨hcheck, heq⟩ | ⟨e, heq⟩
    · cases heq
      exact ⟨hiss.codes _ hmem, hcode, hcheck⟩
    · cases heq
  | @minted i value req issued hi hnew =>
    refine hiss.put rfl nofun (fun c hc => hc) (fun _ _ hk => hk.append)
      (fun e he => hlast he ⟨?_, ⟨s.clock, rfl⟩, ?_, rfl⟩)
    · exact ⟨_, mem_append_right _ mem_cons_self, rfl, rfl⟩
    · exact hiss.calls req issued (mem_of_getElem? hi)
  | @chained i value now token rows hi hfree =>
    exact hiss.put rfl nofun (fun c hc => hc) (fun _ _ hk => hk.revoke)
      (fun e he => hlast he trivial)
  | @rotated i value now access p successor rows hi hnew =>
    rcases hs.written hi with ⟨-, -, -, -, haccess, q, hq, hqp, hauth, -⟩
    refine hiss.put rfl nofun (fun c hc => hc)
      (fun _ _ hk => hk.revoke.append) (fun e he => hlast he ⟨?_, haccess, ?_⟩)
    · exact ⟨successor, mem_append_right _ mem_cons_self, rfl, rfl⟩
    · exact Known.append (Known.revoke ⟨q, hq, hqp, hauth⟩)
  | @revoked i value now clientId sub rows hi =>
    exact hiss.put rfl nofun (fun c hc => hc) (fun _ _ hk => hk.revoke)
      (fun e he => hlast he trivial)

structure Carries (issued : IssuedCode) (rt : RefreshToken) (access : AccessTokenClaims) :
    Prop where
  refresh : rt.sub = issued.sub ∧ rt.clientId = issued.clientId ∧ rt.tenantId = issued.tenantId ∧
    rt.scopes = issued.scopes ∧ rt.groups = issued.groups
  access : access.sub = issued.sub ∧ access.clientId = some issued.clientId ∧
    access.tenant = some issued.tenantId ∧ access.scope = " ".intercalate issued.scopes ∧
    access.groups = issued.groups

theorem Issuance.derived (h : Issuance env all s) (hkeyed : Keyed s.refresh) {issued : IssuedCode}
    {rt : RefreshToken} {access : AccessTokenClaims} (hd : Derived s.log issued rt access) :
    rt.toAuthority = issued.toAuthority ∧ Known s.refresh rt.token rt.toAuthority ∧
    ∃ now, access = mintAccessToken env issued.toAuthority now := by
  induction hd with
  | redeemed hmem =>
    rcases h.log _ hmem with ⟨hknown, haccess, -, hauth⟩
    exact ⟨hauth, hknown, hauth ▸ haccess⟩
  | rotated _ hnext ih =>
    -- The predecessor's row is the one that was issued before.
    rcases ih with ⟨hauth, hrow, -⟩
    rcases h.log _ hnext with ⟨hknown, haccess, hp⟩
    have hsame := (hkeyed.known_unique hp hrow).trans hauth
    exact ⟨hsame, hknown, hsame ▸ haccess⟩

/-- In every interleaving, a code gives one token pair at most, and only to a caller
    with its client, its redirect URI and a verifier for its challenge. A refresh
    token has one successor at most. Every token pair that descends from a code
    carries its authority. -/
theorem single_use (env : AsState) (start : State) (hstart : Start start)
    (hcodes : (start.codes.map (·.code)).Nodup) (actions : List Action) :
    (∀ code, (run env start actions).log.countP (Event.redeems code) ≤ 1) ∧
    (∀ req issued rt access, .issued (.code req issued) rt access ∈ (run env start actions).log →
      issued ∈ start.codes ∧ issued.code = req.code ∧ issued.clientId = req.clientId ∧
      issued.redirectUri = req.redirectUri ∧ env.s256 req.codeVerifier = issued.codeChallenge) ∧
    (∀ p, (run env start actions).refresh.countP (fun r => r.rotatedFrom == some p) ≤ 1) ∧
    ∀ issued rt access, Derived (run env start actions).log issued rt access →
      Carries issued rt access := by
  have hinv : Sound env (run env start actions) ∧
      Issuance env start.codes (run env start actions) ∧
      ∀ code, uses (run env start actions) code ≤ 1 := by
    refine foldl_invariant (I := fun s => Sound env s ∧ Issuance env start.codes s ∧
      ∀ code, uses s code ≤ 1) (fun s a _ hs => ?_) ⟨hstart.sound, ?_, fun code => ?_⟩
    · refine ⟨hs.1.moves (step_moves a), hs.2.1.moves (step_moves a) hs.1, fun code => ?_⟩
      exact Nat.le_trans (uses_moves (step_moves a) code) (hs.2.2 code)
    · exact ⟨fun c hc => hc, by simp [hstart.calls], by simp [hstart.log]⟩
    · have hone := nodup_iff_count_le_one.mp hcodes code
      rw [List.count, countP_map] at hone
      simpa [uses, hstart.calls, hstart.log, Function.comp_def] using hone
  rcases hinv with ⟨hs, hiss, huses⟩
  refine ⟨fun code => ?_, fun req issued rt access he => ?_, fun p => ?_,
    fun issued rt access hd => ?_⟩
  · exact Nat.le_trans (Nat.le_add_left _ _) (huses code)
  · rcases hiss.log _ he with ⟨-, -, ⟨hmem, hcode, hcheck⟩, -⟩
    unfold checkCode at hcheck
    split_ifs at hcheck with huri hclient hpkce
    exact ⟨hmem, hcode, not_not.mp hclient, not_not.mp huri, not_not.mp hpkce⟩
  · have hone := nodup_iff_count_le_one.mp hs.keyed.successors p
    rwa [count_filterMap] at hone
  · rcases hiss.derived hs.keyed hd with ⟨hauth, -, now, rfl⟩
    refine ⟨?_, rfl, rfl, rfl, rfl, rfl⟩
    rw [hauth]
    exact ⟨rfl, rfl, rfl, rfl, rfl⟩

def sampleCode : State :=
  { sampleFamily with
    codes := [⟨(sampleRow "" none 0 none).toAuthority, "K", "uri", "v", 9⟩]
    refresh := [] }

theorem single_use_raced :
    (run sampleEnv sampleCode [.authCode ⟨some "K", some "v", some "uri", some "c", none⟩,
      .authCode ⟨some "K", some "v", some "uri", some "c", none⟩, .advance 0 "", .advance 1 "",
      .advance 0 "A", .advance 1 "B"]).log.countP (Event.redeems "K") ≤ 1 :=
  (single_use sampleEnv sampleCode ⟨⟨by decide, by decide, by decide⟩, rfl, rfl⟩
    (by decide) _).1 "K"

end Waygate.As
