import Waygate.Core.Transfer.Dpop
import Waygate.Theory.Machine.Run

/-!
# Replays of a DPoP Proof

A claim that reaches the database before its proof's row would expire finds the row of
any earlier claim of the proof. A later one may come after the sweep, and so may a proof
that reuses a `jti`.

## Main definitions

* `Signed`, `SignsOnce`, `Timely`

## Theorems

* `claims_once`, `proof_accepted_twice`
* `Kept.step`: The rows of the claimed proofs, over one action.
-/

namespace Waygate.Transfer

variable {Key : Type} {lib : Libraries Key} {verifier : DpopVerifier}
  {proofJwt requestMethod requestUri : String} {now : Int} {p : UnclaimedDpopProof}

/-- A proof with these claims verifies under a key with this thumbprint. -/
def Signed (lib : Libraries Key) (jkt jti : String) (iat : Int) : Prop :=
  ∃ proofJwt header jwk key claims, lib.decodeHeader proofJwt = some header
    ∧ header.jwk = some jwk ∧ lib.fromJwk jwk = some key
    ∧ lib.decode proofJwt key header.alg = some claims
    ∧ jwk.thumbprint = jkt ∧ claims.jti = jti ∧ claims.iat = iat

/-- No key signs a `jti` again at another time. -/
def SignsOnce (lib : Libraries Key) : Prop :=
  ∀ jkt jti iat iat', Signed lib jkt jti iat → Signed lib jkt jti iat' → iat = iat'

def Genuine (lib : Libraries Key) (verifier : DpopVerifier) (p : UnclaimedDpopProof) : Prop :=
  ∃ iat, Signed lib p.jkt p.jti iat
    ∧ p.replayExpiresAt = iat * 1000000000 + verifier.maxAge + verifier.futureSkew

theorem some_of_elim {ε α : Type} {o : Option α} {e : ε} {a : α}
    (h : o.elim (.error e) Except.ok = .ok a) : o = some a := by
  cases o with
  | none => cases h
  | some b =>
    cases h
    rfl

theorem verify_genuine {token : Option String}
    (h : verify lib verifier proofJwt requestMethod requestUri token now = .ok p) :
    Genuine lib verifier p := by
  simp only [verify, bind, Except.bind, throw, throwThe, MonadExceptOf.throw, pure,
    Except.pure] at h
  repeat' split at h
  all_goals try cases h
  rename_i _ header hheader _ _ _ jwk hjwk _ _ key hkey _ claims hclaims _ _ _ _ _ _ _ _ _ _
    issuedAt hissued _ _
  refine ⟨claims.iat, ⟨proofJwt, header, jwk, key, claims, some_of_elim hheader, some_of_elim hjwk,
    some_of_elim hkey, some_of_elim hclaims, rfl, rfl, rfl⟩, ?_⟩
  unfold fromUnixTimestamp at hissued
  split at hissued
  · cases hissued
    rfl
  · cases hissued

theorem Call.check_genuine {call : Call}
    (h : call.check lib verifier proofJwt requestMethod requestUri now = .ok p) :
    Genuine lib verifier p := by
  have hverified : ∀ token v,
      (verify lib verifier proofJwt requestMethod requestUri token now).mapError .dpop =
        (.ok v : Except AuthorityError _) → Genuine lib verifier v := by
    intro token v hv
    cases hverify : verify lib verifier proofJwt requestMethod requestUri token now with
    | error e => simp [hverify, Except.mapError] at hv
    | ok w =>
      cases hverify ▸ hv
      exact verify_genuine hverify
  revert h
  simp only [Call.check, bind, Except.bind, throw, throwThe, MonadExceptOf.throw, pure,
    Except.pure]
  grind

/-- Of two claims of one key and `jti`, the later proof is the younger one. -/
def Advances (later earlier : UnclaimedDpopProof) : Prop :=
  later.jkt = earlier.jkt → later.jti = earlier.jti →
    earlier.replayExpiresAt < later.replayExpiresAt

structure Kept (lib : Libraries Key) (verifier : DpopVerifier) (s : System) : Prop where
  checked : ∀ c ∈ s.checked, Genuine lib verifier c.1
  claimed : ∀ p ∈ s.claimed, Genuine lib verifier p
  row : ∀ p ∈ s.claimed,
    ⟨p.jkt, p.jti, p.replayExpiresAt⟩ ∈ s.table ∨ p.replayExpiresAt ≤ s.now
  advances : s.claimed.Pairwise Advances

/-- A claim comes before the row of its own proof would expire. -/
def Timely (s : System) : Action → Prop
  | .claimProof i => ∀ c ∈ s.checked[i]?, s.now < c.1.replayExpiresAt
  | _ => True

instance : ∀ (s : System) (a : Action), Decidable (Timely s a)
  | s, .claimProof i =>
    inferInstanceAs (Decidable (∀ c ∈ s.checked[i]?, s.now < c.1.replayExpiresAt))
  | _, .check .. | _, .sweep | _, .elapse _ => isTrue trivial

theorem Kept.claim {s : System} (h : Kept lib verifier s) {i : Nat}
    (htimely : Timely s (.claimProof i)) :
    Kept lib verifier (step lib verifier s (.claimProof i)) := by
  rw [step]
  cases hc : s.checked[i]? with
  | none => exact h
  | some c =>
    have hnow : s.now < c.1.replayExpiresAt := htimely c hc
    have hrest := fun b (hb : b ∈ s.checked.eraseIdx i) => h.checked b (List.mem_of_mem_eraseIdx hb)
    simp only [claimDpopJti]
    split
    · exact ⟨hrest, h.claimed, h.row, h.advances⟩
    · next hfree =>
      refine ⟨hrest, List.forall_mem_cons.mpr ⟨h.checked c (List.mem_of_getElem? hc), h.claimed⟩,
        fun p hp => ?_, List.pairwise_cons.mpr ⟨fun p hp hjkt hjti => ?_, h.advances⟩⟩
      · rcases List.mem_cons.mp hp with rfl | hp
        · exact .inl List.mem_cons_self
        · exact (h.row p hp).imp_left (List.mem_cons_of_mem _)
      · -- An earlier proof of the key and `jti` has no row, so it was swept.
        rcases h.row p hp with hrow | hswept
        · exact absurd (List.any_eq_true.mpr ⟨_, hrow, by simp [hjkt, hjti]⟩) hfree
        · exact Int.lt_of_le_of_lt hswept hnow

theorem Kept.step {s : System} {a : Action} (htimely : Timely s a) (h : Kept lib verifier s) :
    Kept lib verifier (step lib verifier s a) := by
  cases a with
  | check call proofJwt requestMethod requestUri clock =>
    rw [Transfer.step]
    split
    · next p hp =>
      refine ⟨fun c hc => ?_, h.claimed, h.row, h.advances⟩
      rcases List.mem_append.mp hc with hc | hc
      · exact h.checked c hc
      · cases List.mem_singleton.mp hc
        exact Call.check_genuine hp
    · exact h
  | claimProof i => exact h.claim htimely
  | sweep =>
    refine ⟨h.checked, h.claimed, fun p hp => ?_, h.advances⟩
    rcases h.row p hp with hrow | hpast
    · by_cases hlive : s.now < p.replayExpiresAt
      · exact .inl (List.mem_filter.mpr ⟨hrow, decide_eq_true hlive⟩)
      · exact .inr (Int.not_lt.mp hlive)
    · exact .inr hpast
  | elapse time =>
    refine ⟨h.checked, h.claimed, fun p hp => (h.row p hp).imp_right (fun hpast => ?_), h.advances⟩
    show p.replayExpiresAt ≤ s.now + time
    omega

/-- Over every interleaving of timely claims and the sweep, no two proofs of one key and
    `jti` are accepted, if no key signs a `jti` again. If one does, the second is younger. -/
theorem claims_once (lib : Libraries Key) (verifier : DpopVerifier) (now : Int)
    (actions : List Action) (h : Machine.Along (step lib verifier) Timely { now } actions) :
    (SignsOnce lib → (actions.foldl (step lib verifier) { now }).claimed.Pairwise
      (fun p q => ¬ (p.jkt = q.jkt ∧ p.jti = q.jti)))
    ∧ (actions.foldl (step lib verifier) { now }).claimed.Pairwise Advances := by
  have hstart : Kept lib verifier { now } := ⟨by simp, by simp, by simp, List.Pairwise.nil⟩
  have hkept := Machine.Along.invariant (I := Kept lib verifier) (fun _ _ => Kept.step) hstart h
  refine ⟨fun honce => hkept.advances.imp_of_mem (fun hp hq hadvances hsame => ?_), hkept.advances⟩
  rcases hkept.claimed _ hp with ⟨iat, hsigned, hexpires⟩
  rcases hkept.claimed _ hq with ⟨iat', hsigned', hexpires'⟩
  rw [hsame.1, hsame.2] at hsigned
  have hyounger := hadvances hsame.1 hsame.2
  rw [hexpires, hexpires', honce _ _ _ _ hsigned hsigned'] at hyounger
  exact Int.lt_irrefl _ hyounger

def sampleLibrary (iat : String → Int) : Libraries Unit where
  decodeHeader _ := some ⟨some "dpop+jwt", .edDSA, none, none, none, none, some ⟨false, "key"⟩⟩
  fromJwk _ := some ()
  decode proofJwt _ _ := some ⟨"jti", "POST", "uri", iat proofJwt, none⟩
  parseUrl uri := some ⟨"https", "", uri, none, none, none, none⟩
  urlToString := Url.path
  tokenHash := id

def seconds (n : Nat) : Nat := n * 1000000000

def checkAt (proofJwt : String) (clock : Nat) : Action :=
  .check (.exchangeCredentialForFile fun _ => true) proofJwt "POST" "uri" (seconds clock)

def sampleVerifier : DpopVerifier := ⟨seconds 10, seconds 5, by decide, by decide⟩

theorem claims_once_retried :
    ([checkAt "proof" 10, checkAt "proof" 10, .claimProof 0, .elapse (seconds 4), .sweep,
      .claimProof 0].foldl (step (sampleLibrary fun _ => 0) sampleVerifier)
        { now := seconds 10 }).claimed.Pairwise (fun p q => ¬ (p.jkt = q.jkt ∧ p.jti = q.jti)) := by
  refine (claims_once (sampleLibrary fun _ => 0) sampleVerifier _ _ (by decide +kernel)).1 ?_
  rintro jkt jti iat iat' ⟨_, _, _, _, claims, -, -, -, hclaims, -, -, rfl⟩
    ⟨_, _, _, _, claims', -, -, -, hclaims', -, -, rfl⟩
  cases hclaims
  cases hclaims'
  rfl

/-- The clocks agree. A call that stalls until the sweep has its proof accepted again. With
    timely claims a second proof of the `jti` is accepted, when the first has expired. -/
theorem proof_accepted_twice :
    ([checkAt "proof" 10, checkAt "proof" 10, .claimProof 0, .elapse (seconds 5), .sweep,
      .claimProof 0].foldl (step (sampleLibrary fun _ => 0) sampleVerifier)
        { now := seconds 10 }).claimed = [⟨"key", "jti", seconds 15⟩, ⟨"key", "jti", seconds 15⟩]
    ∧ let lib := sampleLibrary fun proofJwt => if proofJwt = "again" then 15 else 0
      let actions := [checkAt "proof" 10, .claimProof 0, .elapse (seconds 5), .sweep,
        checkAt "again" 15, .claimProof 0]
      Machine.Along (step lib sampleVerifier) Timely { now := seconds 10 } actions
      ∧ (actions.foldl (step lib sampleVerifier) { now := seconds 10 }).claimed
        = [⟨"key", "jti", seconds 30⟩, ⟨"key", "jti", seconds 15⟩] := by
  decide +kernel

end Waygate.Transfer
