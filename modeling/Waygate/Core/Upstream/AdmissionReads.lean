import Mathlib.Data.List.AList

/-!
# Reused Admission Reads

`AdmissionReadCache` and `admission_reads` of `contract_binding.rs`. A call reads the
generation of the catalog, then the cache or both stores, then the generation again, and
other calls and transactions come in between. Each query may fail. What the catalog
resolves a tool to is a parameter. What a state and a call remember of the stores
(`past`, `seen`) is there to be spoken of only.

## Main definitions

* `AdmissionReadCache`: The cache.
* `Stores`, `Reading`: The stores, and where a call is.
* `Pool.step`: One step.
-/

namespace Waygate

namespace Upstream

abbrev AdmissionKey := String × String × String

structure ReviewDecision where
  observedHash : String
  quarantined : Bool
  keptBlocked : Bool
  deriving DecidableEq

structure AdmissionReads (T : Type) where
  review : Option ReviewDecision
  catalog : T

structure AdmissionReadCache (T : Type) where
  generation : Option Int
  entries : AList (fun _ : AdmissionKey => AdmissionReads T)
  order : List AdmissionKey
  capacity : Nat

variable {T : Type}

namespace AdmissionReadCache

def withCapacity (capacity : Nat) : AdmissionReadCache T :=
  { generation := none, entries := ∅, order := [], capacity := capacity }

def get (cache : AdmissionReadCache T) (generation : Int) (key : AdmissionKey) :
    Option (AdmissionReads T) :=
  if cache.generation = some generation then cache.entries.lookup key else none

/-- A new key goes to the end of the queue, and the oldest leaves one that is too long. -/
def keep (cache : AdmissionReadCache T) (key : AdmissionKey) (reads : AdmissionReads T) :
    AdmissionReadCache T :=
  let entries := cache.entries.insert key reads
  if key ∈ cache.entries then { cache with entries := entries }
  else if cache.capacity < cache.order.length + 1 then
    match cache.order ++ [key] with
    | oldest :: rest => { cache with entries := entries.erase oldest, order := rest }
    | [] => { cache with entries := entries, order := [] }
  else { cache with entries := entries, order := cache.order ++ [key] }

def cleared (cache : AdmissionReadCache T) (generation : Int) : AdmissionReadCache T :=
  { cache with generation := some generation, entries := ∅, order := [] }

def insert (cache : AdmissionReadCache T) (generation : Int) (key : AdmissionKey)
    (reads : AdmissionReads T) : AdmissionReadCache T :=
  match cache.generation with
  | some cached =>
    if generation < cached then cache
    else if cached = generation then cache.keep key reads
    else (cache.cleared generation).keep key reads
  | none => (cache.cleared generation).keep key reads

end AdmissionReadCache

/-- What the catalog and the review store hold. Reviews are those of the default tenant,
    and the catalog is asked for a tenant and a qualified name. -/
structure Stores (T : Type) where
  generation : Int
  reviewState : String → String → Option ReviewDecision
  resolveTool : String → String → T

structure Pool (T : Type) where
  live : T → Bool
  toolReviews : Bool

def Pool.review (p : Pool T) (stores : Stores T) (key : AdmissionKey) : Option ReviewDecision :=
  if p.toolReviews then stores.reviewState key.2.1 key.2.2 else none

def Stores.catalog (stores : Stores T) (key : AdmissionKey) : T :=
  stores.resolveTool key.1 (key.2.1 ++ "." ++ key.2.2)

inductive Reading (T : Type) where
  | started
  | generation (g : Int)
  | missed (g : Int)
  | reviewed (g : Int) (review : Option ReviewDecision)
  | read (g : Int) (reads : AdmissionReads T)
  | checked (g : Int) (reads : AdmissionReads T)
  | reused (g : Int) (reads : AdmissionReads T)
  | finished (reads : Option (AdmissionReads T))

structure ReadCall (T : Type) where
  key : AdmissionKey
  phase : Reading T
  seen : Option (Stores T)

structure ReadState (T : Type) where
  stores : Stores T
  past : List (Stores T)
  cache : AdmissionReadCache T
  calls : List (ReadCall T)

/-- A transaction on the stores, a new call, or the next query or locked section of a call. -/
inductive ReadAction (T : Type) where
  | change (stores : Stores T)
  | call (key : AdmissionKey)
  | advance (i : Nat) (answered : Bool)

/-- What may be kept: a live tool, and no review that is quarantined. -/
def Pool.keeps (p : Pool T) (reads : AdmissionReads T) : Bool :=
  p.live reads.catalog && reads.review.all (fun review => !review.quarantined)

def Pool.advance (p : Pool T) (s : ReadState T) (c : ReadCall T) (answered : Bool) : ReadCall T :=
  match c.phase with
  | .started =>
    if answered then { c with phase := .generation s.stores.generation, seen := some s.stores }
    else { c with phase := .finished none }
  | .generation g =>
    match s.cache.get g c.key with
    | some reads => { c with phase := .reused g reads }
    | none => { c with phase := .missed g }
  | .missed g =>
    if answered || !p.toolReviews then { c with phase := .reviewed g (p.review s.stores c.key) }
    else { c with phase := .finished none }
  | .reviewed g review =>
    if answered then { c with phase := .read g ⟨review, s.stores.catalog c.key⟩ }
    else { c with phase := .finished none }
  | .read g reads =>
    if p.keeps reads && answered && s.stores.generation == g then
      { c with phase := .checked g reads }
    else { c with phase := .finished (some reads) }
  | .checked _ reads => { c with phase := .finished (some reads) }
  | .reused _ _ => c
  | .finished _ => c

/-- The cache after a step of the call: only the last one writes. -/
def ReadCall.store (c : ReadCall T) (cache : AdmissionReadCache T) : AdmissionReadCache T :=
  match c.phase with
  | .checked g reads => cache.insert g c.key reads
  | _ => cache

def Pool.step (p : Pool T) (s : ReadState T) : ReadAction T → ReadState T
  | .change stores => { s with stores := stores, past := stores :: s.past }
  | .call key => { s with calls := s.calls ++ [⟨key, .started, none⟩] }
  | .advance i answered =>
    match s.calls[i]? with
    | some c =>
      { s with cache := c.store s.cache, calls := s.calls.set i (p.advance s c answered) }
    | none => s

def ReadState.start (stores : Stores T) (capacity : Nat) : ReadState T :=
  { stores := stores, past := [stores], cache := .withCapacity capacity, calls := [] }

end Upstream

end Waygate
