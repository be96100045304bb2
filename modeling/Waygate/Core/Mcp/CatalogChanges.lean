import Mathlib.Algebra.Order.Ring.Nat

/-!
# Catalog Publications

Publications of the tool catalog and an optimistic reader, as steps on the two counters
they share. Each step is one atomic access. A publication writes serving state any
number of times and commits in two steps; one that has written nothing may be dropped.

## Main definitions

* `Reader`, `Epoch`
* `step`, `run`: An access, and an interleaving of them.
-/

namespace Waygate.CatalogChanges

inductive Publication
  | begun (wrote : Bool)
  | marked
  | finished
  deriving DecidableEq

/-- Where the reader is: before its first load, after each of the loads of
    `stable_generation`, after each of those of `is_stable`, and at its answer. -/
inductive Reader
  | start
  | idle
  | loaded (generation : Nat)
  | reading (generation : Nat)
  | closing (generation : Nat)
  | unchanged (generation : Nat)
  | stable (generation : Nat)
  | retry
  deriving DecidableEq

/-- The counters and who is where. `commits` and `seen` count commits: all of them,
    and those before the reader loaded the generation. -/
structure Epoch where
  activeChanges : Nat
  generation : Nat
  publications : List Publication
  reader : Reader
  reads : Nat
  pending : List Nat
  torn : List Nat
  commits : Nat
  seen : Nat

def Epoch.new : Epoch := ⟨0, 0, [], .start, 0, [], [], 0, 0⟩

inductive Action
  | beginChange
  | write (i : Nat)
  | markChanged (i : Nat)
  | finish (i : Nat)
  | load
  | read
  deriving DecidableEq

def Epoch.put (s : Epoch) (i : Nat) (p : Publication) : Epoch :=
  { s with publications := s.publications.set i p }

def Epoch.load (s : Epoch) : Epoch :=
  match s.reader with
  | .start => { s with reader := if s.activeChanges = 0 then .idle else .retry }
  | .idle => { s with reader := .loaded s.generation, seen := s.commits }
  | .loaded g => { s with reader := if s.activeChanges = 0 then .reading g else .retry }
  | .reading g => { s with reader := if s.activeChanges = 0 then .closing g else .retry }
  | .closing g => { s with reader := if s.generation = g then .unchanged g else .retry }
  | .unchanged g => { s with reader := if s.activeChanges = 0 then .stable g else .retry }
  | .stable _ | .retry => s

/-- One access. What is not possible changes nothing: a publication commits or is
    dropped once, and one that has written is not dropped. -/
def step (s : Epoch) : Action → Epoch
  | .beginChange =>
    { s with
      activeChanges := s.activeChanges + 1
      publications := s.publications ++ [.begun false] }
  | .write i =>
    match s.publications[i]? with
    | some (.begun _) =>
      { s.put i (.begun true) with pending := if s.reads = 0 then s.pending else i :: s.pending }
    | _ => s
  | .markChanged i =>
    match s.publications[i]? with
    | some (.begun _) =>
      { s.put i .marked with
        generation := (s.generation + 1) % 2 ^ 64
        commits := s.commits + 1 }
    | _ => s
  | .finish i =>
    match s.publications[i]? with
    | some .marked | some (.begun false) =>
      { s.put i .finished with activeChanges := s.activeChanges - 1 }
    | _ => s
  | .load => s.load
  | .read =>
    match s.reader with
    | .reading _ => { s with reads := s.reads + 1, torn := s.pending }
    | _ => s

def run (actions : List Action) : Epoch := actions.foldl step .new

end Waygate.CatalogChanges
