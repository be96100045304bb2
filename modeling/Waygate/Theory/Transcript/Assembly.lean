import Mathlib.Algebra.Order.Ring.Nat
import Mathlib.Data.List.Basic

/-!
# Answers Sent in Pieces

An answer is a text, a list of calls and a reason for its end. It is sent as deltas, and
the reader joins the pieces of the text in the order they come, and those of each call
by the number they carry.

## Main definitions

* `Writes`
* `assemble`: What a reader makes of deltas.

## Theorems

* `assemble_of_writes`
* `Writes.append`: One list after another.
-/

namespace Waygate.Transcript

open List

variable {α β γ : Type*}

section Reader

structure CallDelta (α β : Type*) where
  index : Nat
  id : Option β
  name : Option β
  arguments : List α

structure Delta (α β γ : Type*) where
  content : List α
  calls : List (CallDelta α β)
  finish : Option γ

def Delta.blank : Delta α β γ :=
  { content := [], calls := [], finish := none }

def Delta.text (s : List α) : Delta α β γ :=
  { content := s, calls := [], finish := none }

def Delta.header (n : Nat) (id name : β) (arguments : List α) : Delta α β γ :=
  { content := [], calls := [⟨n, some id, some name, arguments⟩], finish := none }

def Delta.more (n : Nat) (arguments : List α) : Delta α β γ :=
  { content := [], calls := [⟨n, none, none, arguments⟩], finish := none }

def Delta.ending (reason : γ) : Delta α β γ :=
  { content := [], calls := [], finish := some reason }

structure Call (α β : Type*) where
  id : Option β
  name : Option β
  arguments : List α

structure Answer (α β γ : Type*) where
  content : List α
  calls : Nat → Option (Call α β)
  finish : Option γ

def Answer.ofList (content : List α) (calls : List (Call α β)) (finish : Option γ) :
    Answer α β γ :=
  { content := content, calls := fun k => calls[k]?, finish := finish }

theorem Answer.ofList_inj {content content' : List α} {calls calls' : List (Call α β)}
    {finish finish' : Option γ} :
    Answer.ofList content calls finish = Answer.ofList content' calls' finish'
      ↔ content = content' ∧ calls = calls' ∧ finish = finish' := by
  simp only [Answer.ofList, Answer.mk.injEq]
  constructor
  · rintro ⟨hcontent, hcalls, hfinish⟩
    exact ⟨hcontent, ext_getElem? (congrFun hcalls), hfinish⟩
  · rintro ⟨rfl, rfl, rfl⟩
    exact ⟨rfl, rfl, rfl⟩

def joinCall : List (CallDelta α β) → Option (Call α β)
  | [] => none
  | d :: rest =>
    some { id := ((d :: rest).filterMap CallDelta.id).head?
           name := ((d :: rest).filterMap CallDelta.name).head?
           arguments := (d :: rest).flatMap CallDelta.arguments }

def piecesOf (k : Nat) (ds : List (Delta α β γ)) : List (CallDelta α β) :=
  (ds.flatMap Delta.calls).filter (fun d => d.index = k)

def assemble (ds : List (Delta α β γ)) : Answer α β γ :=
  { content := ds.flatMap Delta.content
    calls := fun k => joinCall (piecesOf k ds)
    finish := (ds.filterMap Delta.finish).getLast? }

theorem piecesOf_append (k : Nat) (ds es : List (Delta α β γ)) :
    piecesOf k (ds ++ es) = piecesOf k ds ++ piecesOf k es := by
  simp [piecesOf]

theorem piecesOf_cons (k : Nat) (d : Delta α β γ) (ds : List (Delta α β γ)) :
    piecesOf k (d :: ds) = d.calls.filter (fun d => d.index = k) ++ piecesOf k ds := by
  simp [piecesOf]

theorem piecesOf_more (k n : Nat) (pieces : List (List α)) :
    piecesOf k (pieces.map (Delta.more (β := β) (γ := γ) n))
      = if n = k then pieces.map (fun s => ⟨n, none, none, s⟩) else [] := by
  induction pieces with
  | nil => by_cases h : n = k <;> simp [piecesOf, h]
  | cons s rest ih =>
    rw [map_cons, piecesOf_cons, ih]
    by_cases h : n = k <;> simp [Delta.more, h]

end Reader

section Writer

inductive Item (α β : Type*) where
  | text (s : List α)
  | call (id name : β) (arguments : List α)

def Item.content : Item α β → List α
  | .text s => s
  | .call _ _ _ => []

def Item.call? : Item α β → Option (Call α β)
  | .text _ => none
  | .call id name arguments => some ⟨some id, some name, arguments⟩

def contentOf (items : List (Item α β)) : List α :=
  items.flatMap Item.content

def callsOf (items : List (Item α β)) : List (Call α β) :=
  items.filterMap Item.call?

/-- The deltas write the items, whose calls are numbered from `n`. -/
inductive Writes : Nat → List (Item α β) → List (Delta α β γ) → Prop
  | nil (n : Nat) : Writes n [] []
  | blank {n : Nat} {items : List (Item α β)} {ds : List (Delta α β γ)} :
      Writes n items ds → Writes n items (.blank :: ds)
  | text {n : Nat} {items : List (Item α β)} {ds : List (Delta α β γ)} (s : List α) :
      Writes n items ds → Writes n (.text s :: items) (.text s :: ds)
  | call {n : Nat} {items : List (Item α β)} {ds : List (Delta α β γ)} (id name : β)
      (start : List α) (pieces : List (List α)) :
      Writes (n + 1) items ds →
      Writes n (.call id name (start ++ pieces.flatten) :: items)
        (.header n id name start :: (pieces.map (.more n) ++ ds))

variable {n : Nat} {items items' : List (Item α β)} {ds ds' : List (Delta α β γ)}

theorem Writes.append (h : Writes n items ds)
    (h' : Writes (n + (callsOf items).length) items' ds') :
    Writes n (items ++ items') (ds ++ ds') := by
  induction h with
  | nil n => exact h'
  | blank _ ih => exact .blank (ih h')
  | text s _ ih => exact .text s (ih h')
  | @call n items ds id name start pieces _ ih =>
    have hcount : n + (callsOf (.call id name (start ++ pieces.flatten) :: items)).length
        = n + 1 + (callsOf items).length := by
      simp only [callsOf, filterMap_cons, Item.call?, length_cons]
      omega
    rw [hcount] at h'
    have hsplit : (.header n id name start :: (pieces.map (.more n) ++ ds)) ++ ds'
        = .header n id name start :: (pieces.map (.more n) ++ (ds ++ ds')) := by
      rw [cons_append, append_assoc]
    rw [hsplit]
    exact .call id name start pieces (ih h')

theorem Writes.append_of_no_calls (h : Writes n items ds) (hnone : callsOf items = [])
    (h' : Writes n items' ds') : Writes n (items ++ items') (ds ++ ds') := by
  refine h.append ?_
  rw [hnone]
  exact h'

variable (pieces : List (List α))

theorem Writes.texts (n : Nat) :
    Writes (β := β) (γ := γ) n (pieces.map .text) (pieces.map .text) := by
  induction pieces with
  | nil => exact .nil n
  | cons s rest ih => exact .text s ih

theorem Writes.numbered {δ : Type*} (id : δ → Nat → β) (name : δ → β) (arguments : δ → List α)
    (calls : List δ) (n : Nat) :
    Writes (γ := γ) n
      ((calls.zipIdx n).map (fun p => .call (id p.1 p.2) (name p.1) (arguments p.1)))
      ((calls.zipIdx n).map (fun p => .header p.2 (id p.1 p.2) (name p.1) (arguments p.1))) := by
  induction calls generalizing n with
  | nil => exact .nil n
  | cons c rest ih =>
    have hwrites := Writes.call (γ := γ) (id c n) (name c) (arguments c) [] (ih (n + 1))
    rw [flatten_nil, append_nil] at hwrites
    exact hwrites

theorem callsOf_texts :
    callsOf (pieces.map (Item.text (β := β))) = [] := by
  induction pieces with
  | nil => rfl
  | cons s rest ih => exact ih

theorem contentOf_texts :
    contentOf (pieces.map (Item.text (β := β))) = pieces.flatten := by
  induction pieces with
  | nil => rfl
  | cons s rest ih =>
    rw [flatten_cons, ← ih]
    rfl

theorem callsOf_append : callsOf (items ++ items') = callsOf items ++ callsOf items' :=
  filterMap_append

theorem contentOf_append : contentOf (items ++ items') = contentOf items ++ contentOf items' :=
  flatMap_append

theorem exists_writes_append {content content' : List α} {calls calls' : List (Call α β)}
    (h : ∃ items, Writes n items ds ∧ contentOf items = content ∧ callsOf items = calls)
    (h' : ∃ items, Writes (n + calls.length) items ds' ∧ contentOf items = content'
      ∧ callsOf items = calls') :
    ∃ items, Writes n items (ds ++ ds') ∧ contentOf items = content ++ content'
      ∧ callsOf items = calls ++ calls' := by
  rcases h with ⟨items, hwrites, rfl, rfl⟩
  rcases h' with ⟨items', hwrites', rfl, rfl⟩
  exact ⟨items ++ items', hwrites.append hwrites', contentOf_append, callsOf_append⟩

theorem Writes.content (h : Writes n items ds) : ds.flatMap Delta.content = contentOf items := by
  induction h with
  | nil n => rfl
  | blank _ ih => exact ih
  | text s _ ih =>
    rw [flatMap_cons, ih]
    rfl
  | call id name start pieces _ ih =>
    have hpieces : ∀ m : Nat, (pieces.map (Delta.more (β := β) (γ := γ) m)).flatMap
        Delta.content = [] := by
      intro m
      simp [Delta.more]
    rw [flatMap_cons, flatMap_append, hpieces, ih]
    rfl

theorem Writes.finish (h : Writes n items ds) : ds.filterMap Delta.finish = [] := by
  induction h with
  | nil n => rfl
  | blank _ ih => exact ih
  | text s _ ih => exact ih
  | call id name start pieces _ ih =>
    have hpieces : ∀ m : Nat, (pieces.map (Delta.more (β := β) (γ := γ) m)).filterMap
        Delta.finish = [] := by
      intro m
      simp [Delta.more]
    rw [filterMap_cons_none rfl, filterMap_append, hpieces, ih]
    rfl

theorem joinCall_pieces (m : Nat) (id name : β) (start : List α) (pieces : List (List α)) :
    joinCall (⟨m, some id, some name, start⟩ :: pieces.map (fun s => ⟨m, none, none, s⟩))
      = some ⟨some id, some name, start ++ pieces.flatten⟩ := by
  have hids : (pieces.map (fun s => (⟨m, none, none, s⟩ : CallDelta α β))).flatMap
      CallDelta.arguments = pieces.flatten := by
    rw [flatMap_map, flatMap_id']
  simp [joinCall, hids]

/-- Each call is assembled under its number. -/
theorem Writes.calls (h : Writes n items ds) (k : Nat) :
    joinCall (piecesOf k ds) = if n ≤ k then (callsOf items)[k - n]? else none := by
  induction h with
  | nil n => by_cases hk : n ≤ k <;> simp [piecesOf, joinCall, callsOf, hk]
  | blank _ ih => exact ih
  | text s _ ih => exact ih
  | @call n items ds id name start pieces hrest ih =>
    rw [piecesOf_cons, piecesOf_append, piecesOf_more]
    by_cases hn : n = k
    · -- The call itself: nothing later has its number.
      have hlater : piecesOf k ds = [] := by
        have hnone := ih
        rw [if_neg (by omega)] at hnone
        cases hds : piecesOf k ds with
        | nil => rfl
        | cons d rest =>
          rw [hds] at hnone
          cases hnone
      subst hn
      simp only [Delta.header, filter_cons, filter_nil, decide_true, if_true, hlater,
        append_nil, Nat.le_refl, Nat.sub_self]
      exact joinCall_pieces n id name start pieces
    · -- Another call: its number is below or behind.
      have hheader : (Delta.header (γ := γ) n id name start).calls.filter
          (fun d => d.index = k) = [] := by
        simp [Delta.header, hn]
      rw [hheader, if_neg hn, nil_append, nil_append, ih]
      by_cases hk : n ≤ k
      · have hsub : k - n = (k - (n + 1)) + 1 := by omega
        rw [if_pos hk, if_pos (by omega), hsub]
        rfl
      · rw [if_neg hk, if_neg (by omega)]

/-- The reader has what the writer meant, and the last reason after it. -/
theorem assemble_of_writes (h : Writes 0 items ds) {es : List (Delta α β γ)}
    (hes : ∀ e ∈ es, e.content = [] ∧ e.calls = []) :
    assemble (ds ++ es)
      = .ofList (contentOf items) (callsOf items) (es.filterMap Delta.finish).getLast? := by
  have hcontent : es.flatMap Delta.content = [] :=
    flatMap_eq_nil_iff.mpr (fun e he => (hes e he).1)
  have hcalls : es.flatMap Delta.calls = [] :=
    flatMap_eq_nil_iff.mpr (fun e he => (hes e he).2)
  have hpieces : ∀ k, piecesOf k (ds ++ es) = piecesOf k ds := by
    intro k
    rw [piecesOf_append, piecesOf, piecesOf, hcalls]
    exact append_nil _
  simp only [assemble, flatMap_append, hcontent, append_nil, h.content, hpieces, h.calls,
    filterMap_append, h.finish, nil_append, Nat.zero_le, if_true, Nat.sub_zero]
  rfl

theorem assemble_ending (h : Writes 0 items ds) (reason : Option γ) :
    assemble (ds ++ ((reason.map .ending).toList ++ [.blank]))
      = .ofList (contentOf items) (callsOf items) reason := by
  cases reason with
  | none => exact assemble_of_writes h (by simp [Delta.blank])
  | some reason => exact assemble_of_writes h (by simp [Delta.blank, Delta.ending])

end Writer

end Waygate.Transcript
