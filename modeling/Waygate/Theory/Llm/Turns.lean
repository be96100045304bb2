import Mathlib.Data.List.Chain
import Waygate.Core.Llm.Inbound
import Waygate.Core.Llm.Outbound

/-!
# Turns of a Conversation

The messages of a conversation can be found again in the pieces that were said, since
what the assistant says without interruption is one message. The Responses renderer
moves the texts of the system to the front, and sorts what the assistant said: first
what it reasoned, then texts, then calls.

## Main definitions

* `Grouped`
* `pieces`: What was said.
* `replayed`: The pieces as they are rendered.
* `TurnOrder`: An order that rendering keeps.

## Theorems

* `replayed_eq_iff`
* `Grouped.pieces_inj`: Messages from pieces.
* `replays_iff`: The same, by kinds of pieces.
-/

namespace Waygate.Llm

open Inbound Outbound List

section Pieces

variable {m : CanonicalMessage} {turns : InputTurns}

inductive Piece where
  | system (parts : List ContentPart)
  | user (parts : List ContentPart)
  | part (p : ContentPart)
  | result (parts : List ContentPart)

def messagePieces (m : CanonicalMessage) : List Piece :=
  match m.role with
  | .system => [.system m.content]
  | .user => [.user m.content]
  | .assistant => m.content.map .part
  | .tool => [.result m.content]

def pieces (messages : List CanonicalMessage) : List Piece :=
  messages.flatMap messagePieces

/-- The assistant says something in each of its messages, and others are between them. -/
structure Grouped (messages : List CanonicalMessage) : Prop where
  nonempty : ∀ m ∈ messages, m.role = .assistant → m.content ≠ []
  apart : messages.IsChain (fun a b => ¬ (a.role = .assistant ∧ b.role = .assistant))

/-- What was said when some messages are complete and some parts are not. -/
def said (turns : InputTurns) : List Piece :=
  pieces turns.messages ++ turns.pending.map .part

/-- The messages are complete: what comes next is not part of the last of them. -/
structure Settled (turns : InputTurns) : Prop where
  grouped : Grouped turns.messages
  last : ∀ m ∈ turns.messages.getLast?, m.role ≠ .assistant

theorem Grouped.tail {rest : List CanonicalMessage} (h : Grouped (m :: rest)) : Grouped rest :=
  ⟨fun m' hm' => h.nonempty m' (mem_cons_of_mem m hm'), h.apart.tail⟩

theorem Grouped.concat {messages : List CanonicalMessage} (h : Grouped messages)
    (hnonempty : m.role = .assistant → m.content ≠ [])
    (hlast : ∀ m' ∈ messages.getLast?, ¬ (m'.role = .assistant ∧ m.role = .assistant)) :
    Grouped (messages ++ [m]) := by
  constructor
  · intro m' hm'
    rcases mem_append.mp hm' with hm' | hm'
    · exact h.nonempty m' hm'
    · rw [mem_singleton.mp hm']
      exact hnonempty
  · rw [isChain_append]
    refine ⟨h.apart, isChain_singleton m, ?_⟩
    intro a ha b hb
    cases hb
    exact hlast a ha

theorem said_flush (turns : InputTurns) : pieces (flushAssistant turns).messages = said turns := by
  grind [flushAssistant, said, pieces, messagePieces]

theorem Settled.flush (h : Settled turns) :
    Grouped (flushAssistant turns).messages := by
  unfold flushAssistant
  cases hpending : turns.pending with
  | nil => exact h.grouped
  | cons p rest =>
    refine h.grouped.concat (fun _ => cons_ne_nil p rest) ?_
    intro m hm hboth
    exact h.last m hm hboth.1

theorem Settled.wait (h : Settled turns) (parts : List ContentPart) :
    Settled { turns with pending := turns.pending ++ parts } :=
  ⟨h.grouped, h.last⟩

theorem said_wait (turns : InputTurns) (parts : List ContentPart) :
    said { turns with pending := turns.pending ++ parts } = said turns ++ parts.map .part := by
  simp [said]

def interrupt (turns : InputTurns) (m : CanonicalMessage) : InputTurns :=
  { flushAssistant turns with messages := (flushAssistant turns).messages ++ [m] }

theorem flush_pending (turns : InputTurns) : (flushAssistant turns).pending = [] := by
  grind [flushAssistant]

theorem said_interrupt (turns : InputTurns) (m : CanonicalMessage) :
    said (interrupt turns m) = said turns ++ messagePieces m := by
  have hpending := flush_pending turns
  rw [← said_flush turns]
  simp [said, interrupt, hpending, pieces]

theorem Settled.interrupt (h : Settled turns) (hm : m.role ≠ .assistant) :
    Settled (interrupt turns m) := by
  constructor
  · exact h.flush.concat (fun hrole => absurd hrole hm) (fun _ _ hboth => hm hboth.2)
  · intro m' hm'
    have hlast : (Llm.interrupt turns m).messages.getLast? = some m := getLast?_concat
    rw [hlast] at hm'
    cases hm'
    exact hm

end Pieces

section Injective

variable {m : CanonicalMessage} {rest : List CanonicalMessage}

def Piece.role : Piece → Role
  | .system _ => .system
  | .user _ => .user
  | .part _ => .assistant
  | .result _ => .tool

theorem role_of_mem {p : Piece} (h : p ∈ messagePieces m) :
    p.role = m.role := by grind [messagePieces, Piece.role]

theorem messagePieces_ne_nil (h : m.role = .assistant → m.content ≠ []) : messagePieces m ≠ [] := by
  rcases m with ⟨role, content⟩
  cases role with
  | assistant =>
    intro hnil
    exact h rfl (map_eq_nil_iff.mp hnil)
  | _ => exact cons_ne_nil _ _

theorem Grouped.head_pieces (h : Grouped (m :: rest)) :
    (pieces (m :: rest)).head?.map Piece.role = some m.role := by
  have hne := messagePieces_ne_nil (h.nonempty m mem_cons_self)
  rcases exists_cons_of_ne_nil hne with ⟨p, ps, hp⟩
  have hrole : p.role = m.role := role_of_mem (by rw [hp]; exact mem_cons_self)
  simp [pieces, hp, hrole]

theorem Grouped.head_rest (h : Grouped (m :: rest)) (hm : m.role = .assistant) :
    ∀ p ∈ (pieces rest).head?, p.role ≠ .assistant := by
  intro p hp hrole
  cases rest with
  | nil => cases hp
  | cons m' rest =>
    have hhead := h.tail.head_pieces
    rw [Option.mem_def.mp hp, Option.map_some, Option.some.injEq, hrole] at hhead
    exact (isChain_cons_cons.mp h.apart).1 ⟨hm, hhead.symm⟩

theorem takeWhile_parts {parts : List ContentPart} {rest : List Piece}
    (h : ∀ p ∈ rest.head?, p.role ≠ .assistant) :
    (parts.map Piece.part ++ rest).takeWhile (fun p => p.role = .assistant)
      = parts.map .part := by
  rw [takeWhile_append_of_pos]
  · cases rest with
    | nil => simp
    | cons p rest => simp [h p rfl]
  · intro p hp
    rcases mem_map.mp hp with ⟨q, -, rfl⟩
    rfl

theorem Grouped.head_inj {m' : CanonicalMessage} {rest' : List CanonicalMessage}
    (h : Grouped (m :: rest)) (h' : Grouped (m' :: rest'))
    (heq : pieces (m :: rest) = pieces (m' :: rest')) : m = m' := by
  have hrole : m.role = m'.role := by grind [Grouped.head_pieces]
  rcases m with ⟨role, content⟩
  rcases m' with ⟨role', content'⟩
  cases hrole
  cases role with
  | assistant =>
    have heq : content.map Piece.part ++ pieces rest
        = content'.map Piece.part ++ pieces rest' := heq
    have hparts := congrArg (List.takeWhile (fun p => decide (p.role = .assistant))) heq
    rw [takeWhile_parts (h.head_rest rfl), takeWhile_parts (h'.head_rest rfl)] at hparts
    have hinj : Function.Injective Piece.part := by
      rintro p q ⟨⟩
      rfl
    rw [map_injective_iff.mpr hinj hparts]
  | _ =>
    cases (List.cons.inj heq).1
    rfl

theorem Grouped.pieces_inj {ms ms' : List CanonicalMessage} (h : Grouped ms) (h' : Grouped ms')
    (heq : pieces ms = pieces ms') : ms = ms' := by
  induction ms generalizing ms' with
  | nil =>
    cases ms' with
    | nil => rfl
    | cons m' rest' =>
      have hhead := h'.head_pieces
      rw [← heq] at hhead
      cases hhead
  | cons m rest ih =>
    cases ms' with
    | nil =>
      have hhead := h.head_pieces
      rw [heq] at hhead
      cases hhead
    | cons m' rest' =>
      have hm := h.head_inj h' heq
      subst hm
      rw [ih h.tail h'.tail (append_cancel_left heq)]

end Injective

section Order

variable {m : CanonicalMessage} {messages : List CanonicalMessage}

def isReasoning : ContentPart → Bool
  | .reasoning _ => true
  | _ => false

def sorted (content : List ContentPart) : List ContentPart :=
  content.filter isReasoning ++ content.filter textish ++ content.filter isCall

/-- The pieces of a message that are rendered in their place. -/
def replayedPieces (m : CanonicalMessage) : List Piece :=
  match m.role with
  | .system => []
  | .user => if m.content.isEmpty then [] else [.user m.content]
  | .assistant => (sorted m.content).map .part
  | .tool => [.result m.content]

def textOf : ContentPart → String
  | .text text => text
  | _ => ""

def systemTexts (messages : List CanonicalMessage) : List String :=
  (messages.filter (fun m => m.role = .system)).map (fun m => String.join (m.content.map textOf))

def replayed (messages : List CanonicalMessage) : List Piece :=
  (if systemTexts messages = [] then []
    else [.system [.text ("\n\n".intercalate (systemTexts messages))]])
    ++ messages.flatMap replayedPieces

structure Replays (messages : List CanonicalMessage) : Prop where
  first : ∀ m ∈ messages.tail, m.role ≠ .system
  text : ∀ m ∈ messages, m.role = .system → ∃ text, m.content = [.text text]
  user : ∀ m ∈ messages, m.role = .user → m.content ≠ []
  turn : ∀ m ∈ messages, m.role = .assistant → sorted m.content = m.content

theorem replayedPieces_of (hsystem : m.role ≠ .system) (huser : m.role = .user → m.content ≠ [])
    (hturn : m.role = .assistant → sorted m.content = m.content) :
    replayedPieces m = messagePieces m := by
  rcases m with ⟨role, content⟩
  cases role with
  | system => exact absurd rfl hsystem
  | user =>
    have hne : content ≠ [] := huser rfl
    simp [replayedPieces, messagePieces, hne]
  | assistant =>
    have hsorted : sorted content = content := hturn rfl
    simp [replayedPieces, messagePieces, hsorted]
  | tool => rfl

theorem flatMap_replayed (hsystem : ∀ m ∈ messages, m.role ≠ .system)
    (huser : ∀ m ∈ messages, m.role = .user → m.content ≠ [])
    (hturn : ∀ m ∈ messages, m.role = .assistant → sorted m.content = m.content) :
    messages.flatMap replayedPieces = pieces messages :=
  flatMap_congr (fun m hm => replayedPieces_of (hsystem m hm) (huser m hm) (hturn m hm))

theorem systemTexts_eq_nil (h : ∀ m ∈ messages, m.role ≠ .system) : systemTexts messages = [] := by
  rw [systemTexts, filter_eq_nil_iff.mpr]
  · rfl
  · simpa using h

theorem Replays.replayed_eq (h : Replays messages) :
    replayed messages = pieces messages := by
  cases messages with
  | nil => rfl
  | cons m rest =>
    have hrest : rest.flatMap replayedPieces = pieces rest :=
      flatMap_replayed h.first (fun m' hm' => h.user m' (mem_cons_of_mem m hm'))
        (fun m' hm' => h.turn m' (mem_cons_of_mem m hm'))
    have hnone : systemTexts rest = [] := systemTexts_eq_nil h.first
    by_cases hm : m.role = .system
    · rcases h.text m mem_cons_self hm with ⟨text, htext⟩
      have htexts : systemTexts (m :: rest) = text :: systemTexts rest := by
        simp [systemTexts, hm, htext, textOf]
      rw [hnone] at htexts
      have hpieces : messagePieces m = [.system [.text text]] := by
        simp [messagePieces, hm, htext]
      have hreplayed : replayedPieces m = [] := by simp [replayedPieces, hm]
      simp [replayed, htexts, pieces, hpieces, hreplayed] at hrest ⊢
      exact hrest
    · have hall : ∀ m' ∈ m :: rest, m'.role ≠ .system := by
        intro m' hm'
        rcases mem_cons.mp hm' with rfl | hm'
        · exact hm
        · exact h.first m' hm'
      rw [replayed, if_pos (systemTexts_eq_nil hall), nil_append]
      exact flatMap_replayed hall h.user h.turn

/-- Parts of the assistant that are rendered: all but results. -/
def Spoken (messages : List CanonicalMessage) : Prop :=
  ∀ m ∈ messages, m.role = .assistant →
    ∀ p ∈ m.content, isReasoning p = true ∨ textish p = true ∨ isCall p = true

theorem length_sorted {content : List ContentPart}
    (h : ∀ p ∈ content, isReasoning p = true ∨ textish p = true ∨ isCall p = true) :
    (sorted content).length = content.length := by
  unfold sorted
  induction content with
  | nil => rfl
  | cons p rest ih =>
    have hrest := ih (fun q hq => h q (mem_cons_of_mem p hq))
    have hp := h p mem_cons_self
    simp only [length_append] at hrest ⊢
    cases p with
    | toolResult => simp [isReasoning, textish, isCall] at hp
    | _ => grind [isReasoning, textish, isCall]

theorem flatMap_inj_of_length {α β : Type} {f g : α → List β} {l : List α}
    (hlength : ∀ a ∈ l, (f a).length = (g a).length) (h : l.flatMap f = l.flatMap g) :
    ∀ a ∈ l, f a = g a := by
  induction l with
  | nil =>
    nofun
  | cons a rest ih =>
    have hsplit := append_inj h (hlength a mem_cons_self)
    intro b hb
    rcases mem_cons.mp hb with rfl | hb
    · exact hsplit.1
    · exact ih (fun c hc => hlength c (mem_cons_of_mem a hc)) hsplit.2 b hb

theorem filter_pieces (messages : List CanonicalMessage) :
    (pieces messages).filter (fun p => p.role = .system)
      = (messages.filter (fun m => m.role = .system)).map (fun m => Piece.system m.content) := by
  induction messages with
  | nil => rfl
  | cons m rest ih =>
    have hcons : pieces (m :: rest) = messagePieces m ++ pieces rest := rfl
    rw [hcons, filter_append, ih]
    by_cases hm : m.role = .system
    · simp [hm, messagePieces, Piece.role]
    · have hnone : (messagePieces m).filter (fun p => p.role = .system) = [] := by
        rw [filter_eq_nil_iff]
        intro p hp
        simpa [role_of_mem hp] using hm
      simp [hm, hnone]

theorem role_of_mem_replayed {p : Piece} (h : p ∈ replayedPieces m) :
    p.role ≠ .system ∧ p ≠ .user [] := by
  rcases m with ⟨role, content⟩
  cases role with
  | system => cases h
  | user =>
    cases content with
    | nil => cases h
    | cons q rest =>
      rw [mem_singleton.mp h]
      simp [Piece.role]
  | assistant =>
    rcases mem_map.mp h with ⟨q, -, rfl⟩
    simp [Piece.role]
  | tool =>
    rw [mem_singleton.mp h]
    simp [Piece.role]

theorem user_of_eq (heq : replayed messages = pieces messages) :
    ∀ m ∈ messages, m.role = .user → m.content ≠ [] := by
  intro m hm hrole hnil
  have hmem : Piece.user [] ∈ replayed messages := by
    rw [heq]
    exact mem_flatMap.mpr ⟨m, hm, by simp [messagePieces, hrole, hnil]⟩
  rcases mem_append.mp hmem with hfront | hrest
  · grind
  · rcases mem_flatMap.mp hrest with ⟨m', -, hm'⟩
    exact (role_of_mem_replayed hm').2 rfl

theorem length_replayedPieces (hsystem : m.role ≠ .system) (huser : m.role = .user → m.content ≠ [])
    (hspoken : m.role = .assistant →
      ∀ p ∈ m.content, isReasoning p = true ∨ textish p = true ∨ isCall p = true) :
    (replayedPieces m).length = (messagePieces m).length := by
  rcases m with ⟨role, content⟩
  cases role with
  | system => exact absurd rfl hsystem
  | user =>
    have hne : content ≠ [] := huser rfl
    simp [replayedPieces, messagePieces, hne]
  | assistant => simp [replayedPieces, messagePieces, length_sorted (hspoken rfl)]
  | tool => rfl

theorem turns_of_eq (hsystem : ∀ m ∈ messages, m.role ≠ .system)
    (huser : ∀ m ∈ messages, m.role = .user → m.content ≠ []) (hspoken : Spoken messages)
    (heq : messages.flatMap replayedPieces = pieces messages) :
    ∀ m ∈ messages, m.role = .assistant → sorted m.content = m.content := by
  intro m hm hrole
  have hpieces := flatMap_inj_of_length
    (fun m hm => length_replayedPieces (hsystem m hm) (huser m hm) (hspoken m hm)) heq m hm
  have hinj : Function.Injective Piece.part := by
    rintro p q ⟨⟩
    rfl
  simp only [replayedPieces, messagePieces, hrole] at hpieces
  exact map_injective_iff.mpr hinj hpieces

theorem front_of_eq (hgrouped : Grouped messages) (heq : replayed messages = pieces messages)
    (hsome : systemTexts messages ≠ []) :
    ∃ m rest text, messages = m :: rest ∧ m.role = .system ∧ m.content = [.text text]
      ∧ (∀ m' ∈ rest, m'.role ≠ .system) ∧ rest.flatMap replayedPieces = pieces rest := by
  have hnosystem : (messages.flatMap replayedPieces).filter (fun p => p.role = .system) = [] := by
    rw [filter_eq_nil_iff]
    intro p hp
    rcases mem_flatMap.mp hp with ⟨m, -, hm⟩
    simpa using (role_of_mem_replayed hm).1
  have hsystem := congrArg (List.filter (fun p => decide (p.role = .system))) heq
  rw [replayed, if_neg hsome] at heq
  rw [filter_pieces, replayed, if_neg hsome, filter_append, hnosystem, append_nil]
    at hsystem
  cases messages with
  | nil => exact absurd rfl hsome
  | cons m rest =>
    have hm : m.role = .system := by
      have hhead := hgrouped.head_pieces
      rw [← heq] at hhead
      exact (Option.some.inj hhead).symm
    have hcons : pieces (m :: rest) = [.system m.content] ++ pieces rest := by
      simp [pieces, messagePieces, hm]
    simp only [Piece.role, decide_true, filter_cons_of_pos, filter_nil, hm,
      map_cons, List.cons.injEq, Piece.system.injEq] at hsystem
    refine ⟨m, rest, _, rfl, hm, hsystem.1.symm, ?_, ?_⟩
    · intro m' hm' hrole
      have hnone := map_eq_nil_iff.mp hsystem.2.symm
      rw [filter_eq_nil_iff] at hnone
      exact hnone m' hm' (decide_eq_true hrole)
    · grind [replayedPieces]

theorem replays_of_eq (hgrouped : Grouped messages) (hspoken : Spoken messages)
    (heq : replayed messages = pieces messages) :
    Replays messages := by
  have huser := user_of_eq heq
  by_cases hnone : systemTexts messages = []
  · have hsystem : ∀ m ∈ messages, m.role ≠ .system := by
      intro m hm hrole
      have hfilter := map_eq_nil_iff.mp hnone
      rw [filter_eq_nil_iff] at hfilter
      exact hfilter m hm (decide_eq_true hrole)
    rw [replayed, if_pos hnone, nil_append] at heq
    exact ⟨fun m hm => hsystem m (mem_of_mem_tail hm),
      fun m hm hrole => absurd hrole (hsystem m hm), huser, turns_of_eq hsystem huser hspoken heq⟩
  · rcases front_of_eq hgrouped heq hnone with ⟨m, rest, text, rfl, hm, htext, hrest, hsame⟩
    have hturns := turns_of_eq hrest (fun m' hm' => huser m' (mem_cons_of_mem m hm'))
      (fun m' hm' => hspoken m' (mem_cons_of_mem m hm')) hsame
    refine ⟨hrest, ?_, huser, ?_⟩
    · grind
    · grind

/-- A conversation is left as it was, exactly if nothing in it is moved. -/
theorem replayed_eq_iff (hgrouped : Grouped messages) (hspoken : Spoken messages) :
    replayed messages = pieces messages ↔ Replays messages :=
  ⟨replays_of_eq hgrouped hspoken, Replays.replayed_eq⟩

end Order

section Kinds

variable {p : Piece} {messages : List CanonicalMessage} {one : Bool}

inductive PieceKind where
  | system (oneText : Bool)
  | user (empty : Bool)
  | reasoning
  | text
  | call
  | result
  deriving DecidableEq

def PieceKind.rank : PieceKind → Option Nat
  | .reasoning => some 0
  | .text => some 1
  | .call => some 2
  | _ => none

/-- Two neighbours in the order of a turn, or of different turns. -/
def PieceKind.follows (a b : PieceKind) : Bool :=
  match a.rank, b.rank with
  | some i, some j => decide (i ≤ j)
  | _, _ => true

structure TurnOrder (kinds : List PieceKind) : Prop where
  first : ∀ k ∈ kinds.tail, ∀ oneText, k ≠ .system oneText
  text : .system false ∉ kinds
  user : .user true ∉ kinds
  turn : kinds.IsChain (fun a b => a.follows b = true)

def partKind : ContentPart → PieceKind
  | .text _ => .text
  | .imageUrl _ => .text
  | .toolUse .. => .call
  | .toolResult .. => .result
  | .reasoning _ => .reasoning

def oneText : List ContentPart → Bool
  | [.text _] => true
  | _ => false

def Piece.kind : Piece → PieceKind
  | .system parts => .system (oneText parts)
  | .user parts => .user parts.isEmpty
  | .part p => partKind p
  | .result _ => .result

theorem rank_of_chain {i : Nat} {k : PieceKind} {kinds : List PieceKind}
    (hchain : (k :: kinds).IsChain (fun a b => a.follows b = true)) (hk : k.rank = some i)
    (hranks : ∀ k' ∈ kinds, k'.rank.isSome = true) :
    ∀ k' ∈ kinds, ∀ j, k'.rank = some j → i ≤ j := by
  induction kinds generalizing i k with
  | nil =>
    nofun
  | cons k2 rest ih =>
    rcases isChain_cons_cons.mp hchain with ⟨hfollows, hrest⟩
    rcases Option.isSome_iff_exists.mp (hranks k2 mem_cons_self) with ⟨j2, hj2⟩
    have hle : i ≤ j2 := by simpa [PieceKind.follows, hk, hj2] using hfollows
    intro k' hk' j hj
    rcases mem_cons.mp hk' with rfl | hk'
    · rw [hj2] at hj
      cases hj
      exact hle
    · have hnext := ih hrest hj2 (fun k3 hk3 => hranks k3 (mem_cons_of_mem k2 hk3))
      exact Nat.le_trans hle (hnext k' hk' j hj)

theorem chain_sorted (content : List ContentPart) :
    ((sorted content).map partKind).IsChain (fun a b => a.follows b = true) := by
  have hreasoning : ∀ p ∈ content.filter isReasoning, partKind p = .reasoning := by
    intro p hp
    have hp := (mem_filter.mp hp).2
    cases p <;> first | rfl | cases hp
  have htext : ∀ p ∈ content.filter textish, partKind p = .text := by
    intro p hp
    have hp := (mem_filter.mp hp).2
    cases p <;> first | rfl | cases hp
  have hcall : ∀ p ∈ content.filter isCall, partKind p = .call := by
    intro p hp
    have hp := (mem_filter.mp hp).2
    cases p <;> first | rfl | cases hp
  rw [isChain_map]
  refine List.Pairwise.isChain ?_
  rw [sorted, pairwise_append, pairwise_append]
  refine ⟨⟨?_, ?_, ?_⟩, ?_, ?_⟩
  · refine pairwise_of_forall_mem_list (fun p hp q hq => ?_)
    rw [hreasoning p hp, hreasoning q hq]
    rfl
  · refine pairwise_of_forall_mem_list (fun p hp q hq => ?_)
    rw [htext p hp, htext q hq]
    rfl
  · intro p hp q hq
    rw [hreasoning p hp, htext q hq]
    rfl
  · refine pairwise_of_forall_mem_list (fun p hp q hq => ?_)
    rw [hcall p hp, hcall q hq]
    rfl
  · intro p hp q hq
    rw [hcall q hq]
    rcases mem_append.mp hp with hp | hp
    · rw [hreasoning p hp]
      rfl
    · rw [htext p hp]
      rfl

/-- What is in order is not moved. -/
theorem sorted_of_chain {content : List ContentPart}
    (h : ∀ p ∈ content, isReasoning p = true ∨ textish p = true ∨ isCall p = true)
    (hchain : (content.map partKind).IsChain (fun a b => a.follows b = true)) :
    sorted content = content := by
  induction content with
  | nil => rfl
  | cons p rest ih =>
    have hrest := fun q hq => h q (mem_cons_of_mem p hq)
    have hsorted := ih hrest hchain.tail
    have hranks : ∀ k ∈ rest.map partKind, k.rank.isSome = true := by
      intro k hk
      rcases mem_map.mp hk with ⟨q, hq, rfl⟩
      have hq := hrest q hq
      cases q <;> simp [isReasoning, textish, isCall] at hq <;> rfl
    -- Nothing of a lower rank follows the first part.
    have hlower : ∀ i, (partKind p).rank = some i → ∀ q ∈ rest, ∀ j,
        (partKind q).rank = some j → i ≤ j :=
      fun i hi q hq => rank_of_chain hchain hi hranks (partKind q) (mem_map_of_mem hq)
    have hnone : ∀ (kind : ContentPart → Bool) i j, (partKind p).rank = some i → j < i →
        (∀ q, kind q = true → (partKind q).rank = some j) → rest.filter kind = [] := by
      intro kind i j hi hj hkind
      rw [filter_eq_nil_iff]
      intro q hq hkq
      exact absurd (hlower i hi q hq j (hkind q hkq)) (Nat.not_le.mpr hj)
    have hreasoning : ∀ q, isReasoning q = true → (partKind q).rank = some 0 := by
      intro q hq
      cases q <;> first | rfl | cases hq
    have htext : ∀ q, textish q = true → (partKind q).rank = some 1 := by
      intro q hq
      cases q <;> first | rfl | cases hq
    have hp := h p mem_cons_self
    unfold sorted at hsorted ⊢
    cases p with
    | reasoning raw => simpa [filter_cons, isReasoning, textish, isCall] using hsorted
    | toolUse id name arguments =>
      rw [hnone isReasoning 2 0 rfl (by decide) hreasoning,
        hnone textish 2 1 rfl (by decide) htext] at hsorted
      simpa [filter_cons, isReasoning, textish, isCall,
        hnone isReasoning 2 0 rfl (by decide) hreasoning,
        hnone textish 2 1 rfl (by decide) htext] using hsorted
    | toolResult id content => simp [isReasoning, textish, isCall] at hp
    | _ =>
      rw [hnone isReasoning 1 0 rfl (by decide) hreasoning] at hsorted
      simpa [filter_cons, isReasoning, textish, isCall,
        hnone isReasoning 1 0 rfl (by decide) hreasoning] using hsorted

theorem sorted_eq_iff {content : List ContentPart}
    (h : ∀ p ∈ content, isReasoning p = true ∨ textish p = true ∨ isCall p = true) :
    sorted content = content
      ↔ (content.map partKind).IsChain (fun a b => a.follows b = true) := by
  refine ⟨fun hsorted => ?_, sorted_of_chain h⟩
  rw [← hsorted]
  exact chain_sorted content

theorem rank_of_role (h : p.role ≠ .assistant) : p.kind.rank = none := by
  cases p with
  | part q => exact absurd rfl h
  | _ => rfl

theorem chain_pieces_iff (hgrouped : Grouped messages) :
    ((pieces messages).map Piece.kind).IsChain (fun a b => a.follows b = true)
      ↔ ∀ m ∈ messages, m.role = .assistant →
        (m.content.map partKind).IsChain (fun a b => a.follows b = true) := by
  have hflatten : (pieces messages).map Piece.kind
      = (messages.map (fun m => (messagePieces m).map Piece.kind)).flatten := by
    rw [pieces, map_flatMap, flatMap_def]
  have hnonempty : [] ∉ messages.map (fun m => (messagePieces m).map Piece.kind) := by
    intro hnil
    rcases mem_map.mp hnil with ⟨m, hm, hpieces⟩
    exact messagePieces_ne_nil (hgrouped.nonempty m hm) (map_eq_nil_iff.mp hpieces)
  -- Between two turns there is always someone else.
  have hbetween : (messages.map (fun m => (messagePieces m).map Piece.kind)).IsChain
      (fun l l' => ∀ x ∈ l.getLast?, ∀ y ∈ l'.head?, PieceKind.follows x y = true) := by
    rw [isChain_map]
    refine hgrouped.apart.imp (fun a b hapart x hx y hy => ?_)
    rcases mem_map.mp (mem_of_getLast? hx) with ⟨p, hp, rfl⟩
    rcases mem_map.mp (mem_of_head? hy) with ⟨q, hq, rfl⟩
    unfold PieceKind.follows
    by_cases ha : a.role = .assistant
    · have hb : q.role ≠ .assistant := by
        rw [role_of_mem hq]
        exact fun hb => hapart ⟨ha, hb⟩
      rw [rank_of_role hb]
      cases p.kind.rank <;> rfl
    · rw [rank_of_role (by rw [role_of_mem hp]; exact ha)]
  rw [hflatten, isChain_flatten hnonempty, and_iff_left hbetween]
  simp only [mem_map, forall_exists_index, and_imp, forall_apply_eq_imp_iff₂]
  refine forall₂_congr (fun m _ => ?_)
  rcases m with ⟨role, content⟩
  cases role with
  | assistant => simp [messagePieces, Piece.kind, Function.comp_def]
  | _ => simp [messagePieces]

theorem oneText_iff (parts : List ContentPart) :
    oneText parts = true ↔ ∃ text, parts = [.text text] := by
  rcases parts with _ | ⟨p, _ | ⟨q, rest⟩⟩
  · simp [oneText]
  · cases p <;> simp [oneText]
  · cases p <;> simp [oneText]

theorem kind_eq_system :
    p.kind = .system one ↔ ∃ parts, p = .system parts ∧ oneText parts = one := by
  cases p with
  | part q => cases q <;> simp [Piece.kind, partKind]
  | _ => simp [Piece.kind]

theorem kind_eq_user : p.kind = .user true ↔ p = .user [] := by
  cases p with
  | part q => cases q <;> simp [Piece.kind, partKind]
  | _ => simp [Piece.kind]

theorem mem_kinds_system :
    PieceKind.system one ∈ (pieces messages).map Piece.kind
      ↔ ∃ m ∈ messages, m.role = .system ∧ oneText m.content = one := by
  simp only [mem_map, kind_eq_system]
  constructor
  · rintro ⟨_, hp, parts, rfl, hone⟩
    rcases mem_flatMap.mp hp with ⟨m, hm, hpm⟩
    have hrole := role_of_mem hpm
    rcases m with ⟨role, content⟩
    cases hrole
    cases mem_singleton.mp hpm
    exact ⟨_, hm, rfl, hone⟩
  · rintro ⟨m, hm, hrole, hone⟩
    refine ⟨.system m.content, mem_flatMap.mpr ⟨m, hm, ?_⟩, m.content, rfl, hone⟩
    simp [messagePieces, hrole]

theorem mem_kinds_user :
    PieceKind.user true ∈ (pieces messages).map Piece.kind
      ↔ ∃ m ∈ messages, m.role = .user ∧ m.content = [] := by
  simp only [mem_map, kind_eq_user]
  constructor
  · rintro ⟨_, hp, rfl⟩
    rcases mem_flatMap.mp hp with ⟨m, hm, hpm⟩
    have hrole := role_of_mem hpm
    rcases m with ⟨role, content⟩
    cases hrole
    cases mem_singleton.mp hpm
    exact ⟨_, hm, rfl, rfl⟩
  · rintro ⟨m, hm, hrole, hnil⟩
    refine ⟨.user [], mem_flatMap.mpr ⟨m, hm, ?_⟩, rfl⟩
    simp [messagePieces, hrole, hnil]

theorem mem_tail_kinds_system (h : Grouped messages) :
    PieceKind.system one ∈ ((pieces messages).map Piece.kind).tail
      ↔ ∃ m ∈ messages.tail, m.role = .system ∧ oneText m.content = one := by
  cases messages with
  | nil => simp [pieces]
  | cons m rest =>
    have hne := messagePieces_ne_nil (h.nonempty m mem_cons_self)
    rcases exists_cons_of_ne_nil hne with ⟨p, ps, hps⟩
    have htail : ((pieces (m :: rest)).map Piece.kind).tail
        = ps.map Piece.kind ++ (pieces rest).map Piece.kind := by
      simp [pieces, hps]
    have hrest : PieceKind.system one ∉ ps.map Piece.kind := by
      grind [kind_eq_system, role_of_mem, messagePieces]
    rw [htail, mem_append, or_iff_right hrest, mem_kinds_system]
    rfl

theorem replays_iff (hgrouped : Grouped messages) (hspoken : Spoken messages) :
    Replays messages ↔ TurnOrder ((pieces messages).map Piece.kind) := by
  constructor
  · intro h
    refine ⟨?_, ?_, ?_, ?_⟩
    · rintro _ hk one rfl
      rcases (mem_tail_kinds_system hgrouped).mp hk with ⟨m, hm, hrole, -⟩
      exact h.first m hm hrole
    · intro hk
      rcases mem_kinds_system.mp hk with ⟨m, hm, hrole, hone⟩
      rw [(oneText_iff m.content).mpr (h.text m hm hrole)] at hone
      cases hone
    · intro hk
      rcases mem_kinds_user.mp hk with ⟨m, hm, hrole, hnil⟩
      exact h.user m hm hrole hnil
    · rw [chain_pieces_iff hgrouped]
      intro m hm hrole
      exact (sorted_eq_iff (hspoken m hm hrole)).mp (h.turn m hm hrole)
  · intro h
    refine ⟨?_, ?_, ?_, ?_⟩
    · intro m hm hrole
      exact h.first _ ((mem_tail_kinds_system hgrouped).mpr ⟨m, hm, hrole, rfl⟩) _ rfl
    · intro m hm hrole
      rw [← oneText_iff]
      by_contra hone
      exact h.text (mem_kinds_system.mpr ⟨m, hm, hrole, eq_false_of_ne_true hone⟩)
    · intro m hm hrole hnil
      exact h.user (mem_kinds_user.mpr ⟨m, hm, hrole, hnil⟩)
    · intro m hm hrole
      exact (sorted_eq_iff (hspoken m hm hrole)).mpr
        ((chain_pieces_iff hgrouped).mp h.turn m hm hrole)

end Kinds

end Waygate.Llm
