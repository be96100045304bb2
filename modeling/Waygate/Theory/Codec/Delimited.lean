import Mathlib.Algebra.Order.Ring.Nat
import Mathlib.Data.List.Basic
import Mathlib.Logic.Function.Basic

/-!
# Delimited Encodings

When a byte string made by writing one field after another determines every field.
`Delimits` is the statement that composes: the bytes of a value, followed by *anything*,
determine both the value and what follows. The relation is a parameter because each
field determines one projection of a row, and the domain because a length is only
recovered when it fits its bytes.

## Main definitions

* `Delimits`, `leBytes`

## Theorems

* `tail_peel`
* `delimits_append`, `delimits_field`: Fields in turn.
* `delimits_marked`, `delimits_prefixed`, `delimits_counted`: Options, texts and lists.
-/

namespace Waygate.Codec

open List

variable {α β γ : Type*}

/-- The bytes of a value, followed by anything, determine the value up to
    `R` and determine exactly what followed. -/
def Delimits (P : α → Prop) (R : α → α → Prop) (enc : α → List γ) : Prop :=
  ∀ a b, P a → P b → ∀ r s, enc a ++ r = enc b ++ s → R a b ∧ r = s

variable {P : α → Prop} {R S : α → α → Prop} {enc : α → List γ}

theorem Delimits.imp (h : Delimits P R enc) (himp : ∀ a b, P a → P b → R a b → S a b) :
    Delimits P S enc :=
  fun a b ha hb r s hrs => And.imp_left (himp a b ha hb) (h a b ha hb r s hrs)

/-- One field after another. -/
theorem delimits_append {f g : α → List γ} (hf : Delimits P R f) (hg : Delimits P S g) :
    Delimits P (fun a b => R a b ∧ S a b) (fun a => f a ++ g a) := by grind [Delimits]

theorem delimits_comap (h : Delimits P R enc) {Q : β → Prop} (f : β → α) (hQ : ∀ b, Q b → P (f b)) :
    Delimits Q (fun a b => R (f a) (f b)) (fun b => enc (f b)) :=
  fun a b ha hb r s hrs => h (f a) (f b) (hQ a ha) (hQ b hb) r s hrs

theorem delimits_field {P : β → Prop} {R : β → β → Prop} {f : β → List γ} (h : Delimits P R f)
    {Q : α → Prop} (henc : Delimits Q S enc) (field : β → α) (hfield : ∀ b, P b → Q (field b)) :
    Delimits P (fun a b => R a b ∧ S (field a) (field b))
      (fun b => f b ++ enc (field b)) :=
  delimits_append h (delimits_comap henc field hfield)

/-- A field of fixed length. -/
theorem delimits_of_length (w : Nat) (hlen : ∀ a, (enc a).length = w)
    (hinj : ∀ a b, P a → P b → enc a = enc b → R a b) : Delimits P R enc := by
  intro a b ha hb r s h
  have hab : (enc a).length = (enc b).length := by rw [hlen, hlen]
  rcases append_inj h hab with ⟨henc, hrs⟩
  exact ⟨hinj a b ha hb henc, hrs⟩

/-- A presence mark, `n` for absent and `s` for present, then the value when
    there is one. -/
def marked (n s : γ) (enc : α → List γ) : Option α → List γ
  | none => [n]
  | some a => s :: enc a

theorem delimits_marked {n s : γ} (hne : n ≠ s) (h : Delimits P Eq enc) :
    Delimits (fun o : Option α => ∀ a ∈ o, P a) Eq (marked n s enc) := by
  intro a b ha hb r t hrt
  cases a with
  | none =>
    cases b with
    | none => exact ⟨rfl, (List.cons.inj hrt).2⟩
    | some y => exact absurd (List.cons.inj hrt).1 hne
  | some x =>
    cases b with
    | none => exact absurd (List.cons.inj hrt).1.symm hne
    | some y =>
      rcases h x y (ha x rfl) (hb y rfl) r t (List.cons.inj hrt).2 with ⟨hxy, hrest⟩
      exact ⟨congrArg some hxy, hrest⟩

theorem delimits_prefixed {P : Nat → Prop} {len : Nat → List γ} (hlen : Delimits P Eq len) :
    Delimits (fun l : List γ => P l.length) Eq (fun l => len l.length ++ l) := by
  intro a b ha hb r s h
  rw [append_assoc, append_assoc] at h
  rcases hlen a.length b.length ha hb _ _ h with ⟨hab, hrest⟩
  exact append_inj hrest hab

theorem flatMap_peel (h : Delimits P Eq enc) :
    ∀ (a b : List α), a.length = b.length → (∀ x ∈ a, P x) → (∀ x ∈ b, P x) →
      ∀ r s, a.flatMap enc ++ r = b.flatMap enc ++ s → a = b ∧ r = s := by
  intro a
  induction a with
  | nil => grind
  | cons x xs ih =>
    intro b hlen ha hb r s hrs
    cases b with
    | nil => exact absurd hlen (Nat.succ_ne_zero _)
    | cons y ys =>
      simp only [flatMap_cons, append_assoc] at hrs
      rcases h x y (ha x mem_cons_self) (hb y mem_cons_self) _ _ hrs with
        ⟨hxy, hrest⟩
      rcases ih ys (Nat.succ.inj hlen) (fun z hz => ha z (mem_cons_of_mem x hz))
        (fun z hz => hb z (mem_cons_of_mem y hz)) r s hrest with ⟨hxs, hrs'⟩
      exact ⟨by rw [hxy, hxs], hrs'⟩

theorem delimits_counted {N : Nat → Prop} {len : Nat → List γ} (hlen : Delimits N Eq len)
    (henc : Delimits P Eq enc) :
    Delimits (fun l : List α => N l.length ∧ ∀ a ∈ l, P a) Eq
      (fun l => len l.length ++ l.flatMap enc) := by
  intro a b ha hb r s h
  rw [append_assoc, append_assoc] at h
  rcases hlen a.length b.length ha.1 hb.1 _ _ h with ⟨hab, hrest⟩
  exact flatMap_peel henc a b hab ha.2 hb.2 r s hrest

theorem delimits_terminated (t : γ) :
    Delimits (fun l : List γ => t ∉ l) Eq (fun l => l ++ [t]) := by
  intro a
  induction a with
  | nil =>
    intro b _ hb r s h
    cases b with
    | nil => exact ⟨rfl, (List.cons.inj h).2⟩
    | cons y ys => exact absurd ((List.cons.inj h).1 ▸ mem_cons_self) hb
  | cons x xs ih =>
    intro b ha hb r s h
    cases b with
    | nil => exact absurd ((List.cons.inj h).1.symm ▸ mem_cons_self) ha
    | cons y ys => grind

theorem delimits_closed (h : Delimits P Eq enc) {t : γ}
    (ht : ∀ a r, P a → (enc a ++ r).head? ≠ some t) :
    Delimits (fun l : List α => ∀ a ∈ l, P a) Eq (fun l => l.flatMap enc ++ [t]) := by
  intro a
  induction a with
  | nil =>
    intro b _ hb r s hrs
    cases b with
    | nil => exact ⟨rfl, (List.cons.inj hrs).2⟩
    | cons y ys =>
      simp only [flatMap_cons, append_assoc] at hrs
      exact absurd (congrArg List.head? hrs).symm (ht y _ (hb y mem_cons_self))
  | cons x xs ih =>
    intro b ha hb r s hrs
    cases b with
    | nil =>
      simp only [flatMap_cons, append_assoc] at hrs
      exact absurd (congrArg List.head? hrs) (ht x _ (ha x mem_cons_self))
    | cons y ys =>
      simp only [flatMap_cons, append_assoc] at hrs
      rcases h x y (ha x mem_cons_self) (hb y mem_cons_self) _ _ hrs with
        ⟨hxy, hrest⟩
      rw [← append_assoc, ← append_assoc] at hrest
      rcases ih ys (fun z hz => ha z (mem_cons_of_mem x hz))
        (fun z hz => hb z (mem_cons_of_mem y hz)) r s hrest with ⟨hxs, hrs'⟩
      exact ⟨by rw [hxy, hxs], hrs'⟩

theorem run_peel {p : γ → Bool} {a b r s : List γ} (ha : a.all p = true) (hb : b.all p = true)
    (hr : ∀ c ∈ r.head?, p c = false) (hs : ∀ c ∈ s.head?, p c = false)
    (h : a ++ r = b ++ s) : a = b ∧ r = s := by
  have hstop : ∀ l : List γ, (∀ c ∈ l.head?, p c = false) → l.takeWhile p = [] := by
    intro l hl
    cases l with
    | nil => rfl
    | cons c rest => exact takeWhile_cons_of_neg (by simp only [hl c rfl, Bool.false_eq_true,
        not_false_eq_true])
  have hrun := congrArg (List.takeWhile p) h
  rw [takeWhile_append_of_pos (all_eq_true.mp ha),
    takeWhile_append_of_pos (all_eq_true.mp hb), hstop r hr, hstop s hs,
    append_nil, append_nil] at hrun
  rw [hrun] at h
  exact ⟨hrun, append_cancel_left h⟩

/-- An optional tail led by its sentinel; an absent tail writes nothing. -/
def tail (t : γ) (enc : α → List γ) : Option α → List γ
  | none => []
  | some a => t :: enc a

/-- A sentinel-led tail is recognised, presence and content, whenever neither
    remainder can itself lead with the sentinel. -/
theorem tail_peel (henc : Delimits P Eq enc) {t : γ} {x y : Option α} (hx : ∀ a ∈ x, P a)
    (hy : ∀ a ∈ y, P a) {r s : List γ} (hr : r.head? ≠ some t) (hs : s.head? ≠ some t)
    (h : tail t enc x ++ r = tail t enc y ++ s) : x = y ∧ r = s := by
  cases x with
  | none =>
    cases y with
    | none => exact ⟨rfl, h⟩
    | some b =>
      -- The bytes of an absent tail would have to lead with the sentinel.
      have hhead : r = t :: (enc b ++ s) := h
      exact absurd (by rw [hhead]; rfl) hr
  | some a =>
    cases y with
    | none =>
      have hhead : s = t :: (enc a ++ r) := h.symm
      exact absurd (by rw [hhead]; rfl) hs
    | some b =>
      rcases henc a b (hx a rfl) (hy b rfl) r s (List.cons.inj h).2 with ⟨hab, hrs⟩
      exact ⟨congrArg some hab, hrs⟩

theorem tail_head (t : γ) (enc : α → List γ) (x : Option α) (r : List γ) (u : γ)
    (hu : t ≠ u) (hr : r.head? ≠ some u) : (tail t enc x ++ r).head? ≠ some u := by
  cases x with
  | none => exact hr
  | some a => exact fun h => hu (Option.some.inj h)

/-- The `w` little-endian bytes of a number, higher digits dropped. -/
def leBytes : Nat → Nat → List UInt8
  | 0, _ => []
  | w + 1, n => UInt8.ofNat n :: leBytes w (n / 256)

theorem leBytes_length (w n : Nat) : (leBytes w n).length = w := by
  induction w generalizing n with
  | zero => rfl
  | succ v ih => simp [leBytes, ih]

theorem leBytes_inj (w m n : Nat) (hm : m < 256 ^ w) (hn : n < 256 ^ w)
    (h : leBytes w m = leBytes w n) : m = n := by
  induction w generalizing m n with
  | zero =>
    rw [Nat.pow_zero] at hm hn
    omega
  | succ v ih =>
    rw [Nat.pow_succ] at hm hn
    rcases List.cons.inj h with ⟨hlow, hhigh⟩
    have hdiv : m / 256 = n / 256 :=
      ih _ _ (Nat.div_lt_of_lt_mul (by omega)) (Nat.div_lt_of_lt_mul (by omega)) hhigh
    have hmod : m % 256 = n % 256 := by
      have hnat := congrArg UInt8.toNat hlow
      simpa only [UInt8.toNat_ofNat'] using hnat
    omega

theorem delimits_leBytes (w : Nat) : Delimits (fun n => n < 256 ^ w) Eq (leBytes w) :=
  delimits_of_length w (leBytes_length w) (leBytes_inj w)

end Waygate.Codec
