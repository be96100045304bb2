import Waygate.Theory.Codec.Delimited

/-!
# Primitive Values

The scalar values of the modelled code, as far as it can tell them apart. A timestamp is
its distance from the Unix epoch in nanoseconds with the range the `time` crate keeps
every value in.

## Main definitions

* `truncMicros`
* `Uuid`, `OffsetDateTime`, `NonZeroU32`: Identifiers, timestamps and counts.

## Theorems

* `unixMicros_bounds`: Microsecond timestamps fit far inside 128 bits.
* `truncMicros_unixMicros`: Truncating to microseconds keeps the microseconds.
* `delimits_sizedStr`: A text after its length can be read back.
-/

namespace Waygate

/-- A 128-bit identifier. `Uuid::from_u128` is the literal. -/
abbrev Uuid := BitVec 128

/-- `Uuid::as_bytes`: the sixteen big-endian bytes. -/
def uuidAsBytes (u : Uuid) : List UInt8 :=
  (Codec.leBytes 16 u.toNat).reverse

theorem uuidAsBytes_length (u : Uuid) : (uuidAsBytes u).length = 16 := by
  rw [uuidAsBytes, List.length_reverse, Codec.leBytes_length]

theorem uuidAsBytes_inj (u v : Uuid) (h : uuidAsBytes u = uuidAsBytes v) : u = v := by
  apply BitVec.eq_of_toNat_eq
  refine Codec.leBytes_inj 16 _ _ ?_ ?_ (List.reverse_injective h)
  · exact lt_of_lt_of_eq u.isLt (by decide)
  · exact lt_of_lt_of_eq v.isLt (by decide)

/-- An instant in nanoseconds since the Unix epoch, in the range the `time`
    crate represents (years -9999 to 9999). -/
structure OffsetDateTime where
  unixTimestampNanos : Int
  lower : -377705116800000000000 ≤ unixTimestampNanos
  upper : unixTimestampNanos ≤ 253402300799999999999
  deriving DecidableEq

namespace OffsetDateTime

@[ext] theorem ext {s t : OffsetDateTime} (h : s.unixTimestampNanos = t.unixTimestampNanos) :
    s = t := by
  cases s
  cases t
  cases h
  rfl

def unixEpoch : OffsetDateTime :=
  { unixTimestampNanos := 0, lower := by decide, upper := by decide }

/-- `unix_timestamp_nanos() / 1_000`: whole microseconds, rounded toward zero. -/
def unixMicros (t : OffsetDateTime) : Int :=
  t.unixTimestampNanos.tdiv 1000

theorem unixMicros_eq (t : OffsetDateTime) :
    t.unixMicros = if 0 ≤ t.unixTimestampNanos then t.unixTimestampNanos / 1000
      else -(-t.unixTimestampNanos / 1000) := by
  unfold unixMicros
  by_cases h : 0 ≤ t.unixTimestampNanos
  · rw [if_pos h, Int.tdiv_eq_ediv_of_nonneg h]
  · rw [if_neg h, ← Int.tdiv_eq_ediv_of_nonneg (by omega : 0 ≤ -t.unixTimestampNanos),
      Int.neg_tdiv, Int.neg_neg]

theorem unixMicros_bounds (t : OffsetDateTime) :
    -377705116800000000 ≤ t.unixMicros ∧ t.unixMicros ≤ 253402300799999999 := by
  have hl := t.lower
  have hu := t.upper
  rw [unixMicros_eq]
  by_cases h : 0 ≤ t.unixTimestampNanos
  · rw [if_pos h]
    omega
  · rw [if_neg h]
    omega

/-- The instant at its whole microsecond, which is what a `TIMESTAMPTZ`
    column holds. -/
def truncMicros (t : OffsetDateTime) : OffsetDateTime :=
  { unixTimestampNanos := t.unixMicros * 1000
    lower := by have := (unixMicros_bounds t).1; omega
    upper := by have := (unixMicros_bounds t).2; omega }

theorem truncMicros_unixMicros (t : OffsetDateTime) :
    t.truncMicros.unixMicros = t.unixMicros := by
  show (t.unixMicros * 1000).tdiv 1000 = t.unixMicros
  exact Int.mul_tdiv_cancel _ (by decide)

end OffsetDateTime

abbrev NonZeroU32 := { n : UInt32 // n ≠ 0 }

/-- `str::as_bytes`: the UTF-8 bytes of a string. -/
def asBytes (s : String) : List UInt8 :=
  s.toByteArray.data.toList

theorem asBytes_length (s : String) : (asBytes s).length = s.utf8ByteSize := by
  rw [asBytes, Array.length_toList, ByteArray.size_data, String.size_toByteArray]

theorem asBytes_inj (s t : String) (h : asBytes s = asBytes t) : s = t := by
  have hdata : s.toByteArray.data = t.toByteArray.data := Array.toList_inj.mp h
  exact String.toByteArray_inj.mp (ByteArray.ext hdata)

theorem asBytes_append (s t : String) : asBytes (s ++ t) = asBytes s ++ asBytes t := by
  simp only [asBytes, String.toByteArray_append, ByteArray.data_append, Array.toList_append]

inductive RiskTier where
  | low
  | medium
  | high
  deriving DecidableEq

def RiskTier.asStr : RiskTier → String
  | .low => "low"
  | .medium => "medium"
  | .high => "high"

/-- The Unicode property `White_Space`. -/
def whiteSpace (c : Char) : Bool :=
  let n := c.toNat
  (9 ≤ n && n ≤ 13) || n == 0x20 || n == 0x85 || n == 0xA0 || n == 0x1680
    || (0x2000 ≤ n && n ≤ 0x200A) || n == 0x2028 || n == 0x2029 || n == 0x202F || n == 0x205F
    || n == 0x3000

/-- `(n as u64).to_le_bytes()`. -/
def u64ToLeBytes (n : Nat) : List UInt8 :=
  Codec.leBytes 8 (n % 2 ^ 64)

theorem delimits_u64 : Codec.Delimits (fun n => n < 2 ^ 64) Eq u64ToLeBytes := by
  intro a b ha hb r s h
  simp only [u64ToLeBytes, Nat.mod_eq_of_lt ha, Nat.mod_eq_of_lt hb] at h
  exact Codec.delimits_leBytes 8 a b (lt_of_lt_of_eq ha (by decide)) (lt_of_lt_of_eq hb (by decide))
    r s h

/-- Nanoseconds below a microsecond are numbered from zero. -/
instance neZeroThousand : NeZero 1000 :=
  ⟨by decide⟩

def StrSized (s : String) : Prop :=
  s.utf8ByteSize < 2 ^ 64

instance (s : String) : Decidable (StrSized s) :=
  inferInstanceAs (Decidable (s.utf8ByteSize < 2 ^ 64))

def OptSized (o : Option String) : Prop :=
  ∀ s ∈ o, StrSized s

/-- A list of strings whose count and lengths all fit in 64 bits. -/
def VecSized (l : List String) : Prop :=
  l.length < 2 ^ 64 ∧ ∀ s ∈ l, StrSized s

theorem delimits_sizedStr :
    Codec.Delimits StrSized Eq (fun s => u64ToLeBytes s.utf8ByteSize ++ asBytes s) := by
  intro a b ha hb r s h
  simp only [← asBytes_length] at h
  have hlen : ∀ v, StrSized v → (asBytes v).length < 2 ^ 64 := fun v hv => by
    rw [asBytes_length]
    exact hv
  rcases Codec.delimits_prefixed delimits_u64 (asBytes a) (asBytes b) (hlen a ha) (hlen b hb) r s h
    with ⟨hab, hrs⟩
  exact ⟨asBytes_inj a b hab, hrs⟩

end Waygate
