import Waygate.Core.Primitive

/-!
# Canonical Audit Bytes

The bytes of an audit row that the tamper-evidence chain hashes over, and the hash, from
`hashchain.rs`. The extensions added after the first release are tails, without a byte
when they are absent, which keeps an older row hashing as it did. The digest is a
parameter.

## Main definitions

* `AuditColumns`, `canonicalAuditBytesWithExt5`, `canonicalAuditBytes`, `computeRowHash`
-/

namespace Waygate.Audit

structure InvocationHierarchy where
  parentExecutionId : Uuid
  step : NonZeroU32
  callId : Uuid
  attempt : NonZeroU32
  deriving DecidableEq

/-- The columns of an audit row that its hash covers, in the order of the
    encoder's parameters. -/
structure AuditColumns where
  id : Uuid
  ts : OffsetDateTime
  category : String
  tenant : String
  action : String
  outcome : String
  principalSub : Option String
  principalEmail : Option String
  principalGroups : List String
  issuer : Option String
  server : Option String
  tool : Option String
  riskLevel : Option String
  pii : Option Bool
  policyIds : List String
  reason : Option String
  traceId : Option String
  latencyMs : Option Int64
  scimActive : Option Bool
  scimGroups : List String
  target : Option String
  reqScopes : List String
  authMethod : Option String
  reqRoles : List String
  sideEffects : Option Bool
  actingAgent : Option String
  invocationHierarchy : Option InvocationHierarchy
  operation : Option String
  deriving DecidableEq

/-- `i64::to_le_bytes`: the two's-complement bytes. -/
def i64ToLeBytes (v : Int64) : List UInt8 :=
  Codec.leBytes 8 v.toBitVec.toNat

/-- `i128::to_le_bytes`. -/
def i128ToLeBytes (v : Int) : List UInt8 :=
  Codec.leBytes 16 (BitVec.ofInt 128 v).toNat

/-- `NonZeroU32::get().to_le_bytes()`. -/
def u32ToLeBytes (v : NonZeroU32) : List UInt8 :=
  Codec.leBytes 4 v.val.toNat

def writeRequiredStr (s : String) : List UInt8 :=
  u64ToLeBytes s.utf8ByteSize ++ asBytes s

def writeOptStr (s : Option String) : List UInt8 :=
  match s with
  | none => ['N'.toUInt8]
  | some v => 'S'.toUInt8 :: (u64ToLeBytes v.utf8ByteSize ++ asBytes v)

def writeOptBool (b : Option Bool) : List UInt8 :=
  match b with
  | some true => ['t'.toUInt8]
  | some false => ['f'.toUInt8]
  | none => ['N'.toUInt8]

def writeOptI64 (n : Option Int64) : List UInt8 :=
  match n with
  | none => ['N'.toUInt8]
  | some v => 'S'.toUInt8 :: i64ToLeBytes v

def writeStrVec (vs : List String) : List UInt8 :=
  u64ToLeBytes vs.length ++ vs.flatMap (fun s => u64ToLeBytes s.utf8ByteSize ++ asBytes s)

def canonicalAuditBytesWithExt2 (c : AuditColumns) : List UInt8 :=
  asBytes "audit-v1" ++ uuidAsBytes c.id ++ i128ToLeBytes c.ts.unixMicros
    ++ writeRequiredStr c.category ++ writeRequiredStr c.tenant
    ++ writeRequiredStr c.action ++ writeRequiredStr c.outcome
    ++ writeOptStr c.principalSub ++ writeOptStr c.principalEmail
    ++ writeStrVec c.principalGroups ++ writeOptStr c.issuer
    ++ writeOptStr c.server ++ writeOptStr c.tool ++ writeOptStr c.riskLevel
    ++ writeOptBool c.pii ++ writeStrVec c.policyIds ++ writeOptStr c.reason
    ++ writeOptStr c.traceId ++ writeOptI64 c.latencyMs
    ++ (if c.scimActive.isSome || !c.scimGroups.isEmpty then
          'X'.toUInt8 :: (writeOptBool c.scimActive ++ writeStrVec c.scimGroups)
        else [])
    ++ (match c.target with
        | some t => 'T'.toUInt8 :: writeRequiredStr t
        | none => [])
    -- Any one decision input present writes all four.
    ++ (if !c.reqScopes.isEmpty || c.authMethod.isSome || !c.reqRoles.isEmpty
            || c.sideEffects.isSome then
          'D'.toUInt8 :: (writeStrVec c.reqScopes ++ writeOptStr c.authMethod
            ++ writeStrVec c.reqRoles ++ writeOptBool c.sideEffects)
        else [])

def canonicalAuditBytesWithExt3 (c : AuditColumns) : List UInt8 :=
  canonicalAuditBytesWithExt2 c
    ++ (match c.actingAgent with
        | some a => 'A'.toUInt8 :: writeRequiredStr a
        | none => [])

def canonicalAuditBytesWithExt4 (c : AuditColumns) : List UInt8 :=
  canonicalAuditBytesWithExt3 c
    ++ (match c.invocationHierarchy with
        | some h => 'H'.toUInt8 :: (uuidAsBytes h.parentExecutionId ++ u32ToLeBytes h.step
            ++ uuidAsBytes h.callId ++ u32ToLeBytes h.attempt)
        | none => [])

/-- The operation extension appended to the row encoding: the full encoding
    the recorder and the verifier both use. -/
def canonicalAuditBytesWithExt5 (c : AuditColumns) : List UInt8 :=
  canonicalAuditBytesWithExt4 c
    ++ (match c.operation with
        | some o => 'P'.toUInt8 :: (u64ToLeBytes o.utf8ByteSize ++ asBytes o)
        | none => [])

/-- The encoding that predates the decision inputs. -/
def canonicalAuditBytesWithExt (c : AuditColumns) : List UInt8 :=
  canonicalAuditBytesWithExt2
    { c with reqScopes := [], authMethod := none, reqRoles := [], sideEffects := none }

/-- The encoding that predates the target column. -/
def canonicalAuditBytesWithScim (c : AuditColumns) : List UInt8 :=
  canonicalAuditBytesWithExt { c with target := none }

/-- The first release's encoding, which retention markers still use. -/
def canonicalAuditBytes (c : AuditColumns) : List UInt8 :=
  canonicalAuditBytesWithScim { c with scimActive := none, scimGroups := [] }

def hexDigit (n : Nat) : Char :=
  if n < 10 then Char.ofNat (48 + n) else Char.ofNat (87 + n)

/-- `{byte:02x}` for every byte in turn. -/
def hexEncode (digest : List UInt8) : String :=
  String.ofList (digest.flatMap (fun b => [hexDigit (b.toNat / 16), hexDigit (b.toNat % 16)]))

section

variable (sha256 : List UInt8 → List UInt8)

/-- The chain hash of a row: the digest of the predecessor's hash, a zero
    byte, and the row's canonical bytes, in hexadecimal. -/
def computeRowHash (prevHash : Option String) (auditBytes : List UInt8) : String :=
  hexEncode (sha256 (asBytes (prevHash.getD "") ++ [0] ++ auditBytes))

end

end Waygate.Audit
