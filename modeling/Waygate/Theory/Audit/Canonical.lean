import Waygate.Core.Audit.HashChain

/-!
# The Row Encoding Is Injective

Distinct audit rows have distinct canonical bytes. The six tails are not delimited,
since an absent one writes nothing; they are peeled in order, as each sentinel is
distinct from every one that may come after it.

## Main definitions

* `AuditColumns.Sized`, `SameColumns`

## Theorems

* `head_delimits`, `tailBytes_inj`, `canonicalAuditBytesWithExt5_injective`
-/

namespace Waygate.Audit

open Codec

/-- Every length the encoder writes for the row fits in 64 bits. -/
structure AuditColumns.Sized (c : AuditColumns) : Prop where
  category : StrSized c.category
  tenant : StrSized c.tenant
  action : StrSized c.action
  outcome : StrSized c.outcome
  principalSub : OptSized c.principalSub
  principalEmail : OptSized c.principalEmail
  principalGroups : VecSized c.principalGroups
  issuer : OptSized c.issuer
  server : OptSized c.server
  tool : OptSized c.tool
  riskLevel : OptSized c.riskLevel
  policyIds : VecSized c.policyIds
  reason : OptSized c.reason
  traceId : OptSized c.traceId
  scimGroups : VecSized c.scimGroups
  target : OptSized c.target
  reqScopes : VecSized c.reqScopes
  authMethod : OptSized c.authMethod
  reqRoles : VecSized c.reqRoles
  actingAgent : OptSized c.actingAgent
  operation : OptSized c.operation

/-- Two rows agree in every column, timestamps compared at the microsecond. -/
def SameColumns (c d : AuditColumns) : Prop :=
  c.ts.unixMicros = d.ts.unixMicros ∧ { c with ts := d.ts } = d

theorem delimits_str : Delimits StrSized Eq writeRequiredStr :=
  delimits_sizedStr

theorem writeOptStr_eq : writeOptStr = marked 'N'.toUInt8 'S'.toUInt8 writeRequiredStr := by
  funext o
  cases o with
  | none => rfl
  | some v => rfl

theorem delimits_optStr : Delimits OptSized Eq writeOptStr := by
  rw [writeOptStr_eq]
  exact delimits_marked (by decide) delimits_str

theorem delimits_optBool (P : Option Bool → Prop) : Delimits P Eq writeOptBool := by
  refine delimits_of_length 1 (fun b => ?_) (fun a b _ _ h => ?_)
  · rcases b with _ | _ | _ <;> rfl
  · rcases a with _ | _ | _ <;> rcases b with _ | _ | _ <;> first | rfl | exact absurd h (by decide)

theorem delimits_i64 : Delimits (fun _ => True) Eq i64ToLeBytes := by
  refine delimits_of_length 8 (fun v => leBytes_length 8 _) (fun a b _ _ h => ?_)
  have hnat : a.toBitVec.toNat = b.toBitVec.toNat :=
    leBytes_inj 8 _ _ (lt_of_lt_of_eq a.toBitVec.isLt (by decide))
      (lt_of_lt_of_eq b.toBitVec.isLt (by decide)) h
  exact Int64.toBitVec_inj.mp (BitVec.eq_of_toNat_eq hnat)

theorem writeOptI64_eq : writeOptI64 = marked 'N'.toUInt8 'S'.toUInt8 i64ToLeBytes := by
  funext o
  cases o with
  | none => rfl
  | some v => rfl

theorem delimits_optI64 (P : Option Int64 → Prop) : Delimits P Eq writeOptI64 := by
  intro a b _ _ r s h
  rw [writeOptI64_eq] at h
  exact delimits_marked (by decide) delimits_i64 a b (fun _ _ => trivial) (fun _ _ => trivial) r s h

theorem delimits_strVec : Delimits VecSized Eq writeStrVec :=
  delimits_counted delimits_u64 delimits_str

theorem delimits_uuid (P : Uuid → Prop) : Delimits P Eq uuidAsBytes :=
  delimits_of_length 16 uuidAsBytes_length (fun a b _ _ h => uuidAsBytes_inj a b h)

theorem delimits_u32 (P : NonZeroU32 → Prop) : Delimits P Eq u32ToLeBytes := by
  refine delimits_of_length 4 (fun v => leBytes_length 4 _) (fun a b _ _ h => ?_)
  have hnat : a.val.toNat = b.val.toNat :=
    leBytes_inj 4 _ _ (lt_of_lt_of_eq a.val.toNat_lt (by decide))
      (lt_of_lt_of_eq b.val.toNat_lt (by decide)) h
  exact Subtype.ext (UInt32.toNat_inj.mp hnat)

theorem delimits_ts (P : OffsetDateTime → Prop) :
    Delimits P (fun s t => s.unixMicros = t.unixMicros)
      (fun t => i128ToLeBytes t.unixMicros) := by
  refine delimits_of_length 16 (fun t => leBytes_length 16 _) (fun a b _ _ h => ?_)
  have hnat := leBytes_inj 16 _ _ (lt_of_lt_of_eq (BitVec.isLt _) (by decide))
    (lt_of_lt_of_eq (BitVec.isLt _) (by decide)) h
  have hint := congrArg BitVec.toInt (BitVec.eq_of_toNat_eq hnat)
  have ha := a.unixMicros_bounds
  have hb := b.unixMicros_bounds
  rw [BitVec.toInt_ofInt, BitVec.toInt_ofInt, Int.bmod_eq_of_le (by omega) (by omega),
    Int.bmod_eq_of_le (by omega) (by omega)] at hint
  exact hint

def headBytes (c : AuditColumns) : List UInt8 :=
  asBytes "audit-v1" ++ uuidAsBytes c.id ++ i128ToLeBytes c.ts.unixMicros
    ++ writeRequiredStr c.category ++ writeRequiredStr c.tenant
    ++ writeRequiredStr c.action ++ writeRequiredStr c.outcome
    ++ writeOptStr c.principalSub ++ writeOptStr c.principalEmail
    ++ writeStrVec c.principalGroups ++ writeOptStr c.issuer
    ++ writeOptStr c.server ++ writeOptStr c.tool ++ writeOptStr c.riskLevel
    ++ writeOptBool c.pii ++ writeStrVec c.policyIds ++ writeOptStr c.reason
    ++ writeOptStr c.traceId ++ writeOptI64 c.latencyMs

structure SameHead (c d : AuditColumns) : Prop where
  id : c.id = d.id
  ts : c.ts.unixMicros = d.ts.unixMicros
  category : c.category = d.category
  tenant : c.tenant = d.tenant
  action : c.action = d.action
  outcome : c.outcome = d.outcome
  principalSub : c.principalSub = d.principalSub
  principalEmail : c.principalEmail = d.principalEmail
  principalGroups : c.principalGroups = d.principalGroups
  issuer : c.issuer = d.issuer
  server : c.server = d.server
  tool : c.tool = d.tool
  riskLevel : c.riskLevel = d.riskLevel
  pii : c.pii = d.pii
  policyIds : c.policyIds = d.policyIds
  reason : c.reason = d.reason
  traceId : c.traceId = d.traceId
  latencyMs : c.latencyMs = d.latencyMs

/-- The fixed part determines its columns, and where it ends. -/
theorem head_delimits : Delimits AuditColumns.Sized SameHead headBytes := by
  have htag : Delimits AuditColumns.Sized (fun _ _ => True) (fun _ => asBytes "audit-v1") :=
    delimits_of_length _ (fun _ => rfl) (fun _ _ _ _ _ => trivial)
  -- The fields in the order they are written, each determining its column.
  have h := delimits_field htag (delimits_uuid fun _ => True) AuditColumns.id fun _ _ => trivial
  have h := delimits_field h (delimits_ts fun _ => True) AuditColumns.ts fun _ _ => trivial
  have h := delimits_field h delimits_str AuditColumns.category fun _ hc => hc.category
  have h := delimits_field h delimits_str AuditColumns.tenant fun _ hc => hc.tenant
  have h := delimits_field h delimits_str AuditColumns.action fun _ hc => hc.action
  have h := delimits_field h delimits_str AuditColumns.outcome fun _ hc => hc.outcome
  have h := delimits_field h delimits_optStr AuditColumns.principalSub fun _ hc => hc.principalSub
  have h := delimits_field h delimits_optStr AuditColumns.principalEmail
    fun _ hc => hc.principalEmail
  have h := delimits_field h delimits_strVec AuditColumns.principalGroups
    fun _ hc => hc.principalGroups
  have h := delimits_field h delimits_optStr AuditColumns.issuer fun _ hc => hc.issuer
  have h := delimits_field h delimits_optStr AuditColumns.server fun _ hc => hc.server
  have h := delimits_field h delimits_optStr AuditColumns.tool fun _ hc => hc.tool
  have h := delimits_field h delimits_optStr AuditColumns.riskLevel fun _ hc => hc.riskLevel
  have h := delimits_field h (delimits_optBool fun _ => True) AuditColumns.pii fun _ _ => trivial
  have h := delimits_field h delimits_strVec AuditColumns.policyIds fun _ hc => hc.policyIds
  have h := delimits_field h delimits_optStr AuditColumns.reason fun _ hc => hc.reason
  have h := delimits_field h delimits_optStr AuditColumns.traceId fun _ hc => hc.traceId
  have h := delimits_field h (delimits_optI64 fun _ => True) AuditColumns.latencyMs
    fun _ _ => trivial
  intro c d hc hd r s hrs
  rcases h c d hc hd r s hrs with ⟨⟨⟨⟨⟨⟨⟨⟨⟨⟨⟨⟨⟨⟨⟨⟨⟨⟨⟨-, h1⟩, h2⟩, h3⟩, h4⟩, h5⟩, h6⟩, h7⟩, h8⟩,
    h9⟩, h10⟩, h11⟩, h12⟩, h13⟩, h14⟩, h15⟩, h16⟩, h17⟩, h18⟩, hrest⟩
  exact ⟨⟨h1, h2, h3, h4, h5, h6, h7, h8, h9, h10, h11, h12, h13, h14, h15, h16, h17, h18⟩, hrest⟩

def scimInputs (c : AuditColumns) : Option (Option Bool × List String) :=
  if c.scimActive.isSome || !c.scimGroups.isEmpty then some (c.scimActive, c.scimGroups) else none

def decisionInputs (c : AuditColumns) :
    Option (List String × Option String × List String × Option Bool) :=
  if !c.reqScopes.isEmpty || c.authMethod.isSome || !c.reqRoles.isEmpty || c.sideEffects.isSome
  then some (c.reqScopes, c.authMethod, c.reqRoles, c.sideEffects) else none

def scimBytes (x : Option Bool × List String) : List UInt8 :=
  writeOptBool x.1 ++ writeStrVec x.2

def decisionBytes (x : List String × Option String × List String × Option Bool) : List UInt8 :=
  writeStrVec x.1 ++ writeOptStr x.2.1 ++ writeStrVec x.2.2.1 ++ writeOptBool x.2.2.2

def hierarchyBytes (h : InvocationHierarchy) : List UInt8 :=
  uuidAsBytes h.parentExecutionId ++ u32ToLeBytes h.step ++ uuidAsBytes h.callId
    ++ u32ToLeBytes h.attempt

variable (c : AuditColumns)

theorem canonicalAuditBytesWithExt2_eq :
    canonicalAuditBytesWithExt2 c = headBytes c ++ tail 'X'.toUInt8 scimBytes (scimInputs c)
      ++ tail 'T'.toUInt8 writeRequiredStr c.target
      ++ tail 'D'.toUInt8 decisionBytes (decisionInputs c) := by
  have hX : tail 'X'.toUInt8 scimBytes (scimInputs c)
      = (if c.scimActive.isSome || !c.scimGroups.isEmpty then
          'X'.toUInt8 :: (writeOptBool c.scimActive ++ writeStrVec c.scimGroups) else []) := by
    unfold scimInputs
    split <;> rfl
  have hD : tail 'D'.toUInt8 decisionBytes (decisionInputs c)
      = (if !c.reqScopes.isEmpty || c.authMethod.isSome || !c.reqRoles.isEmpty
            || c.sideEffects.isSome then
          'D'.toUInt8 :: (writeStrVec c.reqScopes ++ writeOptStr c.authMethod
            ++ writeStrVec c.reqRoles ++ writeOptBool c.sideEffects) else []) := by
    unfold decisionInputs
    split <;> rfl
  rw [hX, hD]
  unfold canonicalAuditBytesWithExt2
  cases c.target <;> rfl

def tailBytes (c : AuditColumns) : List UInt8 :=
  tail 'X'.toUInt8 scimBytes (scimInputs c)
    ++ (tail 'T'.toUInt8 writeRequiredStr c.target
    ++ (tail 'D'.toUInt8 decisionBytes (decisionInputs c)
    ++ (tail 'A'.toUInt8 writeRequiredStr c.actingAgent
    ++ (tail 'H'.toUInt8 hierarchyBytes c.invocationHierarchy
    ++ tail 'P'.toUInt8 writeRequiredStr c.operation))))

theorem canonicalAuditBytesWithExt5_eq :
    canonicalAuditBytesWithExt5 c = headBytes c ++ tailBytes c := by
  have hA : canonicalAuditBytesWithExt3 c = canonicalAuditBytesWithExt2 c
      ++ tail 'A'.toUInt8 writeRequiredStr c.actingAgent := by
    unfold canonicalAuditBytesWithExt3
    cases c.actingAgent <;> rfl
  have hH : canonicalAuditBytesWithExt4 c = canonicalAuditBytesWithExt3 c
      ++ tail 'H'.toUInt8 hierarchyBytes c.invocationHierarchy := by
    unfold canonicalAuditBytesWithExt4
    cases c.invocationHierarchy <;> rfl
  have hP : canonicalAuditBytesWithExt5 c = canonicalAuditBytesWithExt4 c
      ++ tail 'P'.toUInt8 writeRequiredStr c.operation := by
    unfold canonicalAuditBytesWithExt5
    cases c.operation <;> rfl
  rw [hP, hH, hA, canonicalAuditBytesWithExt2_eq]
  simp [tailBytes]

theorem delimits_scim :
    Delimits (fun x : Option Bool × List String => VecSized x.2) Eq scimBytes := by
  have h := delimits_append
    (delimits_comap (delimits_optBool fun _ => True) Prod.fst fun _ _ => trivial)
    (delimits_comap delimits_strVec Prod.snd
      fun (x : Option Bool × List String) (hx : VecSized x.2) => hx)
  intro a b ha hb r s hrs
  rcases h a b ha hb r s hrs with ⟨⟨h1, h2⟩, hrest⟩
  exact ⟨Prod.ext h1 h2, hrest⟩

theorem delimits_decision :
    Delimits (fun x : List String × Option String × List String × Option Bool =>
      VecSized x.1 ∧ OptSized x.2.1 ∧ VecSized x.2.2.1) Eq decisionBytes := by
  intro a b ha hb r s hrs
  simp only [decisionBytes, List.append_assoc] at hrs
  rcases delimits_strVec _ _ ha.1 hb.1 _ _ hrs with ⟨h1, hrs⟩
  rcases delimits_optStr _ _ ha.2.1 hb.2.1 _ _ hrs with ⟨h2, hrs⟩
  rcases delimits_strVec _ _ ha.2.2 hb.2.2 _ _ hrs with ⟨h3, hrs⟩
  rcases delimits_optBool (fun _ => True) _ _ trivial trivial _ _ hrs with ⟨h4, hrs⟩
  exact ⟨Prod.ext h1 (Prod.ext h2 (Prod.ext h3 h4)), hrs⟩

theorem delimits_hierarchy : Delimits (fun _ => True) Eq hierarchyBytes := by
  intro a b _ _ r s hrs
  simp only [hierarchyBytes, List.append_assoc] at hrs
  rcases delimits_uuid (fun _ => True) _ _ trivial trivial _ _ hrs with ⟨h1, hrs⟩
  rcases delimits_u32 (fun _ => True) _ _ trivial trivial _ _ hrs with ⟨h2, hrs⟩
  rcases delimits_uuid (fun _ => True) _ _ trivial trivial _ _ hrs with ⟨h3, hrs⟩
  rcases delimits_u32 (fun _ => True) _ _ trivial trivial _ _ hrs with ⟨h4, hrs⟩
  refine ⟨?_, hrs⟩
  cases a
  cases b
  simp only at h1 h2 h3 h4
  rw [h1, h2, h3, h4]

variable (c d : AuditColumns)

/-- What is written unless it is the default is known from what is written. -/
theorem eq_of_written {α : Type} {p : α → Bool} {d x y : α} (hd : ∀ x, p x = false → x = d)
    (h : (if p x then some x else none) = if p y then some y else none) : x = y := by
  by_cases hx : p x = true
  · grind
  · rw [hd x (eq_false_of_ne_true hx)] at h ⊢
    grind

theorem scimInputs_inj (h : scimInputs c = scimInputs d) :
    c.scimActive = d.scimActive ∧ c.scimGroups = d.scimGroups := by
  refine Prod.mk.inj (eq_of_written (d := (none, []))
    (p := fun x : Option Bool × List String => x.1.isSome || !x.2.isEmpty) (fun x hx => ?_) h)
  simpa [Prod.ext_iff] using hx

theorem decisionInputs_inj (h : decisionInputs c = decisionInputs d) :
    c.reqScopes = d.reqScopes ∧ c.authMethod = d.authMethod ∧ c.reqRoles = d.reqRoles
      ∧ c.sideEffects = d.sideEffects := by
  have heq : (c.reqScopes, c.authMethod, c.reqRoles, c.sideEffects)
      = (d.reqScopes, d.authMethod, d.reqRoles, d.sideEffects) := eq_of_written
    (d := ([], none, [], none))
    (p := fun x : List String × Option String × List String × Option Bool =>
      !x.1.isEmpty || x.2.1.isSome || !x.2.2.1.isEmpty || x.2.2.2.isSome)
    (fun x hx => by simpa [Prod.ext_iff, and_assoc] using hx) h
  simpa only [Prod.mk.injEq] using heq

theorem scimInputs_sized (hc : c.Sized) :
    ∀ x ∈ scimInputs c, VecSized x.2 := by
  intro x hx
  rw [← Option.some.inj (Option.ite_none_right_eq_some.mp hx).2]
  exact hc.scimGroups

theorem decisionInputs_sized (hc : c.Sized) :
    ∀ x ∈ decisionInputs c, VecSized x.1 ∧ OptSized x.2.1 ∧ VecSized x.2.2.1 := by
  intro x hx
  rw [← Option.some.inj (Option.ite_none_right_eq_some.mp hx).2]
  exact ⟨hc.reqScopes, hc.authMethod, hc.reqRoles⟩

theorem nil_head (u : UInt8) : ([] : List UInt8).head? ≠ some u := by
  simp

structure SameTails (c d : AuditColumns) : Prop where
  scimActive : c.scimActive = d.scimActive
  scimGroups : c.scimGroups = d.scimGroups
  target : c.target = d.target
  reqScopes : c.reqScopes = d.reqScopes
  authMethod : c.authMethod = d.authMethod
  reqRoles : c.reqRoles = d.reqRoles
  sideEffects : c.sideEffects = d.sideEffects
  actingAgent : c.actingAgent = d.actingAgent
  invocationHierarchy : c.invocationHierarchy = d.invocationHierarchy
  operation : c.operation = d.operation

/-- The tails are determined by their bytes. -/
theorem tailBytes_inj (hc : c.Sized) (hd : d.Sized)
    (h : tailBytes c = tailBytes d) : SameTails c d := by
  rw [tailBytes, tailBytes, ← List.append_nil (tail _ _ c.operation),
    ← List.append_nil (tail _ _ d.operation)] at h
  -- What is left after a tail leads with one of the later sentinels, if at all.
  have hafter : ∀ e : AuditColumns, ∀ u ∈ ['X'.toUInt8, 'T'.toUInt8, 'D'.toUInt8, 'A'.toUInt8,
      'H'.toUInt8], (tail 'P'.toUInt8 writeRequiredStr e.operation ++ []).head? ≠ some u := by
    intro e u hu
    exact tail_head _ _ _ _ _ (fun hpu => by rw [← hpu] at hu; exact absurd hu (by decide))
      (nil_head u)
  rcases tail_peel delimits_scim (scimInputs_sized c hc) (scimInputs_sized d hd)
    (by iterate 4 apply tail_head _ _ _ _ _ (by decide)
        exact hafter c _ (by decide))
    (by iterate 4 apply tail_head _ _ _ _ _ (by decide)
        exact hafter d _ (by decide)) h with ⟨hX, h⟩
  rcases tail_peel delimits_str hc.target hd.target
    (by iterate 3 apply tail_head _ _ _ _ _ (by decide)
        exact hafter c _ (by decide))
    (by iterate 3 apply tail_head _ _ _ _ _ (by decide)
        exact hafter d _ (by decide)) h with ⟨hT, h⟩
  rcases tail_peel delimits_decision (decisionInputs_sized c hc) (decisionInputs_sized d hd)
    (by iterate 2 apply tail_head _ _ _ _ _ (by decide)
        exact hafter c _ (by decide))
    (by iterate 2 apply tail_head _ _ _ _ _ (by decide)
        exact hafter d _ (by decide)) h with ⟨hD, h⟩
  rcases tail_peel delimits_str hc.actingAgent hd.actingAgent
    (tail_head _ _ _ _ _ (by decide) (hafter c _ (by decide)))
    (tail_head _ _ _ _ _ (by decide) (hafter d _ (by decide))) h with ⟨hA, h⟩
  rcases tail_peel delimits_hierarchy (fun _ _ => trivial) (fun _ _ => trivial)
    (hafter c _ (by decide)) (hafter d _ (by decide)) h with ⟨hH, h⟩
  rcases tail_peel delimits_str hc.operation hd.operation (nil_head _) (nil_head _) h with ⟨hP, -⟩
  rcases scimInputs_inj c d hX with ⟨hX1, hX2⟩
  rcases decisionInputs_inj c d hD with ⟨hD1, hD2, hD3, hD4⟩
  exact ⟨hX1, hX2, hT, hD1, hD2, hD3, hD4, hA, hH, hP⟩

theorem sameColumns_of_parts (hhead : SameHead c d)
    (htails : SameTails c d) : SameColumns c d := by
  refine ⟨hhead.ts, ?_⟩
  cases c
  cases d
  cases hhead
  cases htails
  simp_all

/-- Equal canonical bytes come from rows that agree in every column. -/
theorem canonicalAuditBytesWithExt5_injective (c d : AuditColumns) (hc : c.Sized) (hd : d.Sized)
    (h : canonicalAuditBytesWithExt5 c = canonicalAuditBytesWithExt5 d) : SameColumns c d := by
  rw [canonicalAuditBytesWithExt5_eq, canonicalAuditBytesWithExt5_eq] at h
  rcases head_delimits c d hc hd _ _ h with ⟨hhead, htails⟩
  exact sameColumns_of_parts c d hhead (tailBytes_inj c d hc hd htails)

def tailedColumns (nanos : Fin 1000) : AuditColumns :=
  { id := 0x1234
    ts :=
      { unixTimestampNanos := nanos.val
        lower := by omega
        upper := by omega }
    category := "invocation"
    tenant := "default"
    action := "CallTool"
    outcome := "success"
    principalSub := some "alice@example.com"
    principalEmail := none
    principalGroups := ["mcp-users"]
    issuer := none
    server := some "example-messages"
    tool := some "send"
    riskLevel := some "high"
    pii := some false
    policyIds := []
    reason := none
    traceId := none
    latencyMs := some 42
    scimActive := none
    scimGroups := ["admins"]
    target := some ""
    reqScopes := []
    authMethod := none
    reqRoles := []
    sideEffects := none
    actingAgent := none
    invocationHierarchy := none
    operation := some "delete" }

theorem tailedColumns_sized (nanos : Fin 1000) : (tailedColumns nanos).Sized := by
  constructor <;> simp only [tailedColumns, StrSized, OptSized, VecSized] <;> decide

theorem canonicalAuditBytesWithExt5_injective_tailed :
    tailedColumns 1 ≠ tailedColumns 999 ∧ SameColumns (tailedColumns 1) (tailedColumns 999) :=
  ⟨by decide, canonicalAuditBytesWithExt5_injective (tailedColumns 1) (tailedColumns 999)
    (tailedColumns_sized 1) (tailedColumns_sized 999) rfl⟩

theorem canonicalAuditBytesWithExt5_congr (h : SameColumns c d) :
    canonicalAuditBytesWithExt5 c = canonicalAuditBytesWithExt5 d := by
  rcases h with ⟨hts, hcols⟩
  rw [← hcols]
  unfold canonicalAuditBytesWithExt5 canonicalAuditBytesWithExt4 canonicalAuditBytesWithExt3
    canonicalAuditBytesWithExt2
  simp only [hts]

end Waygate.Audit
