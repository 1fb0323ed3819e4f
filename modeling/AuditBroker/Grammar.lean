import AuditBroker.Request
import AuditBroker.Foundation.JsonText

/-!
# The request grammar

`Accepts root req` is the grammar of the five requests, shape by shape, together with the request
that stands for the object: every field of it is the JSON member of that name, and the fields of the
other shapes are empty.  `rab_parse_request` accepts exactly the shallow objects of the grammar.
-/

namespace AuditBroker

open Foundation

/-! ## The grammar -/

/-- A value of a field type; null is one of every type, and a number is not negative.  The real
with this bit pattern is negative zero, smaller patterns are the positive reals. -/
inductive HasType : FieldType → Json → Prop where
  | null (t : FieldType) : HasType t .null
  | string (s : Bytes) : HasType .string (.str s)
  | bool (b : Bool) : HasType .bool (.bool b)
  | int {n : ℤ} (h : 0 ≤ n) : HasType .number (.int n)
  | real {bits : UInt64} (h : bits ≤ 0x8000000000000000) : HasType .number (.real bits)
  | object (ms : Members) : HasType .object (.obj ms)

/-- The members have no other names than these. -/
def Named (ms : Members) (names : List String) : Prop := ∀ kv ∈ ms, kv.1 ∈ names

/-- A client record. -/
structure IsRecord (ms : Members) : Prop where
  fields : ∀ kv ∈ ms, ∃ f ∈ recordSchema, f.key = kv.1 ∧ HasType f.type kv.2
  operation : ∃ v, member? ms "operation" = some v ∧ v ≠ .null
  outcome : ∃ v, member? ms "outcome" = some v ∧ v ≠ .null

/-- The `effect` object of an `open_intent` request. -/
structure OpenEffect (ms : Members) (planHash : Buf hex64Max) : Prop where
  names : Named ms ["required", "plan_schema", "plan_hash"]
  required_eq : member? ms "required" = some (.bool true)
  planSchema_eq : member? ms "plan_schema" = some (.int 1)
  planHash_eq : member? ms "plan_hash" = some (.str planHash.bytes)
  hex : isHexLcN 64 planHash.bytes = true

/-- The `effect` object of a `redeem_receipt` request. -/
structure PresentedEffect (ms : Members) (verb resource : Buf requestStrMax)
    (planHash : Buf hex64Max) : Prop where
  names : Named ms ["operation", "resource", "plan_schema", "plan_hash"]
  operation_eq : member? ms "operation" = some (.str verb.bytes)
  resource_eq : member? ms "resource" = some (.str resource.bytes)
  planSchema_eq : member? ms "plan_schema" = some (.int 1)
  planHash_eq : member? ms "plan_hash" = some (.str planHash.bytes)
  hex : isHexLcN 64 planHash.bytes = true

/-- The grammar of the five requests.  A `Buf n` holds fewer than `n` bytes. -/
inductive Accepts (root : Members) : Request → Prop where
  | openIntent {record : Members}
    (htype : member? root "type" = some (.str (lit "open_intent")))
    (hnames : Named root ["type", "record", "effect"])
    (hmember : member? root "record" = some (.obj record)) (hvalid : IsRecord record)
    (heffect : member? root "effect" = none) :
    Accepts root { type := .openIntent, record }
  | openEffect {record effect : Members} {planHash : Buf hex64Max}
    (htype : member? root "type" = some (.str (lit "open_intent")))
    (hnames : Named root ["type", "record", "effect"])
    (hmember : member? root "record" = some (.obj record)) (hvalid : IsRecord record)
    (heffect : member? root "effect" = some (.obj effect)) (hshape : OpenEffect effect planHash) :
    Accepts root { type := .openIntent, record, effectPresent := true, effectPlanSchema := 1,
                   effectPlanHash := planHash }
  | writeOutcome {record : Members} {binding : Buf requestStrMax}
    (htype : member? root "type" = some (.str (lit "write_outcome")))
    (hnames : Named root ["type", "binding", "record"])
    (hbinding : member? root "binding" = some (.str binding.bytes))
    (hmember : member? root "record" = some (.obj record)) (hvalid : IsRecord record) :
    Accepts root { type := .writeOutcome, binding, record }
  | emit {record : Members} {phase : Buf 16}
    (htype : member? root "type" = some (.str (lit "emit")))
    (hnames : Named root ["type", "phase", "record"])
    (hphase : member? root "phase" = some (.str phase.bytes))
    (heither : phase.bytes = lit "preview" ∨ phase.bytes = lit "noop")
    (hmember : member? root "record" = some (.obj record)) (hvalid : IsRecord record)
    (hissued : member? record "effect_issued" ≠ some (.bool true)) :
    Accepts root { type := .emit, phase, record }
  | capabilities
    (htype : member? root "type" = some (.str (lit "capabilities")))
    (hnames : Named root ["type"]) :
    Accepts root { type := .capabilities }
  | redeem {effect : Members} {token : Buf receiptMax} {principal : UInt32}
    {verb resource : Buf requestStrMax} {planHash : Buf hex64Max}
    (htype : member? root "type" = some (.str (lit "redeem_receipt")))
    (hnames : Named root ["type", "effect_receipt", "principal_uid", "effect"])
    (htoken : member? root "effect_receipt" = some (.str token.bytes))
    (hhex : isHexLcN 32 token.bytes = true)
    (hprincipal : member? root "principal_uid" = some (.int principal.toNat))
    (heffect : member? root "effect" = some (.obj effect))
    (hshape : PresentedEffect effect verb resource planHash) :
    Accepts root { type := .redeem, effectReceipt := token, redeemPrincipalUid := principal,
                   redeemVerb := verb, redeemResource := resource, redeemPlanSchema := 1,
                   redeemPlanHash := planHash }

/-! ## The checks of the parser -/

section Checks

variable {ms root : Members} {k : String}

end Checks

/-! ## Acceptance -/

section Shapes

variable {root : Members} {req : Request}

end Shapes

namespace Sample

end Sample

end AuditBroker
