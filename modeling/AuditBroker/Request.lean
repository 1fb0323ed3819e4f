import AuditBroker.Basic

/-!
# Requests and responses

The request grammar of `json.c`: the record schema, the five request shapes and
`rabParseRequest`, which turns a frame body into a `Request` or a typed error.  A `Response` is one
of the broker's reply shapes; `Response.body` is the JSON object the source's response builders
serialise, its members in sorted order.
-/

namespace AuditBroker

open Foundation

/-! ## Error codes and responses -/

/-- The closed set of protocol error codes. -/
inductive ErrCode where
  | badFrame
  | tooLarge
  | badJson
  | unknownRequest
  | schemaInvalid
  | unknownIntent
  | actorMismatch
  | rateLimited
  | persistFailed
  | internal
  | receiptInvalid
  | receiptExpired
  | receiptRedeemed
  | receiptMismatch
  | receiptUnauthorized
  | receiptActorMismatch
  | effectWithoutReceipt
  deriving DecidableEq, Repr

/-- The code as it stands on the wire. -/
def ErrCode.text : ErrCode → String
  | badFrame => "bad_frame"
  | tooLarge => "too_large"
  | badJson => "bad_json"
  | unknownRequest => "unknown_request"
  | schemaInvalid => "schema_invalid"
  | unknownIntent => "unknown_intent"
  | actorMismatch => "actor_mismatch"
  | rateLimited => "rate_limited"
  | persistFailed => "persist_failed"
  | internal => "internal"
  | receiptInvalid => "receipt_invalid"
  | receiptExpired => "receipt_expired"
  | receiptRedeemed => "receipt_redeemed"
  | receiptMismatch => "receipt_mismatch"
  | receiptUnauthorized => "receipt_unauthorized"
  | receiptActorMismatch => "receipt_actor_mismatch"
  | effectWithoutReceipt => "effect_without_receipt"

/-- A reply of the broker. -/
inductive Response where
  /-- `rab_response_open_ok`, with the effect receipt when one was issued. -/
  | openOk (cid : Buf cidMax) (binding : Buf bindingMax) (effectReceipt : Option (Buf receiptMax))
  /-- `rab_response_outcome_ok`. -/
  | outcomeOk
  /-- `rab_response_emit_ok`. -/
  | emitOk (cid : Buf cidMax)
  /-- `rab_response_redeem_ok`. -/
  | redeemOk (cid : Buf cidMax)
  /-- `rab_response_capabilities`. -/
  | capabilities
  /-- `rab_response_error`. -/
  | error (code : ErrCode) (message : String)
  deriving DecidableEq

/-- The JSON object of a reply, its members in sorted order (`JSON_SORT_KEYS`). -/
def Response.body : Response → Json
  | openOk cid binding none =>
    .obj [("audit_scope", .str (lit "system")), ("binding", .str binding.bytes),
      ("correlation_id", .str cid.bytes), ("ok", .bool true), ("persisted", .bool true)]
  | openOk cid binding (some token) =>
    .obj [("audit_scope", .str (lit "system")), ("binding", .str binding.bytes),
      ("correlation_id", .str cid.bytes), ("effect_receipt", .str token.bytes), ("ok", .bool true),
      ("persisted", .bool true)]
  | outcomeOk => .obj [("ok", .bool true), ("persisted", .bool true)]
  | emitOk cid =>
    .obj [("audit_scope", .str (lit "system")), ("correlation_id", .str cid.bytes),
      ("ok", .bool true), ("persisted", .bool true)]
  | redeemOk cid =>
    .obj [("correlation_id", .str cid.bytes), ("ok", .bool true), ("persisted", .bool true)]
  | capabilities =>
    .obj [("extensions", .obj [("effect_receipt", .int 1)]), ("frame_version", .int 1),
      ("ok", .bool true), ("plan_schemas", .arr [.int planSchemaV1]),
      ("record_schema_version", .int recordSchemaVersion)]
  | error code message =>
    .obj [("error", .str (lit code.text)), ("message", .str (lit message)), ("ok", .bool false)]

/-! ## The record schema -/

/-- `field_type`. -/
inductive FieldType where
  | string
  | bool
  | number
  | object

/-- `field_spec`. -/
structure FieldSpec where
  key : String
  type : FieldType
  required : Bool

/-- `RECORD_SCHEMA`: the domain fields a client record may have. -/
def recordSchema : List FieldSpec :=
  [⟨"operation", .string, true⟩, ⟨"outcome", .string, true⟩, ⟨"resource", .string, false⟩,
   ⟨"scope", .string, false⟩, ⟨"audit_scope", .string, false⟩,
   ⟨"authorized_via", .string, false⟩, ⟨"completion_method", .string, false⟩,
   ⟨"job_result", .string, false⟩, ⟨"observed_reason", .string, false⟩,
   ⟨"preview", .bool, false⟩, ⟨"effect_issued", .bool, false⟩, ⟨"changed", .bool, false⟩,
   ⟨"state_changed", .bool, false⟩, ⟨"observed_failed", .bool, false⟩,
   ⟨"elapsed", .number, false⟩, ⟨"observed", .object, false⟩]

/-- `find_field`. -/
def findField (key : String) : Option FieldSpec := recordSchema.find? fun f => f.key == key

/-- `json_number_value(v) >= 0.0`: negative zero counts as zero. -/
def numberNonneg : Json → Bool
  | .int n => 0 ≤ n
  | .real bits => bits < 0x8000000000000000 || bits == 0x8000000000000000
  | _ => false

/-- `type_ok`: null is allowed for every field. -/
def typeOk (t : FieldType) (v : Json) : Bool :=
  v.isNull ||
    match t, v with
    | .string, .str _ => true
    | .bool, .bool _ => true
    | .number, v => numberNonneg v
    | .object, .obj _ => true
    | _, _ => false

/-- Every present key is known and correctly typed. -/
def fieldOk (kv : String × Json) : Bool :=
  match findField kv.1 with
  | some f => typeOk f.type kv.2
  | none => false

/-- A required key is present and not null. -/
def requiredOk (ms : Members) (f : FieldSpec) : Bool :=
  !f.required ||
    match member? ms f.key with
    | some v => !v.isNull
    | none => false

/-- `record_valid`. -/
def recordValid : Json → Bool
  | .obj ms => ms.all fieldOk && recordSchema.all (requiredOk ms)
  | _ => false

/-- `only_keys`, also `obj_only_keys` of `record.c`. -/
def onlyKeys (ms : Members) (allowed : List String) : Bool :=
  ms.all fun kv => allowed.contains kv.1

/-! ## The nested effect objects -/

/-- The C string of an optional member. -/
def str? (v : Option Json) : Option Bytes := v.bind Json.string?

/-- The integer of an optional member. -/
def int? (v : Option Json) : Option ℤ := v.bind Json.int?

/-- `effect_valid`, with the digest it accepts. -/
def effectValid (e : Json) : Option Bytes :=
  match e with
  | .obj ms =>
    if onlyKeys ms ["required", "plan_schema", "plan_hash"] = false then none
    else if (member? ms "required").any Json.isTrue = false then none
    else if int? (member? ms "plan_schema") ≠ some planSchemaV1 then none
    else (str? (member? ms "plan_hash")).filter (isHexLcN 64)
  | _ => none

/-- The fields of a valid redemption effect. -/
structure RedeemEffect where
  operation : Bytes
  resource : Bytes
  planHash : Bytes

/-- `redeem_effect_valid`, with the fields it accepts. -/
def redeemEffectValid (e : Json) : Option RedeemEffect :=
  match e with
  | .obj ms =>
    if onlyKeys ms ["operation", "resource", "plan_schema", "plan_hash"] = false then none
    else
      match str? (member? ms "operation"), str? (member? ms "resource"),
        int? (member? ms "plan_schema"), str? (member? ms "plan_hash") with
      | some op, some rs, some ps, some ph =>
        if ps ≠ planSchemaV1 then none
        else if requestStrMax ≤ op.length ∨ requestStrMax ≤ rs.length then none
        else if isHexLcN 64 ph then some ⟨op, rs, ph⟩
        else none
      | _, _, _, _ => none
  | _ => none

/-! ## Requests -/

/-- `rab_req_type`. -/
inductive ReqType where
  | openIntent
  | writeOutcome
  | emit
  | capabilities
  | redeem
  deriving DecidableEq, Repr

/-- `rab_request`.  The client record is kept as the members of its object. -/
structure Request where
  type : ReqType
  binding : Buf requestStrMax := Buf.empty _
  phase : Buf 16 := Buf.empty _
  effectPresent : Bool := false
  effectPlanSchema : ℤ := 0
  effectPlanHash : Buf hex64Max := Buf.empty _
  effectReceipt : Buf receiptMax := Buf.empty _
  redeemPrincipalUid : UInt32 := 0
  redeemVerb : Buf requestStrMax := Buf.empty _
  redeemResource : Buf requestStrMax := Buf.empty _
  redeemPlanSchema : ℤ := 0
  redeemPlanHash : Buf hex64Max := Buf.empty _
  record : Members := []

/-- `(uid_t) n`. -/
def castUid (n : ℤ) : UInt32 := UInt32.ofNat (n % 2 ^ 32).toNat

@[simp] theorem castUid_toNat (u : UInt32) : castUid u.toNat = u := by
  have h : ((u.toNat : ℤ) % 2 ^ 32).toNat = u.toNat := by
    have := u.toNat_lt
    omega
  rw [castUid, h, UInt32.ofNat_toNat]

/-- `RAB_MAX_DEPTH`. -/
abbrev maxDepth : ℕ := 8

/-- A valid client record, as the members of its object. -/
def clientRecord (root : Members) : Option Members :=
  ((member? root "record").filter recordValid).bind Json.members?

/-- The `open_intent` shape. -/
def parseOpenIntent (root : Members) : Except ErrCode Request :=
  if onlyKeys root ["type", "record", "effect"] = false then .error .schemaInvalid
  else
    match clientRecord root with
    | none => .error .schemaInvalid
    | some record =>
      match member? root "effect" with
      | none => .ok { type := .openIntent, record }
      | some effect =>
        match effectValid effect with
        | none => .error .schemaInvalid
        | some planHash =>
          .ok { type := .openIntent, record, effectPresent := true,
                effectPlanSchema := planSchemaV1, effectPlanHash := Buf.snprintf _ planHash }

/-- The `write_outcome` shape. -/
def parseWriteOutcome (root : Members) : Except ErrCode Request :=
  if onlyKeys root ["type", "binding", "record"] = false then .error .schemaInvalid
  else
    match str? (member? root "binding"), clientRecord root with
    | some b, some record =>
      match copyBounded requestStrMax b with
      | some binding => .ok { type := .writeOutcome, binding, record }
      | none => .error .schemaInvalid
    | _, _ => .error .schemaInvalid

/-- The `emit` shape: a preview or a no-op that claims no effect. -/
def parseEmit (root : Members) : Except ErrCode Request :=
  if onlyKeys root ["type", "phase", "record"] = false then .error .schemaInvalid
  else
    match str? (member? root "phase"), clientRecord root with
    | some ph, some record =>
      if ph ≠ lit "preview" ∧ ph ≠ lit "noop" then .error .schemaInvalid
      else if (member? record "effect_issued").any Json.isTrue then .error .schemaInvalid
      else .ok { type := .emit, phase := Buf.snprintf _ ph, record }
    | _, _ => .error .schemaInvalid

/-- The `redeem_receipt` shape. -/
def parseRedeem (root : Members) : Except ErrCode Request :=
  if onlyKeys root ["type", "effect_receipt", "principal_uid", "effect"] = false then
    .error .schemaInvalid
  else
    match str? (member? root "effect_receipt"), int? (member? root "principal_uid"),
      (member? root "effect").bind redeemEffectValid with
    | some token, some principal, some effect =>
      if isHexLcN 32 token = false then .error .schemaInvalid
      else if principal < 0 ∨ ((castUid principal).toNat : ℤ) ≠ principal then
        .error .schemaInvalid
      else
        .ok { type := .redeem, effectReceipt := Buf.snprintf _ token,
              redeemPrincipalUid := castUid principal,
              redeemVerb := Buf.snprintf _ effect.operation,
              redeemResource := Buf.snprintf _ effect.resource,
              redeemPlanSchema := planSchemaV1,
              redeemPlanHash := Buf.snprintf _ effect.planHash }
    | _, _, _ => .error .schemaInvalid

/-- The shape named by the request type. -/
def parseShape (root : Members) : Except ErrCode Request :=
  match str? (member? root "type") with
  | none => .error .schemaInvalid
  | some type =>
    if type = lit "open_intent" then parseOpenIntent root
    else if type = lit "write_outcome" then parseWriteOutcome root
    else if type = lit "emit" then parseEmit root
    else if type = lit "capabilities" then
      if onlyKeys root ["type"] then .ok { type := .capabilities } else .error .schemaInvalid
    else if type = lit "redeem_receipt" then parseRedeem root
    else .error .unknownRequest

/-- `rab_parse_request`. -/
def rabParseRequest (J : JsonCodec) (body : Bytes) : Except ErrCode Request :=
  match J.loadb body with
  | none => .error .badJson
  | some root =>
    match root with
    | .obj ms => if maxDepth < root.depth then .error .schemaInvalid else parseShape ms
    | _ => .error .schemaInvalid

/-! ## What the parser lets through -/

/-- A client record as the parser lets it through. -/
structure RecordOk (ms : Members) : Prop where
  /-- The record is a value the loader returned. -/
  wf : (Json.obj ms).wf = true
  /-- Every field is in the schema and has its type. -/
  fields : ∀ kv ∈ ms, fieldOk kv = true
  /-- The record is shallow. -/
  depth_le : depthMembers ms ≤ maxDepth

theorem RecordOk.nil : RecordOk [] := ⟨by decide, by simp, by decide⟩

/-- A record that passed the schema check inside a shallow request. -/
theorem RecordOk.of_clientRecord {root record : Members} (hwf : (Json.obj root).wf = true)
    (hdepth : (Json.obj root).depth ≤ maxDepth) (h : clientRecord root = some record) :
    RecordOk record := by
  unfold clientRecord at h
  obtain ⟨v, hv, hobj⟩ := Option.bind_eq_some_iff.mp h
  obtain ⟨hmem, hvalid⟩ := Option.filter_eq_some_iff.mp hv
  cases v <;> simp only [Json.members?, reduceCtorEq, Option.some.injEq] at hobj
  case obj ms =>
    subst hobj
    have hd := depth_le_of_mem (mem_of_member? hmem)
    simp only [Json.depth] at hd hdepth
    refine ⟨wf_of_member? (wf_obj_iff.mp hwf).2 hmem, ?_, by omega⟩
    simp only [recordValid, Bool.and_eq_true] at hvalid
    exact List.all_eq_true.mp hvalid.1

/-- Each request shape keeps a record that passed the schema check, or has none at all. -/
theorem record_of_parseShape {root : Members} {req : Request} (h : parseShape root = .ok req) :
    clientRecord root = some req.record ∨
      req.record = [] ∧ (req.type = .capabilities ∨ req.type = .redeem) := by
  simp only [parseShape, parseOpenIntent, parseWriteOutcome, parseEmit, parseRedeem] at h
  repeat' split at h
  all_goals cases h
  all_goals first
    | exact Or.inl ‹_›
    | exact Or.inr ⟨rfl, Or.inl rfl⟩
    | exact Or.inr ⟨rfl, Or.inr rfl⟩

/-- An emitted record is a preview or a no-op. -/
theorem phase_of_parseShape {root : Members} {req : Request} (h : parseShape root = .ok req)
    (ht : req.type = .emit) :
    req.phase.bytes = lit "preview" ∨ req.phase.bytes = lit "noop" := by
  simp only [parseShape, parseOpenIntent, parseWriteOutcome, parseEmit, parseRedeem] at h
  repeat' split at h
  all_goals cases h
  all_goals try (cases ht; done)
  rename_i ph _ _ _ hph _
  have hph : ph = lit "preview" ∨ ph = lit "noop" := by tauto
  rcases hph with rfl | rfl
  · exact Or.inl (show (Buf.snprintf 16 (lit "preview")).bytes = lit "preview" by decide)
  · exact Or.inr (show (Buf.snprintf 16 (lit "noop")).bytes = lit "noop" by decide)

section Accepted

variable {J : JsonCodec} {body : Bytes} {req : Request}

/-- An accepted body is a shallow object of one of the request shapes. -/
theorem shape_of_rabParseRequest (h : rabParseRequest J body = .ok req) :
    ∃ root : Members, J.loadb body = some (.obj root) ∧ (Json.obj root).depth ≤ maxDepth ∧
      parseShape root = .ok req := by
  unfold rabParseRequest at h
  split at h
  · cases h
  · rename_i root hroot
    split at h
    · rename_i ms
      split at h
      · cases h
      · rename_i hdepth
        exact ⟨ms, hroot, not_lt.mp hdepth, h⟩
    · cases h

/-- The record of a parsed request. -/
theorem recordOk_of_rabParseRequest (h : rabParseRequest J body = .ok req) :
    RecordOk req.record := by
  obtain ⟨root, hroot, hdepth, h⟩ := shape_of_rabParseRequest h
  rcases record_of_parseShape h with hr | ⟨hr, -⟩
  · exact .of_clientRecord (J.loadb_wf _ _ hroot) hdepth hr
  · rw [hr]
    exact .nil

/-- The phase of a parsed `emit` request. -/
theorem phase_of_rabParseRequest (h : rabParseRequest J body = .ok req) (ht : req.type = .emit) :
    req.phase.bytes = lit "preview" ∨ req.phase.bytes = lit "noop" := by
  obtain ⟨root, -, -, h⟩ := shape_of_rabParseRequest h
  exact phase_of_parseShape h ht

end Accepted

end AuditBroker
