import AuditBroker.Rotation

/-!
# Request handlers

The request handlers of `broker.c` and the minting functions of `id.c`.  Opening, closing, emitting,
issuing and redeeming all end in the same steps, which are written once: `commit` checks the byte
quotas, appends the line, installs the change in memory, charges the line, rotates if the segment is
full and looks whether that left the broker poisoned.
-/

namespace AuditBroker

open Foundation

/-! ## Minting -/

/-- `rab_make_correlation_id`. -/
def rabMakeCorrelationId (E : Env) : Option (Buf cidMax) :=
  E.cidTime.bind fun micros =>
  E.cidRandom.bind fun rnd =>
    copyBounded cidMax (padDecimal 20 micros.toNat ++ lit "-" ++ toHex rnd.toList)

/-- `rab_make_binding`. -/
def rabMakeBinding (E : Env) : Option (Buf bindingMax) :=
  E.bindingRandom.bind fun rnd => copyBounded bindingMax (toHex rnd.toList)

/-- `rab_make_receipt`, by attempt. -/
def rabMakeReceipt (E : Env) (attempt : ℕ) : Option (Buf receiptMax) :=
  (E.tokenRandom attempt).bind fun rnd => copyBounded receiptMax (toHex rnd.toList)

/-- The verifier of a token: its SHA-256 in hexadecimal. -/
def verifierOf (S : Site) (token : Bytes) : Buf hex64Max :=
  Buf.snprintf hex64Max (toHex (S.sha256 token).toList)

/-! ## Common steps -/

/-- The request that is being handled. -/
structure Ctx where
  env : Env
  peer : Actor
  req : Request

/-- `enough_free_space`. -/
def enoughFreeSpace (cfg : Config) (free : Option UInt64) : Bool :=
  cfg.minFreeBytes == 0 || free.any fun freeb => cfg.minFreeBytes ≤ freeb

/-- `rec_str`: a string domain field, cut to its buffer. -/
def recStr (cap : ℕ) [NeZero cap] (record : Members) (key : String) : Buf cap :=
  match str? (member? record key) with
  | some s => Buf.snprintf cap s
  | none => Buf.empty cap

/-- How the common steps end. -/
inductive Commit where
  /-- A byte quota is exceeded; nothing was written. -/
  | overQuota
  /-- The append failed. -/
  | failed
  /-- The line is durable, but rotation poisoned the broker. -/
  | uncertain
  /-- The line is durable. -/
  | durable
  deriving DecidableEq, Repr

/-- Quota check, append, in-memory change, accounting and rotation. -/
def commit (S : Site) (C : Ctx) (line : Bytes) (act : Act) (now : UInt64)
    (install : Tables → Tables) (s : St) : Commit × St :=
  let e : Entry := { seq := s.seq, env := C.env, peer := C.peer, req := C.req, now, line, act }
  match s.bytesAllowed e.chargedUid now e.size with
  | (false, s) => (.overQuota, s)
  | (true, s) =>
    match s.appendLine C.env e with
    | (false, s) => (.failed, s)
    | (true, s) =>
      let s := { s with
        toTables := (install s.toTables).rateNote e.chargedUid now e.size
        overflowed := s.overflowed || (install s.toTables).noteOverflows e.chargedUid
        gwin := globalBytesNote s.cfg s.gwin now e.size }
      let s := maybeRotate S C.env s
      (if s.poisoned then .uncertain else .durable, s)

/-! ## Effect receipts -/

/-- The mint loop: a token that differs from the binding and whose verifier is not in use. -/
def mintLoop (S : Site) (E : Env) (o : OpenSet) (binding : Buf bindingMax) :
    ℕ → ℕ → Option (Buf receiptMax)
  | 0, _ => none
  | tries + 1, attempt =>
    match rabMakeReceipt E attempt, E.digestOk attempt with
    | some token, true =>
      if token.bytes ≠ binding.bytes ∧
          o.openFindVerifier (verifierOf S token.bytes).bytes = none then some token
      else mintLoop S E o binding tries (attempt + 1)
    | _, _ => none

/-- `RAB_RECEIPT_MINT_TRIES`. -/
abbrev receiptMintTries : ℕ := 8

/-- The result of issuing. -/
inductive Issue where
  | token (t : Buf receiptMax)
  | rateLimited
  | failed

/-- `rab_broker_issue_receipt`. -/
def rabBrokerIssueReceipt (S : Site) (C : Ctx) (cid : Buf cidMax) (planSchema : ℤ)
    (planHash : Buf hex64Max) (s : St) : Issue × St :=
  if s.poisoned then (.failed, s)
  else if planSchema ≠ planSchemaV1 then (.failed, s)
  else
    match s.opens.openFindCid cid.bytes with
    | none => (.failed, s)
    | some a =>
      let it := s.opens.heap a
      if it.receipt.isSome then (.failed, s)
      else if enoughFreeSpace s.cfg (C.env.free 1) = false then (.failed, s)
      else
        match C.env.boottime, C.env.bootid with
        | some issueBoottimeUs, some bootId =>
          match mintLoop S C.env s.opens it.binding receiptMintTries 0 with
          | none => (.failed, s)
          | some token =>
            let (now, s) := s.readClock C.env
            let r : Receipt :=
              { state := .issued, verifier := verifierOf S token.bytes, actorUid := it.actor.uid,
                verb := it.operation, resource := it.resource, planSchema, planHash,
                issueBoottimeUs, ttlUs := s.cfg.receiptTtlSec.toUInt64 * 1000000, bootId,
                acceptedTimeUs := now }
            match receiptLine S.codec it.cid false r with
            | none => (.failed, s)
            | some line =>
              match s.rateAllowed it.actor.uid now with
              | (false, s) => (.rateLimited, s)
              | (true, s) =>
                match commit S C line (.receipt it.cid r) now (·.installReceipt a r) s with
                | (.overQuota, s) => (.rateLimited, s)
                | (.durable, s) => (.token token, s)
                | (_, s) => (.failed, s)
        | _, _ => (.failed, s)

/-- `rab_redeem_result`. -/
inductive RedeemResult where
  | ok
  | unknown
  | notRedeemer
  | principal
  | token
  | binding
  | expired
  | already
  | rate
  | persist
  deriving DecidableEq, Repr

/-- The constant-time verifier check: digest, stored length, decoding, comparison. -/
def verifierMatches (S : Site) (E : Env) (token : Bytes) (verifier : Bytes) : Bool :=
  E.digestOk 1 && verifier.length == 64 &&
    decide (fromHex verifier = some (S.sha256 token).toList)

/-- `rab_broker_redeem_receipt`. -/
def rabBrokerRedeemReceipt (S : Site) (C : Ctx) (cid : Buf cidMax) (s : St) : RedeemResult × St :=
  if s.poisoned then (.persist, s)
  else if C.peer.uid ≠ 0 then (.notRedeemer, s)
  else
    match s.opens.openFindCid cid.bytes with
    | none => (.unknown, s)
    | some a =>
      match (s.opens.heap a).receipt with
      | none => (.unknown, s)
      | some r =>
        if C.req.redeemPrincipalUid ≠ r.actorUid then (.principal, s)
        else if verifierMatches S C.env C.req.effectReceipt.bytes r.verifier.bytes = false then
          (.token, s)
        else if C.req.redeemPlanSchema ≠ r.planSchema ∨
            C.req.redeemVerb.bytes ≠ r.verb.bytes ∨
            C.req.redeemResource.bytes ≠ r.resource.bytes ∨
            C.req.redeemPlanHash.bytes ≠ r.planHash.bytes then (.binding, s)
        else if r.state = .redeemed then (.already, s)
        else
          match C.env.boottime, C.env.bootid with
          | some nowUs, some curBoot =>
            if curBoot ≠ r.bootId ∨ nowUs < r.issueBoottimeUs ∨
                r.ttlUs < nowUs - r.issueBoottimeUs then (.expired, s)
            else if enoughFreeSpace s.cfg (C.env.free 0) = false then (.persist, s)
            else
              let (now, s) := s.readClock C.env
              let r' := { r with state := .redeemed, acceptedTimeUs := now }
              match receiptLine S.codec (s.opens.heap a).cid false r' with
              | none => (.persist, s)
              | some line =>
                match s.rateAllowed r.actorUid now with
                | (false, s) => (.rate, s)
                | (true, s) =>
                  match commit S C line (.receipt (s.opens.heap a).cid r') now
                    (·.setReceipt a r') s with
                  | (.overQuota, s) => (.rate, s)
                  | (.durable, s) => (.ok, s)
                  | (_, s) => (.persist, s)
          | _, _ => (.expired, s)

/-! ## The handlers -/

/-- The C string of a domain field; empty when it is not a string. -/
def domainStr (record : Members) (key : String) : Bytes := (str? (member? record key)).getD []

/-- The tail of `handle_open` for an effect open. -/
def openEffect (S : Site) (C : Ctx) (cid : Buf cidMax) (binding : Buf bindingMax) (s : St) :
    Response × St :=
  match rabBrokerIssueReceipt S C cid C.req.effectPlanSchema C.req.effectPlanHash s with
  | (.token t, s) => (.openOk cid binding (some t), s)
  | (.rateLimited, s) => (.error .rateLimited "effect receipt write-quota exceeded", s)
  | (.failed, s) => (.error .persistFailed "effect receipt issuance failed", s)

/-- `handle_open`. -/
def handleOpen (S : Site) (C : Ctx) (s : St) : Response × St :=
  if C.req.effectPresent ∧ (metaMax ≤ (domainStr C.req.record "operation").length ∨
      metaMax ≤ (domainStr C.req.record "resource").length) then
    (.error .schemaInvalid "effect operation/resource too long to bind", s)
  else
    let (now, s) := s.readClock C.env
    match s.rateAllowed C.peer.uid now with
    | (false, s) => (.error .rateLimited "per-uid rate exceeded", s)
    | (true, s) =>
      if s.cfg.maxOpenGlobal.toNat ≤ s.opens.openCount then
        (.error .rateLimited "global open-intent cap", s)
      else
        let s := { s with uids := s.uids.uidGet s.cfg C.peer.uid }
        if s.cfg.maxOpenPerUid ≤ (s.uids.node C.peer.uid).nOpen then
          (.error .rateLimited "per-uid open-intent cap", s)
        else if enoughFreeSpace s.cfg (C.env.free 0) = false then
          (.error .persistFailed "insufficient free space", s)
        else
          match rabMakeCorrelationId C.env, rabMakeBinding C.env with
          | some cid, some binding =>
            let op := recStr metaMax C.req.record "operation"
            let res := recStr metaMax C.req.record "resource"
            let scope := recStr scopeMax C.req.record "scope"
            match rabBuildAudit S.codec phaseIntent.bytes cid.bytes (some binding.bytes) C.peer
              s.host.bytes now C.req.record with
            | none => (.error .internal "record build", s)
            | some line =>
              let act := Act.intent cid
                { binding, actor := C.peer, operation := op, resource := res, scope,
                  receipt := none }
              match commit S C line act now (·.openAdd cid binding C.peer op res scope) s with
              | (.overQuota, s) => (.error .rateLimited "write-byte quota exceeded", s)
              | (.failed, s) => (.error .persistFailed "sink append failed", s)
              | (.uncertain, s) =>
                (.error .persistFailed "audit durability uncertain after rotation", s)
              | (.durable, s) =>
                if C.req.effectPresent then openEffect S C cid binding s
                else (.openOk cid binding none, s)
          | _, _ => (.error .internal "id minting failed", s)

/-- The effect-receipt gate of `handle_outcome`: an outcome that claims an effect needs a redeemed
receipt if the intent has one. -/
def effectGate (it : Intent) (record : Members) : Bool :=
  it.receipt.any (fun r => r.state ≠ .redeemed) && (member? record "effect_issued").any Json.isTrue

/-- `handle_outcome`. -/
def handleOutcome (S : Site) (C : Ctx) (s : St) : Response × St :=
  let (now, s) := s.readClock C.env
  match s.rateAllowed C.peer.uid now with
  | (false, s) => (.error .rateLimited "per-uid rate exceeded", s)
  | (true, s) =>
    match s.opens.openFindBinding C.req.binding.bytes with
    | none => (.error .unknownIntent "no such open intent", s)
    | some a =>
      let it := s.opens.heap a
      if rabActorEq it.actor C.peer = false then
        (.error .actorMismatch "peer identity does not match the opener", s)
      else if effectGate it C.req.record then
        (.error .effectWithoutReceipt "effect claimed without a redeemed receipt", s)
      else if enoughFreeSpace s.cfg (C.env.free 0) = false then
        (.error .persistFailed "insufficient free space", s)
      else
        match rabBuildAudit S.codec phaseOutcome.bytes it.cid.bytes none C.peer s.host.bytes now
          C.req.record with
        | none => (.error .internal "record build", s)
        | some line =>
          match commit S C line (.outcome it.cid) now (·.openRemove a) s with
          | (.overQuota, s) => (.error .rateLimited "write-byte quota exceeded", s)
          | (.failed, s) => (.error .persistFailed "sink append failed", s)
          | (.uncertain, s) =>
            (.error .persistFailed "audit durability uncertain after rotation", s)
          | (.durable, s) => (.outcomeOk, s)

/-- `handle_emit`. -/
def handleEmit (S : Site) (C : Ctx) (s : St) : Response × St :=
  let (now, s) := s.readClock C.env
  match s.rateAllowed C.peer.uid now with
  | (false, s) => (.error .rateLimited "per-uid rate exceeded", s)
  | (true, s) =>
    if enoughFreeSpace s.cfg (C.env.free 0) = false then
      (.error .persistFailed "insufficient free space", s)
    else
      match rabMakeCorrelationId C.env with
      | none => (.error .internal "id minting failed", s)
      | some cid =>
        match rabBuildAudit S.codec C.req.phase.bytes cid.bytes none C.peer s.host.bytes now
          C.req.record with
        | none => (.error .internal "record build", s)
        | some line =>
          match commit S C line (.emit cid) now id s with
          | (.overQuota, s) => (.error .rateLimited "write-byte quota exceeded", s)
          | (.failed, s) => (.error .persistFailed "sink append failed", s)
          | (.uncertain, s) =>
            (.error .persistFailed "audit durability uncertain after rotation", s)
          | (.durable, s) => (.emitOk cid, s)

/-- The reply to a redemption result. -/
def RedeemResult.reply (cid : Buf cidMax) : RedeemResult → Response
  | ok => .redeemOk cid
  | notRedeemer => .error .receiptUnauthorized "the redeeming peer is not uid 0"
  | principal => .error .receiptActorMismatch "principal_uid differs from the bound actor"
  | binding => .error .receiptMismatch "verb/resource/plan differ from the bound values"
  | expired => .error .receiptExpired "past its TTL, or the boot id changed"
  | already => .error .receiptRedeemed "already redeemed"
  | rate => .error .rateLimited "redemption write-quota exceeded"
  | unknown => .error .receiptInvalid "no such effect receipt"
  | token => .error .receiptInvalid "no such effect receipt"
  | persist => .error .persistFailed "redemption durability failed"

/-- `handle_redeem`. -/
def handleRedeem (S : Site) (C : Ctx) (s : St) : Response × St :=
  if C.peer.uid ≠ 0 then
    (.error .receiptUnauthorized "the redeeming peer is not the root helper", s)
  else if C.env.digestOk 0 = false then (.error .internal "digest failure", s)
  else
    match s.opens.openFindVerifier (verifierOf S C.req.effectReceipt.bytes).bytes with
    | none => (.error .receiptInvalid "no such effect receipt", s)
    | some a =>
      let cid := (s.opens.heap a).cid
      match rabBrokerRedeemReceipt S C cid s with
      | (rr, s) => (rr.reply cid, s)

/-- `rab_broker_handle`. -/
def rabBrokerHandle (S : Site) (C : Ctx) (s : St) : Response × St :=
  if s.poisoned then
    (.error .persistFailed "sink unusable after a write fault; restart required", s)
  else
    match C.req.type with
    | .openIntent => handleOpen S C s
    | .writeOutcome => handleOutcome S C s
    | .emit => handleEmit S C s
    | .capabilities => (.capabilities, s)
    | .redeem => handleRedeem S C s

/-- `conn_handle`: parse the body of a frame and handle the request. -/
def connHandle (S : Site) (E : Env) (peer : Actor) (body : Bytes) (s : St) : Response × St :=
  match rabParseRequest S.codec body with
  | .error ec => (.error ec "invalid request", s)
  | .ok req => rabBrokerHandle S { env := E, peer, req } s

end AuditBroker
