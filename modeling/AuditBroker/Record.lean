import AuditBroker.Request

/-!
# On-disk records

The builders and the strict reader of `record.c`.  A builder returns the text of one line, or nothing
when a string it would have to write is not UTF-8 (or, for a receipt, when a field is out of shape).
`rabParseStored` is the reader that reconstruction uses; `Stored` holds what it recovers.
-/

namespace AuditBroker

open Foundation

/-! ## Calendar time -/

/-- The fields of `struct tm` that the canonical timestamp shows. -/
structure Tm where
  year : ℕ
  month : ℕ
  day : ℕ
  hour : ℕ
  min : ℕ
  sec : ℕ

/-- `gmtime_r`: the UTC calendar time of a number of seconds since 1970, in the proleptic Gregorian
calendar.  Years are counted from March in 400-year eras of 146097 days. -/
def gmtime (secs : ℕ) : Tm :=
  let z := secs / 86400 + 719468
  let doe := z % 146097
  let yoe := (doe - doe / 1460 + doe / 36524 - doe / 146096) / 365
  let doy := doe - (365 * yoe + yoe / 4 - yoe / 100)
  let mp := (5 * doy + 2) / 153
  let month := if mp < 10 then mp + 3 else mp - 9
  { year := yoe + z / 146097 * 400 + (if month ≤ 2 then 1 else 0)
    month
    day := doy - (153 * mp + 2) / 5 + 1
    hour := secs / 3600 % 24
    min := secs / 60 % 60
    sec := secs % 60 }

/-- `%02d`. -/
def twoDigits (n : ℕ) : Bytes := [UInt8.ofNat (48 + n / 10 % 10), UInt8.ofNat (48 + n % 10)]

/-- `format_rfc3339`.  A 64-bit count of microseconds ends in the year 586524, so neither call of
the source can fail and the text fits its buffer. -/
def formatRfc3339 (timeUs : UInt64) : Bytes :=
  let tm := gmtime (timeUs.toNat / 1000000)
  decimal tm.year ++ lit "-" ++ twoDigits tm.month ++ lit "-" ++ twoDigits tm.day ++ lit "T" ++
    twoDigits tm.hour ++ lit ":" ++ twoDigits tm.min ++ lit ":" ++ twoDigits tm.sec ++ lit "Z"

example : formatRfc3339 1767225599999999 = lit "2025-12-31T23:59:59Z" := by decide

/-! ## Builders -/

/-- A string member that is only written when there is a value. -/
def optString (key : String) : Option Bytes → Option Members
  | none => some []
  | some s => (jsonString s).map fun v => [(key, v)]

/-- The `peer` object. -/
def peerObject (a : Actor) : Option Json :=
  (jsonString a.bootId.bytes).bind fun boot =>
  (jsonString a.starttime.bytes).map fun start =>
    .obj [("uid", .int a.uid.toNat), ("gid", .int a.gid.toNat), ("pid", .int a.pid.toInt),
      ("boot_id", boot), ("starttime", start)]

/-- `broker_object`, as the members of the object. -/
def brokerObject (a : Actor) (binding : Option Bytes) (timeUs : UInt64)
    (operation resource scope : Option Bytes) : Option Members :=
  (peerObject a).bind fun peer =>
  (optString "binding" binding).bind fun bind =>
  (optString "operation" operation).bind fun op =>
  (optString "resource" resource).bind fun res =>
  (optString "scope" scope).map fun sc =>
    [("schema_version", .int 1), ("peer", peer)] ++ bind ++
      [("accepted_time_us", .str (decimal timeUs.toNat))] ++ op ++ res ++ sc

/-- `"uid:%ld"`. -/
def actorText (uid : UInt32) : Bytes := lit "uid:" ++ decimal uid.toNat

/-- `RAB_PHASE_INTENT`. -/
def phaseIntent : Buf 16 := ⟨lit "intent", by decide, by decide⟩

/-- `RAB_PHASE_OUTCOME`. -/
def phaseOutcome : Buf 16 := ⟨lit "outcome", by decide, by decide⟩

/-- The canonical framing that `rab_build_audit` writes before the domain fields. -/
def auditFraming (phase cid : Bytes) (actor : Actor) (host : Bytes) : Option Members :=
  (jsonString cid).bind fun cid =>
  (jsonString phase).bind fun phase =>
  (jsonString host).map fun host =>
    [("schema_version", .int recordSchemaVersion), ("record_type", .str (lit "audit")),
      ("correlation_id", cid), ("phase", phase), ("host", host), ("pid", .int actor.pid.toInt),
      ("actor", .str (actorText actor.uid))]

/-- `rab_build_audit`: the framing, the client's domain fields in their order, then the time and the
broker extension. -/
def rabBuildAudit (J : JsonCodec) (phase cid : Bytes) (binding : Option Bytes) (actor : Actor)
    (host : Bytes) (timeUs : UInt64) (clientRecord : Members) : Option Bytes :=
  (auditFraming phase cid actor host).bind fun framing =>
  (brokerObject actor binding timeUs none none none).map fun brk =>
    let root := clientRecord.foldl (fun acc kv => setMember acc kv.1 kv.2) framing
    J.dumps (.obj (setMember (setMember root "time" (.str (formatRfc3339 timeUs))) "broker"
      (.obj brk)))

/-- `rab_build_checkpoint`. -/
def rabBuildCheckpoint (J : JsonCodec) (cid binding : Bytes) (actor : Actor) (timeUs : UInt64)
    (operation resource scope : Bytes) : Option Bytes :=
  (brokerObject actor (some binding) timeUs (some operation) (some resource) (some scope)).bind
    fun brk =>
  (jsonString cid).map fun cid =>
    J.dumps (.obj [("schema_version", .int recordSchemaVersion),
      ("record_type", .str (lit "broker_checkpoint")), ("correlation_id", cid),
      ("broker", .obj brk)])

/-- The decimal string of a 64-bit number. -/
def u64Item (n : UInt64) : Json := .str (decimal n.toNat)

/-- `rab_build_rate`: the entries are pairs of a timestamp and a size. -/
def rabBuildRate (J : JsonCodec) (uid : UInt32) (entries : List (UInt64 × UInt64)) : Bytes :=
  J.dumps (.obj [("schema_version", .int recordSchemaVersion),
    ("record_type", .str (lit "broker_rate")), ("uid", .int uid.toNat),
    ("times_us", .arr (entries.map fun e => u64Item e.1)),
    ("bytes", .arr (entries.map fun e => u64Item e.2))])

/-- The name of a receipt state on disk. -/
def RcptState.text : RcptState → String
  | issued => "issued"
  | redeemed => "redeemed"

/-- `is_hex64_lc`. -/
def isHex64Lc (s : Bytes) : Bool := isHexLcN 64 (cstr s)

/-- A C string that is not empty and shorter than `cap`. -/
def fitsNonempty (cap : ℕ) (s : Bytes) : Bool := cstr s ≠ [] && (cstr s).length < cap

/-- The argument checks of `rab_build_receipt`. -/
def receiptArgsOk (cid verifier verb resource : Bytes) (planSchema : ℤ) (planHash bootId : Bytes) :
    Bool :=
  fitsNonempty cidMax cid && isHex64Lc verifier && isHex64Lc planHash &&
    fitsNonempty metaMax verb && (cstr resource).length < metaMax && 1 ≤ planSchema &&
    fitsNonempty bootIdMax bootId

/-- `rab_build_receipt`. -/
def rabBuildReceipt (J : JsonCodec) (cid : Bytes) (state : RcptState) (checkpoint : Bool)
    (verifier : Bytes) (actorUid : UInt32) (verb resource : Bytes) (planSchema : ℤ)
    (planHash : Bytes) (issueBoottimeUs ttlUs : UInt64) (bootId : Bytes)
    (acceptedTimeUs : UInt64) : Option Bytes :=
  if receiptArgsOk cid verifier verb resource planSchema planHash bootId = false then none
  else
    (jsonString cid).bind fun cid =>
    (jsonString verifier).bind fun verifier =>
    (jsonString verb).bind fun verb =>
    (jsonString resource).bind fun resource =>
    (jsonString planHash).bind fun planHash =>
    (jsonString bootId).map fun bootId =>
      J.dumps (.obj [("schema_version", .int recordSchemaVersion),
        ("record_type", .str (lit "broker_receipt")),
        ("state_schema_version", .int brokerStateSchemaVersion), ("correlation_id", cid),
        ("checkpoint", .bool checkpoint), ("state", .str (lit state.text)),
        ("verifier", verifier), ("actor_uid", .int actorUid.toNat), ("verb", verb),
        ("resource", resource), ("plan_schema", .int planSchema), ("plan_hash", planHash),
        ("issue_boottime_us", u64Item issueBoottimeUs), ("ttl_us", u64Item ttlUs),
        ("boot_id", bootId), ("accepted_time_us", u64Item acceptedTimeUs)])

/-- The `broker_receipt` line of a receipt held by an intent. -/
def receiptLine (J : JsonCodec) (cid : Buf cidMax) (checkpoint : Bool) (r : Receipt) :
    Option Bytes :=
  rabBuildReceipt J cid.bytes r.state checkpoint r.verifier.bytes r.actorUid r.verb.bytes
    r.resource.bytes r.planSchema r.planHash.bytes r.issueBoottimeUs r.ttlUs r.bootId.bytes
    r.acceptedTimeUs

/-! ## The reader -/

/-- The fields of `rab_stored` that an audit or a checkpoint record fills in. -/
structure StoredIntent where
  cid : Buf cidMax
  /-- Empty when the record carried none. -/
  binding : Buf bindingMax
  actor : Actor
  timeUs : UInt64
  operation : Buf metaMax
  resource : Buf metaMax
  scope : Buf scopeMax

/-- `rab_stored`: the broker-owned facts recovered from one line, by record type. -/
inductive Stored where
  /-- `RAB_REC_AUDIT`. -/
  | audit (s : StoredIntent) (phase : Buf 16)
  /-- `RAB_REC_CHECKPOINT`. -/
  | checkpoint (s : StoredIntent)
  /-- `RAB_REC_RATE`: timestamps with their sizes. -/
  | rate (uid : UInt32) (entries : List (UInt64 × UInt64))
  /-- `RAB_REC_RECEIPT`. -/
  | receipt (cid : Buf cidMax) (isCheckpoint : Bool) (r : Receipt)

/-- A non-empty string member, copied into a buffer. -/
def loadStr (cap : ℕ) (ms : Members) (key : String) : Option (Buf cap) :=
  (str? (member? ms key)).bind fun s => if s = [] then none else copyBounded cap s

/-- `load_opt_str`: an absent or null member is the empty string. -/
def loadOptStr (cap : ℕ) [NeZero cap] (ms : Members) (key : String) : Option (Buf cap) :=
  match member? ms key with
  | none => some (Buf.empty cap)
  | some v => if v.isNull then some (Buf.empty cap) else v.string?.bind (copyBounded cap)

/-- A decimal string member. -/
def loadU64 (ms : Members) (key : String) : Option UInt64 :=
  (str? (member? ms key)).bind parseU64Strict

/-- A member of 64 lowercase hexadecimal characters. -/
def loadHex64 (ms : Members) (key : String) : Option (Buf hex64Max) :=
  ((str? (member? ms key)).filter (isHexLcN 64)).bind (copyBounded hex64Max)

/-- `(pid_t) n`. -/
def castPid (n : ℤ) : Int32 := Int32.ofInt n

/-- `load_peer_strict`. -/
def loadPeerStrict (broker : Members) : Option Actor :=
  ((member? broker "peer").bind Json.members?).bind fun peer =>
  if onlyKeys peer ["uid", "gid", "pid", "boot_id", "starttime"] = false then none
  else
    (int? (member? peer "uid")).bind fun u =>
    (int? (member? peer "gid")).bind fun g =>
    (int? (member? peer "pid")).bind fun p =>
    (loadStr bootIdMax peer "boot_id").bind fun bootId =>
    (loadStr starttimeMax peer "starttime").bind fun starttime =>
      if u < 0 ∨ g < 0 ∨ p ≤ 0 then none
      else if starttime.bytes.all isDigit = false then none
      else some { uid := castUid u, gid := castUid g, pid := castPid p, bootId, starttime }

/-- The decimal number of an array item. -/
def itemU64 (v : Json) : Option UInt64 := v.string?.bind parseU64Strict

/-- The `broker_rate` shape. -/
def parseRate (ms : Members) : Option Stored :=
  if onlyKeys ms ["schema_version", "record_type", "uid", "times_us", "bytes"] = false then none
  else
    (int? (member? ms "uid")).bind fun uid =>
    ((member? ms "times_us").bind Json.items?).bind fun tarr =>
    ((member? ms "bytes").bind Json.items?).bind fun barr =>
      if uid < 0 ∨ barr.length ≠ tarr.length then none
      else
        (tarr.mapM itemU64).bind fun times =>
        (barr.mapM itemU64).map fun bytes => .rate (castUid uid) (times.zip bytes)

/-- The state named by a receipt record. -/
def rcptState? (s : Bytes) : Option RcptState :=
  if s = lit "issued" then some .issued
  else if s = lit "redeemed" then some .redeemed
  else none

/-- The value of a boolean. -/
def bool? : Option Json → Option Bool
  | some (.bool b) => some b
  | _ => none

/-- The `broker_receipt` shape. -/
def parseReceipt (ms : Members) : Option Stored :=
  if onlyKeys ms ["schema_version", "record_type", "state_schema_version", "correlation_id",
      "checkpoint", "state", "verifier", "actor_uid", "verb", "resource", "plan_schema",
      "plan_hash", "issue_boottime_us", "ttl_us", "boot_id", "accepted_time_us"] = false then none
  else if int? (member? ms "state_schema_version") ≠ some brokerStateSchemaVersion then none
  else
    (loadStr cidMax ms "correlation_id").bind fun cid =>
    (bool? (member? ms "checkpoint")).bind fun isCheckpoint =>
    ((str? (member? ms "state")).bind rcptState?).bind fun state =>
    (loadHex64 ms "verifier").bind fun verifier =>
    (int? (member? ms "actor_uid")).bind fun auid =>
    (loadStr metaMax ms "verb").bind fun verb =>
    ((str? (member? ms "resource")).bind (copyBounded metaMax)).bind fun resource =>
    (int? (member? ms "plan_schema")).bind fun planSchema =>
    (loadHex64 ms "plan_hash").bind fun planHash =>
    (loadU64 ms "issue_boottime_us").bind fun issueBoottimeUs =>
    (loadU64 ms "ttl_us").bind fun ttlUs =>
    (loadStr bootIdMax ms "boot_id").bind fun bootId =>
    (loadU64 ms "accepted_time_us").bind fun acceptedTimeUs =>
      if auid < 0 ∨ ((castUid auid).toNat : ℤ) ≠ auid ∨ planSchema < 1 then none
      else
        some (.receipt cid isCheckpoint
          { state, verifier, actorUid := castUid auid, verb, resource, planSchema, planHash,
            issueBoottimeUs, ttlUs, bootId, acceptedTimeUs })

/-- The optional binding of the broker extension; empty when there is none. -/
def loadBinding (broker : Members) : Option (Buf bindingMax) :=
  match member? broker "binding" with
  | none => some (Buf.empty _)
  | some _ => loadStr bindingMax broker "binding"

/-- The part of `rab_parse_stored` that audit and checkpoint records share, then the part of each:
the domain fields of an audit record are top-level members, those of a checkpoint are in the broker
extension. -/
def parseIntent (ms : Members) (isAudit : Bool) : Option Stored :=
  (loadStr cidMax ms "correlation_id").bind fun cid =>
  ((member? ms "broker").bind Json.members?).bind fun broker =>
  if int? (member? broker "schema_version") ≠ some 1 then none
  else
    (loadPeerStrict broker).bind fun actor =>
    (loadU64 broker "accepted_time_us").bind fun timeUs =>
    (loadBinding broker).bind fun binding =>
    let hasBinding := (member? broker "binding").isSome
    let domain := if isAudit then ms else broker
    let fields := (loadOptStr metaMax domain "operation").bind fun operation =>
      (loadOptStr metaMax domain "resource").bind fun resource =>
      (loadOptStr scopeMax domain "scope").map fun scope =>
        ({ cid, binding, actor, timeUs, operation, resource, scope } : StoredIntent)
    if isAudit then
      if onlyKeys broker ["schema_version", "peer", "accepted_time_us", "binding"] = false then
        none
      else
        (loadStr 16 ms "phase").bind fun phase =>
          if decide (phase = phaseIntent) ≠ hasBinding then none
          else if (int? (member? ms "pid")).map castPid ≠ some actor.pid then none
          else if str? (member? ms "actor") ≠ some (actorText actor.uid) then none
          else fields.map fun s => .audit s phase
    else if onlyKeys ms ["schema_version", "record_type", "correlation_id", "broker"] = false then
      none
    else if onlyKeys broker ["schema_version", "peer", "accepted_time_us", "binding", "operation",
        "resource", "scope"] = false then none
    else if hasBinding = false then none
    else fields.map .checkpoint

/-- `rab_parse_stored`. -/
def rabParseStored (J : JsonCodec) (line : Bytes) : Option Stored :=
  match J.loadb line with
  | some (.obj ms) =>
    if int? (member? ms "schema_version") ≠ some recordSchemaVersion then none
    else
      (str? (member? ms "record_type")).bind fun recordType =>
        if recordType = lit "audit" then parseIntent ms true
        else if recordType = lit "broker_checkpoint" then parseIntent ms false
        else if recordType = lit "broker_rate" then parseRate ms
        else if recordType = lit "broker_receipt" then parseReceipt ms
        else none
  | _ => none

end AuditBroker
