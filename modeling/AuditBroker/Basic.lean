import AuditBroker.Foundation.Json

/-!
# Data types of the broker

The records of `peer.h`, `record.h` and `broker.h` that the rest of the development shares: the peer
identity `Actor`, the durable effect receipt `Receipt`, an open intent, and the process
configuration `Config`.  Every `char[N]` field of the source is a `Buf N`, every `uid_t`, `pid_t`,
`unsigned` and `unsigned long long` is the fixed-width type of that size.
-/

namespace AuditBroker

open Foundation

/-! ## Sizes -/

/-- `RAB_CID_MAX`. -/
abbrev cidMax : ℕ := 64

/-- `RAB_BINDING_MAX`. -/
abbrev bindingMax : ℕ := 33

/-- `RAB_RECEIPT_MAX`, also `RAB_RECEIPT_TOKEN_MAX`. -/
abbrev receiptMax : ℕ := 33

/-- `RAB_META_MAX`. -/
abbrev metaMax : ℕ := 128

/-- `RAB_SCOPE_MAX`. -/
abbrev scopeMax : ℕ := 32

/-- `RAB_HEX64_MAX`, also `RAB_PLAN_HASH_MAX` and `RAB_SHA256_HEX_MAX`. -/
abbrev hex64Max : ℕ := 65

/-- `RAB_BOOT_ID_MAX`. -/
abbrev bootIdMax : ℕ := 40

/-- `RAB_STARTTIME_MAX`. -/
abbrev starttimeMax : ℕ := 24

/-- `RAB_BINDING_STR_MAX` and `RAB_REDEEM_STR_MAX`: the string bounds of a request. -/
abbrev requestStrMax : ℕ := 128

-- The sizes are positive, also those of `host` and `phase`.  These are named instances, so that no
-- definition over a buffer has to carry the proof.
instance : NeZero cidMax := ⟨by decide⟩

instance : NeZero bindingMax := ⟨by decide⟩

instance : NeZero metaMax := ⟨by decide⟩

instance : NeZero scopeMax := ⟨by decide⟩

instance : NeZero hex64Max := ⟨by decide⟩

instance : NeZero bootIdMax := ⟨by decide⟩

instance : NeZero starttimeMax := ⟨by decide⟩

instance neZero_host : NeZero 256 := ⟨by decide⟩

instance neZero_phase : NeZero 16 := ⟨by decide⟩

/-- `RAB_RECORD_SCHEMA_VERSION`. -/
abbrev recordSchemaVersion : ℤ := 1

/-- `RAB_BROKER_STATE_SCHEMA_VERSION`. -/
abbrev brokerStateSchemaVersion : ℤ := 1

/-- `RAB_PLAN_SCHEMA_V1`. -/
abbrev planSchemaV1 : ℤ := 1

/-- `PATH_MAX`. -/
abbrev pathMax : ℕ := 4096

/-- `RAB_MAX_SEGMENT_BYTES`. -/
abbrev maxSegmentBytes : ℕ := 1024 * 1024 * 1024

/-! ## The peer -/

/-- `rab_actor`: the kernel-verified identity of a peer process. -/
structure Actor where
  uid : UInt32
  gid : UInt32
  pid : Int32
  bootId : Buf bootIdMax
  starttime : Buf starttimeMax
  deriving DecidableEq

/-- `rab_actor_eq`: every field equal. -/
def rabActorEq (a b : Actor) : Bool :=
  a.uid == b.uid && a.gid == b.gid && a.pid == b.pid && a.bootId == b.bootId &&
    a.starttime == b.starttime

theorem rabActorEq_iff {a b : Actor} : rabActorEq a b = true ↔ a = b := by
  cases a
  cases b
  simp [rabActorEq, and_assoc]

/-- An actor as `rab_peer_identity` produces it: a positive pid, a boot id, a start time in
digits. -/
structure Actor.FromPeer (a : Actor) : Prop where
  pid_pos : 0 < a.pid.toInt
  bootId_ne_nil : a.bootId.bytes ≠ []
  starttime_ne_nil : a.starttime.bytes ≠ []
  starttime_digits : a.starttime.bytes.all isDigit = true

/-! ## Receipts and intents -/

/-- `rab_rcpt_state`. -/
inductive RcptState where
  | issued
  | redeemed
  deriving DecidableEq, Repr

/-- The durable state of an effect receipt: the `rcpt_*` fields of an intent and of a
`broker_receipt` record. -/
structure Receipt where
  state : RcptState
  /-- Lowercase hexadecimal SHA-256 of the token; the token itself is never held. -/
  verifier : Buf hex64Max
  actorUid : UInt32
  verb : Buf metaMax
  resource : Buf metaMax
  planSchema : ℤ
  planHash : Buf hex64Max
  issueBoottimeUs : UInt64
  ttlUs : UInt64
  bootId : Buf bootIdMax
  acceptedTimeUs : UInt64
  deriving DecidableEq

/-- What an open intent is: everything of `struct intent` but its key and its origin.  The source's
`has_receipt` flag is the presence of `receipt`. -/
structure OpenIntent where
  binding : Buf bindingMax
  actor : Actor
  operation : Buf metaMax
  resource : Buf metaMax
  scope : Buf scopeMax
  receipt : Option Receipt
  deriving DecidableEq

/-- `struct intent`, without its chain pointers. -/
structure Intent extends OpenIntent where
  cid : Buf cidMax
  /-- Opened by a `broker_checkpoint` record during reconstruction. -/
  fromCheckpoint : Bool
  deriving DecidableEq

instance : Inhabited Actor :=
  ⟨{ uid := 0, gid := 0, pid := 0, bootId := Buf.empty _, starttime := Buf.empty _ }⟩

/-- A zeroed `struct intent`. -/
instance : Inhabited Intent :=
  ⟨{ binding := Buf.empty _, actor := default, operation := Buf.empty _, resource := Buf.empty _,
     scope := Buf.empty _, receipt := none, cid := Buf.empty _, fromCheckpoint := false }⟩

/-! ## Configuration -/

/-- `rab_config`. -/
structure Config where
  maxOpenPerUid : UInt32
  maxOpenGlobal : UInt32
  rateWindowSec : UInt32
  rateMaxInWindow : UInt32
  rateMaxBytesPerUid : UInt64
  rateMaxBytesGlobal : UInt64
  rotateBytes : UInt64
  minFreeBytes : UInt64
  retainSegments : UInt32
  retainBytes : UInt64
  receiptTtlSec : UInt32
  deriving DecidableEq

/-- `rab_config_defaults`. -/
def rabConfigDefaults : Config where
  maxOpenPerUid := 2048
  maxOpenGlobal := 32768
  rateWindowSec := 10
  rateMaxInWindow := 2000
  rateMaxBytesPerUid := (16 : UInt64) <<< 20
  rateMaxBytesGlobal := (64 : UInt64) <<< 20
  rotateBytes := (64 : UInt64) <<< 20
  minFreeBytes := (64 : UInt64) <<< 20
  retainSegments := 16
  retainBytes := (1024 : UInt64) <<< 20
  receiptTtlSec := 300

/-- `RAB_MAX_RECEIPT_TTL_SEC`. -/
abbrev maxReceiptTtlSec : UInt32 := 30 * 24 * 60 * 60

/-- The configuration checks of `rab_broker_open`, with their messages. -/
def Config.check (cfg : Config) : Option String :=
  if cfg.retainBytes ≠ 0 ∧ cfg.rotateBytes ≠ 0 ∧ cfg.retainBytes < cfg.rotateBytes then
    some "retain_bytes must be >= rotate_bytes"
  else if cfg.rateMaxBytesPerUid ≠ 0 ∧ cfg.rateMaxInWindow = 0 then
    some "rate_max_bytes_per_uid requires rate_max_in_window > 0"
  else if cfg.receiptTtlSec = 0 ∨ maxReceiptTtlSec < cfg.receiptTtlSec then
    some "receipt_ttl_sec must be in (0, RAB_MAX_RECEIPT_TTL_SEC]"
  else none

/-- The defaults pass the checks. -/
theorem rabConfigDefaults_check : rabConfigDefaults.check = none := by
  decide

end AuditBroker
