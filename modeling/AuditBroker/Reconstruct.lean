import AuditBroker.Handlers
import AuditBroker.Foundation.Lines

/-!
# Startup reconstruction

`rab_broker_open` rebuilds the tables from the sink.  `applyStored` applies one record to the open
set, `replayLine` one line of the segment, `replayLines` the segment; every inconsistency is an error
with the source's text.  `reconstruct` reads the file, replays it and removes a torn tail.
-/

namespace AuditBroker

open Foundation

/-! ## Closed correlation ids -/

/-- `cidset`. -/
structure CidSet where
  bkt : Chains (Buf cidMax)
  nbkt : ℕ

namespace CidSet

/-- `cidset_init`. -/
def init (hint : ℕ) : CidSet where
  bkt := fun _ => []
  nbkt := pow2Ceil (if hint < 1024 then 1024 else hint)

/-- `cidset_has`. -/
def has (s : CidSet) (cid : Buf cidMax) : Bool :=
  (s.bkt (bucket s.nbkt cid.bytes)).any fun c => c.bytes == cid.bytes

/-- `cidset_add`. -/
def add (s : CidSet) (cid : Buf cidMax) : CidSet :=
  { s with bkt := s.bkt.push (bucket s.nbkt cid.bytes) cid }

end CidSet

/-! ## Applying records -/

/-- The state of a replay. -/
structure Replay where
  tables : Tables
  closed : CidSet

/-- `receipt_bound_eq`: all bound fields but the state and the accepted time. -/
def receiptBoundEq (a b : Receipt) : Bool :=
  a.actorUid == b.actorUid && a.planSchema == b.planSchema &&
    a.issueBoottimeUs == b.issueBoottimeUs && a.ttlUs == b.ttlUs && a.verifier == b.verifier &&
    a.verb == b.verb && a.resource == b.resource && a.planHash == b.planHash && a.bootId == b.bootId

/-- `apply_receipt`, to the node at an address. -/
def applyReceipt (t : Tables) (a : ℕ) (isCheckpoint : Bool) (r : Receipt) :
    Except String Tables :=
  let it := t.opens.heap a
  if r.actorUid ≠ it.actor.uid ∨ r.verb ≠ it.operation ∨ r.resource ≠ it.resource then
    .error "receipt bound fields inconsistent with its intent"
  else if isCheckpoint ∧ it.fromCheckpoint = false then
    .error "receipt checkpoint beside a non-checkpoint intent"
  else
    match it.receipt with
    | none =>
      if isCheckpoint = false ∧ r.state = .redeemed then
        .error "redeemed receipt transition without a prior issued"
      else if (t.opens.openFindVerifier r.verifier.bytes).isSome then
        .error "receipt verifier collides with another intent"
      else .ok (t.installReceipt a r)
    | some r₀ =>
      if receiptBoundEq r₀ r = false then .error "conflicting duplicate receipt"
      else if r.state = r₀.state then
        if r.acceptedTimeUs ≠ r₀.acceptedTimeUs then .error "conflicting duplicate receipt"
        else .ok t
      else if r₀.state = .issued ∧ r.state = .redeemed then
        .ok (t.setReceipt a { r₀ with state := .redeemed, acceptedTimeUs := r.acceptedTimeUs })
      else .error "inconsistent receipt state transition"

/-- The part of `apply_stored` for a record that opens an intent. -/
def applyOpening (R : Replay) (s : StoredIntent) (isCheckpoint : Bool) : Except String Replay :=
  if s.binding.bytes = [] then .error "intent/checkpoint record without a binding"
  else
    match R.tables.opens.openFindCid s.cid.bytes with
    | some a =>
      let it := R.tables.opens.heap a
      if isCheckpoint = false then .error "inconsistent duplicate intent"
      else if it.binding ≠ s.binding ∨ rabActorEq it.actor s.actor = false then
        .error "inconsistent duplicate checkpoint"
      else .ok R
    | none =>
      if R.closed.has s.cid then
        .error (if isCheckpoint then "checkpoint of a closed operation"
          else "duplicate intent for a closed operation")
      else
        let t := R.tables.openAdd s.cid s.binding s.actor s.operation s.resource s.scope
        if isCheckpoint then
          match t.opens.openFindCid s.cid.bytes with
          | some a => .ok { R with tables := { t with opens := t.opens.markCheckpoint a } }
          | none => .ok { R with tables := t }
        else .ok { R with tables := t }

/-- `apply_stored`. -/
def applyStored (R : Replay) (st : Stored) : Except String Replay :=
  match st with
  | .checkpoint s => applyOpening R s true
  | .audit s phase =>
    if phase = phaseIntent then applyOpening R s false
    else if phase = phaseOutcome then
      match R.tables.opens.openFindCid s.cid.bytes with
      | none =>
        .error (if R.closed.has s.cid then "double outcome"
          else "outcome without a matching intent")
      | some a => .ok { tables := R.tables.openRemove a, closed := R.closed.add s.cid }
    else .ok R
  | .receipt cid isCheckpoint r =>
    match R.tables.opens.openFindCid cid.bytes with
    | none =>
      .error (if R.closed.has cid then "receipt for a closed operation"
        else "orphan receipt without a matching intent")
    | some a => (applyReceipt R.tables a isCheckpoint r).map fun t => { R with tables := t }
  | .rate _ _ => .ok R

/-- The charge that a replayed record adds to the rate windows. -/
def chargeStored (t : Tables) (st : Stored) (nbytes : UInt64) : Tables :=
  match st with
  | .audit s _ => t.rateNote s.actor.uid s.timeUs nbytes
  | .receipt _ false r => t.rateNote r.actorUid r.acceptedTimeUs nbytes
  | .rate uid entries => entries.foldl (fun t e => t.rateNote uid e.1 e.2) t
  | _ => t

/-- One line of the segment; an empty line is skipped. -/
def replayLine (S : Site) (R : Replay) (line : Bytes) : Except String Replay :=
  if line = [] then .ok R
  else
    match rabParseStored S.codec line with
    | none => .error "corrupt audit record during reconstruction"
    | some st =>
      (applyStored R st).map fun R =>
        { R with tables := chargeStored R.tables st (UInt64.ofNat (line.length + 1)) }

/-- The lines of the segment, from the first on. -/
def replayLines (S : Site) (R : Replay) (lines : List Bytes) : Except String Replay :=
  lines.foldlM (replayLine S) R

/-- The state before the first line. -/
def Replay.init (cfg : Config) (total : ℕ) : Replay where
  tables := Tables.init cfg
  closed := CidSet.init (total / 128)

/-! ## Reading the segment -/

/-- `slurp_segment`.  A directory can be opened but not read. -/
def slurpSegment (S : Site) (E : Env) (w : World) : Except String Bytes × World :=
  match E.outcome .openRead w, w.fs.lookup S.base with
  | .fail _, _ => (.error "cannot read sink for reconstruction", w.tick)
  | .ok, none => (.ok [], w.tick)
  | .ok, some i =>
    let w := w.tick
    match (w.fs.node i).kind with
    | .symlink => (.error "sink is a symlink", w)
    | .other => (.error "cannot read sink for reconstruction", w)
    | kind =>
      match World.plain E .fstat w with
      | (false, w) => (.error "cannot stat sink for reconstruction", w)
      | (true, w) =>
        if maxSegmentBytes < (w.fs.node i).bytes.length then
          (.error "sink segment exceeds the reconstruction size limit", w)
        else if (w.fs.node i).bytes = [] then (.ok [], w)
        else
          match World.plain E .read w with
          | (false, w) => (.error "read error during reconstruction", w)
          | (true, w) =>
            if kind = .directory then (.error "read error during reconstruction", w)
            else (.ok (w.fs.node i).bytes, w)

/-- `truncate_to`. -/
def truncateTo (S : Site) (E : Env) (len : ℕ) (w : World) : Bool × World :=
  match World.plain E .openTrunc w, w.fs.lookup S.base with
  | (true, w), some i =>
    match E.outcome .ftruncate w with
    | .fail _ => (false, w.tick)
    | .ok => World.plain E .fsync (w.tickFs (w.fs.truncate i len))
  | (_, w), _ => (false, w)

/-- `reconstruct`: the tables of the segment, with a torn tail removed from the file. -/
def reconstruct (S : Site) (E : Env) (cfg : Config) (w : World) : Except String Tables × World :=
  match slurpSegment S E w with
  | (.error e, w) => (.error e, w)
  | (.ok buf, w) =>
    let r := splitLines buf
    match replayLines S (Replay.init cfg buf.length) r.1 with
    | .error e => (.error e, w)
    | .ok R =>
      if r.2 = [] then (.ok R.tables, w)
      else
        match truncateTo S E (buf.length - r.2.length) w with
        | (false, w) => (.error "cannot truncate a torn-tail record during reconstruction", w)
        | (true, w) => (.ok R.tables, w)

/-- `rab_broker_open`: an error text, or the state of the new process. -/
def rabBrokerOpen (S : Site) (E : Env) (cfg : Config) (s : St) : Option String × St :=
  match cfg.check with
  | some e => (some e, s)
  | none =>
    let s := if S.pendingTooLong then s else unlinkPending S E s
    match reconstruct S E cfg s.toWorld with
    | (.error e, w) => (some e, { s with toWorld := w })
    | (.ok t, w) =>
      match World.rabSinkOpen E S.euid S.base w with
      | (none, w) => (some "cannot open sink for append", { s with toWorld := w })
      | (some fd, w) =>
        let f := World.plain E .fstat w
        (none, { s with
          toTables := t, toWorld := f.2, alive := true, fd,
          host := (E.hostname.map (Buf.snprintf 256)).getD (Buf.empty 256),
          gwin := { start := 0, bytes := 0 },
          segBytes := if f.1 then UInt64.ofNat (f.2.fs.node fd).bytes.length else 0,
          poisoned := false, landed := none })

end AuditBroker
