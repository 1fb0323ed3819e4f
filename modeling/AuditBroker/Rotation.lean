import AuditBroker.State
import Mathlib.Data.List.Sort

/-!
# Carry-forward rotation and retention

`rotate` writes the open intents, their receipts and the rate windows into a pending segment, links
the current segment to an archive name and renames the pending one over the sink.  It is cut where
the source's cleanup changes: `fillPending` writes the new segment, `swapSegment` puts it in place,
`rotateInto` is both.
-/

namespace AuditBroker

open Foundation

/-! ## Retention -/

/-- `archive_ent`. -/
structure Archive where
  name : Bytes
  suffix : UInt64
  size : UInt64

/-- `arch_suffix_value` on the part of a name after the sink's name and a dot. -/
def archSuffixValue (S : Site) (name : Bytes) : Option UInt64 :=
  if (S.base ++ lit ".").isPrefixOf name then
    parseU64Strict (name.drop (S.base.length + 1))
  else none

/-- The directory scan of `apply_retention`: regular files of the broker with an archive name. -/
def scanArchives (S : Site) (E : Env) : List (Bytes × ℕ) → World → List Archive × World
  | [], w => ([], w)
  | (name, i) :: rest, w =>
    match archSuffixValue S name with
    | none => scanArchives S E rest w
    | some suffix =>
      if S.entryTooLong name then scanArchives S E rest w
      else
        match World.plain E .lstat w with
        | (false, w) => scanArchives S E rest w
        | (true, w) =>
          let r := scanArchives S E rest w
          if (w.fs.node i).kind = .regular ∧ (w.fs.node i).owner = S.euid then
            ({ name, suffix, size := UInt64.ofNat (w.fs.node i).bytes.length } :: r.1, r.2)
          else r

/-- The pruning loop of `apply_retention`: oldest first, while a bound is exceeded. -/
def pruneLoop (S : Site) (E : Env) (cfg : Config) :
    List Archive → ℕ → UInt64 → Bool → World → Bool × World
  | [], _, _, pruned, w => (pruned, w)
  | a :: rest, archives, total, pruned, w =>
    let overCount := cfg.retainSegments ≠ 0 ∧ cfg.retainSegments.toNat < archives
    let overBytes := cfg.retainBytes ≠ 0 ∧ cfg.retainBytes < total
    if ¬overCount ∧ ¬overBytes then (pruned, w)
    else if S.entryTooLong a.name then pruneLoop S E cfg rest archives total pruned w
    else
      match World.unlink E a.name w with
      | (true, w) => pruneLoop S E cfg rest (archives - 1) (total - a.size) true w
      | (false, w) => pruneLoop S E cfg rest archives total pruned w

/-- `apply_retention`. -/
def applyRetention (S : Site) (E : Env) (cfg : Config) (segBytes : UInt64) (w : World) : World :=
  if cfg.retainSegments = 0 ∧ cfg.retainBytes = 0 then w
  else if (S.dirPath.getD []).length ≥ pathMax then w
  else
    match World.plain E .opendir w with
    | (false, w) => w
    | (true, w) =>
      let scan := scanArchives S E w.fs.dir w
      let ents := scan.1.insertionSort fun a b => a.suffix ≤ b.suffix
      let total := ents.foldl (fun t a => t + a.size) segBytes
      match pruneLoop S E cfg ents ents.length total false scan.2 with
      | (true, w) => (World.rabFsyncParentDir E w).2
      | (false, w) => w

/-! ## Writing the pending segment -/

/-- Append a line to the pending segment. -/
def appendPending (E : Env) (pfd : ℕ) (line : Bytes) (s : St) : Bool × St :=
  let r := World.rabSinkAppend E pfd line s.toWorld
  (r.1 == .durable, { s with toWorld := r.2 })

/-- The checkpoint of one open intent, then that of its receipt. -/
def writeIntent (S : Site) (E : Env) (pfd : ℕ) (it : Intent) (s : St) : Bool × St :=
  let (now, s) := s.readClock E
  match rabBuildCheckpoint S.codec it.cid.bytes it.binding.bytes it.actor now it.operation.bytes
    it.resource.bytes it.scope.bytes with
  | none => (false, s)
  | some line =>
    match appendPending E pfd line s with
    | (false, s) => (false, s)
    | (true, s) =>
      match it.receipt with
      | none => (true, s)
      | some r =>
        match receiptLine S.codec it.cid true r with
        | none => (false, s)
        | some rl => appendPending E pfd rl s

/-- The checkpoints of the open intents at the given addresses. -/
def writeIntents (S : Site) (E : Env) (pfd : ℕ) : List ℕ → St → Bool × St
  | [], s => (true, s)
  | a :: rest, s =>
    match writeIntent S E pfd (s.opens.heap a) s with
    | (false, s) => (false, s)
    | (true, s) => writeIntents S E pfd rest s

/-- The rate records of the given uids. -/
def writeRates (S : Site) (E : Env) (pfd : ℕ) (th : UInt64) : List UInt32 → St → Bool × St
  | [], s => (true, s)
  | uid :: rest, s =>
    let s := { s with uids := s.uids.evictUid uid th }
    if (s.uids.node uid).n = 0 then writeRates S E pfd th rest s
    else
      match appendPending E pfd (rabBuildRate S.codec uid (s.uids.entries uid)) s with
      | (false, s) => (false, s)
      | (true, s) => writeRates S E pfd th rest s

/-- `write_rate_carries`. -/
def writeRateCarries (S : Site) (E : Env) (pfd : ℕ) (s : St) : Bool × St :=
  if s.cfg.rateMaxInWindow = 0 then (true, s)
  else
    let (now, s) := s.readClock E
    writeRates S E pfd (winTh s.cfg now) (s.uids.chain.walk nbktUid) s

/-- The whole content of the new segment. -/
def fillPending (S : Site) (E : Env) (pfd : ℕ) (s : St) : Bool × St :=
  match writeIntents S E pfd s.opens.walk s with
  | (false, s) => (false, s)
  | (true, s) => writeRateCarries S E pfd s

/-! ## Rotation -/

/-- Remove the pending segment. -/
def unlinkPending (S : Site) (E : Env) (s : St) : St :=
  { s with toWorld := (World.unlink E S.pendingName s.toWorld).2 }

/-- The new segment is in place: sync the directory, switch descriptors, prune archives. -/
def adoptSegment (S : Site) (E : Env) (pfd : ℕ) (s : St) : Bool × St :=
  let r := World.rabFsyncParentDir E s.toWorld
  let poisoned := s.poisoned || !r.1
  let f := World.plain E .fstat r.2
  let segBytes := if f.1 then UInt64.ofNat (f.2.fs.node pfd).bytes.length else 0
  let w := if poisoned then f.2 else applyRetention S E s.cfg segBytes f.2
  (!poisoned, { s with toWorld := w, poisoned, fd := pfd, segBytes })

/-- Archive the old segment and rename the new one over it. -/
def swapSegment (S : Site) (E : Env) (pfd : ℕ) (ts : UInt64) (s : St) : Bool × St :=
  let l := World.link E S.base (S.archName ts) s.toWorld
  let f := if l.1 then World.rabFsyncParentDir E l.2 else (false, l.2)
  let s := { s with toWorld := f.2 }
  if f.1 = false then
    let s := unlinkPending S E s
    (false, { s with toWorld := (World.unlink E (S.archName ts) s.toWorld).2 })
  else
    match World.rename E S.pendingName S.base s.toWorld with
    | (false, w) => (false, unlinkPending S E { s with toWorld := w })
    | (true, w) => adoptSegment S E pfd { s with toWorld := w }

/-- `rotate` from the opened pending segment on. -/
def rotateInto (S : Site) (E : Env) (pfd : ℕ) (s : St) : Bool × St :=
  match fillPending S E pfd s with
  | (false, s) => (false, unlinkPending S E s)
  | (true, s) =>
    let (ts, s) := s.readClock E
    if S.archTooLong ts then (false, unlinkPending S E s)
    else
      match World.plain E .flock s.toWorld with
      | (false, w) => (false, unlinkPending S E { s with toWorld := w })
      | (true, w) => swapSegment S E pfd ts { s with toWorld := w }

/-- `rotate`. -/
def rotate (S : Site) (E : Env) (s : St) : Bool × St :=
  if S.pendingTooLong then (false, s)
  else
    let s := unlinkPending S E s
    match World.rabSinkOpen E S.euid S.pendingName s.toWorld with
    | (none, w) => (false, { s with toWorld := w })
    | (some pfd, w) => rotateInto S E pfd { s with toWorld := w }

/-- `maybe_rotate`. -/
def maybeRotate (S : Site) (E : Env) (s : St) : St :=
  if s.cfg.rotateBytes = 0 ∨ s.segBytes ≤ s.cfg.rotateBytes then s else (rotate S E s).2

end AuditBroker
