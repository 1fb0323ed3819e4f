import AuditBroker.OpenSet
import AuditBroker.Sink

/-!
# The broker's state

`Tables` is what `rab_broker_open` reconstructs from the sink: the open-intent set and the per-uid
accounting.  `St` adds the rest of `struct rab_broker`, the files, and history variables that no
definition of the broker reads: `journal` lists the lines that landed whole in the sink, archived or
current, each with the request that caused it.
-/

namespace AuditBroker

open Foundation

/-! ## Deployment -/

/-- What is fixed for an installation: the libraries and the place of the sink. -/
structure Site where
  codec : JsonCodec
  /-- SHA-256. -/
  sha256 : Bytes → Vector UInt8 32
  /-- The sink's path up to its last slash, if it has one. -/
  dirPath : Option Bytes
  /-- The sink's name in its directory. -/
  base : Bytes
  /-- `geteuid()`. -/
  euid : UInt32

namespace Site

/-- The sink's path. -/
def path (S : Site) : Bytes :=
  match S.dirPath with
  | none => S.base
  | some d => d ++ lit "/" ++ S.base

/-- The name of the segment under construction. -/
def pendingName (S : Site) : Bytes := S.base ++ lit ".pending"

/-- `"%s.pending"` does not fit its buffer. -/
def pendingTooLong (S : Site) : Bool := pathMax ≤ (S.path ++ lit ".pending").length

/-- The name of the archive of a rotation. -/
def archName (S : Site) (ts : UInt64) : Bytes := S.base ++ lit "." ++ decimal ts.toNat

/-- `"%s.%llu"` does not fit its buffer. -/
def archTooLong (S : Site) (ts : UInt64) : Bool :=
  pathMax ≤ (S.path ++ lit "." ++ decimal ts.toNat).length

/-- `dir/name` does not fit its buffer, where `dir` is as `apply_retention` computes it. -/
def entryTooLong (S : Site) (name : Bytes) : Bool :=
  let dir := match S.dirPath with
    | none => lit "."
    | some [] => lit "/"
    | some d => d
  pathMax ≤ (dir ++ lit "/" ++ name).length

end Site

/-! ## Tables -/

/-- The in-memory tables of a broker. -/
structure Tables where
  cfg : Config
  opens : OpenSet
  uids : UidTable

namespace Tables

/-- The tables of a broker that has read nothing yet. -/
def init (cfg : Config) : Tables where
  cfg := cfg
  opens := OpenSet.init
    (pow2Ceil (if cfg.maxOpenGlobal ≠ 0 then cfg.maxOpenGlobal.toNat else 16))
  uids := UidTable.init cfg

/-- `open_add`. -/
def openAdd (t : Tables) (cid : Buf cidMax) (binding : Buf bindingMax) (actor : Actor)
    (operation resource : Buf metaMax) (scope : Buf scopeMax) : Tables :=
  let uids := t.uids.uidGet t.cfg actor.uid
  let u := uids.node actor.uid
  { t with
    opens := t.opens.openAdd cid binding actor operation resource scope
    uids := uids.setNode actor.uid { u with nOpen := u.nOpen + 1 } }

/-- `open_remove`. -/
def openRemove (t : Tables) (a : ℕ) : Tables :=
  let uid := (t.opens.heap a).actor.uid
  let u := t.uids.node uid
  { t with
    opens := t.opens.openRemove a
    uids := if t.uids.uidFind uid ∧ 0 < u.nOpen then
      t.uids.setNode uid { u with nOpen := u.nOpen - 1 } else t.uids }

/-- Install a first receipt. -/
def installReceipt (t : Tables) (a : ℕ) (r : Receipt) : Tables :=
  { t with opens := t.opens.installReceipt a r }

/-- Advance a receipt. -/
def setReceipt (t : Tables) (a : ℕ) (r : Receipt) : Tables :=
  { t with opens := t.opens.setReceipt a r }

/-- `rate_note`. -/
def rateNote (t : Tables) (uid : UInt32) (time nbytes : UInt64) : Tables :=
  { t with uids := t.uids.rateNote t.cfg uid time nbytes }

/-- `rate_note` takes the overflow branch of `uid_push`: the ring of the uid is full. -/
def noteOverflows (t : Tables) (uid : UInt32) : Bool :=
  let u := (t.uids.uidGet t.cfg uid).node uid
  t.cfg.rateMaxInWindow ≠ 0 && u.n == u.cap

/-- The representation invariant of the tables. -/
structure Ok (t : Tables) : Prop where
  opens : t.opens.Wf
  uids : t.uids.Ok t.cfg

variable {t : Tables}

theorem ok_init (cfg : Config) : (init cfg).Ok where
  opens := OpenSet.wf_init (pow2Ceil_pos _)
  uids := UidTable.ok_init cfg

/-- `open_add` gives the actor's uid a node, and changes no ring. -/
theorem uids_openAdd (h : t.uids.Ok t.cfg) (cid : Buf cidMax) (binding : Buf bindingMax)
    (actor : Actor) (operation resource : Buf metaMax) (scope : Buf scopeMax) :
    (t.openAdd cid binding actor operation resource scope).uids.Ok t.cfg ∧
      ∀ v, ((t.openAdd cid binding actor operation resource scope).uids.node v).ring =
        (t.uids.node v).ring := by
  obtain ⟨hok, hnode, hm⟩ := h.uidGet actor.uid
  refine ⟨hok.setNode hm _, fun v => ?_⟩
  simp only [Tables.openAdd, UidTable.setNode, hnode]
  by_cases hv : v = actor.uid
  · rw [hv, Function.update_self]
    rfl
  · rw [Function.update_of_ne hv]

/-- `open_remove` changes no ring. -/
theorem uids_openRemove (h : t.uids.Ok t.cfg) (a : ℕ) :
    (t.openRemove a).uids.Ok t.cfg ∧
      ∀ v, ((t.openRemove a).uids.node v).ring = (t.uids.node v).ring := by
  unfold Tables.openRemove
  by_cases hif : t.uids.uidFind (t.opens.heap a).actor.uid = true ∧
      0 < (t.uids.node (t.opens.heap a).actor.uid).nOpen
  · simp only [if_pos hif]
    have hm := UidTable.uidFind_iff.mp hif.1
    refine ⟨h.setNode hm _, fun v => ?_⟩
    simp only [UidTable.setNode]
    by_cases hv : v = (t.opens.heap a).actor.uid
    · rw [hv, Function.update_self]
      rfl
    · rw [Function.update_of_ne hv]
  · simp only [if_neg hif]
    exact ⟨h, fun _ => trivial⟩

/-- `open_add` keeps the invariant when the correlation id is new, and changes no ring. -/
theorem Ok.openAdd (h : t.Ok) {cid : Buf cidMax} (hfresh : t.opens.view cid = none)
    (binding : Buf bindingMax) (actor : Actor) (operation resource : Buf metaMax)
    (scope : Buf scopeMax) :
    (t.openAdd cid binding actor operation resource scope).Ok ∧
      ∀ v, ((t.openAdd cid binding actor operation resource scope).uids.node v).ring =
        (t.uids.node v).ring := by
  obtain ⟨hok, hring⟩ := uids_openAdd h.uids cid binding actor operation resource scope
  exact ⟨⟨h.opens.openAdd hfresh, hok⟩, hring⟩

/-- `open_remove` keeps the invariant, and changes no ring. -/
theorem Ok.openRemove (h : t.Ok) (a : ℕ) :
    (t.openRemove a).Ok ∧
      ∀ v, ((t.openRemove a).uids.node v).ring = (t.uids.node v).ring := by
  obtain ⟨hok, hring⟩ := uids_openRemove h.uids a
  exact ⟨⟨h.opens.openRemove a, hok⟩, hring⟩

/-- `rate_note` keeps the invariant and pushes onto the ring of the uid. -/
theorem Ok.rateNote (h : t.Ok) (uid : UInt32) (time nbytes : UInt64) :
    (t.rateNote uid time nbytes).Ok ∧
      (t.cfg.rateMaxInWindow ≠ 0 → ∀ v, ((t.rateNote uid time nbytes).uids.node v).ring =
        if v = uid then (t.uids.node v).ring.uidPush time nbytes else (t.uids.node v).ring) := by
  obtain ⟨hok, hnode⟩ := h.uids.rateNote_spec uid time nbytes
  refine ⟨⟨h.opens, hok⟩, fun hon v => ?_⟩
  simp only [Tables.rateNote, hnode, if_neg hon]
  by_cases hv : v = uid
  · rw [hv, Function.update_self, if_pos rfl, UidState.ring_uidPush]
  · rw [Function.update_of_ne hv, if_neg hv]

end Tables

/-! ## History -/

/-- What an appended line records. -/
inductive Act where
  /-- An intent was opened. -/
  | intent (cid : Buf cidMax) (oi : OpenIntent)
  /-- An intent was closed. -/
  | outcome (cid : Buf cidMax)
  /-- A record that opens nothing. -/
  | emit (cid : Buf cidMax)
  /-- A receipt was issued or redeemed. -/
  | receipt (cid : Buf cidMax) (r : Receipt)

/-- A line that landed whole in the sink, with the request that caused it. -/
structure Entry where
  /-- The number of the event. -/
  seq : ℕ
  env : Env
  peer : Actor
  req : Request
  /-- The accepted time. -/
  now : UInt64
  line : Bytes
  act : Act

/-- The uid that a line is charged to. -/
def Entry.chargedUid (e : Entry) : UInt32 :=
  match e.act with
  | .receipt _ r => r.actorUid
  | _ => e.peer.uid

/-- The size that a line is charged with: the line and its newline. -/
def Entry.size (e : Entry) : UInt64 := UInt64.ofNat (e.line.length + 1)

/-! ## The state -/

/-- A broker process and its files. -/
structure St extends Tables, World where
  /-- Is there a broker process?  If not, the fields of the process mean nothing. -/
  alive : Bool
  /-- The inode of the append descriptor. -/
  fd : ℕ
  host : Buf 256
  gwin : GlobalWindow
  segBytes : UInt64
  poisoned : Bool
  /-- Clock readings taken during this event. -/
  ticks : ℕ
  /-- History: the number of the current event. -/
  seq : ℕ
  /-- History: the lines that landed whole. -/
  journal : List Entry
  /-- History: the last clock reading. -/
  lastClock : UInt64
  /-- History: a line that landed whole although its append failed. -/
  landed : Option Entry
  /-- History: a request handler has pushed onto a full ring. -/
  overflowed : Bool

namespace St

/-- No process, no history. -/
def initial (fs : Fs) : St where
  toTables := Tables.init rabConfigDefaults
  fs := fs
  calls := 0
  alive := false
  fd := 0
  host := Buf.empty _
  gwin := { start := 0, bytes := 0 }
  segBytes := 0
  poisoned := false
  ticks := 0
  seq := 0
  journal := []
  lastClock := 0
  landed := none
  overflowed := false

/-- Read the wall clock. -/
def readClock (E : Env) (s : St) : UInt64 × St :=
  (E.clock s.ticks, { s with ticks := s.ticks + 1, lastClock := E.clock s.ticks })

/-- `rate_allowed` on the state. -/
def rateAllowed (s : St) (uid : UInt32) (now : UInt64) : Bool × St :=
  let r := s.uids.rateAllowed s.cfg uid now
  (r.1, { s with uids := r.2 })

/-- `bytes_allowed` on the state. -/
def bytesAllowed (s : St) (uid : UInt32) (now nbytes : UInt64) : Bool × St :=
  let r := AuditBroker.bytesAllowed s.cfg s.uids s.gwin uid now nbytes
  (r.1, { s with uids := r.2 })

/-- `append_line`: any failure poisons the broker. -/
def appendLine (E : Env) (e : Entry) (s : St) : Bool × St :=
  match World.rabSinkAppend E s.fd e.line s.toWorld with
  | (.durable, w) =>
    (true, { s with toWorld := w, segBytes := s.segBytes + e.size, journal := s.journal ++ [e] })
  | (.landed, w) =>
    (false, { s with toWorld := w, poisoned := true, journal := s.journal ++ [e],
                     landed := some e })
  | (.torn, w) => (false, { s with toWorld := w, poisoned := true })

end St

end AuditBroker
