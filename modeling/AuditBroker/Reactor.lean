import AuditBroker.Wire
import AuditBroker.Run

/-!
# The connection reactor

The event loop of `main.c`: a table of connection slots, each of which receives one request frame and
sends one response frame; a counter of the open slots; and the limits on connections.  One iteration
closes the connections past their deadline, builds the poll set, polls, and serves the entries that
poll reported, the listener first.

An iteration is a function of what the system gave it (`Pass`): the clock, the result of `poll`, the
connections that `accept4` returned with their peers, and what reads and writes did on each slot.
The timeout that is passed to `poll` is left out, since any result of `poll` is allowed for.

The history variables number the accepted connections and record, for each, how often
`rab_broker_handle` was called, how often a response was queued, and every assignment of its
deadline; and, for each poll result that was acted on, the connection in the slot when the poll set
was built and the one it was applied to.
-/

namespace AuditBroker

open Foundation

/-! ## Clocks and configuration -/

/-- `struct timespec`. -/
structure Timespec where
  sec : ℤ
  nsec : ℤ
  deriving DecidableEq

/-- `monotonic_plus`, from a reading of the monotonic clock. -/
def monotonicPlus (now : Timespec) (ms : ℤ) : Timespec :=
  let ns := now.nsec + ms.tmod 1000 * 1000000
  ⟨now.sec + ms.tdiv 1000 + ns.tdiv 1000000000, ns.tmod 1000000000⟩

/-- Milliseconds from `b` to `a`, as `deadline_ms` and `elapsed_ms` compute them. -/
def millisBetween (a b : Timespec) : ℤ :=
  (a.sec - b.sec) * 1000 + (a.nsec - b.nsec).tdiv 1000000

/-- The part of `main_cfg` that the loop reads.  `main` clamps the number of slots. -/
structure MainCfg where
  recvTimeoutMs : ℤ
  sendTimeoutMs : ℤ
  /-- `idle`: negative when the loop does not exit when idle. -/
  idle : ℤ
  connMaxPerUid : UInt32
  connWindowMs : ℤ
  maxConns : ℕ
  one_le_maxConns : 1 ≤ maxConns
  maxConns_le : maxConns ≤ 4096
  maxConnsPerUid : UInt32

/-! ## State -/

/-- `conn_uid`. -/
structure ConnUid where
  uid : UInt32
  n : UInt32
  start : Timespec
  deriving DecidableEq

/-- `conn_state`. -/
inductive ConnState where
  | recv
  | send
  deriving DecidableEq

/-- An open connection. -/
structure Conn where
  /-- Its number among the accepted connections (history). -/
  id : ℕ
  actor : Actor
  deadline : Timespec
  state : ConnState := .recv
  recv : Recv := {}
  /-- What of `out` is not sent yet. -/
  out : Bytes := []

/-- Why a deadline is set. -/
inductive Occasion where
  | accept
  | queue
  deriving DecidableEq

/-- What happened to one accepted connection. -/
structure ConnLog where
  /-- Calls of `rab_broker_handle`. -/
  handled : ℕ := 0
  /-- Responses queued. -/
  queued : ℕ := 0
  /-- Assignments of the deadline. -/
  deadlines : List (Occasion × Timespec) := []

/-- The state of the loop. -/
structure Reactor where
  /-- The slots; a free one has no descriptor. -/
  conns : List (Option Conn)
  active : ℤ
  climiter : List ConnUid
  broker : St
  /-- How many connections were admitted. -/
  admitted : ℕ
  log : ℕ → ConnLog
  /-- For each poll result acted on: the connection it was polled for, the one it was applied to. -/
  applied : List (ℕ × ℕ)
  /-- The requests that were handed to the broker. -/
  events : List Event

namespace Reactor

/-- The state before the first iteration. -/
def initial (cfg : MainCfg) (broker : St) : Reactor where
  conns := List.replicate cfg.maxConns none
  active := 0
  climiter := []
  broker := broker
  admitted := 0
  log := fun _ => {}
  applied := []
  events := []

/-- The connection in a slot. -/
def slot (r : Reactor) (i : ℕ) : Option Conn := (r.conns[i]?).join

/-- Store back the connection of a slot. -/
def put (r : Reactor) (i : ℕ) (c : Conn) : Reactor := { r with conns := r.conns.set i (some c) }

/-- `conn_close` of a slot, and the decrement that always comes with it. -/
def close (r : Reactor) (i : ℕ) : Reactor :=
  { r with conns := r.conns.set i none, active := r.active - 1 }

/-- Record something about a connection. -/
def note (r : Reactor) (id : ℕ) (f : ConnLog → ConnLog) : Reactor :=
  { r with log := Function.update r.log id (f (r.log id)) }

end Reactor

/-- `uid_active`. -/
def uidActive (conns : List (Option Conn)) (uid : UInt32) : ℕ :=
  conns.countP fun s => s.any fun c => c.actor.uid == uid

/-! ## The system's part -/

/-- A connection that `accept4` returns. -/
structure Accept where
  /-- `rab_peer_identity`, if it succeeds. -/
  peer : Option Actor
  /-- The readings of the monotonic clock: three in the limiter, then one for the deadline. -/
  clock : ℕ → Timespec

/-- What poll reports for one entry. -/
structure Revents where
  pollin : Bool
  pollout : Bool
  /-- One of `POLLERR`, `POLLHUP` and `POLLNVAL`. -/
  hangup : Bool

/-- `revents` is not zero. -/
def Revents.any (v : Revents) : Bool := v.pollin || v.pollout || v.hangup

/-- The result of `poll`. -/
inductive PollResult where
  | intr
  | failed
  | timeout
  | ready (revents : ℕ → Revents)

/-- What the system does on one slot in an iteration. -/
structure SlotIo where
  /-- The reads. -/
  source : Source
  /-- The writes. -/
  writes : List Ready
  /-- The monotonic clock when a response is queued. -/
  clock : Timespec
  /-- The environment of a request that is handled. -/
  env : Env

/-- What the system does in one iteration. -/
structure Pass where
  now : Timespec
  poll : PollResult
  /-- Successive results of `accept4`, until it returns none. -/
  accepts : List Accept
  io : ℕ → SlotIo

/-! ## Accepting -/

/-- Count one attempt in the entry of a uid. -/
def ConnUid.attempt (cfg : MainCfg) (clock : ℕ → Timespec) (u : ConnUid) : ConnUid :=
  let u := if u.n = 0 ∨ cfg.connWindowMs < millisBetween (clock 1) u.start then
    { u with start := clock 2, n := 0 } else u
  { u with n := u.n + 1 }

/-- `conn_allowed`. -/
def connAllowed (cfg : MainCfg) (clock : ℕ → Timespec) (uid : UInt32) (head : List ConnUid) :
    Bool × List ConnUid :=
  if cfg.connMaxPerUid = 0 then (true, head)
  else
    match head.findIdx? fun u => u.uid == uid with
    | some i =>
      let u := (head.getD i ⟨uid, 0, clock 0⟩).attempt cfg clock
      (u.n ≤ cfg.connMaxPerUid, head.set i u)
    | none =>
      let u := ConnUid.attempt cfg clock ⟨uid, 0, clock 0⟩
      (u.n ≤ cfg.connMaxPerUid, u :: head)

/-- `(unsigned) n`. -/
def asUnsigned (n : ℤ) : ℕ := (n % 2 ^ 32).toNat

/-- Fill a free slot with a new connection. -/
def Reactor.install (cfg : MainCfg) (a : Accept) (actor : Actor) (i : ℕ) (r : Reactor) : Reactor :=
  let deadline := monotonicPlus (a.clock 3) cfg.recvTimeoutMs
  { r.note r.admitted fun l => { l with deadlines := l.deadlines ++ [(.accept, deadline)] } with
    conns := r.conns.set i (some { id := r.admitted, actor, deadline })
    active := r.active + 1
    admitted := r.admitted + 1 }

/-- `accept_new`. -/
def acceptNew (cfg : MainCfg) : List Accept → Reactor → Reactor
  | [], r => r
  | a :: as, r =>
    if cfg.maxConns ≤ asUnsigned r.active then r
    else
      match a.peer with
      | none => acceptNew cfg as r
      | some actor =>
        let allowed := connAllowed cfg a.clock actor.uid r.climiter
        let r := { r with climiter := allowed.2 }
        if allowed.1 = false then acceptNew cfg as r
        else if cfg.maxConnsPerUid ≠ 0 ∧
            cfg.maxConnsPerUid.toNat ≤ uidActive r.conns actor.uid then acceptNew cfg as r
        else
          match r.conns.findIdx? Option.isNone with
          | none => r
          | some i => acceptNew cfg as (r.install cfg a actor i)

/-! ## Serving -/

/-- An entry of the poll set; that of a slot remembers the connection in it (history). -/
inductive PollEntry where
  | listener
  | slot (i id : ℕ)

section Serving

variable (S : Site) (cfg : MainCfg)

/-- Queue a response for the connection of a slot, or close it when that cannot be done. -/
def Reactor.queue (r : Reactor) (i : ℕ) (c : Conn) (clock : Timespec) (resp : Option Bytes) :
    Reactor :=
  match connQueueResponse resp with
  | none => r.close i
  | some out =>
    let deadline := monotonicPlus clock cfg.sendTimeoutMs
    (r.put i { c with out, state := .send, deadline }).note c.id fun l =>
      { l with queued := l.queued + 1, deadlines := l.deadlines ++ [(.queue, deadline)] }

/-- The text of a response. -/
def responseText (resp : Response) : Bytes := S.codec.dumps resp.body

/-- `conn_handle` on a complete request: a process that is killed sends nothing. -/
def Reactor.handle (r : Reactor) (i : ℕ) (c : Conn) (io : SlotIo) : Reactor :=
  match rabParseRequest S.codec c.recv.body with
  | .error ec => r.queue cfg i c io.clock (some (responseText S (.error ec "invalid request")))
  | .ok _ =>
    let event := Event.request io.env c.actor c.recv.body
    let result := step S r.broker event
    let r := { r.note c.id fun l => { l with handled := l.handled + 1 } with
      broker := result.2
      events := r.events ++ [event] }
    let resp := match result.1 with
      | .reply resp => some (responseText S resp)
      | _ => none
    r.queue cfg i c io.clock resp

/-- One connection with a poll result. -/
def Reactor.serveConn (r : Reactor) (i : ℕ) (c : Conn) (io : SlotIo) (v : Revents) : Reactor :=
  if c.state = .recv ∧ v.pollin = true then
    match connDoRecv c.recv io.source with
    | (.more, recv, _) => r.put i { c with recv }
    | (.done, recv, _) => r.handle S cfg i { c with recv } io
    | (.badVer, recv, _) => r.queue cfg i { c with recv } io.clock
        (some (responseText S (.error .badFrame "bad version or truncated frame")))
    | (.tooLarge, recv, _) => r.queue cfg i { c with recv } io.clock
        (some (responseText S (.error .tooLarge "frame exceeds the maximum")))
    | (.close, _, _) => r.close i
    | (.badFrame, _, _) => r.close i
  else if c.state = .send ∧ v.pollout = true then
    match flush c.out ⟨[], io.writes⟩ with
    | (.again, out, _) => r.put i { c with out }
    | (.done, _, _) => r.close i
    | (.fail, _, _) => r.close i
  else if v.hangup then r.close i
  else r

/-- One entry of the poll set. -/
def Reactor.serve (p : Pass) (v : Revents) (r : Reactor) : PollEntry → Reactor
  | .listener => if v.any && v.pollin then acceptNew cfg p.accepts r else r
  | .slot i id =>
    if v.any = false then r
    else
      match r.slot i with
      | none => r
      | some c =>
        { r with applied := r.applied ++ [(id, c.id)] }.serveConn S cfg i c (p.io i) v

/-- Close the connection of a slot that is past its deadline. -/
def Reactor.reapSlot (now : Timespec) (r : Reactor) (i : ℕ) : Reactor :=
  match r.slot i with
  | none => r
  | some c => if millisBetween c.deadline now ≤ 0 then r.close i else r

/-- The first loop of an iteration. -/
def Reactor.reap (now : Timespec) (r : Reactor) : Reactor :=
  (List.range cfg.maxConns).foldl (Reactor.reapSlot now) r

/-- The poll set. -/
def Reactor.pollSet (r : Reactor) : List PollEntry :=
  (if r.active < cfg.maxConns then [.listener] else []) ++
    (List.range cfg.maxConns).filterMap fun i => (r.slot i).map fun c => .slot i c.id

/-- Serve the entries of a poll set, the first of which has the number `k`. -/
def Reactor.serveAll (p : Pass) (revents : ℕ → Revents) : ℕ → List PollEntry → Reactor → Reactor
  | _, [], r => r
  | k, e :: es, r => serveAll p revents (k + 1) es (r.serve S cfg p (revents k) e)

/-- One iteration of the loop: whether it goes on, and the state after it. -/
def Reactor.iterate (p : Pass) (r : Reactor) : Bool × Reactor :=
  let r := r.reap cfg p.now
  match p.poll with
  | .intr => (true, r)
  | .failed => (false, r)
  | .timeout => (!(r.active == 0 && decide (0 ≤ cfg.idle)), r)
  | .ready revents => (true, r.serveAll S cfg p revents 0 (r.pollSet cfg))

/-- The loop. -/
def Reactor.loop : List Pass → Reactor → Reactor
  | [], r => r
  | p :: ps, r =>
    match r.iterate S cfg p with
    | (true, r) => loop ps r
    | (false, r) => r

end Serving

end AuditBroker
