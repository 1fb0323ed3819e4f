import AuditBroker.Connections

/-!
# What a connection is answered

The reactor serves many connections at a time, each in pieces.  This module follows the octets:
`Traffic` records, for every connection that was accepted, the identity of its peer, what was read
from it and what was written to it, and, for every request that was handed to the broker, the
connection it came from.

The main result is that the interleaving cannot be seen from outside.  The broker's state is that
of a sequential run of the requests; every request is the frame that one connection sent, under the
identity that the connection had when it was accepted; and what is written to a connection is the
beginning of one frame, the answer that is owed for what was read from it and for nothing else.
-/

namespace AuditBroker

open Foundation

/-! ## One call of the receiver -/

/-- What the result of a call says of the octets that the receiver has taken so far. -/
def Recv.Decided (c : Recv) : RecvResult → Prop
  | .more => c.Ok
  | .done => classify c.taken = (.complete c.body, [])
  | .badVer => (classify c.taken).1 = .badVersion
  | .tooLarge => (classify c.taken).1 = .tooLarge
  | .close => True
  | .badFrame => True

/-- The size of the largest frame. -/
abbrev frameMax : ℕ := headerSize + maxBody.toNat

/-- What a call of the receiver did: it took octets from the front of its source, and its result is
decided by all that was taken. -/
structure Took (c : Recv) (s : Source) (r : RecvResult × Recv × Source) : Prop where
  moved : ∃ b, r.2.1.taken = c.taken ++ b ∧ s.stream = b ++ r.2.2.stream
  /-- Never more than one frame is taken. -/
  length_le : r.2.1.taken.length ≤ frameMax
  decided : r.2.1.Decided r.1

/-- The body of a frame. -/
theorem took_recvBody {c : Recv} {s : Source} {len : UInt32} (hc : c.Ok)
    (hlen : c.bodyLen = some len) : Took c s (recvBody len c s) := by
  obtain ⟨hhdr, hver, rfl, hmax, hbody⟩ := hc.header len hlen
  have hf := filled_fill hbody s
  unfold recvBody
  rcases hfill : fill (frameLen c.hdr).toNat c.body s with ⟨r, body, s'⟩
  rw [hfill] at hf
  have hmoved : ∃ b, c.hdr ++ body = c.taken ++ b ∧ s.stream = b ++ s'.stream := by
    obtain ⟨b, rfl, hs⟩ : ∃ b, body = c.body ++ b ∧ s.stream = b ++ s'.stream := hf.exists_append
    exact ⟨b, by rw [Recv.taken, List.append_assoc], hs⟩
  have hle : (c.hdr ++ body).length ≤ frameMax := by
    have hbody' : body.length ≤ (frameLen c.hdr).toNat := hf.length_le
    have hmax' := UInt32.le_iff_toNat_le.mp (UInt32.not_lt.mp hmax)
    rw [List.length_append, hhdr]
    exact Nat.add_le_add_left (hbody'.trans hmax') _
  cases r with
  | full =>
    have hfull : body.length = (frameLen c.hdr).toNat := hf.full_iff.mp rfl
    refine ⟨hmoved, hle, ?_⟩
    change classify (c.hdr ++ body) = (.complete body, [])
    rw [classify_append hhdr, if_neg (by simpa using hver), if_neg hmax, if_neg (by omega),
      ← hfull, List.take_length, List.drop_length]
  | again =>
    refine ⟨hmoved, hle, hc.hdr_le, by simp [hlen], fun len' hlen' => ?_⟩
    obtain rfl : frameLen c.hdr = len' := Option.some.inj (hlen.symm.trans hlen')
    exact ⟨hhdr, hver, rfl, hmax, hf.length_le⟩
  | eof => exact ⟨hmoved, hle, trivial⟩
  | fail => exact ⟨hmoved, hle, trivial⟩

/-- One call of the receiver, whatever its reads do. -/
theorem took_connDoRecv {c : Recv} {s : Source} (hc : c.Ok) : Took c s (connDoRecv c s) := by
  unfold connDoRecv
  cases hlen : c.bodyLen with
  | some len =>
    rw [fill_of_length_eq (hc.header len hlen).1]
    have hself : { c with hdr := c.hdr, bodyLen := some len } = c := by rw [← hlen]
    simpa only [hself] using took_recvBody hc hlen
  | none =>
    have hbody := hc.body_eq_nil hlen
    have hf := filled_fill hc.hdr_le s
    rcases hfill : fill headerSize c.hdr s with ⟨r, hdr, s₁⟩
    rw [hfill] at hf
    have htaken : ∀ bodyLen, Recv.taken { hdr, bodyLen, body := c.body } = hdr := by
      intro bodyLen
      rw [Recv.taken, hbody, List.append_nil]
    have hle : ∀ bodyLen, (Recv.taken { hdr, bodyLen, body := c.body }).length ≤ frameMax := by
      intro bodyLen
      rw [htaken]
      exact le_trans hf.length_le (Nat.le_add_right _ _)
    have hmoved : ∃ b, hdr = c.taken ++ b ∧ s.stream = b ++ s₁.stream := by
      rw [Recv.taken, hbody, List.append_nil]
      exact hf.exists_append
    cases r with
    | full =>
      have hlen₁ : hdr.length = headerSize := hf.full_iff.mp rfl
      have hclass := classify_append hlen₁ []
      rw [List.append_nil] at hclass
      simp only
      by_cases hver : hdr.getD 0 0 ≠ protoVersion
      · rw [if_pos hver] at hclass ⊢
        exact ⟨by rw [htaken]; exact hmoved, hle _, by rw [Recv.Decided, htaken, hclass]⟩
      rw [if_neg hver] at hclass ⊢
      by_cases hmax : maxBody < frameLen hdr
      · rw [if_pos hmax] at hclass ⊢
        exact ⟨by rw [htaken]; exact hmoved, hle _, by rw [Recv.Decided, htaken, hclass]⟩
      rw [if_neg hmax]
      have hc₁ : Recv.Ok { c with hdr, bodyLen := some (frameLen hdr) } := by
        refine ⟨hlen₁.le, by simp, ?_⟩
        intro len hsome
        obtain rfl : frameLen hdr = len := Option.some.inj hsome
        exact ⟨hlen₁, not_not.mp hver, rfl, hmax, by simp [hbody]⟩
      obtain ⟨⟨b₂, hb₂, hs₂⟩, hle₂, hdec⟩ := took_recvBody (s := s₁) hc₁ rfl
      obtain ⟨b₁, hb₁, hs₁⟩ := hmoved
      refine ⟨⟨b₁ ++ b₂, ?_, ?_⟩, hle₂, ?_⟩
      · rw [hb₂, htaken, hb₁, List.append_assoc]
      · rw [hs₁, hs₂, List.append_assoc]
      · exact hdec
    | again =>
      refine ⟨by rw [htaken]; exact hmoved, hle _, hf.length_le, fun _ => hbody, ?_⟩
      intro len hsome
      simp at hsome
    | eof => exact ⟨by rw [htaken]; exact hmoved, hle _, trivial⟩
    | fail => exact ⟨by rw [htaken]; exact hmoved, hle _, trivial⟩

/-! ## Traffic -/

/-- What passed over one accepted connection. -/
structure Exchange where
  /-- The peer, as it was identified when the connection was accepted. -/
  peer : Option Actor := none
  /-- The octets that were read. -/
  received : Bytes := []
  /-- The octets that were written. -/
  sent : Bytes := []
  /-- The number of its request among those that were handed to the broker. -/
  request : Option ℕ := none

/-- The exchanges, by the number of the connection. -/
abbrev Traffic : Type := ℕ → Exchange

/-- The peer of the connection of a number, if it is open. -/
def Reactor.peerOf (r : Reactor) (id : ℕ) : Option Actor :=
  r.conns.findSome? fun s => (s.filter fun c => c.id == id).map Conn.actor

/-- The connections that were admitted between two states. -/
def Traffic.newcomers (t : Traffic) (r r' : Reactor) : Traffic := fun id =>
  if r.admitted ≤ id ∧ id < r'.admitted then { peer := r'.peerOf id } else t id

section Traffic

variable (S : Site) (cfg : MainCfg)

/-- What serving a connection reads and writes, and whether it hands on a request. -/
def Reactor.exchange (r : Reactor) (c : Conn) (io : SlotIo) (v : Revents) (x : Exchange) :
    Exchange :=
  if c.state = .recv ∧ v.pollin = true then
    let q := connDoRecv c.recv io.source
    { x with
      received := x.received ++
        io.source.stream.take (io.source.stream.length - q.2.2.stream.length)
      request := if q.1 = .done ∧ (rabParseRequest S.codec q.2.1.body).isOk = true then
        some r.events.length else x.request }
  else if c.state = .send ∧ v.pollout = true then
    { x with sent := x.sent ++ (flush c.out ⟨[], io.writes⟩).2.2.sent }
  else x

/-- The traffic of one entry of the poll set. -/
def Reactor.serveTraffic (p : Pass) (v : Revents) (r : Reactor) (t : Traffic) :
    PollEntry → Traffic
  | .listener => t.newcomers r (r.serve S cfg p v .listener)
  | .slot i _ =>
    if v.any = false then t
    else
      match r.slot i with
      | none => t
      | some c => Function.update t c.id (r.exchange S c (p.io i) v (t c.id))

/-- The traffic of the entries of a poll set. -/
def Reactor.allTraffic (p : Pass) (revents : ℕ → Revents) :
    ℕ → List PollEntry → Reactor → Traffic → Traffic
  | _, [], _, t => t
  | k, e :: es, r, t =>
    allTraffic p revents (k + 1) es (r.serve S cfg p (revents k) e)
      (r.serveTraffic S cfg p (revents k) t e)

/-- The traffic of one iteration. -/
def Reactor.passTraffic (p : Pass) (r : Reactor) (t : Traffic) : Traffic :=
  let r := r.reap cfg p.now
  match p.poll with
  | .ready revents => r.allTraffic S cfg p revents 0 (r.pollSet cfg) t
  | _ => t

/-- The traffic of the loop. -/
def Reactor.loopTraffic : List Pass → Reactor → Traffic → Traffic
  | [], _, t => t
  | p :: ps, r, t =>
    match r.iterate S cfg p with
    | (true, r') => loopTraffic ps r' (r.passTraffic S cfg p t)
    | (false, _) => r.passTraffic S cfg p t

end Traffic

/-! ## What is owed -/

/-- The frame of an answer. -/
def answerFrame (S : Site) (answer : Response) : Bytes :=
  wireFrame (cstr (responseText S answer))

/-- The answer to an exchange, given the requests that were handed to the broker: an error for a
frame or a body that is no request, and otherwise the reply of the broker. -/
inductive Owed (S : Site) (b : St) (evs : List Event) (x : Exchange) : Response → Prop
  | badVersion (hclass : (classify x.received).1 = .badVersion) (hreq : x.request = none) :
      Owed S b evs x (.error .badFrame "bad version or truncated frame")
  | tooLarge (hclass : (classify x.received).1 = .tooLarge) (hreq : x.request = none) :
      Owed S b evs x (.error .tooLarge "frame exceeds the maximum")
  | invalid {body : Bytes} {ec : ErrCode} (hclass : classify x.received = (.complete body, []))
      (hparse : rabParseRequest S.codec body = .error ec) (hreq : x.request = none) :
      Owed S b evs x (.error ec "invalid request")
  | handled {k : ℕ} {answer : Response} (hreq : x.request = some k)
      (hout : outAt S b evs k = .reply answer) : Owed S b evs x answer

/-- A request of an exchange: the body of the frame that was read, under the identity of the
peer. -/
def Asked (evs : List Event) (x : Exchange) (k : ℕ) : Prop :=
  ∃ env peer body, x.peer = some peer ∧ classify x.received = (.complete body, []) ∧
    evs[k]? = some (.request env peer body)

/-- What was written is the beginning of the frame that is owed. -/
def Answered (S : Site) (b : St) (evs : List Event) (x : Exchange) : Prop :=
  x.sent = [] ∨ ∃ answer, Owed S b evs x answer ∧ x.sent <+: answerFrame S answer

/-- An open connection and its exchange. -/
structure Serves (S : Site) (b : St) (evs : List Event) (c : Conn) (x : Exchange) : Prop where
  peer : x.peer = some c.actor
  recv : c.state = .recv →
    c.recv.Ok ∧ x.received = c.recv.taken ∧ x.sent = [] ∧ x.request = none
  send : c.state = .send →
    ∃ answer, Owed S b evs x answer ∧ x.sent ++ c.out = answerFrame S answer

/-- The traffic of a state of the loop. -/
structure Delivers (S : Site) (b : St) (r : Reactor) (t : Traffic) : Prop where
  fresh : ∀ id, r.admitted ≤ id → t id = {}
  known : ∀ id < r.admitted, ∃ peer, (t id).peer = some peer
  serves : ∀ i c, r.slot i = some c → Serves S b r.events c (t c.id)
  asked : ∀ id k, (t id).request = some k → Asked r.events (t id) k
  every : ∀ k < r.events.length, ∃ id, (t id).request = some k
  once : ∀ id id' k, (t id).request = some k → (t id').request = some k → id = id'
  bounded : ∀ id, (t id).received.length ≤ frameMax
  answered : ∀ id, Answered S b r.events (t id)

section Owed

variable {S : Site} {b : St} {evs : List Event} {x : Exchange} {k : ℕ} {answer : Response}

/-- Later requests do not change what an earlier one was answered. -/
theorem outAt_append (hk : k < evs.length) (l : List Event) :
    outAt S b (evs ++ l) k = outAt S b evs k := by
  rw [outAt, outAt, List.getElem?_append_left hk, List.take_append_of_le_length hk.le]

theorem lt_length_of_outAt (h : outAt S b evs k = .reply answer) : k < evs.length := by
  by_contra hk
  rw [outAt, List.getElem?_eq_none (not_lt.mp hk)] at h
  cases h

theorem Owed.append (h : Owed S b evs x answer) (l : List Event) :
    Owed S b (evs ++ l) x answer := by
  rcases h with ⟨hclass, hreq⟩ | ⟨hclass, hreq⟩ | ⟨hclass, hparse, hreq⟩ | ⟨hreq, hout⟩
  · exact .badVersion hclass hreq
  · exact .tooLarge hclass hreq
  · exact .invalid hclass hparse hreq
  · exact .handled hreq ((outAt_append (lt_length_of_outAt hout) l).trans hout)

/-- What is owed depends on what was read and on the request. -/
theorem Owed.congr {x' : Exchange} (h : Owed S b evs x answer)
    (hreceived : x'.received = x.received) (hrequest : x'.request = x.request) :
    Owed S b evs x' answer := by
  rcases h with ⟨hclass, hreq⟩ | ⟨hclass, hreq⟩ | ⟨hclass, hparse, hreq⟩ | ⟨hreq, hout⟩
  · exact .badVersion (hreceived ▸ hclass) (hrequest.trans hreq)
  · exact .tooLarge (hreceived ▸ hclass) (hrequest.trans hreq)
  · exact .invalid (hreceived ▸ hclass) hparse (hrequest.trans hreq)
  · exact .handled (hrequest.trans hreq) hout

theorem Answered.append (h : Answered S b evs x) (l : List Event) :
    Answered S b (evs ++ l) x := by
  rcases h with hnil | ⟨answer, howed, hpre⟩
  · exact Or.inl hnil
  · exact Or.inr ⟨answer, howed.append l, hpre⟩

theorem Asked.append (h : Asked evs x k) (l : List Event) : Asked (evs ++ l) x k := by
  obtain ⟨env, peer, body, hpeer, hclass, hev⟩ := h
  refine ⟨env, peer, body, hpeer, hclass, ?_⟩
  rw [List.getElem?_append_left (List.getElem?_eq_some_iff.mp hev).1, hev]

theorem Serves.append {c : Conn} (h : Serves S b evs c x) (l : List Event) :
    Serves S b (evs ++ l) c x where
  peer := h.peer
  recv := h.recv
  send := fun hsend => by
    obtain ⟨answer, howed, hout⟩ := h.send hsend
    exact ⟨answer, howed.append l, hout⟩

/-- A response that is queued is a frame of its C string. -/
theorem eq_wireFrame_of_connQueueResponse {text out : Bytes}
    (h : connQueueResponse (some text) = some out) : out = wireFrame (cstr text) := by
  have hself : connQueueResponse (some text) = connQueueResponse (some (cstr text)) := by
    rw [connQueueResponse, connQueueResponse, Option.bind_some, Option.bind_some,
      cstr_eq_self (nul_notMem_cstr text)]
  have hle : (cstr text).length ≤ maxBody.toNat := by
    by_contra hlt
    rw [connQueueResponse, Option.bind_some, if_pos (not_le.mp hlt)] at h
    cases h
  rw [hself, connQueueResponse_eq hle (nul_notMem_cstr text)] at h
  exact (Option.some.inj h).symm

end Owed

/-! ## Steps -/

section Steps

variable {S : Site} {cfg : MainCfg} {b : St} {r r' r₁ : Reactor} {t : Traffic} {i : ℕ} {c c' : Conn}
  {x : Exchange} {l : List Event}

/-- How an exchange and the list of requests grow together: not at all, or by the request of this
exchange. -/
def Grown (r : Reactor) (x₀ x : Exchange) (l : List Event) : Prop :=
  (l = [] ∧ x.request = x₀.request) ∨
    ∃ ev, l = [ev] ∧ x₀.request = none ∧ x.request = some r.events.length

/-- Serving one connection changes its slot, its exchange and the requests. -/
theorem Delivers.update (h : Delivers S b r t) (hinv : r.Inv cfg) (hc : r.slot i = some c)
    {o : Option Conn} (hconns : r'.conns = r.conns.set i o) (hadm : r'.admitted = r.admitted)
    (hevents : r'.events = r.events ++ l) (hgrown : Grown r (t c.id) x l)
    (hpeer : x.peer = (t c.id).peer) (hasked : ∀ k, x.request = some k → Asked r'.events x k)
    (hle : x.received.length ≤ frameMax) (hanswered : Answered S b r'.events x)
    (ho : ∀ d, o = some d → d.id = c.id ∧ Serves S b r'.events d x) :
    Delivers S b r' (Function.update t c.id x) := by
  have hi : i < r.conns.length := (Reactor.slot_eq_some.mp hc).1
  have hother : ∀ {id}, id ≠ c.id → Function.update t c.id x id = t id := fun hne =>
    Function.update_of_ne hne _ _
  -- A request of another exchange is an old one.
  have hold : ∀ {id k}, (t id).request = some k → k < r.events.length := by
    intro id k hreq
    obtain ⟨env, peer, body, -, -, hev⟩ := h.asked id k hreq
    exact (List.getElem?_eq_some_iff.mp hev).1
  refine ⟨?_, ?_, ?_, ?_, ?_, ?_, ?_, ?_⟩
  · intro id hid
    rw [hadm] at hid
    rw [hother (by have := hinv.id_lt i c hc; omega)]
    exact h.fresh id hid
  · rw [hadm]
    refine (Function.forall_update_iff t fun id y => id < r.admitted →
      ∃ peer, y.peer = some peer).mpr ⟨?_, fun id _ => h.known id⟩
    rw [hpeer]
    exact h.known c.id
  · intro j d hd
    rw [Reactor.slot_set hi hconns] at hd
    by_cases hj : j = i
    · rw [if_pos hj] at hd
      obtain ⟨hid, hserves⟩ := ho d hd
      rwa [hid, Function.update_self]
    · rw [if_neg hj] at hd
      have hne : d.id ≠ c.id := fun heq => hj (hinv.id_inj j i d c hd hc heq)
      rw [hother hne, hevents]
      exact (h.serves j d hd).append l
  · refine (Function.forall_update_iff t fun _ y => ∀ k, y.request = some k →
      Asked r'.events y k).mpr ⟨hasked, fun id _ k hreq => ?_⟩
    rw [hevents]
    exact (h.asked id k hreq).append l
  · intro k hk
    rw [hevents, List.length_append] at hk
    rcases hgrown with ⟨rfl, hsame⟩ | ⟨ev, rfl, hnone, hnew⟩
    · obtain ⟨id, hreq⟩ := h.every k (by simpa using hk)
      refine ⟨id, ?_⟩
      by_cases heq : id = c.id
      · rw [heq, Function.update_self, hsame, ← heq, hreq]
      · rw [hother heq, hreq]
    · rcases Nat.lt_succ_iff_lt_or_eq.mp (by simpa using hk) with hlt | rfl
      · obtain ⟨id, hreq⟩ := h.every k hlt
        have hne : id ≠ c.id := by
          rintro rfl
          rw [hnone] at hreq
          cases hreq
        exact ⟨id, by rw [hother hne, hreq]⟩
      · exact ⟨c.id, by rw [Function.update_self, hnew]⟩
  · -- The request of this exchange is its old one, or a number that no other exchange has yet.
    have hself : ∀ {id k}, id ≠ c.id → (t id).request = some k → x.request ≠ some k := by
      intro id k hne hreq hx
      rcases hgrown with ⟨-, hsame⟩ | ⟨ev, -, -, hnew⟩
      · exact hne (h.once id c.id k hreq (hsame ▸ hx))
      · have hlt := hold hreq
        rw [hnew, Option.some.injEq] at hx
        omega
    intro id id' k hreq hreq'
    by_cases heq : id = c.id
    · by_cases heq' : id' = c.id
      · rw [heq, heq']
      · rw [heq, Function.update_self] at hreq
        rw [hother heq'] at hreq'
        exact absurd hreq (hself heq' hreq')
    · rw [hother heq] at hreq
      by_cases heq' : id' = c.id
      · rw [heq', Function.update_self] at hreq'
        exact absurd hreq' (hself heq hreq)
      · rw [hother heq'] at hreq'
        exact h.once id id' k hreq hreq'
  · exact (Function.forall_update_iff t fun _ y => y.received.length ≤ frameMax).mpr
      ⟨hle, fun id _ => h.bounded id⟩
  · refine (Function.forall_update_iff t fun _ y => Answered S b r'.events y).mpr
      ⟨hanswered, fun id _ => ?_⟩
    rw [hevents]
    exact (h.answered id).append l

/-- A connection is closed. -/
theorem Delivers.close (h : Delivers S b r t) (hinv : r.Inv cfg) (hc : r.slot i = some c)
    (hpeer : x.peer = (t c.id).peer) (hreq : x.request = (t c.id).request)
    (hasked : ∀ k, x.request = some k → Asked r.events x k)
    (hle : x.received.length ≤ frameMax) (hanswered : Answered S b r.events x) :
    Delivers S b (r.close i) (Function.update t c.id x) :=
  h.update hinv hc (o := none) rfl rfl (l := []) (by simp [Reactor.close]) (Or.inl ⟨rfl, hreq⟩)
    hpeer hasked hle hanswered (by simp)

/-- A response is queued for a receiving connection, or the connection is closed. -/
theorem Delivers.queue {clock : Timespec} {resp : Option Bytes} (h : Delivers S b r t)
    (hinv : r.Inv cfg) (hc : r.slot i = some c) (hconns : r₁.conns = r.conns)
    (hadm : r₁.admitted = r.admitted) (hevents : r₁.events = r.events ++ l)
    (hgrown : Grown r (t c.id) x l) (hid : c'.id = c.id) (hactor : x.peer = some c'.actor)
    (hpeer : x.peer = (t c.id).peer) (hasked : ∀ k, x.request = some k → Asked r₁.events x k)
    (hle : x.received.length ≤ frameMax) (hsent : x.sent = [])
    (hresp : ∀ text, resp = some text →
      ∃ answer, text = responseText S answer ∧ Owed S b r₁.events x answer) :
    Delivers S b (r₁.queue cfg i c' clock resp) (Function.update t c.id x) := by
  unfold Reactor.queue
  split
  · refine h.update hinv hc (o := none) ?_ hadm hevents hgrown hpeer hasked hle (Or.inl hsent)
      (by simp)
    rw [Reactor.close, hconns]
  · rename_i out hout
    obtain ⟨text, rfl⟩ : ∃ text, resp = some text := by
      rcases resp with _ | text
      · simp [connQueueResponse] at hout
      · exact ⟨text, rfl⟩
    obtain ⟨answer, rfl, howed⟩ := hresp text rfl
    have hframe : out = answerFrame S answer := eq_wireFrame_of_connQueueResponse hout
    refine h.update hinv hc (o := some { c' with
        out, state := .send, deadline := monotonicPlus clock cfg.sendTimeoutMs })
      ?_ hadm hevents hgrown hpeer hasked hle (Or.inl hsent) ?_
    · rw [Reactor.note, Reactor.put, hconns]
    · rintro _ ⟨⟩
      refine ⟨hid, hactor, by simp, fun _ => ⟨answer, howed, ?_⟩⟩
      rw [hsent, List.nil_append, hframe]

/-- A complete request is handed to the broker, unless its body is no request. -/
theorem Delivers.handle (io : SlotIo) {x₀ : Exchange} (h : Delivers S b r t) (hinv : r.Inv cfg)
    (hran : Reactor.Ran S b r) (hc : r.slot i = some c) (c' : Conn) (hid : c'.id = c.id)
    (hx₀ : x₀ = t c.id) (hnone : x₀.request = none) (hsent : x₀.sent = [])
    (hpeer : x₀.peer = some c'.actor) {received : Bytes}
    (hclass : classify received = (.complete c'.recv.body, []))
    (hle : received.length ≤ frameMax) :
    Delivers S b (r.handle S cfg i c' io) (Function.update t c.id
      { x₀ with
        received := received
        request := if (rabParseRequest S.codec c'.recv.body).isOk = true then
          some r.events.length else x₀.request }) := by
  subst hx₀
  unfold Reactor.handle
  split
  · rename_i ec hparse
    have hok : (rabParseRequest S.codec c'.recv.body).isOk = false := by rw [hparse]; rfl
    simp only [hok, Bool.false_eq_true, if_false]
    refine h.queue hinv hc rfl rfl (l := []) (by simp) (Or.inl ⟨rfl, rfl⟩) hid hpeer rfl
      (by simp [hnone]) hle hsent ?_
    rintro text ⟨⟩
    exact ⟨_, rfl, .invalid hclass hparse hnone⟩
  · rename_i req hparse
    have hok : (rabParseRequest S.codec c'.recv.body).isOk = true := by rw [hparse]; rfl
    simp only [hok, if_true]
    have hget : (r.events ++ [Event.request io.env c'.actor c'.recv.body])[r.events.length]? =
        some (.request io.env c'.actor c'.recv.body) := by simp
    have hout : outAt S b (r.events ++ [Event.request io.env c'.actor c'.recv.body])
        r.events.length = (step S r.broker (.request io.env c'.actor c'.recv.body)).1 := by
      rw [outAt, hget, List.take_left, hran]
    refine h.queue hinv hc rfl rfl rfl (Or.inr ⟨_, rfl, hnone, rfl⟩) hid hpeer rfl ?_ hle hsent ?_
    · intro k hk
      obtain rfl : r.events.length = k := Option.some.inj hk
      exact ⟨io.env, c'.actor, c'.recv.body, hpeer, hclass, hget⟩
    · intro text htext
      split at htext
      · rename_i answer hstep
        cases htext
        exact ⟨answer, rfl, .handled rfl (hout.trans hstep)⟩
      · cases htext

/-- A connection that was waiting for its request is read from. -/
theorem Delivers.receive {io : SlotIo} {v : Revents} (h : Delivers S b r t) (hinv : r.Inv cfg)
    (hran : Reactor.Ran S b r) (hc : r.slot i = some c)
    (hrecv : c.state = .recv ∧ v.pollin = true) :
    Delivers S b (r.serveConn S cfg i c io v)
      (Function.update t c.id (r.exchange S c io v (t c.id))) := by
  have hserves := h.serves i c hc
  unfold Reactor.serveConn Reactor.exchange
  rw [if_pos hrecv, if_pos hrecv]
  obtain ⟨hok, htaken, hsent, hnone⟩ := hserves.recv hrecv.1
  have htook := took_connDoRecv (s := io.source) hok
  rcases hcall : connDoRecv c.recv io.source with ⟨res, recv, s'⟩
  rw [hcall] at htook
  obtain ⟨⟨new, hnew, hstream⟩, hle, hdecided⟩ := htook
  -- What was read so far is what the receiver has taken.
  have hread : (t c.id).received ++
      io.source.stream.take (io.source.stream.length - s'.stream.length) = recv.taken := by
    have hnew : recv.taken = c.recv.taken ++ new := hnew
    have hstream : io.source.stream = new ++ s'.stream := hstream
    rw [htaken, hnew, hstream, List.length_append, Nat.add_sub_cancel, List.take_left]
  -- A frame that is refused is answered without asking the broker.
  have hrefuse : ∀ answer, Owed S b r.events { t c.id with received := recv.taken } answer →
      Delivers S b (r.queue cfg i { c with recv } io.clock (some (responseText S answer)))
        (Function.update t c.id { t c.id with received := recv.taken }) := by
    intro answer howed
    refine h.queue hinv hc rfl rfl (l := []) (by simp) (Or.inl ⟨rfl, rfl⟩) rfl hserves.peer rfl
      (by simp [hnone]) hle hsent ?_
    rintro text ⟨⟩
    exact ⟨answer, rfl, howed⟩
  have hclose : Delivers S b (r.close i)
      (Function.update t c.id { t c.id with received := recv.taken }) :=
    h.close hinv hc rfl rfl (by simp [hnone]) hle (Or.inl hsent)
  simp only [hread]
  cases res with
  | more =>
    refine h.update hinv hc (o := some { c with recv }) rfl rfl (l := []) (by simp [Reactor.put])
      (Or.inl ⟨rfl, rfl⟩) rfl (by simp [hnone]) hle (Or.inl hsent) ?_
    rintro _ ⟨⟩
    exact ⟨rfl, hserves.peer, fun _ => ⟨hdecided, rfl, hsent, hnone⟩, by simp [hrecv.1]⟩
  | close => exact hclose
  | done =>
    have hhandle := h.handle io hinv hran hc { c with recv } rfl rfl hnone hsent hserves.peer
      hdecided hle
    simpa using hhandle
  | badVer => exact hrefuse _ (.badVersion hdecided hnone)
  | tooLarge => exact hrefuse _ (.tooLarge hdecided hnone)
  | badFrame => exact hclose

/-- A connection that has a response to send is written to. -/
theorem Delivers.transmit {io : SlotIo} {v : Revents} (h : Delivers S b r t) (hinv : r.Inv cfg)
    (hc : r.slot i = some c) (hrecv : ¬(c.state = .recv ∧ v.pollin = true))
    (hsend : c.state = .send ∧ v.pollout = true) :
    Delivers S b (r.serveConn S cfg i c io v)
      (Function.update t c.id (r.exchange S c io v (t c.id))) := by
  have hserves := h.serves i c hc
  obtain ⟨answer, howed, hframe⟩ := hserves.send hsend.1
  unfold Reactor.serveConn Reactor.exchange
  rw [if_neg hrecv, if_neg hrecv, if_pos hsend, if_pos hsend]
  have hf := flushed_flush c.out ⟨[], io.writes⟩
  rcases hflush : flush c.out ⟨[], io.writes⟩ with ⟨res, out, d⟩
  rw [hflush] at hf
  have hmoved : d.sent ++ out = c.out := hf.moved
  have hrest : (t c.id).sent ++ d.sent ++ out = answerFrame S answer := by
    rw [List.append_assoc, hmoved, hframe]
  have howed' : Owed S b r.events { t c.id with sent := (t c.id).sent ++ d.sent } answer :=
    howed.congr rfl rfl
  have hanswered : Answered S b r.events { t c.id with sent := (t c.id).sent ++ d.sent } :=
    Or.inr ⟨answer, howed', ⟨out, hrest⟩⟩
  have hclose : Delivers S b (r.close i)
      (Function.update t c.id { t c.id with sent := (t c.id).sent ++ d.sent }) :=
    h.close hinv hc rfl rfl (h.asked c.id) (h.bounded c.id) hanswered
  cases res with
  | again =>
    refine h.update hinv hc (o := some { c with out }) rfl rfl (l := []) (by simp [Reactor.put])
      (Or.inl ⟨rfl, rfl⟩) rfl (h.asked c.id) (h.bounded c.id) hanswered ?_
    rintro _ ⟨⟩
    exact ⟨rfl, hserves.peer, by simp [hsend.1], fun _ => ⟨answer, howed', hrest⟩⟩
  | done => exact hclose
  | fail => exact hclose

/-- A connection is served. -/
theorem Delivers.serveConn {io : SlotIo} {v : Revents} (h : Delivers S b r t) (hinv : r.Inv cfg)
    (hran : Reactor.Ran S b r) (hc : r.slot i = some c) :
    Delivers S b (r.serveConn S cfg i c io v)
      (Function.update t c.id (r.exchange S c io v (t c.id))) := by
  by_cases hrecv : c.state = .recv ∧ v.pollin = true
  · exact h.receive hinv hran hc hrecv
  by_cases hsend : c.state = .send ∧ v.pollout = true
  · exact h.transmit hinv hc hrecv hsend
  unfold Reactor.serveConn Reactor.exchange
  rw [if_neg hrecv, if_neg hrecv, if_neg hsend, if_neg hsend]
  split
  · exact h.close hinv hc rfl rfl (h.asked c.id) (h.bounded c.id) (h.answered c.id)
  · rw [Function.update_eq_self]
    exact h

/-- The peer of an open connection. -/
theorem peerOf_eq (hinv : r.Inv cfg) (hc : r.slot i = some c) : r.peerOf c.id = some c.actor := by
  obtain ⟨hi, hget⟩ := Reactor.slot_eq_some.mp hc
  rcases hfind : r.peerOf c.id with _ | a
  · have hnone := List.findSome?_eq_none_iff.mp hfind (r.conns.get ⟨i, hi⟩) (List.get_mem _ _)
    rw [hget] at hnone
    simp at hnone
  · obtain ⟨s, hs, hsome⟩ := List.exists_of_findSome?_eq_some hfind
    obtain ⟨d, hd, rfl⟩ := Option.map_eq_some_iff.mp hsome
    obtain ⟨rfl, hid⟩ := Option.filter_eq_some_iff.mp hd
    obtain ⟨⟨j, hj⟩, hget'⟩ := List.get_of_mem hs
    have hslot : r.slot j = some d := Reactor.slot_eq_some.mpr ⟨hj, hget'⟩
    obtain rfl := hinv.id_inj j i d c hslot hc (by simpa using hid)
    rw [Option.some.inj (hslot.symm.trans hc)]

/-- A request is that of a connection that was accepted. -/
theorem Delivers.lt_admitted (h : Delivers S b r t) {id k : ℕ} (hk : (t id).request = some k) :
    id < r.admitted := by
  by_contra hge
  rw [h.fresh id (not_lt.mp hge)] at hk
  cases hk

/-- Connections are accepted. -/
theorem Delivers.accept (h : Delivers S b r t) (hinv : r.Inv cfg) (hinv' : r'.Inv cfg)
    (hadm : Reactor.Admitted r r') : Delivers S b r' (t.newcomers r r') := by
  have hold : ∀ {id}, id < r.admitted → t.newcomers r r' id = t id := fun hlt =>
    if_neg fun hand => absurd hlt (not_lt.mpr hand.1)
  have hnew : ∀ {id}, r.admitted ≤ id → id < r'.admitted →
      t.newcomers r r' id = { peer := r'.peerOf id } := fun hle hlt => if_pos ⟨hle, hlt⟩
  -- A request belongs to an old connection.
  have hreq : ∀ {id k}, (t.newcomers r r' id).request = some k → t.newcomers r r' id = t id := by
    intro id k hsome
    rw [Traffic.newcomers] at hsome ⊢
    split at hsome
    · cases hsome
    · rw [if_neg ‹_›]
  refine ⟨?_, ?_, ?_, ?_, ?_, ?_, ?_, ?_⟩
  · intro id hid
    rw [Traffic.newcomers, if_neg (by omega)]
    exact h.fresh id (hadm.admitted_le.trans hid)
  · intro id hid
    rcases lt_or_ge id r.admitted with hlt | hge
    · rw [hold hlt]
      exact h.known id hlt
    · obtain ⟨j, d, hd, rfl⟩ := hadm.filled id hge hid
      exact ⟨d.actor, by rw [hnew hge hid, peerOf_eq hinv' hd]⟩
  · intro j d hd
    rw [hadm.events]
    rcases hadm.slots j d hd with hslot | ⟨hge, hstate, hrecv⟩
    · rw [hold (hinv.id_lt j d hslot)]
      exact h.serves j d hslot
    · rw [hnew hge (hinv'.id_lt j d hd)]
      refine ⟨peerOf_eq hinv' hd, fun _ => ?_, fun hsend => ?_⟩
      · rw [hrecv]
        exact ⟨Recv.Ok.empty, rfl, rfl, rfl⟩
      · rw [hstate] at hsend
        cases hsend
  · intro id k hsome
    have heq := hreq hsome
    rw [heq] at hsome ⊢
    rw [hadm.events]
    exact h.asked id k hsome
  · intro k hk
    rw [hadm.events] at hk
    obtain ⟨id, hsome⟩ := h.every k hk
    exact ⟨id, by rw [hold (h.lt_admitted hsome), hsome]⟩
  · intro id id' k hsome hsome'
    rw [hreq hsome] at hsome
    rw [hreq hsome'] at hsome'
    exact h.once id id' k hsome hsome'
  · intro id
    rw [Traffic.newcomers]
    split
    · exact Nat.zero_le _
    · exact h.bounded id
  · intro id
    rw [hadm.events, Traffic.newcomers]
    split
    · exact Or.inl rfl
    · exact h.answered id

/-- The listener is served. -/
theorem Delivers.serve_listener {p : Pass} {v : Revents} (h : Delivers S b r t)
    (hinv : r.Inv cfg) :
    Delivers S b (r.serve S cfg p v .listener) (r.serveTraffic S cfg p v t .listener) := by
  obtain ⟨hinv', hadm⟩ := hinv.serve_listener (S := S) (p := p) (v := v)
  exact h.accept hinv hinv' hadm

/-- The entry of a slot is served. -/
theorem Delivers.serve_slot {p : Pass} {v : Revents} {id : ℕ} (h : Delivers S b r t)
    (hinv : r.Inv cfg) (hran : Reactor.Ran S b r) (hid : ∀ c, r.slot i = some c → c.id = id) :
    Delivers S b (r.serve S cfg p v (.slot i id)) (r.serveTraffic S cfg p v t (.slot i id)) := by
  unfold Reactor.serve Reactor.serveTraffic
  simp only
  by_cases hany : v.any = false
  · rw [if_pos hany, if_pos hany]
    exact h
  rw [if_neg hany, if_neg hany]
  rcases hc : r.slot i with _ | c
  · exact h
  · -- The record of what was applied plays no part in the exchanges.
    exact Delivers.serveConn (r := { r with applied := r.applied ++ [(id, c.id)] })
      ⟨h.fresh, h.known, h.serves, h.asked, h.every, h.once, h.bounded, h.answered⟩
      (hinv.apply (hid c hc)) hran hc

/-- The entries of slots are served. -/
theorem Delivers.serveAll_slots {p : Pass} {revents : ℕ → Revents} {es : List PollEntry} {k : ℕ}
    (h : Delivers S b r t) (hinv : r.Inv cfg) (hran : Reactor.Ran S b r)
    (hw : Reactor.Watched r es) :
    Delivers S b (r.serveAll S cfg p revents k es) (r.allTraffic S cfg p revents k es t) := by
  induction es generalizing r t k with
  | nil => exact h
  | cons e es ih =>
    obtain ⟨i, id, rfl, hid⟩ := hw e List.mem_cons_self
    obtain ⟨hinv', hnew⟩ := hinv.serve_slot (S := S) (p := p) (v := revents k) hid
    have hrest : Reactor.Watched r es := fun e he => hw e (List.mem_cons_of_mem _ he)
    exact ih (h.serve_slot hinv hran hid) hinv' hran.serve (hrest.of_noNew hnew)

/-- All entries of the poll set are served. -/
theorem Delivers.serveAll {p : Pass} {revents : ℕ → Revents} (h : Delivers S b r t)
    (hinv : r.Inv cfg) (hran : Reactor.Ran S b r) :
    Delivers S b (r.serveAll S cfg p revents 0 (r.pollSet cfg))
      (r.allTraffic S cfg p revents 0 (r.pollSet cfg) t) := by
  obtain ⟨es, hes, hset | hset⟩ := Reactor.pollSet_cases cfg r
  · rw [hset]
    exact h.serveAll_slots hinv hran (hes.watched (.refl r))
  · rw [hset, Reactor.serveAll, Reactor.allTraffic]
    obtain ⟨hinv', hadm⟩ := hinv.serve_listener (S := S) (p := p) (v := revents 0)
    exact (h.serve_listener hinv).serveAll_slots hinv' hran.serve (hes.watched hadm)

/-- Connections past their deadline are closed. -/
theorem Delivers.reap {now : Timespec} (h : Delivers S b r t) (hinv : r.Inv cfg) :
    Delivers S b (r.reap cfg now) t := by
  unfold Reactor.reap
  generalize List.range cfg.maxConns = is
  induction is generalizing r with
  | nil => exact h
  | cons i is ih =>
    refine ih ?_ (hinv.reapSlot i)
    unfold Reactor.reapSlot
    split
    · exact h
    · rename_i c hc
      split
      · have hclose : Delivers S b (r.close i) (Function.update t c.id (t c.id)) :=
          h.close hinv hc rfl rfl (h.asked c.id) (h.bounded c.id) (h.answered c.id)
        rwa [Function.update_eq_self] at hclose
      · exact h

/-- One iteration. -/
theorem Delivers.iterate {p : Pass} (h : Delivers S b r t) (hinv : r.Inv cfg)
    (hran : Reactor.Ran S b r) :
    Delivers S b (r.iterate S cfg p).2 (r.passTraffic S cfg p t) ∧
      Reactor.Ran S b (r.iterate S cfg p).2 := by
  have hreap : Delivers S b (r.reap cfg p.now) t := h.reap hinv
  have hran' : Reactor.Ran S b (r.reap cfg p.now) := hran.reap
  unfold Reactor.iterate Reactor.passTraffic
  rcases p.poll with _ | _ | _ | revents
  · exact ⟨hreap, hran'⟩
  · exact ⟨hreap, hran'⟩
  · exact ⟨hreap, hran'⟩
  · exact ⟨hreap.serveAll hinv.reap hran', hran'.serveAll⟩

theorem Delivers.loop (ps : List Pass) (h : Delivers S b r t) (hinv : r.Inv cfg)
    (hran : Reactor.Ran S b r) :
    Delivers S b (r.loop S cfg ps) (r.loopTraffic S cfg ps t) := by
  induction ps generalizing r t with
  | nil => exact h
  | cons p ps ih =>
    obtain ⟨hdel, hran'⟩ := h.iterate (p := p) hinv hran
    have hinv' := hinv.iterate (S := S) (p := p)
    rw [Reactor.loop, Reactor.loopTraffic]
    rcases hit : r.iterate S cfg p with ⟨goes, r'⟩
    rw [hit] at hdel hran' hinv'
    cases goes with
    | true => exact ih hdel hinv' hran'
    | false => exact hdel

theorem delivers_initial (S : Site) (cfg : MainCfg) (b : St) :
    Delivers S b (Reactor.initial cfg b) fun _ => {} where
  fresh := fun _ _ => rfl
  known := fun id hid => absurd hid (Nat.not_lt_zero id)
  serves := by
    intro i c hc
    obtain ⟨hi, hget⟩ := Reactor.slot_eq_some.mp hc
    simp [Reactor.initial] at hget
  asked := by simp
  every := by simp [Reactor.initial]
  once := by simp
  bounded := fun _ => Nat.zero_le _
  answered := fun _ => Or.inl rfl

end Steps

/-- The interleaving of the reactor cannot be seen from outside.  After every sequence of
iterations, whatever poll, accept, reads, writes and the clock do: the broker's state is that of a
sequential run of the requests that were handed to it; each of them is the request of exactly one
accepted connection, the body of the one frame that was read from it under the identity of its peer;
no more than one frame is read from a connection, and what was written to it is a beginning of the one
frame that is owed for what was read from it. -/
theorem reactor_serialises (S : Site) (cfg : MainCfg) (b : St) (ps : List Pass) :
    ∃ (r : Reactor) (t : Traffic), r = (Reactor.initial cfg b).loop S cfg ps ∧
      t = (Reactor.initial cfg b).loopTraffic S cfg ps (fun _ => {}) ∧
      r.broker = run S b r.events ∧
      (∀ k < r.events.length, ∃! id, id < r.admitted ∧ (t id).request = some k) ∧
      ∀ id < r.admitted, ∃ peer, (t id).peer = some peer ∧
        (t id).received.length ≤ frameMax ∧
        (∀ k, (t id).request = some k → ∃ env body,
          classify (t id).received = (.complete body, []) ∧
          r.events[k]? = some (.request env peer body)) ∧
        ((t id).sent = [] ∨
          ∃ answer, Owed S b r.events (t id) answer ∧ (t id).sent <+: answerFrame S answer) := by
  have h := (delivers_initial S cfg b).loop ps (Reactor.Inv.initial cfg b) rfl
  refine ⟨_, _, rfl, rfl, Reactor.broker_loop ps, fun k hk => ?_, fun id hid => ?_⟩
  · obtain ⟨id, hid⟩ := h.every k hk
    exact ⟨id, ⟨h.lt_admitted hid, hid⟩, fun id' hid' => h.once id' id k hid'.2 hid⟩
  · obtain ⟨peer, hpeer⟩ := h.known id hid
    refine ⟨peer, hpeer, h.bounded id, fun k hk => ?_, h.answered id⟩
    obtain ⟨env, peer', body, hpeer', hclass, hev⟩ := h.asked id k hk
    obtain rfl : peer = peer' := Option.some.inj (hpeer.symm.trans hpeer')
    exact ⟨env, body, hclass, hev⟩

end AuditBroker
