import AuditBroker.Swapping

/-!
# Handlers as guarded steps

Every handler is a sequence of small steps: it reads the clock, it looks at the rings of a uid, and
it commits a line.  `Allowed` is what the code has checked when it commits a line, in the terms of
the broker's tables; `Step` is one small step and `Steps` a sequence.  `rabBrokerHandle_handled`
takes the handlers apart once; everything that holds along all steps then holds for every request.
-/

namespace AuditBroker

open Foundation

/-! ## Rotation as a step -/

/-- What a rotation may change of the state of the process. -/
structure Rotates (E : Env) (s s' : St) : Prop where
  rest : s' = { s with toWorld := s'.toWorld, uids := s'.uids, ticks := s'.ticks,
                       lastClock := s'.lastClock, fd := s'.fd, segBytes := s'.segBytes,
                       poisoned := s'.poisoned }
  ticks_le : s.ticks ≤ s'.ticks
  clock : s'.ticks = s.ticks ∧ s'.lastClock = s.lastClock ∨
    s.ticks < s'.ticks ∧ s'.lastClock = E.clock (s'.ticks - 1)
  evicts : ∃ now, UidTable.Evicts s.cfg (winTh s.cfg now) s.uids s'.uids ∧
    (now = s.lastClock ∨ ∃ k, s.ticks ≤ k ∧ k < s'.ticks ∧ now = E.clock k)

variable {S : Site} {E : Env} {C : Ctx} {s s' : St}

theorem Rotates.cfg_eq (h : Rotates E s s') : s'.cfg = s.cfg := by
  rw [h.rest]

theorem Rotates.opens_eq (h : Rotates E s s') : s'.opens = s.opens := by
  rw [h.rest]

theorem Rotates.seq_eq (h : Rotates E s s') : s'.seq = s.seq := by
  rw [h.rest]

theorem Rotates.journal_eq (h : Rotates E s s') : s'.journal = s.journal := by
  rw [h.rest]

theorem Carries.rotates (h : Carries E s s') : Rotates E s s' where
  rest := by
    conv_lhs => rw [h.rest]
    rw [h.rest]
  ticks_le := h.ticks_le
  clock := h.clock
  evicts := h.evicts

theorem rotates_refl (hs : s.uids.Ok s.cfg) : Rotates E s s :=
  ((Quiet.refl E s).carries hs rfl).rotates

theorem rotate_rotates (S : Site) (E : Env) (hs : s.uids.Ok s.cfg) :
    Rotates E s (rotate S E s).2 := by
  rcases rotate_cases (S := S) (E := E) (fun _ => False) (fun _ => True) hs id id
    (fun _ _ => trivial) (Or.inr fun _ _ => trivial) with
    ⟨-, hcarries, -⟩ | ⟨pfd, w₀, s₁, w, hprep, -, -, -, heq⟩
  · exact hcarries.rotates
  · obtain ⟨hrest, -⟩ := adoptSegment_spec (fun _ => False) S E pfd { s₁ with toWorld := w }
      (fun _ h => h.elim)
    rw [← heq] at hrest
    have hq : Quiet E s s₁ := (Quiet.world E s w₀).trans hprep.toQuiet
    refine ⟨?_, ?_, ?_, ?_⟩
    · rw [hrest, hq.rest]
    · rw [hrest]
      exact hq.ticks_le
    · rw [hrest]
      exact hq.clock
    · rw [hrest]
      exact hprep.evicts

theorem maybeRotate_rotates (S : Site) (E : Env) (hs : s.uids.Ok s.cfg) :
    Rotates E s (maybeRotate S E s) := by
  unfold maybeRotate
  split
  · exact rotates_refl hs
  · exact rotate_rotates S E hs

/-! ## Commits -/

/-- The entry that a commit appends. -/
def Ctx.entry (C : Ctx) (s : St) (line : Bytes) (act : Act) : Entry where
  seq := s.seq
  env := C.env
  peer := C.peer
  req := C.req
  now := s.lastClock
  line := line
  act := act

/-- No line of this event is in the history yet. -/
def St.Unwritten (s : St) : Prop := ∀ e ∈ s.journal, e.seq ≠ s.seq

/-- What the code has checked when it commits a line: the act that it records, and the change in
memory that goes with it. -/
inductive Allowed (S : Site) (C : Ctx) (s : St) (line : Bytes) : Act → (Tables → Tables) → Prop
  /-- `handle_open`. -/
  | intent {cid : Buf cidMax} {binding : Buf bindingMax} (type : C.req.type = .openIntent)
      (effect_fits : C.req.effectPresent = true →
        (domainStr C.req.record "operation").length < metaMax ∧
          (domainStr C.req.record "resource").length < metaMax)
      (cid_minted : rabMakeCorrelationId C.env = some cid)
      (binding_minted : rabMakeBinding C.env = some binding)
      (first : s.Unwritten)
      (caps : s.opens.openCount < s.cfg.maxOpenGlobal.toNat ∧
        (s.uids.node C.peer.uid).nOpen < s.cfg.maxOpenPerUid)
      (line_eq : rabBuildAudit S.codec phaseIntent.bytes cid.bytes (some binding.bytes) C.peer
        s.host.bytes s.lastClock C.req.record = some line) :
      Allowed S C s line
        (.intent cid
          { binding, actor := C.peer, operation := recStr metaMax C.req.record "operation",
            resource := recStr metaMax C.req.record "resource",
            scope := recStr scopeMax C.req.record "scope", receipt := none })
        (·.openAdd cid binding C.peer (recStr metaMax C.req.record "operation")
          (recStr metaMax C.req.record "resource") (recStr scopeMax C.req.record "scope"))
  /-- `handle_outcome`. -/
  | outcome {a : ℕ} (type : C.req.type = .writeOutcome)
      (find : s.opens.openFindBinding C.req.binding.bytes = some a)
      (actor : rabActorEq (s.opens.heap a).actor C.peer = true)
      (gate : effectGate (s.opens.heap a) C.req.record = false)
      (line_eq : rabBuildAudit S.codec phaseOutcome.bytes (s.opens.heap a).cid.bytes none C.peer
        s.host.bytes s.lastClock C.req.record = some line) :
      Allowed S C s line (.outcome (s.opens.heap a).cid) (·.openRemove a)
  /-- `handle_emit`. -/
  | emit {cid : Buf cidMax} (type : C.req.type = .emit)
      (cid_minted : rabMakeCorrelationId C.env = some cid)
      (line_eq : rabBuildAudit S.codec C.req.phase.bytes cid.bytes none C.peer s.host.bytes
        s.lastClock C.req.record = some line) :
      Allowed S C s line (.emit cid) id
  /-- `rab_broker_issue_receipt`, for the intent that the same request opened. -/
  | issue {a : ℕ} {r : Receipt} {token : Buf receiptMax} {attempt : ℕ}
      (effect : C.req.effectPresent = true)
      (find : s.opens.openFindCid (s.opens.heap a).cid.bytes = some a)
      (opened : ∃ J₀ e₀ oi, s.journal = J₀ ++ [e₀] ∧ e₀.act = .intent (s.opens.heap a).cid oi ∧
        e₀.seq = s.seq ∧ e₀.env = C.env ∧ e₀.peer = C.peer ∧ e₀.req = C.req)
      (receipt_none : (s.opens.heap a).receipt = none)
      (r_eq : r =
        { state := .issued, verifier := verifierOf S token.bytes,
          actorUid := (s.opens.heap a).actor.uid, verb := (s.opens.heap a).operation,
          resource := (s.opens.heap a).resource, planSchema := r.planSchema,
          planHash := C.req.effectPlanHash, issueBoottimeUs := r.issueBoottimeUs,
          ttlUs := s.cfg.receiptTtlSec.toUInt64 * 1000000, bootId := r.bootId,
          acceptedTimeUs := s.lastClock })
      (planSchema : r.planSchema = planSchemaV1 ∧ r.planSchema = C.req.effectPlanSchema)
      (boot : C.env.boottime = some r.issueBoottimeUs ∧ C.env.bootid = some r.bootId)
      (minted : rabMakeReceipt C.env attempt = some token)
      (unused : s.opens.openFindVerifier (verifierOf S token.bytes).bytes = none)
      (line_eq : receiptLine S.codec (s.opens.heap a).cid false r = some line) :
      Allowed S C s line (.receipt (s.opens.heap a).cid r) (·.installReceipt a r)
  /-- `rab_broker_redeem_receipt`. -/
  | redeem {a : ℕ} {r : Receipt} {nowUs : UInt64} (type : C.req.type = .redeem)
      (superuser : C.peer.uid = 0)
      (find : s.opens.openFindCid (s.opens.heap a).cid.bytes = some a)
      (receipt_eq : (s.opens.heap a).receipt = some r) (issued : r.state = .issued)
      (principal : C.req.redeemPrincipalUid = r.actorUid)
      (token : ∃ a₀, s.opens.openFindVerifier (verifierOf S C.req.effectReceipt.bytes).bytes =
        some a₀ ∧ (s.opens.heap a₀).cid = (s.opens.heap a).cid)
      (bound : C.req.redeemPlanSchema = r.planSchema ∧ C.req.redeemVerb.bytes = r.verb.bytes ∧
        C.req.redeemResource.bytes = r.resource.bytes ∧
        C.req.redeemPlanHash.bytes = r.planHash.bytes)
      (boot : C.env.boottime = some nowUs ∧ C.env.bootid = some r.bootId)
      (ttl : r.issueBoottimeUs ≤ nowUs ∧ nowUs - r.issueBoottimeUs ≤ r.ttlUs)
      (line_eq : receiptLine S.codec (s.opens.heap a).cid false
        { r with state := .redeemed, acceptedTimeUs := s.lastClock } = some line) :
      Allowed S C s line
        (.receipt (s.opens.heap a).cid
          { r with state := .redeemed, acceptedTimeUs := s.lastClock })
        (·.setReceipt a { r with state := .redeemed, acceptedTimeUs := s.lastClock })

/-- The rate check of a uid has passed. -/
def St.RateOk (s : St) (uid : UInt32) : Prop :=
  s.cfg.rateMaxInWindow ≠ 0 → (s.uids.node uid).n < s.cfg.rateMaxInWindow

/-- One small step of a handler. -/
inductive Step (S : Site) (C : Ctx) : St → St → Prop
  /-- The clock is read. -/
  | clock (s : St) : Step S C s (s.readClock C.env).2
  /-- Rings are looked at. -/
  | check {s : St} {t : UidTable}
      (evicts : UidTable.Evicts s.cfg (winTh s.cfg s.lastClock) s.uids t) :
      Step S C s { s with uids := t }
  /-- A line is committed. -/
  | commit {s : St} {line : Bytes} {act : Act} {install : Tables → Tables}
      (healthy : s.poisoned = false) (allowed : Allowed S C s line act install)
      (clocked : ∃ k < s.ticks, s.lastClock = C.env.clock k)
      (rate : s.RateOk (C.entry s line act).chargedUid) :
      Step S C s (commit S C line act s.lastClock install s).2

/-- A sequence of small steps. -/
abbrev Steps (S : Site) (C : Ctx) : St → St → Prop := Relation.ReflTransGen (Step S C)

/-! ## The parts of a commit -/

/-- The state after the line was appended: the change in memory and the charge. -/
def St.charge (s : St) (install : Tables → Tables) (e : Entry) : St :=
  { s with
    toTables := (install s.toTables).rateNote e.chargedUid e.now e.size
    overflowed := s.overflowed || (install s.toTables).noteOverflows e.chargedUid
    gwin := globalBytesNote s.cfg s.gwin e.now e.size }

/-- The parts of a commit in their order: quotas, append, charge, rotation. -/
theorem commit_eq (S : Site) (C : Ctx) (line : Bytes) (act : Act) (install : Tables → Tables)
    (s : St) {e : Entry} (he : e = C.entry s line act) {b : Bool × UidTable}
    (hb : b = s.uids.uidBytesAllowed s.cfg e.chargedUid s.lastClock e.size) :
    commit S C line act s.lastClock install s =
      match (b.1 && globalBytesAllowed s.cfg s.gwin s.lastClock e.size,
        ({ s with uids := b.2 } : St)) with
      | (false, s) => (.overQuota, s)
      | (true, s) =>
        match s.appendLine C.env e with
        | (false, s) => (.failed, s)
        | (true, s) =>
          (if (maybeRotate S C.env (s.charge install e)).poisoned then .uncertain else .durable,
            maybeRotate S C.env (s.charge install e)) := by
  rw [hb, he]
  rfl

/-- A commit evicts the ring of the charged uid; then it stops at a quota, or appends the line, and
if that was durable, charges it and rotates. -/
theorem commit_cases (hok : s.uids.Ok s.cfg) (line : Bytes) (act : Act)
    (install : Tables → Tables) :
    ∃ t, UidTable.Evicts s.cfg (winTh s.cfg s.lastClock) s.uids t ∧
      (commit S C line act s.lastClock install s = (.overQuota, { s with uids := t }) ∨
      (s.cfg.rateMaxBytesPerUid ≠ 0 →
        (t.node (C.entry s line act).chargedUid).bsum + (C.entry s line act).size ≤
          s.cfg.rateMaxBytesPerUid) ∧
      ((∃ s₂, ({ s with uids := t } : St).appendLine C.env (C.entry s line act) = (false, s₂) ∧
          commit S C line act s.lastClock install s = (.failed, s₂)) ∨
        ∃ s₂, ({ s with uids := t } : St).appendLine C.env (C.entry s line act) = (true, s₂) ∧
          commit S C line act s.lastClock install s =
            (if (maybeRotate S C.env (s₂.charge install (C.entry s line act))).poisoned then
              .uncertain else .durable,
            maybeRotate S C.env (s₂.charge install (C.entry s line act))))) := by
  set e := C.entry s line act with he
  obtain ⟨hev, hbytes⟩ := hok.uidBytesAllowed_spec e.chargedUid s.lastClock e.size
  refine ⟨_, hev, ?_⟩
  set b := UidTable.uidBytesAllowed s.cfg s.uids e.chargedUid s.lastClock e.size with hb
  have hcommit := commit_eq S C line act install s he hb
  cases hallow : b.1 && globalBytesAllowed s.cfg s.gwin s.lastClock e.size with
  | false =>
    left
    rw [hcommit, hallow]
  | true =>
    right
    rw [hcommit, hallow]
    refine ⟨fun hon => ?_, ?_⟩
    · obtain ⟨hnode, hiff⟩ := hbytes hon
      rw [hnode]
      exact hiff.mp (Bool.and_eq_true_iff.mp hallow).1
    · simp only
      cases happ : ({ s with uids := b.2 } : St).appendLine C.env e with
      | mk ok s₂ =>
        cases ok with
        | false => exact Or.inl ⟨s₂, rfl, rfl⟩
        | true => exact Or.inr ⟨s₂, rfl, rfl⟩

/-- What an append does not change. -/
structure SameProcess (s s' : St) : Prop where
  tables : s'.toTables = s.toTables
  alive : s'.alive = s.alive
  fd : s'.fd = s.fd
  host : s'.host = s.host
  gwin : s'.gwin = s.gwin
  ticks : s'.ticks = s.ticks
  seq : s'.seq = s.seq
  lastClock : s'.lastClock = s.lastClock
  overflowed : s'.overflowed = s.overflowed

theorem appendLine_same (E : Env) (e : Entry) (s : St) : SameProcess s (s.appendLine E e).2 := by
  unfold St.appendLine
  split <;> exact ⟨rfl, rfl, rfl, rfl, rfl, rfl, rfl, rfl, rfl⟩

theorem appendLine_durable {E : Env} {e : Entry} {s s' : St} (h : s.appendLine E e = (true, s')) :
    s'.journal = s.journal ++ [e] ∧ s'.poisoned = s.poisoned ∧ s'.landed = s.landed := by
  unfold St.appendLine at h
  split at h
  · rw [Prod.mk.injEq] at h
    rw [← h.2]
    exact ⟨rfl, rfl, rfl⟩
  · simp at h
  · simp at h

/-- A failed append poisons the broker. -/
theorem appendLine_failed {E : Env} {e : Entry} {s s' : St} (h : s.appendLine E e = (false, s')) :
    s'.poisoned = true := by
  unfold St.appendLine at h
  split at h
  · simp at h
  all_goals
    rw [← (Prod.mk.inj h).2]

/-- What the result of a commit says about its line: it is in the history for sure, or the broker is
poisoned, or nothing was written. -/
def Commit.Tells (s s' : St) (e : Entry) : Commit → Prop
  | .overQuota => s'.journal = s.journal
  | .failed => s'.poisoned = true
  | .uncertain => s'.poisoned = true
  | .durable => s'.journal = s.journal ++ [e] ∧ s'.poisoned = false

theorem Commit.Tells.refused {s s' : St} {e : Entry} {res : Commit} (h : res.Tells s s' e)
    (hover : res ≠ .overQuota) (hdurable : res ≠ .durable) (hp : s'.poisoned = false) :
    s'.journal = s.journal := by
  cases res with
  | overQuota => exact absurd rfl hover
  | durable => exact absurd rfl hdurable
  | failed => exact absurd h (by simp [Commit.Tells, hp])
  | uncertain => exact absurd h (by simp [Commit.Tells, hp])

/-- The in-memory change of an allowed commit keeps the accounting table and the configuration. -/
theorem Allowed.install_uids {line : Bytes} {act : Act} {install : Tables → Tables}
    (h : Allowed S C s line act install) {t : Tables} (hok : t.uids.Ok t.cfg) :
    (install t).cfg = t.cfg ∧ (install t).uids.Ok t.cfg := by
  cases h with
  | intent =>
    obtain ⟨hget, -, hm⟩ := hok.uidGet C.peer.uid
    exact ⟨rfl, hget.setNode hm _⟩
  | @outcome a =>
    refine ⟨rfl, ?_⟩
    simp only [Tables.openRemove]
    split
    · rename_i hif
      exact hok.setNode (UidTable.uidFind_iff.mp hif.1) _
    · exact hok
  | emit => exact ⟨rfl, hok⟩
  | issue => exact ⟨rfl, hok⟩
  | redeem => exact ⟨rfl, hok⟩

/-- A commit keeps the accounting table, and its result is true of the history. -/
theorem commit_spec {line : Bytes} {act : Act} {install : Tables → Tables}
    (h : Allowed S C s line act install) (hok : s.uids.Ok s.cfg) :
    (commit S C line act s.lastClock install s).2.uids.Ok
        (commit S C line act s.lastClock install s).2.cfg ∧
      (commit S C line act s.lastClock install s).2.seq = s.seq ∧
      (commit S C line act s.lastClock install s).1.Tells s
        (commit S C line act s.lastClock install s).2 (C.entry s line act) := by
  obtain ⟨t, hev, hq | ⟨-, ⟨s₂, happ, heq⟩ | ⟨s₂, happ, heq⟩⟩⟩ :=
    commit_cases (S := S) (C := C) hok line act install
  · rw [hq]
    exact ⟨hev.ok, rfl, rfl⟩
  all_goals
    have hsame := appendLine_same C.env (C.entry s line act) { s with uids := t }
    rw [happ] at hsame
    have huids : s₂.uids.Ok s₂.cfg := by
      rw [hsame.tables]
      exact hev.ok
  · rw [heq]
    exact ⟨huids, hsame.seq, appendLine_failed happ⟩
  · obtain ⟨hicfg, hiok⟩ := h.install_uids huids
    rw [← hicfg] at hiok
    have hcharge : (s₂.charge install (C.entry s line act)).uids.Ok
        (s₂.charge install (C.entry s line act)).cfg := (hiok.rateNote_spec _ _ _).1
    have hrot := maybeRotate_rotates S C.env hcharge
    obtain ⟨now, hev', -⟩ := hrot.evicts
    rw [heq]
    refine ⟨?_, hrot.seq_eq.trans hsame.seq, ?_⟩
    · rw [hrot.cfg_eq]
      exact hev'.ok
    · simp only
      split
      · assumption
      · rename_i hpois
        exact ⟨hrot.journal_eq.trans (appendLine_durable happ).1, by simpa using hpois⟩

/-- A commit at the end of a sequence of steps. -/
theorem commit_steps {s₀ : St} {line : Bytes} {act : Act} {install : Tables → Tables}
    {res : Commit} (hsteps : Steps S C s₀ s) (hok : s.uids.Ok s.cfg) (hp : s.poisoned = false)
    (ha : Allowed S C s line act install) (hc : ∃ k < s.ticks, s.lastClock = C.env.clock k)
    (hr : s.RateOk (C.entry s line act).chargedUid)
    (heq : commit S C line act s.lastClock install s = (res, s')) :
    Steps S C s₀ s' ∧ s'.uids.Ok s'.cfg ∧ s'.seq = s.seq ∧ res.Tells s s' (C.entry s line act) := by
  have hspec := commit_spec ha hok
  have hcommit : Steps S C s₀ _ := hsteps.tail (.commit hp ha hc hr)
  rw [heq] at hspec hcommit
  exact ⟨hcommit, hspec⟩

/-! ## What a request adds to the history -/

/-- The line was appended by this request. -/
def Entry.From (e : Entry) (C : Ctx) (s : St) : Prop :=
  e.seq = s.seq ∧ e.env = C.env ∧ e.peer = C.peer ∧ e.req = C.req

/-- A receipt that was issued lives as long as the configuration says. -/
def Entry.Lives (e : Entry) (cfg : Config) : Prop :=
  ∀ cid r, e.act = .receipt cid r → r.state = .issued →
    r.ttlUs = cfg.receiptTtlSec.toUInt64 * 1000000

/-- The history grows by lines of the request. -/
structure Grows (C : Ctx) (s s' : St) : Prop where
  journal : ∃ l, s'.journal = s.journal ++ l ∧ ∀ e ∈ l, e.From C s ∧ e.Lives s.cfg
  cfg : s'.cfg = s.cfg
  seq : s'.seq = s.seq
  alive : s'.alive = s.alive

theorem Grows.refl (C : Ctx) (s : St) : Grows C s s := ⟨⟨[], by simp⟩, rfl, rfl, rfl⟩

theorem Grows.trans {s'' : St} (h : Grows C s s') (h' : Grows C s' s'') : Grows C s s'' := by
  obtain ⟨l, hl, hfrom⟩ := h.journal
  obtain ⟨l', hl', hfrom'⟩ := h'.journal
  refine ⟨⟨l ++ l', by rw [hl', hl, List.append_assoc], fun e he => ?_⟩, h'.cfg.trans h.cfg,
    h'.seq.trans h.seq, h'.alive.trans h.alive⟩
  rcases List.mem_append.mp he with he | he
  · exact hfrom e he
  · obtain ⟨hf, hlives⟩ := hfrom' e he
    exact ⟨⟨hf.1.trans h.seq, hf.2⟩, h.cfg ▸ hlives⟩

/-- Nothing is added. -/
theorem Grows.of_eq (hj : s'.journal = s.journal) (hc : s'.cfg = s.cfg) (hs : s'.seq = s.seq)
    (ha : s'.alive = s.alive) : Grows C s s' := ⟨⟨[], by simp [hj]⟩, hc, hs, ha⟩

theorem Allowed.lives {line : Bytes} {act : Act} {install : Tables → Tables}
    (h : Allowed S C s line act install) : (C.entry s line act).Lives s.cfg := by
  intro cid r hact hstate
  have hact : act = .receipt cid r := hact
  cases h with
  | issue _ _ _ _ r_eq =>
    obtain ⟨-, rfl⟩ := Act.receipt.inj hact
    rw [r_eq]
  | redeem =>
    obtain ⟨-, rfl⟩ := Act.receipt.inj hact
    simp at hstate
  | _ => simp at hact

theorem journal_appendLine (E : Env) (e : Entry) (s : St) :
    ∃ l, (s.appendLine E e).2.journal = s.journal ++ l ∧ ∀ e' ∈ l, e' = e := by
  unfold St.appendLine
  split
  · exact ⟨[e], rfl, by simp⟩
  · exact ⟨[e], rfl, by simp⟩
  · exact ⟨[], by simp⟩

/-- A step keeps the accounting table, and the history grows by lines of the request. -/
theorem Step.grows (h : Step S C s s') (hok : s.uids.Ok s.cfg) :
    Grows C s s' ∧ s'.uids.Ok s'.cfg := by
  cases h with
  | clock => exact ⟨.of_eq rfl rfl rfl rfl, hok⟩
  | check hev => exact ⟨.of_eq rfl rfl rfl rfl, hev.ok⟩
  | @commit line act install healthy allowed clocked rate =>
    refine ⟨?_, (commit_spec allowed hok).1⟩
    obtain ⟨t, hev, hq | ⟨-, hdone⟩⟩ := commit_cases (S := S) (C := C) hok line act install
    · rw [hq]
      exact .of_eq rfl rfl rfl rfl
    have hsame := appendLine_same C.env (C.entry s line act) { s with uids := t }
    obtain ⟨l, hl, hmem⟩ := journal_appendLine C.env (C.entry s line act) { s with uids := t }
    have hfrom : ∀ e ∈ l, e.From C s ∧ e.Lives s.cfg := by
      intro e he
      rw [hmem e he]
      exact ⟨⟨rfl, rfl, rfl, rfl⟩, allowed.lives⟩
    rcases hdone with ⟨s₂, happ, heq⟩ | ⟨s₂, happ, heq⟩
    all_goals
      rw [happ] at hsame hl
      have hcfg : s₂.cfg = s.cfg := by rw [show s₂.toTables = _ from hsame.tables]
      rw [heq]
    · exact ⟨⟨l, hl, hfrom⟩, hcfg, hsame.seq, hsame.alive⟩
    · have huids : s₂.uids.Ok s₂.cfg := by
        rw [hsame.tables]
        exact hev.ok
      obtain ⟨hicfg, hiok⟩ := allowed.install_uids huids
      rw [← hicfg] at hiok
      have hrot := maybeRotate_rotates S C.env
        (show (s₂.charge install (C.entry s line act)).uids.Ok _ from (hiok.rateNote_spec _ _ _).1)
      refine ⟨⟨l, hrot.journal_eq.trans hl, hfrom⟩, ?_, hrot.seq_eq.trans hsame.seq, ?_⟩
      · exact (hrot.cfg_eq.trans hicfg).trans hcfg
      · rw [hrot.rest]
        exact hsame.alive

theorem Steps.grows (h : Steps S C s s') (hok : s.uids.Ok s.cfg) :
    Grows C s s' ∧ s'.uids.Ok s'.cfg := by
  induction h with
  | refl => exact ⟨.refl C s, hok⟩
  | tail _ hstep ih =>
    obtain ⟨hgrows, hok'⟩ := hstep.grows ih.2
    exact ⟨ih.1.trans hgrows, hok'⟩

/-! ## The handlers -/

/-- What a reply says about the history: the lines that it acknowledges are there. -/
def Answers (S : Site) (C : Ctx) (s s' : St) : Response → Prop
  | .openOk cid binding token => s'.poisoned = false ∧
    (∃ e ∈ s'.journal, e.From C s ∧ ∃ oi, e.act = .intent cid oi ∧ oi.binding = binding) ∧
    ∀ t, token = some t → (∃ k, rabMakeReceipt C.env k = some t) ∧ ∃ e ∈ s'.journal, e.From C s ∧
      ∃ r, e.act = .receipt cid r ∧ r.verifier = verifierOf S t.bytes
  | .redeemOk cid => s'.poisoned = false ∧
    ∃ e r, s'.journal = s.journal ++ [e] ∧ e.From C s ∧ e.act = .receipt cid r ∧
      r.state = .redeemed
  | _ => True

/-- The lines that a reply accounts for.  An error accounts for none, except that of an effect open
for the intent whose receipt was refused. -/
def Accounts (C : Ctx) (l : List Entry) : Response → Prop
  | .openOk cid _ token => ∃ e oi, e.act = .intent cid oi ∧
    match token with
    | none => l = [e]
    | some _ => ∃ e' r, e'.act = .receipt cid r ∧ l = [e, e']
  | .outcomeOk => ∃ e cid, e.act = .outcome cid ∧ l = [e]
  | .emitOk cid => ∃ e, e.act = .emit cid ∧ l = [e]
  | .redeemOk cid => ∃ e r, e.act = .receipt cid r ∧ l = [e]
  | .capabilities => l = []
  | .error _ _ => l = [] ∨ C.req.effectPresent = true ∧ ∃ e cid oi, e.act = .intent cid oi ∧ l = [e]

/-- A success is reported only by a broker that is not poisoned, and a broker that is not poisoned
has appended the lines that its reply accounts for. -/
structure Accounted (C : Ctx) (s : St) (r : Response × St) : Prop where
  healthy : r.2.poisoned = true → ∃ ec msg, r.1 = .error ec msg
  lines : r.2.poisoned = false → ∃ l, r.2.journal = s.journal ++ l ∧ Accounts C l r.1

theorem Accounted.success {C : Ctx} {s s' : St} {r : Response} {l : List Entry}
    (hp : s'.poisoned = false) (hj : s'.journal = s.journal ++ l) (hl : Accounts C l r) :
    Accounted C s (r, s') :=
  ⟨fun hpois => absurd hpois (by simp [hp]), fun _ => ⟨l, hj, hl⟩⟩

theorem Accounted.refused {C : Ctx} {s s' : St} (hj : s'.journal = s.journal) (ec : ErrCode)
    (msg : String) : Accounted C s (.error ec msg, s') :=
  ⟨fun _ => ⟨ec, msg, rfl⟩, fun _ => ⟨[], by simp [hj], Or.inl rfl⟩⟩

theorem Accounted.poisoned {C : Ctx} {s s' : St} (hp : s'.poisoned = true) (ec : ErrCode)
    (msg : String) : Accounted C s (.error ec msg, s') :=
  ⟨fun _ => ⟨ec, msg, rfl⟩, fun hpois => absurd (hp.symm.trans hpois) (by simp)⟩

/-- A handler took guarded steps, and its reply is backed by the history. -/
structure Handled (S : Site) (C : Ctx) (s : St) (r : Response × St) : Prop where
  steps : Steps S C s r.2
  answers : Answers S C s r.2 r.1
  accounted : Accounted C s r

/-- The rate check: rings are evicted, and a uid that passes has room. -/
theorem rateAllowed_eq {uid : UInt32} {b : Bool} (hok : s.uids.Ok s.cfg)
    (h : s.rateAllowed uid s.lastClock = (b, s')) :
    ∃ t, s' = { s with uids := t } ∧
      UidTable.Evicts s.cfg (winTh s.cfg s.lastClock) s.uids t ∧
      (b = true → ({ s with uids := t } : St).RateOk uid) := by
  obtain ⟨hev, hspec⟩ := hok.rateAllowed_spec uid s.lastClock
  rw [St.rateAllowed, Prod.mk.injEq] at h
  refine ⟨_, h.2.symm, hev, fun hb hon => ?_⟩
  obtain ⟨hnode, hiff⟩ := hspec hon
  rw [hb] at h
  change ((UidTable.rateAllowed s.cfg s.uids uid s.lastClock).2.node uid).n < _
  rw [hnode]
  exact hiff.mp h.1

theorem handleEmit_handled (hok : s.uids.Ok s.cfg) (hp : s.poisoned = false)
    (htype : C.req.type = .emit) : Handled S C s (handleEmit S C s) := by
  have hclock : Steps S C s (s.readClock C.env).2 := .single (.clock s)
  unfold handleEmit
  simp only
  split
  · rename_i s₁ heq
    obtain ⟨t, rfl, hev, -⟩ := rateAllowed_eq (s := (s.readClock C.env).2) hok heq
    exact ⟨hclock.tail (.check hev), trivial, .refused (by rfl) _ _⟩
  rename_i s₁ heq
  obtain ⟨t, rfl, hev, hrate⟩ := rateAllowed_eq (s := (s.readClock C.env).2) hok heq
  have hsteps := hclock.tail (.check hev)
  split
  · exact ⟨hsteps, trivial, .refused (by rfl) _ _⟩
  split
  · exact ⟨hsteps, trivial, .refused (by rfl) _ _⟩
  rename_i cid hcid
  split
  · exact ⟨hsteps, trivial, .refused (by rfl) _ _⟩
  rename_i line hline
  have hallowed := Allowed.emit (s := { (s.readClock C.env).2 with uids := t }) htype hcid hline
  split
  all_goals
    rename_i s₂ heq₂
    obtain ⟨hcommit, -, -, htells⟩ := commit_steps hsteps hev.ok hp hallowed
      ⟨_, Nat.lt_succ_self _, rfl⟩ (hrate rfl) heq₂
  · exact ⟨hcommit, trivial, Accounted.refused (s := s) htells _ _⟩
  · exact ⟨hcommit, trivial, .poisoned htells _ _⟩
  · exact ⟨hcommit, trivial, .poisoned htells _ _⟩
  · exact ⟨hcommit, trivial, .success htells.2 htells.1 ⟨_, rfl, rfl⟩⟩

theorem handleOutcome_handled (hok : s.uids.Ok s.cfg) (hp : s.poisoned = false)
    (htype : C.req.type = .writeOutcome) : Handled S C s (handleOutcome S C s) := by
  have hclock : Steps S C s (s.readClock C.env).2 := .single (.clock s)
  unfold handleOutcome
  simp only
  split
  · rename_i s₁ heq
    obtain ⟨t, rfl, hev, -⟩ := rateAllowed_eq (s := (s.readClock C.env).2) hok heq
    exact ⟨hclock.tail (.check hev), trivial, .refused (by rfl) _ _⟩
  rename_i s₁ heq
  obtain ⟨t, rfl, hev, hrate⟩ := rateAllowed_eq (s := (s.readClock C.env).2) hok heq
  have hsteps := hclock.tail (.check hev)
  split
  · exact ⟨hsteps, trivial, .refused (by rfl) _ _⟩
  rename_i a hfind
  split
  · exact ⟨hsteps, trivial, .refused (by rfl) _ _⟩
  rename_i hactor
  split
  · exact ⟨hsteps, trivial, .refused (by rfl) _ _⟩
  rename_i hgate
  split
  · exact ⟨hsteps, trivial, .refused (by rfl) _ _⟩
  split
  · exact ⟨hsteps, trivial, .refused (by rfl) _ _⟩
  rename_i line hline
  have hallowed := Allowed.outcome (s := { (s.readClock C.env).2 with uids := t }) htype hfind
    (by simpa using hactor) (by simpa using hgate) hline
  split
  all_goals
    rename_i s₂ heq₂
    obtain ⟨hcommit, -, -, htells⟩ := commit_steps hsteps hev.ok hp hallowed
      ⟨_, Nat.lt_succ_self _, rfl⟩ (hrate rfl) heq₂
  · exact ⟨hcommit, trivial, Accounted.refused (s := s) htells _ _⟩
  · exact ⟨hcommit, trivial, .poisoned htells _ _⟩
  · exact ⟨hcommit, trivial, .poisoned htells _ _⟩
  · exact ⟨hcommit, trivial, .success htells.2 htells.1 ⟨_, _, rfl, rfl⟩⟩

/-- A minted token is new: no open intent has a receipt for it. -/
theorem mintLoop_eq_some {o : OpenSet} {binding : Buf bindingMax} {tries attempt : ℕ}
    {token : Buf receiptMax} (h : mintLoop S E o binding tries attempt = some token) :
    ∃ k, rabMakeReceipt E k = some token ∧
      o.openFindVerifier (verifierOf S token.bytes).bytes = none := by
  induction tries generalizing attempt with
  | zero => simp [mintLoop] at h
  | succ tries ih =>
    rw [mintLoop] at h
    split at h
    · rename_i token' hmint _
      split at h
      · rename_i hnew
        rw [Option.some_inj] at h
        subst h
        exact ⟨attempt, hmint, hnew.2⟩
      · exact ih h
    · simp at h

/-- A node found by a correlation id has it. -/
theorem OpenSet.cid_of_openFindCid {o : OpenSet} {cid : Buf cidMax} {a : ℕ}
    (h : o.openFindCid cid.bytes = some a) : (o.heap a).cid = cid :=
  Buf.ext (by simpa using List.find?_some h)

/-- Issuing took guarded steps, and a token is backed by the history. -/
structure Issued (S : Site) (C : Ctx) (cid : Buf cidMax) (s : St) (r : Issue × St) : Prop where
  steps : Steps S C s r.2
  token : ∀ token, r.1 = .token token → r.2.poisoned = false ∧
    (∃ k, rabMakeReceipt C.env k = some token) ∧
    ∃ e rc, r.2.journal = s.journal ++ [e] ∧ e.From C s ∧ e.act = .receipt cid rc ∧
      rc.verifier = verifierOf S token.bytes
  refused : (∀ token, r.1 ≠ .token token) → r.2.poisoned = false → r.2.journal = s.journal

/-- Issuing a receipt for the intent that the same request has just opened. -/
theorem rabBrokerIssueReceipt_issued (hok : s.uids.Ok s.cfg) {cid : Buf cidMax}
    (heffect : C.req.effectPresent = true)
    (hopened : ∃ J₀ e₀ oi, s.journal = J₀ ++ [e₀] ∧ e₀.act = .intent cid oi ∧ e₀.seq = s.seq ∧
      e₀.env = C.env ∧ e₀.peer = C.peer ∧ e₀.req = C.req) :
    Issued S C cid s
      (rabBrokerIssueReceipt S C cid C.req.effectPlanSchema C.req.effectPlanHash s) := by
  have refused : Issued S C cid s (.failed, s) := ⟨.refl, by simp, fun _ _ => rfl⟩
  unfold rabBrokerIssueReceipt
  split
  · exact refused
  rename_i hp
  have hp : s.poisoned = false := by simpa using hp
  split
  · exact refused
  rename_i hschema
  split
  · exact refused
  rename_i a hfind
  obtain rfl := OpenSet.cid_of_openFindCid hfind
  simp only
  split
  · exact refused
  rename_i hnone
  have hnone : (s.opens.heap a).receipt = none := by simpa using hnone
  split
  · exact refused
  split
  · rename_i issueBoottimeUs bootId hboottime hbootid
    split
    · exact refused
    rename_i token hmint
    obtain ⟨k, hk, hunused⟩ := mintLoop_eq_some hmint
    have hclock : Steps S C s (s.readClock C.env).2 := .single (.clock s)
    split
    · exact ⟨hclock, by simp, fun _ _ => rfl⟩
    rename_i line hline
    split
    · rename_i s₁ heq
      obtain ⟨t, rfl, hev, -⟩ := rateAllowed_eq (s := (s.readClock C.env).2) hok heq
      exact ⟨hclock.tail (.check hev), by simp, fun _ _ => rfl⟩
    rename_i s₁ heq
    obtain ⟨t, rfl, hev, hrate⟩ := rateAllowed_eq (s := (s.readClock C.env).2) hok heq
    have hallowed := Allowed.issue (S := S) (C := C)
      (s := { (s.readClock C.env).2 with uids := t }) heffect hfind hopened hnone
      rfl ⟨not_not.mp hschema, rfl⟩ ⟨hboottime, hbootid⟩ hk hunused hline
    have hcommit : ∀ {res s₂}, commit S C line _ _ _ _ = (res, s₂) → Steps S C s s₂ ∧ _ :=
      fun heq₂ => commit_steps (hclock.tail (.check hev)) hev.ok hp hallowed
        ⟨_, Nat.lt_succ_self _, rfl⟩ (hrate rfl) heq₂
    split
    · rename_i s₂ heq₂
      obtain ⟨hsteps, -, -, hsame⟩ := hcommit heq₂
      exact ⟨hsteps, by simp, fun _ _ => hsame⟩
    · rename_i s₂ heq₂
      obtain ⟨hsteps, -, -, hj, hpois⟩ := hcommit heq₂
      refine ⟨hsteps, ?_, fun hno => absurd rfl (hno token)⟩
      rintro token' ⟨⟩
      exact ⟨hpois, ⟨k, hk⟩, _, _, hj, ⟨rfl, rfl, rfl, rfl⟩, rfl, rfl⟩
    · rename_i res s₂ hover hdurable heq₂
      obtain ⟨hsteps, -, -, htells⟩ := hcommit heq₂
      exact ⟨hsteps, by simp, fun _ => htells.refused hover hdurable⟩
  · exact refused

/-- Getting the node of a uid changes no ring. -/
theorem evicts_uidGet {cfg : Config} {t : UidTable} (h : t.Ok cfg) (uid : UInt32) (th : UInt64) :
    UidTable.Evicts cfg th t (t.uidGet cfg uid) := by
  obtain ⟨hok, hnode, -⟩ := h.uidGet uid
  exact ⟨hok, fun v => Or.inl (by rw [hnode])⟩

/-- The end of an effect open. -/
theorem openEffect_handled {s₀ : St} (hseq : s.seq = s₀.seq) (hsteps : Steps S C s₀ s)
    (hok : s.uids.Ok s.cfg) {cid : Buf cidMax} {binding : Buf bindingMax}
    (heffect : C.req.effectPresent = true) {e₀ : Entry} {oi : OpenIntent}
    (hjournal : s.journal = s₀.journal ++ [e₀]) (hact : e₀.act = .intent cid oi)
    (hbinding : oi.binding = binding) (hfrom : e₀.From C s₀) :
    Handled S C s₀ (openEffect S C cid binding s) := by
  have hopened : ∃ J₀ e₀ oi, s.journal = J₀ ++ [e₀] ∧ e₀.act = .intent cid oi ∧ e₀.seq = s.seq ∧
      e₀.env = C.env ∧ e₀.peer = C.peer ∧ e₀.req = C.req :=
    ⟨s₀.journal, e₀, oi, hjournal, hact, hfrom.1.trans hseq.symm, hfrom.2⟩
  have hissued : Issued S C cid s _ := rabBrokerIssueReceipt_issued hok heffect hopened
  unfold openEffect
  split
  · rename_i token s₁ heq
    rw [heq] at hissued
    obtain ⟨hpois, hminted, e, rc, hj, hfrom', hact', hver⟩ := hissued.token token rfl
    have hj : s₁.journal = s₀.journal ++ [e₀, e] := by
      refine hj.trans ?_
      rw [hjournal, List.append_assoc, List.singleton_append]
    refine ⟨hsteps.trans hissued.steps, ⟨hpois, ⟨e₀, ?_, hfrom, oi, hact, hbinding⟩, ?_⟩,
      .success hpois hj ⟨e₀, oi, hact, e, rc, hact', rfl⟩⟩
    · simp [hj]
    · rintro token' ⟨⟩
      exact ⟨hminted, e, by simp [hj], ⟨hfrom'.1.trans hseq, hfrom'.2⟩, rc, hact', hver⟩
  all_goals
    -- The intent is written, but it has no receipt.
    rename_i s₁ heq
    rw [heq] at hissued
    refine ⟨hsteps.trans hissued.steps, trivial, fun _ => ⟨_, _, rfl⟩, fun hpois => ?_⟩
    have hj : s₁.journal = s.journal := hissued.refused (by simp) hpois
    exact ⟨[e₀], hj.trans hjournal, Or.inr ⟨heffect, e₀, cid, oi, hact, rfl⟩⟩

theorem handleOpen_handled (hok : s.uids.Ok s.cfg) (hp : s.poisoned = false)
    (htype : C.req.type = .openIntent) (hnew : s.Unwritten) :
    Handled S C s (handleOpen S C s) := by
  have hclock : Steps S C s (s.readClock C.env).2 := .single (.clock s)
  unfold handleOpen
  split
  · exact ⟨.refl, trivial, .refused (by rfl) _ _⟩
  rename_i hlong
  simp only
  split
  · rename_i s₁ heq
    obtain ⟨t, rfl, hev, -⟩ := rateAllowed_eq (s := (s.readClock C.env).2) hok heq
    exact ⟨hclock.tail (.check hev), trivial, .refused (by rfl) _ _⟩
  rename_i s₁ heq
  obtain ⟨t, rfl, hev, hrate⟩ := rateAllowed_eq (s := (s.readClock C.env).2) hok heq
  have hsteps := hclock.tail (.check hev)
  split
  · exact ⟨hsteps, trivial, .refused (by rfl) _ _⟩
  rename_i hglobal
  have hget := evicts_uidGet hev.ok C.peer.uid (winTh s.cfg (s.readClock C.env).2.lastClock)
  have hnode : (UidTable.uidGet s.cfg t C.peer.uid).node = t.node :=
    (hev.ok.uidGet C.peer.uid).2.1
  replace hsteps := hsteps.tail (.check hget)
  split
  · exact ⟨hsteps, trivial, .refused (by rfl) _ _⟩
  rename_i hcap
  split
  · exact ⟨hsteps, trivial, .refused (by rfl) _ _⟩
  split
  · rename_i cid binding hcid hbinding
    split
    · exact ⟨hsteps, trivial, .refused (by rfl) _ _⟩
    rename_i line hline
    have hfits : C.req.effectPresent = true →
        (domainStr C.req.record "operation").length < metaMax ∧
          (domainStr C.req.record "resource").length < metaMax := by
      intro heffect
      simpa [heffect, not_or, not_le] using hlong
    have hallowed := Allowed.intent (S := S) (C := C)
      (s := { (s.readClock C.env).2 with uids := UidTable.uidGet s.cfg t C.peer.uid }) htype hfits
      hcid hbinding hnew ⟨not_le.mp hglobal, UInt32.not_le.mp hcap⟩ hline
    have hroom : ({ (s.readClock C.env).2 with uids := UidTable.uidGet s.cfg t C.peer.uid } :
        St).RateOk C.peer.uid := by
      intro hon
      change ((UidTable.uidGet s.cfg t C.peer.uid).node C.peer.uid).n < _
      rw [hnode]
      exact hrate rfl hon
    have hcommit : ∀ {res s₂}, commit S C line _ _ _ _ = (res, s₂) → Steps S C s s₂ ∧ _ :=
      fun heq₂ => commit_steps hsteps hget.ok hp hallowed ⟨s.ticks, Nat.lt_succ_self _, rfl⟩ hroom
        heq₂
    split
    all_goals
      rename_i s₂ heq₂
      obtain ⟨hcommit, hok₂, hseq, htells⟩ := hcommit heq₂
    · exact ⟨hcommit, trivial, Accounted.refused (s := s) htells _ _⟩
    · exact ⟨hcommit, trivial, .poisoned htells _ _⟩
    · exact ⟨hcommit, trivial, .poisoned htells _ _⟩
    · obtain ⟨hj, hpois⟩ := htells
      split
      · rename_i heffect
        have hseq : s₂.seq = s.seq := hseq
        exact openEffect_handled hseq hcommit hok₂ heffect hj rfl rfl ⟨rfl, rfl, rfl, rfl⟩
      · have hmem := hj ▸ List.mem_append_right _ (List.mem_singleton_self _)
        exact ⟨hcommit, ⟨hpois, ⟨_, hmem, ⟨rfl, rfl, rfl, rfl⟩, _, rfl, rfl⟩, by simp⟩,
          .success hpois hj ⟨_, _, rfl, rfl⟩⟩
  · exact ⟨hsteps, trivial, .refused (by rfl) _ _⟩

/-- Redeeming took guarded steps, and a success is backed by the history. -/
structure Redeemed (S : Site) (C : Ctx) (cid : Buf cidMax) (s : St) (r : RedeemResult × St) :
    Prop where
  steps : Steps S C s r.2
  ok : r.1 = .ok → r.2.poisoned = false ∧
    ∃ e rc, r.2.journal = s.journal ++ [e] ∧ e.From C s ∧ e.act = .receipt cid rc ∧
      rc.state = .redeemed
  refused : r.1 ≠ .ok → r.2.poisoned = false → r.2.journal = s.journal

theorem rabBrokerRedeemReceipt_redeemed (hok : s.uids.Ok s.cfg) (htype : C.req.type = .redeem)
    {cid : Buf cidMax}
    (htoken : ∃ a₀, s.opens.openFindVerifier (verifierOf S C.req.effectReceipt.bytes).bytes =
      some a₀ ∧ (s.opens.heap a₀).cid = cid) :
    Redeemed S C cid s (rabBrokerRedeemReceipt S C cid s) := by
  have refused : ∀ {res : RedeemResult}, res ≠ .ok → Redeemed S C cid s (res, s) :=
    fun hres => ⟨.refl, fun h => absurd h hres, fun _ _ => rfl⟩
  unfold rabBrokerRedeemReceipt
  split
  · exact refused (by simp)
  rename_i hp
  have hp : s.poisoned = false := by simpa using hp
  split
  · exact refused (by simp)
  rename_i hroot
  split
  · exact refused (by simp)
  rename_i a hfind
  obtain rfl := OpenSet.cid_of_openFindCid hfind
  split
  · exact refused (by simp)
  rename_i r hr
  split
  · exact refused (by simp)
  rename_i hprincipal
  split
  · exact refused (by simp)
  split
  · exact refused (by simp)
  rename_i hbound
  simp only [not_or, not_not] at hbound
  split
  · exact refused (by simp)
  rename_i hstate
  have hissued : r.state = .issued := by
    cases h : r.state with
    | issued => rfl
    | redeemed => exact absurd h hstate
  split
  · rename_i nowUs curBoot hboottime hbootid
    split
    · exact refused (by simp)
    rename_i hexpired
    simp only [not_or, not_not, UInt64.not_lt] at hexpired
    obtain ⟨rfl, hissue, httl⟩ := hexpired
    split
    · exact refused (by simp)
    have hclock : Steps S C s (s.readClock C.env).2 := .single (.clock s)
    simp only
    split
    · exact ⟨hclock, by simp, fun _ _ => rfl⟩
    rename_i line hline
    split
    · rename_i s₁ heq
      obtain ⟨t, rfl, hev, -⟩ := rateAllowed_eq (s := (s.readClock C.env).2) hok heq
      exact ⟨hclock.tail (.check hev), by simp, fun _ _ => rfl⟩
    rename_i s₁ heq
    obtain ⟨t, rfl, hev, hrate⟩ := rateAllowed_eq (s := (s.readClock C.env).2) hok heq
    have hallowed := Allowed.redeem (S := S) (C := C)
      (s := { (s.readClock C.env).2 with uids := t }) htype (not_not.mp hroot) hfind hr hissued
      (not_not.mp hprincipal) htoken hbound ⟨hboottime, hbootid⟩ ⟨hissue, httl⟩ hline
    have hcommit : ∀ {res s₂}, commit S C line _ _ _ _ = (res, s₂) → Steps S C s s₂ ∧ _ :=
      fun heq₂ => commit_steps (hclock.tail (.check hev)) hev.ok hp hallowed
        ⟨_, Nat.lt_succ_self _, rfl⟩ (hrate rfl) heq₂
    split
    · rename_i s₂ heq₂
      obtain ⟨hsteps, -, -, hsame⟩ := hcommit heq₂
      exact ⟨hsteps, by simp, fun _ _ => hsame⟩
    · rename_i s₂ heq₂
      obtain ⟨hsteps, -, -, hj, hpois⟩ := hcommit heq₂
      exact ⟨hsteps, fun _ => ⟨hpois, _, _, hj, ⟨rfl, rfl, rfl, rfl⟩, rfl, rfl⟩,
        fun hno => absurd rfl hno⟩
    · rename_i res s₂ hover hdurable heq₂
      obtain ⟨hsteps, -, -, htells⟩ := hcommit heq₂
      exact ⟨hsteps, by simp, fun _ => htells.refused hover hdurable⟩
  · exact refused (by simp)

theorem handleRedeem_handled (hok : s.uids.Ok s.cfg) (htype : C.req.type = .redeem) :
    Handled S C s (handleRedeem S C s) := by
  unfold handleRedeem
  split
  · exact ⟨.refl, trivial, .refused (by rfl) _ _⟩
  split
  · exact ⟨.refl, trivial, .refused (by rfl) _ _⟩
  split
  · exact ⟨.refl, trivial, .refused (by rfl) _ _⟩
  rename_i a hfind
  have hredeemed := rabBrokerRedeemReceipt_redeemed (S := S) hok htype ⟨a, hfind, rfl⟩
  obtain ⟨hsteps, hdone, hrefused⟩ := hredeemed
  simp only
  cases hres : rabBrokerRedeemReceipt S C (s.opens.heap a).cid s with
  | mk res s₁ =>
    rw [hres] at hsteps hdone hrefused
    cases res with
    | ok =>
      obtain ⟨hpois, e, rc, hj, hfrom, hact, hstate⟩ := hdone rfl
      exact ⟨hsteps, ⟨hpois, e, rc, hj, hfrom, hact, hstate⟩, .success hpois hj ⟨e, rc, hact, rfl⟩⟩
    | _ =>
      exact ⟨hsteps, trivial, fun _ => ⟨_, _, rfl⟩,
        fun hpois => ⟨[], by simpa using hrefused (by simp) hpois, Or.inl rfl⟩⟩

/-- The handlers, taken apart: guarded steps, and replies that the history backs. -/
theorem rabBrokerHandle_handled (hok : s.uids.Ok s.cfg) (hnew : s.Unwritten) :
    Handled S C s (rabBrokerHandle S C s) := by
  unfold rabBrokerHandle
  split
  · exact ⟨.refl, trivial, .refused (by rfl) _ _⟩
  rename_i hp
  have hp : s.poisoned = false := by simpa using hp
  split
  · rename_i htype
    exact handleOpen_handled hok hp htype hnew
  · rename_i htype
    exact handleOutcome_handled hok hp htype
  · rename_i htype
    exact handleEmit_handled hok hp htype
  · exact ⟨.refl, trivial, .success hp (by simp) rfl⟩
  · rename_i htype
    exact handleRedeem_handled hok htype

end AuditBroker
