import AuditBroker.Rates
import AuditBroker.Unblocked
import AuditBroker.Volume

/-!
# Floods

With a capacity above `2 ^ 31` a ring index can wrap around, but only after the head has moved that
far.  A flood of equal lines at one instant fills the ring cell by cell (`UidState.level`); the first
line that comes after the window evicts all of them at once and leaves the head where the flood ended.
From there the index of the third line wraps onto the cell of the second.

`Described` relates the broker along such a run to a summary of it: its ring, the lines of its segment
and the size that it counts.
-/

namespace AuditBroker

open Foundation

/-! ## The ring under a flood -/

section Level

variable {cap : UInt32} {t b th : UInt64} {j k : ℕ}

/-- The ring after `k` equal entries, of which the first `j` have been evicted. -/
def UidState.level (cap : UInt32) (t b : UInt64) (j k : ℕ) : UidState where
  nOpen := 0
  ts := fun i => if i < k then t else 0
  bytes := fun i => if i < k then b else 0
  cap := cap
  n := UInt32.ofNat (k - j)
  head := UInt32.ofNat j
  bsum := UInt64.ofNat ((k - j) * b.toNat)

theorem UidState.level_zero (cap : UInt32) (t b : UInt64) :
    UidState.level cap t b 0 0 = UidState.zero cap := by
  simp [UidState.level, UidState.zero]

theorem update_lt (x : UInt64) (k : ℕ) :
    Function.update (fun i => if i < k then x else 0) k x = fun i => if i < k + 1 then x else 0 := by
  funext i
  rcases lt_trichotomy i k with h | rfl | h
  · rw [Function.update_of_ne h.ne, if_pos h, if_pos (by omega)]
  · rw [Function.update_self, if_pos (by omega)]
  · rw [Function.update_of_ne h.ne', if_neg (by omega), if_neg (by omega)]

/-- One more entry. -/
theorem UidState.uidPush_level (hk : k < cap.toNat) :
    (UidState.level cap t b 0 k).uidPush t b = UidState.level cap t b 0 (k + 1) := by
  have hlt : cap.toNat < 2 ^ 32 := cap.toNat_lt
  have hn : (UInt32.ofNat k).toNat = k := toNat_ofNat32 (by omega)
  have hroom : (UidState.level cap t b 0 k).n ≠ (UidState.level cap t b 0 k).cap := by
    change UInt32.ofNat k ≠ cap
    rw [Ne, ← UInt32.toNat_inj, hn]
    omega
  have hslot : ((UInt32.ofNat 0 + UInt32.ofNat k) % cap).toNat = k := by
    rw [UInt32.toNat_mod, UInt32.toNat_add, hn]
    change (0 + k) % 2 ^ 32 % cap.toNat = k
    rw [Nat.zero_add, Nat.mod_eq_of_lt (show k < 2 ^ 32 by omega), Nat.mod_eq_of_lt hk]
  rw [UidState.uidPush_of_room hroom]
  simp only [UidState.level, Nat.sub_zero, hslot, update_lt]
  have hsum : UInt64.ofNat (k * b.toNat) + b = UInt64.ofNat ((k + 1) * b.toNat) := by
    rw [Nat.succ_mul, UInt64.ofNat_add, UInt64.ofNat_toNat]
  have hnum : UInt32.ofNat k + 1 = UInt32.ofNat (k + 1) := (UInt32.ofNat_add k 1).symm
  rw [hsum, hnum]

/-- Within the window nothing is evicted. -/
theorem UidState.uidEvict_level_of_le (hk : k < 2 ^ 32) (hth : th ≤ t) :
    (UidState.level cap t b 0 k).uidEvict th = UidState.level cap t b 0 k := by
  rw [UidState.uidEvict_eq, if_neg]
  rintro ⟨hpos, hlt⟩
  have hn : (UInt32.ofNat k).toNat = k := toNat_ofNat32 hk
  have hpos : 0 < k := by
    have := UInt32.lt_iff_toNat_lt.mp hpos
    change 0 < (UInt32.ofNat k).toNat at this
    omega
  have hread : (UidState.level cap t b 0 k).ts (UidState.level cap t b 0 k).head.toNat = t :=
    if_pos hpos
  rw [hread] at hlt
  exact UInt64.not_lt.mpr hth hlt

/-- After the window all of them are. -/
theorem UidState.uidEvict_level (hj : j ≤ k) (hk : k < cap.toNat) (hth : t < th) :
    (UidState.level cap t b j k).uidEvict th = UidState.level cap t b k k := by
  have hlt : cap.toNat < 2 ^ 32 := cap.toNat_lt
  induction hm : k - j generalizing j with
  | zero =>
    obtain rfl : j = k := by omega
    rw [UidState.uidEvict_eq, if_neg]
    rintro ⟨hpos, -⟩
    simp [UidState.level] at hpos
  | succ m ih =>
    have hnum : (UInt32.ofNat (k - j)).toNat = k - j := toNat_ofNat32 (by omega)
    have hhead : (UInt32.ofNat j).toNat = j := toNat_ofNat32 (by omega)
    have hpos : 0 < (UidState.level cap t b j k).n := by
      rw [UInt32.lt_iff_toNat_lt]
      change 0 < (UInt32.ofNat (k - j)).toNat
      omega
    have hcell : j < k := by omega
    have hold : (UidState.level cap t b j k).ts (UidState.level cap t b j k).head.toNat < th := by
      change (if (UInt32.ofNat j).toNat < k then t else 0) < th
      rw [hhead, if_pos hcell]
      exact hth
    have hdrop : (UidState.level cap t b j k).dropHead = UidState.level cap t b (j + 1) k := by
      have hnext : (UInt32.ofNat j + 1) % cap = UInt32.ofNat (j + 1) := by
        rw [← UInt32.toNat_inj, UInt32.toNat_mod, UInt32.toNat_add, hhead,
          toNat_ofNat32 (by omega)]
        change (j + 1) % 2 ^ 32 % cap.toNat = j + 1
        rw [Nat.mod_eq_of_lt (by omega : j + 1 < 2 ^ 32), Nat.mod_eq_of_lt (by omega)]
      have hnum' : UInt32.ofNat (k - j) - 1 = UInt32.ofNat (k - (j + 1)) := by
        rw [show k - j = k - (j + 1) + 1 by omega, UInt32.ofNat_add]
        simp
      have hsum : UInt64.ofNat ((k - j) * b.toNat) - b =
          UInt64.ofNat ((k - (j + 1)) * b.toNat) := by
        rw [show k - j = k - (j + 1) + 1 by omega, Nat.succ_mul, UInt64.ofNat_add,
          UInt64.ofNat_toNat]
        simp
      simp only [UidState.dropHead, UidState.level, hhead, if_pos hcell, hnext, hnum', hsum]
    rw [UidState.uidEvict_eq, if_pos ⟨hpos, hold⟩, hdrop]
    exact ih (by omega) (by omega)

/-- A ring after `k` equal entries have been pushed onto an empty one, wherever its head is.  The cells
are not known, as the later entries may have overwritten some of the earlier ones. -/
structure UidState.GrownFrom (u₀ : UidState) (t b : UInt64) (k : ℕ) (u : UidState) : Prop where
  cap : u.cap = u₀.cap
  head : u.head = u₀.head
  n : u.n = UInt32.ofNat k
  bsum : u.bsum = u₀.bsum + UInt64.ofNat (k * b.toNat)
  ts : 0 < k → u.ts u.head.toNat = t

theorem UidState.GrownFrom.uidPush {u₀ u : UidState} (h : UidState.GrownFrom u₀ t b k u)
    (hk : k < u₀.cap.toNat) (hhead : u₀.head.toNat < u₀.cap.toNat) :
    UidState.GrownFrom u₀ t b (k + 1) (u.uidPush t b) := by
  have hlt : u₀.cap.toNat < 2 ^ 32 := u₀.cap.toNat_lt
  have hroom : u.n ≠ u.cap := by
    rw [h.n, h.cap, Ne, ← UInt32.toNat_inj, toNat_ofNat32 (by omega)]
    omega
  rw [UidState.uidPush_of_room hroom]
  refine ⟨h.cap, h.head, ?_, ?_, fun _ => ?_⟩
  · rw [h.n]
    exact (UInt32.ofNat_add k 1).symm
  · rw [h.bsum, Nat.succ_mul, UInt64.ofNat_add, UInt64.ofNat_toNat, UInt64.add_assoc]
  · -- the first entry is at the head; a later one at the same cell has the same time
    change Function.update u.ts ((u.head + u.n) % u.cap).toNat t u.head.toNat = t
    by_cases hidx : u.head.toNat = ((u.head + u.n) % u.cap).toNat
    · rw [hidx, Function.update_self]
    · rw [Function.update_of_ne hidx]
      refine h.ts (Nat.pos_of_ne_zero fun hzero => hidx ?_)
      rw [h.n, hzero, UInt32.toNat_mod, h.head, h.cap]
      change _ = (u₀.head + 0).toNat % _
      rw [UInt32.add_zero, Nat.mod_eq_of_lt hhead]

end Level

/-! ## One emit -/

section Emit

variable {S : Site} {C : Ctx} {s s' : St} {cid : Buf cidMax} {line : Bytes}

/-- The time of a request's first clock reading. -/
abbrev Ctx.time (C : Ctx) (s : St) : UInt64 := C.env.clock s.ticks

/-- The ring that the checks of a request leave. -/
def Ctx.evicted (C : Ctx) (s : St) : UidState :=
  (s.uids.node C.peer.uid).uidEvict (winTh s.cfg (C.time s))

/-- An emit that passes every check; the global quota is off. -/
structure Accepted (S : Site) (C : Ctx) (s : St) (cid : Buf cidMax) (line : Bytes) : Prop where
  type : C.req.type = .emit
  on : s.cfg.rateMaxInWindow ≠ 0
  off : s.cfg.rateMaxBytesGlobal = 0
  free : enoughFreeSpace s.cfg (C.env.free 0) = true
  cid_eq : rabMakeCorrelationId C.env = some cid
  line_eq : rabBuildAudit S.codec C.req.phase.bytes cid.bytes none C.peer s.host.bytes (C.time s)
    C.req.record = some line
  rate : (C.evicted s).n < s.cfg.rateMaxInWindow
  bytes : s.cfg.rateMaxBytesPerUid ≠ 0 →
    (C.evicted s).bsum + UInt64.ofNat (line.length + 1) ≤ s.cfg.rateMaxBytesPerUid

/-- What the append of an accepted line leaves, before a rotation. -/
structure Posted (C : Ctx) (line : Bytes) (s s' : St) : Prop where
  rest : s' = { s with uids := s'.uids, toWorld := s'.toWorld, ticks := s'.ticks,
                       lastClock := C.time s, journal := s'.journal, overflowed := s'.overflowed,
                       segBytes := s.segBytes + UInt64.ofNat (line.length + 1) }
  journal : ∃ e : Entry, s'.journal = s.journal ++ [e] ∧ e.now = C.time s ∧ e.line = line ∧
    e.chargedUid = C.peer.uid
  uids : s'.uids.Ok s.cfg
  node : s'.uids.node = Function.update s.uids.node C.peer.uid
    ((C.evicted s).uidPush (C.time s) (UInt64.ofNat (line.length + 1)))
  fs : s'.fs = s.fs.extend s.fd (line ++ [newline])

/-- An accepted emit is posted, and followed by a rotation if one is due. -/
theorem Accepted.posted (h : Accepted S C s cid line) (hok : s.uids.Ok s.cfg)
    (hp : s.poisoned = false) {w : World}
    (hw : World.rabSinkAppend C.env s.fd line s.toWorld = (.durable, w)) :
    ∃ s', Moves S C s s' ∧ Posted C line s s' ∧
      (handleEmit S C s).2 = maybeRotate S C.env s' := by
  set s₁ := (s.readClock C.env).2 with hs₁
  have hnl : newline ∉ line := (isLine_rabBuildAudit h.line_eq).newline_notMem
  -- the rate check evicts the ring
  obtain ⟨hev, hrate⟩ := hok.rateAllowed_spec C.peer.uid (C.time s)
  obtain ⟨hnode, hallowed⟩ := hrate h.on
  set r := s.uids.rateAllowed s.cfg C.peer.uid (C.time s) with hr
  have hr₁ : r.1 = true := hallowed.mpr h.rate
  have hothers : r.2.node = Function.update s.uids.node C.peer.uid (C.evicted s) := by
    rw [hr, UidTable.rateAllowed, if_neg h.on]
    exact (UidTable.evicts_evictUid hok C.peer.uid _).2
  -- the byte check evicts it once more, which changes nothing
  obtain ⟨hev', hbytes⟩ := hev.ok.uidBytesAllowed_spec C.peer.uid (C.time s)
    (UInt64.ofNat (line.length + 1))
  have hagain : (r.2.node C.peer.uid).uidEvict (winTh s.cfg (C.time s)) = C.evicted s := by
    rw [hnode, UidState.uidEvict_uidEvict, if_pos (UInt64.le_refl _)]
    rfl
  set q := r.2.uidBytesAllowed s.cfg C.peer.uid (C.time s) (UInt64.ofNat (line.length + 1)) with hq
  have hq₁ : q.1 = true := by
    by_cases hoff : s.cfg.rateMaxBytesPerUid = 0
    · rw [hq, UidTable.uidBytesAllowed, if_pos hoff]
    · rw [(hbytes hoff).2, hagain]
      exact h.bytes hoff
  have hq₂ : q.2.node = Function.update s.uids.node C.peer.uid (C.evicted s) := by
    by_cases hoff : s.cfg.rateMaxBytesPerUid = 0
    · rw [hq, UidTable.uidBytesAllowed, if_pos hoff]
      exact hothers
    · rw [hq, UidTable.uidBytesAllowed, if_neg hoff]
      refine (UidTable.evicts_evictUid hev.ok C.peer.uid _).2.trans ?_
      rw [hagain, hothers, Function.update_idem]
  set e := C.entry s₁ line (.emit cid) with he
  have hglobal : globalBytesAllowed s.cfg s.gwin (C.time s) e.size = true := by
    rw [globalBytesAllowed, if_pos h.off]
  have hfs : w.fs = s.fs.extend s.fd (line ++ [newline]) := by
    obtain ⟨b, hb, hcase⟩ := World.rabSinkAppend_spec C.env s.fd s.toWorld hnl
    rw [hw] at hb hcase
    rcases hcase with ⟨htorn, -⟩ | ⟨-, rfl⟩
    · cases htorn
    · exact hb
  have hrate' : s₁.uids.rateAllowed s₁.cfg C.peer.uid s₁.lastClock = (true, r.2) :=
    Prod.ext hr₁ rfl
  have hbytes' : r.2.uidBytesAllowed s₁.cfg e.chargedUid s₁.lastClock e.size = (true, q.2) :=
    Prod.ext hq₁ rfl
  refine ⟨_, ?_, ?_, handleEmit_eq (S := S) (C := C) (s := s) rfl hrate' h.free h.cid_eq h.line_eq he
    hbytes' hglobal hw⟩
  · -- the clock, the two checks and the append
    have happ : Appendable S C { s₁ with uids := q.2 } line (.emit cid) id := by
      refine ⟨hp, .emit h.type h.cid_eq h.line_eq, fun _ => ?_, fun hoff => ?_⟩
      · change (q.2.node C.peer.uid).n < _
        rw [hq₂, Function.update_self]
        exact h.rate
      · change (q.2.node C.peer.uid).bsum + _ ≤ _
        rw [hq₂, Function.update_self]
        exact h.bytes hoff
    have hcheck : Move S C s₁ { s₁ with uids := r.2 } := .check hev
    have hcheck' : Move S C { s₁ with uids := r.2 } { s₁ with uids := q.2 } := .check hev'
    exact ((((Relation.ReflTransGen.single (.clock s)).tail hcheck).tail hcheck').tail
      (.append happ hfs))
  · obtain ⟨hok', hpush⟩ := hev'.ok.rateNote_spec C.peer.uid (C.time s)
      (UInt64.ofNat (line.length + 1))
    rw [if_neg h.on, hq₂, Function.update_self, Function.update_idem] at hpush
    refine ⟨?_, ⟨e, rfl, rfl, rfl, rfl⟩, hok', hpush, hfs⟩
    have hnote : globalBytesNote s.cfg s.gwin (C.time s) e.size = s.gwin := if_pos h.off
    conv_rhs => rw [← hnote]
    rfl

end Emit

/-! ## Rotations that fail at once, and the size of a new segment -/

section Rotation

variable {S : Site} {E : Env} {s s' : St} {pfd : ℕ}

/-- A rotation whose pending segment cannot be created leaves everything else alone. -/
theorem rotate_of_openExcl_fails {k : ℕ}
    (h : E.outcome .openExcl (unlinkPending S E s).toWorld = .fail k) :
    ∃ w, rotate S E s = (false, { s with toWorld := w }) ∧
      Fs.Frame (· ≠ S.pendingName) (s.fs.next ≤ ·) s.fs w.fs := by
  have hopen : World.rabSinkOpen E S.euid S.pendingName (unlinkPending S E s).toWorld =
      (none, (unlinkPending S E s).toWorld.tick) := by
    rw [World.rabSinkOpen, h]
  have hopened : pendingOpened S E s = none := by
    rw [pendingOpened, hopen]
    split
    · rfl
    · rfl
  have hframe := (rotate_of_not_opened hopened).2
  have hrotate : ∃ w, rotate S E s = (false, { s with toWorld := w }) := by
    unfold rotate
    split
    · exact ⟨_, rfl⟩
    · simp only [hopen]
      exact ⟨_, rfl⟩
  obtain ⟨w, hw⟩ := hrotate
  rw [hw] at hframe
  exact ⟨w, hw, hframe⟩

/-- The files that such a rotation keeps. -/
theorem stays_of_frame (E : Env) {w : World} (hok : s.uids.Ok s.cfg)
    (hframe : Fs.Frame (· ≠ S.pendingName) (s.fs.next ≤ ·) s.fs w.fs) :
    Stays S E s { s with toWorld := w } where
  toCarries := (Quiet.world E s w).carries hok rfl
  frame :=
    { lookup := fun name hname => hframe.lookup name (by rw [hname]; exact S.pendingName_ne_base.symm)
      node := hframe.node
      next_le := hframe.next_le
      undo := hframe.undo
      stale := hframe.stale
      ok := hframe.ok }

/-- After a rotation without faults the counted size is that of the file. -/
theorem segBytes_rotate (hE : E.Faultless) (hok : s.uids.Ok s.cfg)
    (h : (rotate S E s).1 = true) :
    (rotate S E s).2.segBytes =
      UInt64.ofNat ((rotate S E s).2.fs.node (rotate S E s).2.fd).bytes.length := by
  rcases rotate_cases (S := S) (E := E) (fun _ => False) (fun _ => True) hok id id
    (fun _ _ => trivial) (Or.inr fun _ _ => trivial) with
    ⟨hfalse, -⟩ | ⟨pfd, w₀, s₁, w, -, -, -, -, heq⟩
  · rw [h] at hfalse
    cases hfalse
  obtain ⟨hrest, hframe, -⟩ := adoptSegment_spec (fun _ => False) S E pfd { s₁ with toWorld := w }
    (fun _ h => h.elim)
  have hfd : (adoptSegment S E pfd { s₁ with toWorld := w }).2.fd = pfd := by rw [hrest]
  have hsync : Fs.Frame (fun _ => False) (fun _ => False) w.fs (World.rabFsyncParentDir E w).2.fs :=
    World.frame_rabFsyncParentDir E w
  have hseg : (adoptSegment S E pfd { s₁ with toWorld := w }).2.segBytes =
      UInt64.ofNat ((World.rabFsyncParentDir E w).2.fs.node pfd).bytes.length := by
    simp only [adoptSegment, hE.plain]
    rfl
  rw [heq, hfd, hseg, hframe.node pfd id, hsync.node pfd id]

/-- One more event whose clock is not behind. -/
theorem ForwardRun.concat {s₀ : St} {evs : List Event} {ev : Event} (h : ForwardRun S s₀ evs)
    (hmono : ∀ j k, j ≤ k → ev.env.clock j ≤ ev.env.clock k)
    (hnext : (run S s₀ evs).lastClock ≤ ev.env.clock 0) : ForwardRun S s₀ (evs ++ [ev]) := by
  refine ⟨fun ev' hev => ?_, fun n ev' hev => ?_⟩
  · rcases List.mem_append.mp hev with hev | hev
    · exact h.mono ev' hev
    · rw [List.mem_singleton.mp hev]
      exact hmono
  · rcases Nat.lt_or_ge n evs.length with hlt | hge
    · rw [List.getElem?_append_left hlt] at hev
      rw [List.take_append_of_le_length hlt.le]
      exact h.next n ev' hev
    · obtain ⟨hlt, -⟩ := List.getElem?_eq_some_iff.mp hev
      rw [List.length_append, List.length_singleton] at hlt
      obtain rfl : n = evs.length := by omega
      rw [List.getElem?_concat_length, Option.some_inj] at hev
      rw [List.take_left, ← hev]
      exact hnext

end Rotation

/-! ## The sample broker under a flood -/

namespace Sample

/-- An environment at one instant; if it is jammed, no pending segment can be created. -/
def instantEnv (jam : Bool) (t : UInt64) : Env :=
  { env t 1 with io := fun c _ => if jam = true ∧ c = .openExcl then .fail 0 else .ok }

/-- An emit at an instant. -/
def emitAt (jam : Bool) (t : UInt64) (op : String) : Event :=
  .request (instantEnv jam t) (actor 1000) (emitBody (lit op))

/-- The parsed request. -/
def emitRequest (op : String) : Request :=
  ((rabParseRequest jsonText (emitBody (lit op))).toOption).getD { type := .capabilities }

/-- The request, as it is handled. -/
def emitCtx (jam : Bool) (t : UInt64) (op : String) : Ctx :=
  { env := instantEnv jam t, peer := actor 1000, req := emitRequest op }

/-- The line that it makes. -/
def emitLine (t : UInt64) (op : String) : Bytes :=
  (rabBuildAudit jsonText (emitRequest op).phase.bytes (cid t 1).bytes none (actor 1000)
    (lit "host") t (emitRequest op).record).getD []

/-- The size of the line with its newline. -/
def emitSize (t : UInt64) (op : String) : UInt64 := UInt64.ofNat ((emitLine t op).length + 1)

/-- The request is read as an emit, and its line can be built and read back. -/
def Emits (t : UInt64) (op : String) : Prop :=
  (rabParseRequest jsonText (emitBody (lit op))).toOption.isSome = true ∧
    (emitRequest op).type = .emit ∧ (rabMakeCorrelationId (env t 1)).isSome = true ∧
    (rabBuildAudit jsonText (emitRequest op).phase.bytes (cid t 1).bytes none (actor 1000)
      (lit "host") t (emitRequest op).record).isSome = true ∧
    MetadataFits (emitRequest op).record

instance (t : UInt64) (op : String) : Decidable (Emits t op) :=
  inferInstanceAs (Decidable (_ ∧ _ ∧ _ ∧ _ ∧ _))

section Emitted

variable {jam : Bool} {t : UInt64} {op : String}

theorem unlinksWork_instantEnv (jam : Bool) (t : UInt64) : (instantEnv jam t).UnlinksWork := by
  intro n
  simp [instantEnv]

theorem faultless_instantEnv (t : UInt64) : (instantEnv false t).Faultless :=
  ⟨rfl, fun _ _ => by simp [instantEnv]⟩

theorem outcome_instantEnv {c : Call} (hc : c ≠ .openExcl) (w : World) :
    (instantEnv jam t).outcome c w = .ok := by
  simp [Env.outcome, Env.dead, instantEnv, env, hc]

theorem Emits.parse (h : Emits t op) :
    rabParseRequest site.codec (emitBody (lit op)) = .ok (emitRequest op) := by
  have hsome := h.1
  change rabParseRequest jsonText _ = _
  cases hp : rabParseRequest jsonText (emitBody (lit op)) with
  | error e => simp [hp, Except.toOption] at hsome
  | ok r => simp [emitRequest, hp, Except.toOption]

theorem Emits.cid_eq (h : Emits t op) (jam : Bool) :
    rabMakeCorrelationId (instantEnv jam t) = some (cid t 1) := by
  obtain ⟨c, hc⟩ := Option.isSome_iff_exists.mp h.2.2.1
  change rabMakeCorrelationId (env t 1) = _
  rw [Sample.cid, hc, Option.getD_some]

theorem Emits.line_eq (h : Emits t op) :
    rabBuildAudit jsonText (emitRequest op).phase.bytes (cid t 1).bytes none (actor 1000)
      (lit "host") t (emitRequest op).record = some (emitLine t op) := by
  obtain ⟨line, hl⟩ := Option.isSome_iff_exists.mp h.2.2.2.1
  rw [emitLine, hl, Option.getD_some]

theorem Emits.freshCid (h : Emits t op) (jam : Bool) (s : St) : FreshCid (emitCtx jam t op) s := by
  apply freshCid_of_type
  change (emitRequest op).type ≠ .openIntent
  rw [h.2.1]
  simp

/-- The line can be written whole: the jam only concerns new files. -/
theorem rabSinkAppend_instantEnv (jam : Bool) (t : UInt64) (i : ℕ) {line : Bytes}
    (hline : newline ∉ line) (w : World) :
    ∃ w', World.rabSinkAppend (instantEnv jam t) i line w = (.durable, w') := by
  have hcontains : line.contains 10 = false := by simpa using hline
  have hplain : ∀ c w, c ≠ .openExcl → World.plain (instantEnv jam t) c w = (true, w.tick) := by
    intro c w hc
    rw [World.plain, outcome_instantEnv hc]
    rfl
  simp only [World.rabSinkAppend, hcontains, World.write, hplain _ _ (show Call.flock ≠ _ by decide),
    hplain _ _ (show Call.fdatasync ≠ _ by decide), outcome_instantEnv (show Call.write ≠ _ by decide),
    outcome_instantEnv (show Call.writeNewline ≠ _ by decide)]
  exact ⟨_, rfl⟩

/-- Such a request goes to `handle_emit`. -/
theorem Emits.connHandle_eq (h : Emits t op) {s : St} (hp : s.poisoned = false) :
    connHandle site (instantEnv jam t) (actor 1000) (emitBody (lit op)) s =
      handleEmit site (emitCtx jam t op) s := by
  simp only [connHandle, h.parse, rabBrokerHandle, hp, Bool.false_eq_true, if_false]
  rw [h.2.1]
  rfl

end Emitted

/-! ### The state along a flood -/

/-- What matters of a broker that only uid 1000 writes to: its ring, the lines of the segment, all lines
with their times, the counted size of the segment and the last clock reading. -/
structure Summary where
  ring : UidState
  lines : List Bytes
  posts : List (UInt64 × Bytes)
  size : UInt64
  time : UInt64

namespace Summary

variable (cfg : Config) (c : Summary) (t : UInt64) (op : String)

/-- The ring that the checks at an instant leave. -/
def evicted : UidState := c.ring.uidEvict (winTh cfg t)

/-- One more line. -/
def post : Summary where
  ring := (c.evicted cfg t).uidPush t (emitSize t op)
  lines := c.lines ++ [emitLine t op]
  posts := c.posts ++ [(t, emitLine t op)]
  size := c.size + emitSize t op
  time := t

/-- The line passes the checks. -/
structure Takes : Prop where
  emits : Emits t op
  rate : (c.evicted cfg t).n < cfg.rateMaxInWindow
  bytes : cfg.rateMaxBytesPerUid ≠ 0 →
    (c.evicted cfg t).bsum + emitSize t op ≤ cfg.rateMaxBytesPerUid

/-- The segment after a rotation at the last instant. -/
def turn : Summary :=
  let ring := c.evicted cfg c.time
  { c with
    ring
    lines := [rabBuildRate jsonText 1000 ring.entries]
    size := UInt64.ofNat ((rabBuildRate jsonText 1000 ring.entries).length + 1) }

end Summary

/-- The per-uid count and the global quota of a flood. -/
structure FloodConfig (cfg : Config) : Prop where
  on : cfg.rateMaxInWindow ≠ 0
  off : cfg.rateMaxBytesGlobal = 0
  free : enoughFreeSpace cfg (some ((1 : UInt64) <<< 30)) = true

/-- A healthy broker that is as its summary says. -/
structure Described (cfg : Config) (c : Summary) (s : St) : Prop where
  live : Live site s
  alive : s.alive = true
  healthy : s.poisoned = false
  cfg_eq : s.cfg = cfg
  host : s.host.bytes = lit "host"
  opens : s.opens = (Tables.init cfg).opens
  node : s.uids.node 1000 = c.ring
  others : ∀ v, v ≠ 1000 → (s.uids.node v).n = 0
  disk : OnDisk site (· = c.lines) s.fs
  posts : s.journal.map (fun e => (e.now, e.line)) = c.posts
  charged : ∀ e ∈ s.journal, e.chargedUid = 1000
  size : s.segBytes = c.size
  time : s.lastClock = c.time

section Described

variable {cfg : Config} {c : Summary} {s s' : St} {jam : Bool} {t : UInt64} {op : String}

/-- One emit: the state after its append. -/
theorem Described.posted (h : Described cfg c s) (hcfg : FloodConfig cfg) (ht : c.Takes cfg t op)
    (jam : Bool) :
    ∃ s', Moves site (emitCtx jam t op) s.begin_ s' ∧ Described cfg (c.post cfg t op) s' ∧
      (∀ name, s'.fs.lookup name = s.fs.lookup name) ∧
      (step site s (emitAt jam t op)).2 =
        (maybeRotate site (instantEnv jam t) s').finish (instantEnv jam t) := by
  have hev : (emitCtx jam t op).evicted s.begin_ = c.evicted cfg t := by
    change (s.uids.node 1000).uidEvict (winTh s.cfg t) = _
    rw [h.node, h.cfg_eq]
    rfl
  have hacc : Accepted site (emitCtx jam t op) s.begin_ (cid t 1) (emitLine t op) := by
    have hcfg' : s.begin_.cfg = cfg := h.cfg_eq
    refine ⟨ht.emits.2.1, hcfg' ▸ hcfg.on, hcfg' ▸ hcfg.off, hcfg' ▸ hcfg.free,
      ht.emits.cid_eq jam, ?_, ?_, ?_⟩
    · change rabBuildAudit jsonText _ _ _ _ s.host.bytes t _ = _
      rw [h.host]
      exact ht.emits.line_eq
    · rw [hev, hcfg']
      exact ht.rate
    · rw [hev, hcfg']
      exact ht.bytes
  have hnl : newline ∉ emitLine t op := (isLine_rabBuildAudit ht.emits.line_eq).newline_notMem
  obtain ⟨w, hw⟩ := rabSinkAppend_instantEnv jam t s.begin_.fd hnl s.begin_.toWorld
  obtain ⟨s', hmoves, hpost, hemit⟩ := hacc.posted h.live.tables.uids h.healthy hw
  have hready := (h.live.ready h.healthy).1
  refine ⟨s', hmoves, ?_, fun name => by rw [hpost.fs]; rfl, ?_⟩
  · obtain ⟨e, hj, hnow, hline, huid⟩ := hpost.journal
    refine
      { live := hmoves.live ⟨_, ht.emits.parse⟩ (ht.emits.freshCid jam _) h.live.begin_
        alive := by rw [hpost.rest]; exact h.alive
        healthy := by rw [hpost.rest]; exact h.healthy
        cfg_eq := by rw [hpost.rest]; exact h.cfg_eq
        host := by rw [hpost.rest]; exact h.host
        opens := by rw [hpost.rest]; exact h.opens
        node := ?_
        others := ?_
        disk := ?_
        posts := ?_
        charged := ?_
        size := ?_
        time := by rw [hpost.rest]; rfl }
    · rw [hpost.node, hev]
      exact Function.update_self _ _ _
    · intro v hv
      rw [hpost.node]
      exact (congrArg UidState.n (Function.update_of_ne hv _ _)).trans (h.others v hv)
    · rw [hpost.fs]
      exact hready.line h.disk hnl fun ls hls => by rw [hls]; rfl
    · rw [hj, List.map_append, List.map_singleton, hnow, hline]
      exact congrArg (· ++ _) h.posts
    · intro e' he'
      rw [hj] at he'
      rcases List.mem_append.mp he' with he' | he'
      · exact h.charged e' he'
      · rw [List.mem_singleton.mp he', huid]
        rfl
    · rw [hpost.rest]
      exact congrArg (· + _) h.size
  · have hhandle : (connHandle site (instantEnv jam t) (actor 1000) (emitBody (lit op)) s.begin_).2 =
        maybeRotate site (instantEnv jam t) s' := by
      rw [ht.emits.connHandle_eq (s := s.begin_) h.healthy]
      exact hemit
    simp only [step, emitAt, h.alive, if_true, hhandle]

theorem Described.finish (h : Described cfg c s) (jam : Bool) (t : UInt64) :
    Described cfg c (s.finish (instantEnv jam t)) where
  live := (h.live.finish (instantEnv jam t)).live
    (by simp [St.finish, h.alive, Env.dead, instantEnv, env])
  alive := by simp [St.finish, h.alive, Env.dead, instantEnv, env]
  healthy := h.healthy
  cfg_eq := h.cfg_eq
  host := h.host
  opens := h.opens
  node := h.node
  others := h.others
  disk := h.disk
  posts := h.posts
  charged := h.charged
  size := h.size
  time := h.time

/-- A rotation that stays changes nothing in the summary. -/
theorem Described.stays (h : Described cfg c s) {E : Env} {w : World}
    (hstays : Stays site E s { s with toWorld := w }) : Described cfg c { s with toWorld := w } where
  live := hstays.live h.healthy h.live
  alive := h.alive
  healthy := h.healthy
  cfg_eq := h.cfg_eq
  host := h.host
  opens := h.opens
  node := h.node
  others := h.others
  disk := (hstays.onDisk (h.live.ready h.healthy).1 h.live.fs_ok h.disk).1
  posts := h.posts
  charged := h.charged
  size := h.size
  time := h.time

/-- A rotation is not due, or it cannot start. -/
def NotRotated (cfg : Config) (jam : Bool) (size : UInt64) : Prop :=
  cfg.rotateBytes = 0 ∨ size ≤ cfg.rotateBytes ∨ jam = true

/-- An emit after which the segment stays. -/
theorem Described.notRotated (h : Described cfg c s) (hcfg : FloodConfig cfg) (ht : c.Takes cfg t op)
    (hkept : NotRotated cfg jam (c.post cfg t op).size) :
    Described cfg (c.post cfg t op) (step site s (emitAt jam t op)).2 ∧
      ∀ name, name ≠ site.pendingName →
        (step site s (emitAt jam t op)).2.fs.lookup name = s.fs.lookup name := by
  obtain ⟨s', -, h', hlook, hstep⟩ := h.posted hcfg ht jam
  rw [hstep]
  have hkeep : ∃ w, maybeRotate site (instantEnv jam t) s' = { s' with toWorld := w } ∧
      Fs.Frame (· ≠ site.pendingName) (s'.fs.next ≤ ·) s'.fs w.fs := by
    unfold maybeRotate
    split
    · exact ⟨_, rfl, .refl _ _ _⟩
    · rename_i hdue
      obtain rfl : jam = true := by
        rw [h'.cfg_eq, h'.size] at hdue
        unfold NotRotated at hkept
        tauto
      have hfail : (instantEnv true t).outcome .openExcl
          (unlinkPending site (instantEnv true t) s').toWorld =
          .fail 0 := by
        simp [Env.outcome, Env.dead, instantEnv, env]
      obtain ⟨w, hw, hframe⟩ := rotate_of_openExcl_fails hfail
      exact ⟨w, by rw [hw], hframe⟩
  obtain ⟨w, hw, hframe⟩ := hkeep
  rw [hw]
  have hstays := h'.stays (stays_of_frame (instantEnv jam t) h'.live.tables.uids hframe)
  refine ⟨hstays.finish jam t, fun name hname => ?_⟩
  exact (hframe.lookup name hname).trans (hlook name)

/-- In a list without repetitions, only one element passes. -/
theorem filter_eq_singleton {p : UInt32 → Bool} {l : List UInt32} {a : UInt32} (hnd : l.Nodup)
    (ha : a ∈ l) (hp : ∀ v, p v = true ↔ v = a) : l.filter p = [a] := by
  refine List.perm_singleton.mp
    ((List.perm_ext_iff_of_nodup (hnd.filter p) (List.nodup_singleton a)).mpr fun v => ?_)
  rw [List.mem_filter, hp, List.mem_singleton]
  exact ⟨fun h => h.2, fun h => ⟨h ▸ ha, h⟩⟩

/-- A rotation that succeeds leaves the rate record of the one window. -/
theorem Described.turned (h : Described cfg c s) (hcfg : FloodConfig cfg)
    (hring : (c.evicted cfg c.time).n ≠ 0)
    (hrot : (rotate site (instantEnv false c.time) s).1 = true) :
    Described cfg (c.turn cfg) (rotate site (instantEnv false c.time) s).2 := by
  have hE := unlinksWork_instantEnv false c.time
  have hok := h.live.tables.uids
  have hon : s.cfg.rateMaxInWindow ≠ 0 := h.cfg_eq ▸ hcfg.on
  rcases rotate_stays_or_turns (S := site) hE hok h.live.fs_ok with ⟨hfalse, -⟩ | ⟨hres, hturn⟩
  · rw [hrot] at hfalse
    cases hfalse
  set s' := (rotate site (instantEnv false c.time) s).2 with hs'
  have hp : s'.poisoned = false := by
    rw [hrot] at hres
    simpa using hres.symm
  have hlive := hturn.live h.healthy h.live
  -- the rings are evicted at the one instant of this environment
  obtain ⟨k, -, -, hnodes⟩ := hturn.rings hon
  have hnode : s'.uids.node 1000 = c.evicted cfg c.time := by
    rw [hnodes, h.node, h.cfg_eq]
    rfl
  have hothers : ∀ v, v ≠ 1000 → (s'.uids.node v).n = 0 := by
    intro v hv
    rw [hnodes, UidState.uidEvict, h.others v hv]
    exact h.others v hv
  have hmem : (1000 : UInt32) ∈ carriedUids s := by
    by_contra hnot
    have hzero := node_of_notMem_carriedUids hok hon hnot
    rw [hnodes, hzero] at hnode
    exact hring (by rw [← hnode]; rfl)
  have hlines : rateLines site s'.uids (carriedUids s) = (c.turn cfg).lines := by
    have hfilter : (carriedUids s).filter (fun v => decide ((s'.uids.node v).n ≠ 0)) = [1000] := by
      refine filter_eq_singleton (nodup_carriedUids hok) hmem fun v => ?_
      rw [decide_eq_true_eq]
      refine ⟨fun hn => by_contra fun hv => hn (hothers v hv), ?_⟩
      rintro rfl
      rw [hnode]
      exact hring
    rw [rateLines, hfilter, List.map_singleton, UidTable.entries, hnode]
    rfl
  have hwalk : s.opens.walk = [] := by
    rw [h.opens]
    simp [OpenSet.walk, Tables.init, OpenSet.init, Chains.walk]
  have hsplit : splitLines (s'.fs.node s'.fd).bytes = ((c.turn cfg).lines, []) := by
    obtain ⟨ls, hls, hsplit⟩ := hturn.splitLines_eq
    rw [hwalk] at hls
    cases hls
    rw [hsplit, hlines]
    rfl
  have hready := (hlive.ready hp).1
  refine
    { live := hlive
      alive := by rw [hturn.rest]; exact h.alive
      healthy := hp
      cfg_eq := hturn.cfg_eq.trans h.cfg_eq
      host := by rw [hturn.rest]; exact h.host
      opens := hturn.opens_eq.trans h.opens
      node := hnode
      others := hothers
      disk := ?_
      posts := by rw [hturn.journal_eq]; exact h.posts
      charged := by rw [hturn.journal_eq]; exact h.charged
      size := ?_
      time := ?_ }
  · rw [onDisk_iff_of_undo hready.undo, hready.sinkFile_eq]
    refine ⟨?_, by rw [sinkLines, Option.elim_some, hsplit]⟩
    rintro n hn
    obtain rfl := Option.some.inj hn
    exact hturn.regular
  · have hbytes := (joinLines_splitLines (s'.fs.node s'.fd).bytes).1
    rw [hsplit] at hbytes
    rw [hs', segBytes_rotate (faultless_instantEnv c.time) hok hrot, ← hs', ← hbytes]
    simp [Summary.turn, joinLines_singleton]
  · rcases hturn.clock with ⟨-, hlast⟩ | ⟨-, hlast⟩
    · exact hlast.trans h.time
    · exact hlast

end Described

/-! ### Runs -/

/-- A number of equal lines at one instant. -/
@[irreducible] def Summary.flood (cfg : Config) (c : Summary) (t : UInt64) (op : String) (k : ℕ) :
    Summary :=
  (fun c => c.post cfg t op)^[k] c

theorem Summary.flood_zero (cfg : Config) (c : Summary) (t : UInt64) (op : String) :
    c.flood cfg t op 0 = c := by
  rw [Summary.flood, Function.iterate_zero, id]

theorem Summary.flood_succ (cfg : Config) (c : Summary) (t : UInt64) (op : String) (k : ℕ) :
    c.flood cfg t op (k + 1) = (c.flood cfg t op k).post cfg t op := by
  rw [Summary.flood, Summary.flood, Function.iterate_succ_apply']

/-- A run under one configuration whose clock does not go back, and the broker after it. -/
structure EmitRun (cfg : Config) (c : Summary) (evs : List Event) : Prop where
  unlinks : UnlinksRun evs
  ids : FreshIds site evs
  under : Under cfg evs
  forward : ForwardRun site (St.initial fs) evs
  described : Described cfg c (run site (St.initial fs) evs)

section EmitRun

variable {cfg : Config} {c c' : Summary} {evs : List Event} {jam : Bool} {t : UInt64} {op : String}

/-- One more emit, whatever becomes of the summary. -/
theorem EmitRun.concat (h : EmitRun cfg c evs) (hf : Emits t op) (hle : c.time ≤ t)
    (hnext : Described cfg c' (step site (run site (St.initial fs) evs) (emitAt jam t op)).2) :
    EmitRun cfg c' (evs ++ [emitAt jam t op]) where
  unlinks := by
    intro ev hev
    rcases List.mem_append.mp hev with hev | hev
    · exact h.unlinks ev hev
    · rw [List.mem_singleton.mp hev]
      exact unlinksWork_instantEnv jam t
  ids := by
    have hnone : Event.minted? site (emitAt jam t op) = none := by
      simp only [Event.minted?, emitAt, hf.parse]
      rw [hf.2.1]
      rfl
    rw [FreshIds, List.filterMap_append, List.filterMap_cons_none hnone, List.filterMap_nil,
      List.append_nil]
    exact h.ids
  under := by
    intro env cfg' rollback hmem
    rcases List.mem_append.mp hmem with hmem | hmem
    · exact h.under env cfg' rollback hmem
    · simp [emitAt] at hmem
  forward := by
    refine h.forward.concat (fun _ _ _ => UInt64.le_refl _) ?_
    rw [h.described.time]
    exact hle
  described := by
    rw [run_concat]
    exact hnext

/-- A flood during which the segment stays. -/
theorem EmitRun.flood (h : EmitRun cfg c evs) (hcfg : FloodConfig cfg) (hle : c.time ≤ t) (k : ℕ)
    (htakes : ∀ i < k, (c.flood cfg t op i).Takes cfg t op)
    (hkept : ∀ i < k, NotRotated cfg jam (c.flood cfg t op (i + 1)).size) :
    EmitRun cfg (c.flood cfg t op k) (evs ++ List.replicate k (emitAt jam t op)) ∧
      ∀ name, name ≠ site.pendingName →
        (run site (St.initial fs) (evs ++ List.replicate k (emitAt jam t op))).fs.lookup name =
          (run site (St.initial fs) evs).fs.lookup name := by
  induction k with
  | zero =>
    rw [List.replicate_zero, List.append_nil, Summary.flood_zero]
    exact ⟨h, fun _ _ => rfl⟩
  | succ k ih =>
    obtain ⟨hemits, hlook⟩ := ih (fun i hi => htakes i (by omega)) fun i hi => hkept i (by omega)
    have htake := htakes k (by omega)
    have hkept' := hkept k (by omega)
    rw [Summary.flood_succ] at hkept' ⊢
    obtain ⟨hdescribed, hlook'⟩ := hemits.described.notRotated hcfg htake hkept'
    have htime : (c.flood cfg t op k).time ≤ t := by
      cases k with
      | zero =>
        rw [Summary.flood_zero]
        exact hle
      | succ k =>
        rw [Summary.flood_succ]
        exact UInt64.le_refl _
    rw [List.replicate_succ', ← List.append_assoc]
    refine ⟨hemits.concat htake.emits htime hdescribed, fun name hname => ?_⟩
    rw [run_concat, hlook' name hname, hlook name hname]

/-- The summary of an empty sink. -/
def emptySummary (cfg : Config) : Summary where
  ring := UidState.zero (ringCap cfg)
  lines := []
  posts := []
  size := 0
  time := 0

/-- The start of every such run. -/
def startRun (cfg : Config) : List Event := [.start (env 1000000 0) cfg false]

/-- The broker that starts on an empty directory. -/
theorem rabBrokerOpen_fs (hcheck : cfg.check = none) :
    rabBrokerOpen site (env 1000000 0) cfg ((St.initial fs).found false) =
      (none, { (St.initial fs).found false with
        toTables := Tables.init cfg
        toWorld := { fs := fs.create site.base site.euid, calls := 7 }
        alive := true, fd := 0, host := Buf.snprintf 256 (lit "host")
        gwin := { start := 0, bytes := 0 }, segBytes := 0, poisoned := false, landed := none }) := by
  have hpending : site.pendingTooLong = false := by decide
  simp only [rabBrokerOpen, hcheck, hpending]
  rfl

theorem emitRun_startRun (hcheck : cfg.check = none) :
    EmitRun cfg (emptySummary cfg) (startRun cfg) ∧
      ∀ ts, (run site (St.initial fs) (startRun cfg)).fs.lookup (site.archName ts) = none := by
  have hunlinks : UnlinksRun (startRun cfg) := by
    intro ev hev
    rw [List.mem_singleton.mp hev]
    exact unlinksWork 1000000 0
  have hids : FreshIds site (startRun cfg) := List.nodup_nil
  have hrun : run site (St.initial fs) (startRun cfg) =
      (rabBrokerOpen site (env 1000000 0) cfg ((St.initial fs).found false)).2.finish
        (env 1000000 0) := step_start site (St.initial fs) (env 1000000 0) cfg false
  rw [rabBrokerOpen_fs hcheck] at hrun
  have halive : (run site (St.initial fs) (startRun cfg)).alive = true := by
    rw [hrun]
    rfl
  refine ⟨⟨hunlinks, hids, ?_, ?_, ?_⟩, fun ts => ?_⟩
  · intro env cfg' rollback hmem
    rw [startRun, List.mem_singleton, Event.start.injEq] at hmem
    exact hmem.2.1
  · refine ⟨fun ev hev => ?_, fun n ev hev => ?_⟩
    · rw [List.mem_singleton.mp hev]
      exact fun _ _ _ => UInt64.le_refl _
    · obtain ⟨hlt, -⟩ := List.getElem?_eq_some_iff.mp hev
      obtain rfl : n = 0 := Nat.lt_one_iff.mp hlt
      obtain rfl := Option.some.inj hev
      exact UInt64.le_iff_toNat_le.mpr (Nat.zero_le _)
  · refine
      { live := (traced_run emptySink hunlinks hids).inv.live halive
        alive := halive
        healthy := by rw [hrun]; rfl
        cfg_eq := by rw [hrun]; rfl
        host := by rw [hrun]; exact (by decide : (Buf.snprintf 256 (lit "host")).bytes = lit "host")
        opens := by rw [hrun]; rfl
        node := by rw [hrun]; rfl
        others := fun v _ => by rw [hrun]; rfl
        disk := ?_
        posts := by rw [hrun]; rfl
        charged := fun e he => by rw [hrun] at he; cases he
        size := by rw [hrun]; rfl
        time := by rw [hrun]; rfl }
    rw [hrun, onDisk_iff_of_undo rfl]
    refine ⟨fun n hn => ?_, rfl⟩
    obtain rfl := Option.some.inj hn
    exact ⟨rfl, rfl⟩
  · rw [hrun]
    change (fs.create site.base site.euid).lookup (site.archName ts) = none
    have hne : site.archName ts ≠ site.base := site.archName_ne_base ts
    simp [Fs.lookup, Fs.create, fs, hne.symm]

/-- An emit after which the segment is rotated. -/
theorem Described.turns {s : St} (h : Described cfg c s) (hcfg : FloodConfig cfg)
    (ht : c.Takes cfg t op) (hdue : cfg.rotateBytes ≠ 0 ∧ cfg.rotateBytes < (c.post cfg t op).size)
    (hring : ((c.post cfg t op).evicted cfg t).n ≠ 0) (harch : site.archTooLong t = false)
    (hfree : s.fs.lookup (site.archName t) = none) :
    Described cfg ((c.post cfg t op).turn cfg) (step site s (emitAt false t op)).2 := by
  obtain ⟨s', -, h', hlook, hstep⟩ := h.posted hcfg ht false
  have hrotate : maybeRotate site (instantEnv false t) s' =
      (rotate site (instantEnv false t) s').2 := by
    rw [maybeRotate, if_neg]
    rw [h'.cfg_eq, h'.size, not_or, UInt64.not_le]
    exact hdue
  have hfit : Fit site s' := by
    refine ⟨fun i a ha => ?_, ?_⟩
    · rw [h'.opens] at ha
      simp [Tables.init, OpenSet.init] at ha
    · rw [(h'.live.ready h'.healthy).1.lookup]
      exact Option.some_ne_none _
  have hwalk : s'.opens.walk = [] := by
    rw [h'.opens]
    simp [OpenSet.walk, Tables.init, OpenSet.init, Chains.walk]
  have hok : (rotate site (instantEnv false t) s').1 = true := by
    refine (rotate_of_faultless (faultless_instantEnv t) hfit h'.live.tables.uids h'.healthy ?_).mpr
      ⟨by decide, harch, by simp [hwalk]⟩
    rw [hlook]
    exact hfree
  rw [hstep, hrotate]
  exact (h'.turned hcfg hring hok).finish false t

end EmitRun

/-! ### The wrap -/

/-- The largest capacity, windows of one second and no global quota. -/
def maxConfig (rotate quota : UInt64) : Config :=
  { config with
    rateWindowSec := 1, rateMaxInWindow := 4294967295, rateMaxBytesPerUid := quota
    rateMaxBytesGlobal := 0, rotateBytes := rotate, retainBytes := 0 }

/-- The length of the flood, one less than the capacity. -/
def floodLength : ℕ := 4294967294

/-- The ring when the flood is over. -/
def drainedRing : UidState := .level 4294967295 2000000 401 floodLength floodLength

/-- One line after the flood. -/
def first : UidState := drainedRing.uidPush 4000000 400

/-- Two lines. -/
def second : UidState := first.uidPush 4000000 400

/-- Three lines, the last of which has overwritten the one before it. -/
def third : UidState := second.uidPush 4000001 400

/-- After the flood. -/
def Summary.flooded (cfg : Config) : Summary := (emptySummary cfg).flood cfg 2000000 "xx" floodLength

section MaxConfig

variable {R Q : UInt64} {jam : Bool} {k : ℕ}

theorem floodConfig_maxConfig (R Q : UInt64) : FloodConfig (maxConfig R Q) where
  on := (by decide : (4294967295 : UInt32) ≠ 0)
  off := rfl
  free := (by decide : enoughFreeSpace config (some ((1 : UInt64) <<< 30)) = true)

theorem check_maxConfig (R Q : UInt64) : (maxConfig R Q).check = none := by
  have hcap : ((maxConfig R Q).rateMaxInWindow = 0) = False :=
    eq_false (by decide : (4294967295 : UInt32) ≠ 0)
  have hretain : (maxConfig R Q).retainBytes = 0 := rfl
  have httl : ¬((maxConfig R Q).receiptTtlSec = 0 ∨
      maxReceiptTtlSec < (maxConfig R Q).receiptTtlSec) :=
    (by decide : ¬((300 : UInt32) = 0 ∨ maxReceiptTtlSec < 300))
  simp [Config.check, hcap, hretain, httl]

theorem winTh_maxConfig (R Q t : UInt64) :
    winTh (maxConfig R Q) t = if 1000000 < t then t - 1000000 else 0 := by
  have hwindow : (maxConfig R Q).rateWindowSec.toUInt64 * 1000000 = 1000000 :=
    (by decide : (1 : UInt32).toUInt64 * 1000000 = 1000000)
  simp only [winTh, hwindow]

theorem emitSize_eq : emitSize 2000000 "xx" = 401 ∧ emitSize 4000000 "x" = 400 ∧
    emitSize 4000001 "x" = 400 ∧ emitSize 6000000 "xx" = 401 := by
  decide +kernel

theorem emits_all : Emits 2000000 "xx" ∧ Emits 4000000 "x" ∧ Emits 4000001 "x" ∧
    Emits 6000000 "xx" := by
  decide +kernel

/-- Nothing is evicted while the head of the ring is within the window. -/
theorem uidEvict_of_head {u : UidState} {th : UInt64} (h : th ≤ u.ts u.head.toNat) :
    u.uidEvict th = u := by
  rw [UidState.uidEvict_eq, if_neg]
  exact fun hc => UInt64.not_lt.mpr h hc.2

/-- The ring and the counted size during the flood. -/
theorem flood_empty (R Q : UInt64) (hk : k ≤ floodLength) :
    ((emptySummary (maxConfig R Q)).flood (maxConfig R Q) 2000000 "xx" k).ring =
        .level 4294967295 2000000 401 0 k ∧
      ((emptySummary (maxConfig R Q)).flood (maxConfig R Q) 2000000 "xx" k).evicted (maxConfig R Q)
        2000000 = .level 4294967295 2000000 401 0 k ∧
      ((emptySummary (maxConfig R Q)).flood (maxConfig R Q) 2000000 "xx" k).size =
        UInt64.ofNat (k * 401) := by
  have hlt : floodLength < (4294967295 : UInt32).toNat := by decide
  have hth : winTh (maxConfig R Q) 2000000 ≤ 2000000 := by
    rw [winTh_maxConfig]
    decide
  have hstay : ∀ k ≤ floodLength, (UidState.level 4294967295 2000000 401 0 k).uidEvict
      (winTh (maxConfig R Q) 2000000) = .level 4294967295 2000000 401 0 k := fun k hk =>
    UidState.uidEvict_level_of_le (by unfold floodLength at hk; omega) hth
  induction k with
  | zero =>
    have hcap : (emptySummary (maxConfig R Q)).ring = .level 4294967295 2000000 401 0 0 :=
      (UidState.level_zero 4294967295 2000000 401).symm
    rw [Summary.flood_zero]
    refine ⟨hcap, ?_, rfl⟩
    rw [Summary.evicted, hcap, hstay 0 hk]
  | succ k ih =>
    obtain ⟨-, hev, hsize⟩ := ih (by omega)
    have hring : (((emptySummary (maxConfig R Q)).flood (maxConfig R Q) 2000000 "xx" k).post
        (maxConfig R Q) 2000000 "xx").ring = .level 4294967295 2000000 401 0 (k + 1) := by
      rw [Summary.post, hev, emitSize_eq.1]
      exact UidState.uidPush_level (by omega)
    rw [Summary.flood_succ]
    refine ⟨hring, ?_, ?_⟩
    · rw [Summary.evicted, hring, hstay _ hk]
    · change _ + emitSize 2000000 "xx" = _
      rw [hsize, emitSize_eq.1, Nat.succ_mul, UInt64.ofNat_add]
      rfl

/-- The flood is accepted, if the quota has room for it and no rotation comes in between. -/
theorem emitRun_flooded (jam : Bool) (hQ : Q = 0 ∨ floodLength * 401 ≤ Q.toNat)
    (hR : R = 0 ∨ floodLength * 401 ≤ R.toNat ∨ jam = true) :
    EmitRun (maxConfig R Q) (Summary.flooded (maxConfig R Q))
        (startRun (maxConfig R Q) ++ List.replicate floodLength (emitAt jam 2000000 "xx")) ∧
      ∀ ts, (run site (St.initial fs) (startRun (maxConfig R Q) ++
        List.replicate floodLength (emitAt jam 2000000 "xx"))).fs.lookup (site.archName ts) =
          none := by
  obtain ⟨hstart, hnone⟩ := emitRun_startRun (check_maxConfig R Q)
  have hnat : ∀ i, i < floodLength → (UInt64.ofNat (i * 401) + 401).toNat = (i + 1) * 401 := by
    intro i hi
    unfold floodLength at hi
    rw [UInt64.toNat_add, UInt64.toNat_ofNat', Nat.mod_eq_of_lt (by omega : i * 401 < 2 ^ 64)]
    change (i * 401 + 401) % 2 ^ 64 = _
    omega
  have htakes : ∀ i < floodLength,
      ((emptySummary (maxConfig R Q)).flood (maxConfig R Q) 2000000 "xx" i).Takes (maxConfig R Q)
        2000000 "xx" := by
    intro i hi
    obtain ⟨-, hev, -⟩ := flood_empty R Q hi.le
    refine ⟨emits_all.1, ?_, fun hon => ?_⟩
    · rw [hev, UInt32.lt_iff_toNat_lt]
      change (UInt32.ofNat i).toNat < 4294967295
      unfold floodLength at hi
      rw [toNat_ofNat32 (by omega)]
      omega
    · have hroom := hQ.resolve_left hon
      rw [hev, emitSize_eq.1, UInt64.le_iff_toNat_le]
      change (UInt64.ofNat (i * 401) + 401).toNat ≤ Q.toNat
      rw [hnat i hi]
      exact (Nat.mul_le_mul_right 401 hi).trans hroom
  have hkept : ∀ i < floodLength, NotRotated (maxConfig R Q) jam
      ((emptySummary (maxConfig R Q)).flood (maxConfig R Q) 2000000 "xx" (i + 1)).size := by
    intro i hi
    obtain ⟨-, -, hsize⟩ := flood_empty R Q (k := i + 1) hi
    rw [hsize]
    refine hR.imp_right (Or.imp_left fun hroom => ?_)
    rw [UInt64.le_iff_toNat_le, UInt64.toNat_ofNat', Nat.mod_eq_of_lt]
    · exact (Nat.mul_le_mul_right 401 hi).trans hroom
    · unfold floodLength at hi
      omega
  obtain ⟨hemits, hlook⟩ := hstart.flood (floodConfig_maxConfig R Q)
    (by decide : (0 : UInt64) ≤ 2000000) floodLength htakes hkept
  refine ⟨hemits, fun ts => ?_⟩
  rw [hlook _ (site.archName_ne_pendingName ts), hnone]

theorem ring_facts :
    (drainedRing.n = 0 ∧ drainedRing.bsum = 0) ∧
    (first.ts first.head.toNat = 4000000 ∧ first.n = 1 ∧ first.bsum = 400) ∧
    (second.ts second.head.toNat = 4000000 ∧ second.n = 2 ∧ second.bsum = 800) ∧
    first.entries = [(4000000, 400)] := by
  decide +kernel

variable {c : Summary}

/-- The first line after the flood finds the ring empty, with its head at the end. -/
theorem evicted_flooded (R Q : UInt64) :
    (Summary.flooded (maxConfig R Q)).evicted (maxConfig R Q) 4000000 = drainedRing := by
  have hth : (2000000 : UInt64) < winTh (maxConfig R Q) 4000000 := by
    rw [winTh_maxConfig]
    decide
  rw [Summary.evicted, Summary.flooded, (flood_empty R Q le_rfl).1]
  exact UidState.uidEvict_level (Nat.zero_le _) (by decide) hth

theorem evicted_first (R Q : UInt64) (h : c.ring = first) :
    c.evicted (maxConfig R Q) 4000000 = first := by
  rw [Summary.evicted, h]
  refine uidEvict_of_head ?_
  rw [ring_facts.2.1.1, winTh_maxConfig]
  decide

theorem evicted_second (R Q : UInt64) (h : c.ring = second) :
    c.evicted (maxConfig R Q) 4000001 = second := by
  rw [Summary.evicted, h]
  refine uidEvict_of_head ?_
  rw [ring_facts.2.2.1.1, winTh_maxConfig]
  decide

/-- A short line passes the checks while the ring holds little. -/
theorem takes_of_evicted {t : UInt64} {op : String} {u : UidState} (hf : Emits t op)
    (hsize : emitSize t op = 400) (hev : c.evicted (maxConfig R Q) t = u) (hn : u.n ≤ 2)
    (hb : u.bsum ≤ 800) (hQ : Q = 0 ∨ floodLength * 401 ≤ Q.toNat) : c.Takes (maxConfig R Q) t op := by
  have hn : u.n.toNat ≤ 2 := UInt32.le_iff_toNat_le.mp hn
  have hb : u.bsum.toNat ≤ 800 := UInt64.le_iff_toNat_le.mp hb
  refine ⟨hf, ?_, fun hon => ?_⟩
  · rw [hev, UInt32.lt_iff_toNat_lt]
    change u.n.toNat < 4294967295
    omega
  · have hroom := hQ.resolve_left hon
    rw [hev, hsize, UInt64.le_iff_toNat_le, UInt64.toNat_add]
    change (u.bsum.toNat + 400) % 2 ^ 64 ≤ Q.toNat
    unfold floodLength at hroom
    omega

theorem takes_flooded (hQ : Q = 0 ∨ floodLength * 401 ≤ Q.toNat) :
    (Summary.flooded (maxConfig R Q)).Takes (maxConfig R Q) 4000000 "x" := by
  obtain ⟨⟨hn, hb⟩, -⟩ := ring_facts
  exact takes_of_evicted emits_all.2.1 emitSize_eq.2.1 (evicted_flooded R Q) (by rw [hn]; decide)
    (by rw [hb]; decide) hQ

theorem takes_first (h : c.ring = first) (hQ : Q = 0 ∨ floodLength * 401 ≤ Q.toNat) :
    c.Takes (maxConfig R Q) 4000000 "x" := by
  obtain ⟨-, ⟨-, hn, hb⟩, -⟩ := ring_facts
  exact takes_of_evicted emits_all.2.1 emitSize_eq.2.1 (evicted_first R Q h) (by rw [hn]; decide)
    (by rw [hb]; decide) hQ

theorem takes_second (h : c.ring = second) (hQ : Q = 0 ∨ floodLength * 401 ≤ Q.toNat) :
    c.Takes (maxConfig R Q) 4000001 "x" := by
  obtain ⟨-, -, ⟨-, hn, hb⟩, -⟩ := ring_facts
  exact takes_of_evicted emits_all.2.2.1 emitSize_eq.2.2.1 (evicted_second R Q h)
    (by rw [hn]; decide) (by rw [hb]; decide) hQ

theorem ring_post_flooded (R Q : UInt64) :
    ((Summary.flooded (maxConfig R Q)).post (maxConfig R Q) 4000000 "x").ring = first := by
  rw [Summary.post, evicted_flooded, emitSize_eq.2.1]
  rfl

theorem ring_post_first (R Q : UInt64) (h : c.ring = first) :
    (c.post (maxConfig R Q) 4000000 "x").ring = second := by
  rw [Summary.post, evicted_first R Q h, emitSize_eq.2.1]
  rfl

theorem ring_post_second (R Q : UInt64) (h : c.ring = second) :
    (c.post (maxConfig R Q) 4000001 "x").ring = third := by
  rw [Summary.post, evicted_second R Q h, emitSize_eq.2.2.1]
  rfl

/-- After the rotation that the first of the three lines brings about. -/
def Summary.rotated (cfg : Config) : Summary := ((Summary.flooded cfg).post cfg 4000000 "x").turn cfg

/-- After the three lines. -/
def Summary.wrapped (cfg : Config) : Summary :=
  ((Summary.rotated cfg).post cfg 4000000 "x").post cfg 4000001 "x"

theorem time_flooded (cfg : Config) : (Summary.flooded cfg).time = 2000000 := by
  have hlength : floodLength = 4294967293 + 1 := rfl
  rw [Summary.flooded, hlength, Summary.flood_succ]
  rfl

theorem ring_rotated (R Q : UInt64) : (Summary.rotated (maxConfig R Q)).ring = first :=
  evicted_first R Q (ring_post_flooded R Q)

theorem ring_wrapped (R Q : UInt64) : (Summary.wrapped (maxConfig R Q)).ring = third :=
  ring_post_second R Q (ring_post_first R Q (ring_rotated R Q))

/-- The segment after the three lines: a rate record with the first of them, and the other two. -/
def wrappedLines : List Bytes :=
  [rabBuildRate jsonText 1000 [(4000000, 400)], emitLine 4000000 "x", emitLine 4000001 "x"]

theorem lines_wrapped (R Q : UInt64) : (Summary.wrapped (maxConfig R Q)).lines = wrappedLines := by
  have hentries : (Summary.rotated (maxConfig R Q)).lines =
      [rabBuildRate jsonText 1000 [(4000000, 400)]] := by
    rw [← ring_facts.2.2.2, ← ring_rotated R Q]
    rfl
  change ((Summary.rotated (maxConfig R Q)).lines ++ _) ++ _ = _
  rw [hentries]
  rfl

theorem size_rotated (R Q : UInt64) : (Summary.rotated (maxConfig R Q)).size = 99 := by
  have hsize : UInt64.ofNat ((rabBuildRate jsonText 1000 [(4000000, 400)]).length + 1) = 99 := by
    decide +kernel
  rw [← hsize, ← ring_facts.2.2.2, ← ring_rotated R Q]
  rfl

theorem size_wrapped (R Q : UInt64) :
    ((Summary.rotated (maxConfig R Q)).post (maxConfig R Q) 4000000 "x").size = 499 ∧
      (Summary.wrapped (maxConfig R Q)).size = 899 := by
  have hone : ((Summary.rotated (maxConfig R Q)).post (maxConfig R Q) 4000000 "x").size = 499 := by
    rw [Summary.post, emitSize_eq.2.1]
    exact congrArg (· + 400) (size_rotated R Q)
  refine ⟨hone, ?_⟩
  rw [Summary.wrapped, Summary.post, emitSize_eq.2.2.1]
  exact congrArg (· + 400) hone

/-- The events up to the rotation. -/
def rotatingRun (jam : Bool) (cfg : Config) : List Event :=
  startRun cfg ++ List.replicate floodLength (emitAt jam 2000000 "xx") ++ [emitAt false 4000000 "x"]

theorem emitRun_rotated (hQ : Q = 0 ∨ floodLength * 401 ≤ Q.toNat)
    (hR : R = 0 ∨ floodLength * 401 ≤ R.toNat ∨ jam = true) (hon : R ≠ 0)
    (hdue : R.toNat < floodLength * 401 + 400) :
    EmitRun (maxConfig R Q) (Summary.rotated (maxConfig R Q)) (rotatingRun jam (maxConfig R Q)) := by
  obtain ⟨hemits, hnone⟩ := emitRun_flooded jam hQ hR
  have htake : (Summary.flooded (maxConfig R Q)).Takes (maxConfig R Q) 4000000 "x" := takes_flooded hQ
  have hsize : R < ((Summary.flooded (maxConfig R Q)).post (maxConfig R Q) 4000000 "x").size := by
    change R < (Summary.flooded (maxConfig R Q)).size + emitSize 4000000 "x"
    rw [Summary.flooded, (flood_empty R Q le_rfl).2.2, emitSize_eq.2.1, UInt64.lt_iff_toNat_lt]
    exact hdue.trans_eq (by decide)
  have hring : (((Summary.flooded (maxConfig R Q)).post (maxConfig R Q) 4000000 "x").evicted
      (maxConfig R Q)
      4000000).n ≠ 0 := by
    rw [evicted_first R Q (ring_post_flooded R Q), ring_facts.2.1.2.1]
    decide
  refine hemits.concat emits_all.2.1 (by rw [time_flooded]; decide) ?_
  exact hemits.described.turns (floodConfig_maxConfig R Q) htake ⟨hon, hsize⟩ hring (by decide)
    (hnone 4000000)

/-- A restart after the run: what it accepts, and the ring that it reads. -/
theorem Described.reopens {cfg : Config} {s : St} {E : Env} (h : Described cfg c s) (hE : E.Faultless)
    (hcheck : cfg.check = none) (hsize : (joinLines c.lines).length ≤ maxSegmentBytes)
    (hreplay : (replayLines site (Replay.init cfg 0) c.lines).toOption.isSome = true)
    (rollback : Bool) :
    ∃ s', rabBrokerOpen site E cfg (s.found rollback) = (none, s') ∧
      (s'.uids.node 1000).ring =
        ((UidState.zero (ringCap cfg)).pushAll (segmentPushes site cfg 1000 c.lines)).ring := by
  have hready := (h.live.ready h.healthy).1
  have hfile : sinkFile site (s.found rollback).fs = some (s.fs.node s.fd) := by
    have hdir : (s.found rollback).fs.dir = s.fs.dir := by
      change (if rollback then s.fs.undo.getD s.fs.dir else s.fs.dir) = _
      rw [hready.undo]
      cases rollback <;> rfl
    rw [sinkFile, Fs.lookup, hdir]
    exact hready.sinkFile_eq
  have hlines : sinkLines (sinkFile site (s.found rollback).fs) = c.lines := by
    rw [hfile, ← hready.sinkFile_eq]
    exact h.disk.sinkFile.lines
  have hbytes : (s.fs.node s.fd).bytes = joinLines c.lines := by
    have hjoin := (joinLines_splitLines (s.fs.node s.fd).bytes).1
    rw [hready.whole, List.append_nil] at hjoin
    rw [← hjoin, ← hlines, hfile]
    rfl
  have hne : ∀ line ∈ c.lines, line ≠ [] := by
    intro line hline
    rw [← hlines, hfile, ← hready.sinkFile_eq] at hline
    exact (h.live.disk.sinkFile.lines.isLine line hline).ne_nil
  obtain ⟨R₀, hR₀⟩ : ∃ R, replayLines site (Replay.init cfg 0) c.lines = .ok R := by
    cases hR : replayLines site (Replay.init cfg 0) c.lines with
    | error e => simp [hR, Except.toOption] at hreplay
    | ok R => exact ⟨R, rfl⟩
  have hopen : (rabBrokerOpen site E cfg (s.found rollback)).1 = none := by
    refine rabBrokerOpen_of_faultless hE hcheck (fun n hn => ?_) (fun n hn => ?_) fun total => ?_
    · rw [hfile, ← hready.sinkFile_eq] at hn
      exact h.live.disk.sinkFile.regular n hn
    · rw [hfile] at hn
      obtain rfl := Option.some.inj hn
      rw [hbytes]
      exact hsize
    · rw [hlines]
      obtain ⟨R, hR, -⟩ := (Replay.same_init cfg 0 total).replayLines hR₀
      exact ⟨R, hR⟩
  obtain ⟨-, -, ⟨total, R, hR, htables⟩, -⟩ := rabBrokerOpen_eq_none (Prod.ext hopen rfl)
  rw [hlines] at hR
  refine ⟨_, Prod.ext hopen rfl, ?_⟩
  have huids : (rabBrokerOpen site E cfg (s.found rollback)).2.uids = R.tables.uids :=
    congrArg Tables.uids htables
  rw [huids, ring_replayLines (UidTable.fits_init cfg) hne hR 1000, ring_pushAll]
  rfl

/-- The rings at the end of the first line's window: that of the process has kept the cell of the third
line and counts a cell of the flood after it, and that of a restart has the third line alone. -/
theorem window_facts :
    (third.uidEvict 4000001).entries = [(4000001, 400), (2000000, 401)] ∧
      (third.uidEvict 4000001).bsum = 800 ∧
      (((UidState.zero 4294967295).pushAll
        [(4000000, 400), (4000000, 400), (4000001, 400)]).uidEvict 4000001).entries =
          [(4000001, 400)] ∧
      (((UidState.zero 4294967295).pushAll
        [(4000000, 400), (4000000, 400), (4000001, 400)]).uidEvict 4000001).bsum = 400 := by
  decide +kernel

theorem wrappedLines_facts :
    (joinLines wrappedLines).length ≤ maxSegmentBytes ∧
      segmentPushes site (maxConfig 0 0) 1000 wrappedLines =
        [(4000000, 400), (4000000, 400), (4000001, 400)] ∧
      (replayLines site (Replay.init (maxConfig 1 0) 0) wrappedLines).toOption.isSome = true ∧
      (replayLines site (Replay.init (maxConfig 1722281884894 0) 0) wrappedLines).toOption.isSome =
        true := by
  decide +kernel

/-- A restart after the three lines reads another window than the process has. -/
theorem Described.misread {s : St} {E : Env}
    (h : Described (maxConfig R Q) (Summary.wrapped (maxConfig R Q)) s)
    (hE : E.Faultless)
    (hreplay :
      (replayLines site (Replay.init (maxConfig R Q) 0) wrappedLines).toOption.isSome = true) :
    ∃ s', rabBrokerOpen site E (maxConfig R Q) (s.found false) = (none, s') ∧
      ((s.uids.node 1000).uidEvict (winTh (maxConfig R Q) 5000001)).entries =
        [(4000001, 400), (2000000, 401)] ∧
      ((s.uids.node 1000).uidEvict (winTh (maxConfig R Q) 5000001)).bsum = 800 ∧
      ((s'.uids.node 1000).uidEvict (winTh (maxConfig R Q) 5000001)).entries = [(4000001, 400)] ∧
      ((s'.uids.node 1000).uidEvict (winTh (maxConfig R Q) 5000001)).bsum = 400 := by
  obtain ⟨hlive, hsum, hread, hsum'⟩ := window_facts
  have hth : winTh (maxConfig R Q) 5000001 = 4000001 := by
    rw [winTh_maxConfig]
    decide
  have hlines := lines_wrapped R Q
  obtain ⟨s', hopen, hring⟩ := h.reopens hE (check_maxConfig R Q)
    (by rw [hlines]; exact wrappedLines_facts.1) (by rw [hlines]; exact hreplay) false
  have hpushes : segmentPushes site (maxConfig R Q) 1000 wrappedLines =
      [(4000000, 400), (4000000, 400), (4000001, 400)] := wrappedLines_facts.2.1
  rw [hlines, hpushes] at hring
  have hring' : ((s'.uids.node 1000).uidEvict 4000001).ring =
      (((UidState.zero 4294967295).pushAll
        [(4000000, 400), (4000000, 400), (4000001, 400)]).uidEvict 4000001).ring := by
    rw [UidState.ring_uidEvict, UidState.ring_uidEvict, hring]
    rfl
  rw [hth, h.node, ring_wrapped]
  refine ⟨s', hopen, hlive, hsum, ?_, ?_⟩
  · rw [UidState.entries_of_ring hring', hread]
  · exact (congrArg UidState.bsum hring').trans hsum'

/-! ### A second flood -/

/-- The ring when the three lines have gone: its head has passed a cell of the first flood. -/
def thirdEvicted : UidState := third.uidEvict 5000000

theorem thirdEvicted_facts :
    thirdEvicted.n = 0 ∧ thirdEvicted.head = 2 ∧ thirdEvicted.cap = 4294967295 ∧
    thirdEvicted.bsum = 18446744073709551615 := by
  decide +kernel

/-- The ring during the second flood. -/
theorem grownFrom_flood (R Q : UInt64) (h : c.ring = third) (hk : k ≤ floodLength + 1) :
    UidState.GrownFrom thirdEvicted 6000000 401 k
      ((c.flood (maxConfig R Q) 6000000 "xx" k).evicted (maxConfig R Q) 6000000) := by
  obtain ⟨hn, hhead, hcap, -⟩ := thirdEvicted_facts
  have hth : winTh (maxConfig R Q) 6000000 = 5000000 := by
    rw [winTh_maxConfig]
    decide
  have hlt : floodLength + 1 ≤ thirdEvicted.cap.toNat := by
    rw [hcap]
    decide
  induction k with
  | zero =>
    rw [Summary.flood_zero, Summary.evicted, h, hth]
    refine ⟨rfl, rfl, hn, ?_, fun hpos => absurd hpos (Nat.lt_irrefl 0)⟩
    rw [Nat.zero_mul]
    exact (UInt64.add_zero _).symm
  | succ k ih =>
    have hpush := (ih (by omega)).uidPush (by omega)
      (by rw [hhead, hcap]; decide : thirdEvicted.head.toNat < thirdEvicted.cap.toNat)
    rw [Summary.flood_succ, Summary.evicted, Summary.post, emitSize_eq.2.2.2, uidEvict_of_head]
    · exact hpush
    · rw [hpush.ts (Nat.succ_pos k), hth]
      decide

/-- A quota with room for the first flood and one short line. -/
def exceededQuota : UInt64 := 1722281885294

/-- After the first flood and the three lines, all in one segment. -/
def Summary.exceeded (cfg : Config) : Summary :=
  (((Summary.flooded cfg).post cfg 4000000 "x").post cfg 4000000 "x").post cfg 4000001 "x"

/-- The events up to there. -/
def wrapRun (cfg : Config) : List Event :=
  startRun cfg ++ List.replicate floodLength (emitAt false 2000000 "xx") ++
    [emitAt false 4000000 "x"] ++
    [emitAt false 4000000 "x"] ++ [emitAt false 4000001 "x"]

/-- And the second flood, which is one line longer than the first. -/
def exceedingRun : List Event :=
  wrapRun (maxConfig 0 exceededQuota) ++ List.replicate (floodLength + 1) (emitAt false 6000000 "xx")

theorem Summary.posts_flood (cfg : Config) (c : Summary) (t : UInt64) (op : String) (k : ℕ) :
    (c.flood cfg t op k).posts = c.posts ++ List.replicate k (t, emitLine t op) := by
  induction k with
  | zero => rw [Summary.flood_zero, List.replicate_zero, List.append_nil]
  | succ k ih =>
    rw [Summary.flood_succ, List.replicate_succ', ← List.append_assoc, ← ih]
    rfl

/-- The second flood is accepted whole: the sum of the sizes has wrapped below zero. -/
theorem emitRun_exceeded :
    EmitRun (maxConfig 0 exceededQuota)
      ((Summary.exceeded (maxConfig 0 exceededQuota)).flood (maxConfig 0 exceededQuota) 6000000 "xx"
        (floodLength + 1))
      exceedingRun := by
  have hQ : exceededQuota = 0 ∨ floodLength * 401 ≤ exceededQuota.toNat := by decide
  have hcfg := floodConfig_maxConfig 0 exceededQuota
  have hkept : ∀ size, NotRotated (maxConfig 0 exceededQuota) false size := fun _ => Or.inl rfl
  obtain ⟨hflooded, -⟩ := emitRun_flooded false hQ (Or.inl (rfl : (0 : UInt64) = 0))
  have hring₁ := ring_post_flooded 0 exceededQuota
  have hring₂ := ring_post_first 0 exceededQuota hring₁
  have hone := hflooded.concat emits_all.2.1 (by rw [time_flooded]; decide)
    (hflooded.described.notRotated hcfg (takes_flooded hQ) (hkept _)).1
  have htwo := hone.concat emits_all.2.1 (UInt64.le_refl _)
    (hone.described.notRotated hcfg (takes_first hring₁ hQ) (hkept _)).1
  have hthree := htwo.concat emits_all.2.2.1 (by decide : (4000000 : UInt64) ≤ 4000001)
    (htwo.described.notRotated hcfg (takes_second hring₂ hQ) (hkept _)).1
  refine (hthree.flood hcfg (by decide : (4000001 : UInt64) ≤ 6000000) (floodLength + 1) ?_
    fun _ _ => hkept _).1
  intro i hi
  have hgrown := grownFrom_flood 0 exceededQuota (k := i) (ring_post_second 0 exceededQuota hring₂)
    hi.le
  unfold floodLength at hi
  refine ⟨emits_all.2.2.2, ?_, fun _ => ?_⟩
  · rw [hgrown.n, UInt32.lt_iff_toNat_lt, toNat_ofNat32 (by omega)]
    change i < 4294967295
    omega
  · have hquota : (maxConfig 0 exceededQuota).rateMaxBytesPerUid.toNat = 1722281885294 := by decide
    rw [hgrown.bsum, thirdEvicted_facts.2.2.2, emitSize_eq.2.2.2, UInt64.le_iff_toNat_le, hquota,
      UInt64.toNat_add, UInt64.toNat_add, UInt64.toNat_ofNat']
    change ((18446744073709551615 + i * 401 % 2 ^ 64) % 2 ^ 64 + 401) % 2 ^ 64 ≤ 1722281885294
    rw [Nat.mod_eq_of_lt (by omega : i * 401 < 2 ^ 64)]
    rcases Nat.eq_zero_or_pos i with rfl | hpos
    · decide
    · have hwrap : (18446744073709551615 + i * 401) % 2 ^ 64 = i * 401 - 1 := by omega
      rw [hwrap, Nat.mod_eq_of_lt (by omega)]
      omega

/-- The lines of the second flood are in its history, and every line is short. -/
theorem posts_exceeded :
    ∃ P, (run site (St.initial fs) exceedingRun).journal.map (fun e => (e.now, e.line)) =
        P ++ List.replicate (floodLength + 1) (6000000, emitLine 6000000 "xx") ∧
      ∀ x ∈ P, x.2.length ≤ 400 := by
  have hlen : (emitLine 2000000 "xx").length ≤ 400 ∧ (emitLine 4000000 "x").length ≤ 400 ∧
      (emitLine 4000001 "x").length ≤ 400 := by
    decide +kernel
  refine ⟨_, emitRun_exceeded.described.posts.trans (Summary.posts_flood _ _ _ _ _), ?_⟩
  intro x hx
  simp only [Summary.exceeded, Summary.flooded, Summary.post, Summary.posts_flood, emptySummary,
    List.nil_append, List.mem_append, List.mem_replicate, List.mem_singleton] at hx
  rcases hx with ((⟨-, rfl⟩ | rfl) | rfl) | rfl
  · exact hlen.1
  · exact hlen.2.1
  · exact hlen.2.1
  · exact hlen.2.2

end MaxConfig

/-- The clock of the sample run does not go back. -/
theorem forwardRun_openRun : ForwardRun site (St.initial fs) openRun := by
  obtain ⟨hstart, -⟩ := emitRun_startRun (by decide : config.check = none)
  refine hstart.forward.concat (fun _ _ _ => UInt64.le_refl _) ?_
  rw [hstart.described.time]
  exact UInt64.le_iff_toNat_le.mpr (Nat.zero_le _)

theorem under_openRun : Under config openRun := by
  intro env cfg rollback hmem
  simp only [openRun, List.mem_cons, Event.start.injEq, reduceCtorEq, List.not_mem_nil,
    or_false] at hmem
  exact hmem.2.1

end Sample

end AuditBroker
