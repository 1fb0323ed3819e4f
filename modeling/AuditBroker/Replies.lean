import AuditBroker.Census

/-!
# What a reply means

A request that leaves the broker unpoisoned has only read the clock, evicted rings and appended
lines, each written and synced before anything else happened (`Durably`).  Together with the lines
that a reply accounts for this says what an acknowledgement is worth, and what a refusal leaves
behind: nothing, or the intent of an effect open whose receipt was refused.
-/

namespace AuditBroker

open Foundation

variable {S : Site} {C : Ctx} {E : Env} {s s' s'' : St} {u u' u'' : UidState} {t : UInt64}
  {l : List Entry}

/-! ## Steps without a line -/

/-- A clock reading: one that was taken between the two states, or the last one before. -/
def Reading (E : Env) (s s' : St) (t : UInt64) : Prop :=
  t = s.lastClock ∨ ∃ k, s.ticks ≤ k ∧ k < s'.ticks ∧ t = E.clock k

/-- A ring lost at most the entries that are older than the window at a clock reading. -/
def Dropped (E : Env) (s s' : St) (u u' : UidState) : Prop :=
  u' = u ∨ ∃ t, Reading E s s' t ∧ u' = u.uidEvict (winTh s.cfg t)

/-- The clock was read and rings were evicted. -/
structure Idle (E : Env) (s s' : St) : Prop where
  rest : s' = { s with uids := s'.uids, ticks := s'.ticks, lastClock := s'.lastClock }
  ticks_le : s.ticks ≤ s'.ticks
  clock : Reading E s s' s'.lastClock
  rings : ∀ v, Dropped E s s' (s.uids.node v) (s'.uids.node v)

theorem Reading.mono (h : Reading E s s' t) (hticks : s'.ticks ≤ s''.ticks) :
    Reading E s s'' t := by
  rcases h with h | ⟨k, hle, hlt, h⟩
  · exact Or.inl h
  · exact Or.inr ⟨k, hle, hlt.trans_le hticks, h⟩

theorem Reading.trans (h : Reading E s' s'' t) (hlast : Reading E s s' s'.lastClock)
    (hle : s.ticks ≤ s'.ticks) (hle' : s'.ticks ≤ s''.ticks) : Reading E s s'' t := by
  rcases h with h | ⟨k, hk, hlt, h⟩
  · rw [h]
    exact hlast.mono hle'
  · exact Or.inr ⟨k, hle.trans hk, hlt, h⟩

theorem Dropped.mono (h : Dropped E s s' u u') (hticks : s'.ticks ≤ s''.ticks) :
    Dropped E s s'' u u' := by
  rcases h with h | ⟨t, ht, h⟩
  · exact Or.inl h
  · exact Or.inr ⟨t, ht.mono hticks, h⟩

/-- Two evictions are one, at the reading with the later window. -/
theorem Dropped.trans (h : Dropped E s s'' u u') (h' : Dropped E s s'' u' u'') :
    Dropped E s s'' u u'' := by
  rcases h with rfl | ⟨t, ht, rfl⟩
  · exact h'
  rcases h' with rfl | ⟨t', ht', rfl⟩
  · exact Or.inr ⟨t, ht, rfl⟩
  rw [UidState.uidEvict_uidEvict]
  split
  · exact Or.inr ⟨t', ht', rfl⟩
  · exact Or.inr ⟨t, ht, rfl⟩

/-- An eviction in a later part of the request. -/
theorem Dropped.later (h : Dropped E s' s'' u u') (hlast : Reading E s s' s'.lastClock)
    (hcfg : s'.cfg = s.cfg) (hle : s.ticks ≤ s'.ticks) (hle' : s'.ticks ≤ s''.ticks) :
    Dropped E s s'' u u' := by
  rcases h with h | ⟨t, ht, h⟩
  · exact Or.inl h
  · exact Or.inr ⟨t, ht.trans hlast hle hle', hcfg ▸ h⟩

/-- The entries of a ring, as a list: what is lost is at the front, and it is old. -/
theorem Dropped.entries (h : Dropped E s s' u u') (hu : u.Ring) :
    ∃ old, u.entries = old ++ u'.entries ∧
      ∀ x ∈ old, ∃ t, Reading E s s' t ∧ x.1 < winTh s.cfg t := by
  rcases h with rfl | ⟨t, ht, rfl⟩
  · exact ⟨[], rfl, by simp⟩
  · rw [(UidState.entries_uidEvict hu (winTh s.cfg t)).1, evict]
    refine ⟨_, (List.takeWhile_append_dropWhile).symm, fun x hx => ⟨t, ht, ?_⟩⟩
    simpa using List.mem_takeWhile_imp hx

/-- The same for the ring without the counter beside it. -/
theorem Dropped.ring (h : Dropped E s s' u u') : Dropped E s s' u.ring u'.ring := by
  rcases h with rfl | ⟨t, ht, rfl⟩
  · exact Or.inl rfl
  · exact Or.inr ⟨t, ht, UidState.ring_uidEvict u _⟩

theorem Idle.refl (E : Env) (s : St) : Idle E s s :=
  ⟨rfl, le_rfl, Or.inl rfl, fun _ => Or.inl rfl⟩

theorem Idle.cfg_eq (h : Idle E s s') : s'.cfg = s.cfg := by rw [h.rest]

theorem Idle.fs_eq (h : Idle E s s') : s'.fs = s.fs := by rw [h.rest]

theorem Idle.opens_eq (h : Idle E s s') : s'.opens = s.opens := by rw [h.rest]

theorem Idle.gwin_eq (h : Idle E s s') : s'.gwin = s.gwin := by rw [h.rest]

theorem Idle.journal_eq (h : Idle E s s') : s'.journal = s.journal := by rw [h.rest]

theorem Idle.poisoned_eq (h : Idle E s s') : s'.poisoned = s.poisoned := by rw [h.rest]

theorem Idle.trans (h : Idle E s s') (h' : Idle E s' s'') : Idle E s s'' where
  rest := by
    rw [h'.rest, h.rest]
  ticks_le := h.ticks_le.trans h'.ticks_le
  clock := h'.clock.trans h.clock h.ticks_le h'.ticks_le
  rings v := ((h.rings v).mono h'.ticks_le).trans
    ((h'.rings v).later h.clock h.cfg_eq h.ticks_le h'.ticks_le)

theorem idle_readClock (E : Env) (s : St) : Idle E s (s.readClock E).2 where
  rest := rfl
  ticks_le := Nat.le_succ _
  clock := Or.inr ⟨s.ticks, le_rfl, Nat.lt_succ_self _, rfl⟩
  rings _ := Or.inl rfl

theorem idle_check {t : UidTable}
    (hev : UidTable.Evicts s.cfg (winTh s.cfg s.lastClock) s.uids t) :
    Idle E s { s with uids := t } where
  rest := rfl
  ticks_le := le_rfl
  clock := Or.inl rfl
  rings v := by
    rcases hev.node v with hn | hn
    · exact Or.inl hn
    · exact Or.inr ⟨s.lastClock, Or.inl rfl, hn⟩

/-! ## Durable lines -/

/-- The state after a durable line: it is in the history, installed and charged. -/
def St.charged (C : Ctx) (s : St) (w : World) (line : Bytes) (act : Act)
    (install : Tables → Tables) : St :=
  ({ s with toWorld := w, segBytes := s.segBytes + (C.entry s line act).size,
            journal := s.journal ++ [C.entry s line act] } : St).charge install (C.entry s line act)

/-- The state after a commit: the segment is rotated if it is full. -/
def St.committed (S : Site) (C : Ctx) (s : St) (w : World) (line : Bytes) (act : Act)
    (install : Tables → Tables) : St :=
  maybeRotate S C.env (s.charged C w line act install)

theorem Allowed.rotates_committed {line : Bytes} {act : Act} {install : Tables → Tables}
    (h : Allowed S C s line act install) (hok : s.uids.Ok s.cfg) (w : World) :
    Rotates C.env (s.charged C w line act install) (s.committed S C w line act install) := by
  obtain ⟨hcfg, huids⟩ := h.install_uids (t := s.toTables) hok
  rw [← hcfg] at huids
  exact maybeRotate_rotates S C.env (huids.rateNote_spec _ _ _).1

/-- A line is charged once, to its uid. -/
theorem Allowed.ring_charged {line : Bytes} {act : Act} {install : Tables → Tables}
    (h : Allowed S C s line act install) (hok : s.toTables.Ok)
    (hnew : ∀ cid oi, act = .intent cid oi → s.opens.view cid = none)
    (hon : s.cfg.rateMaxInWindow ≠ 0) (w : World) (v : UInt32) :
    ((s.charged C w line act install).uids.node v).ring =
      if v = (C.entry s line act).chargedUid then
        (s.uids.node v).ring.uidPush s.lastClock (C.entry s line act).size
      else (s.uids.node v).ring := by
  have hring : ((install s.toTables).uids.node v).ring = (s.uids.node v).ring := by
    cases h with
    | @intent cid binding type fits hcid hbinding first caps hline =>
      exact (hok.openAdd (hnew cid _ rfl) _ _ _ _ _).2 v
    | @outcome a => exact (hok.openRemove a).2 v
    | emit => rfl
    | issue => rfl
    | redeem => rfl
  have hcfg : (install s.toTables).cfg = s.cfg := (h.install_uids hok.uids).1
  rw [← hring]
  exact ((h.install_of_new hok hnew).1.rateNote (C.entry s line act).chargedUid s.lastClock
    (C.entry s line act).size).2 (hcfg ▸ hon) v

/-- The part of a request so far: lines that were written and synced one after the other, and between
them nothing but clock readings and evictions. -/
inductive Durably (S : Site) (C : Ctx) (s : St) : List Entry → St → Prop
  | idle {s' : St} (idle : Idle C.env s s') : Durably S C s [] s'
  | line {l : List Entry} {s₁ s' : St} {w : World} {line : Bytes} {act : Act}
      {install : Tables → Tables} (before : Durably S C s l s₁) (ok : s₁.uids.Ok s₁.cfg)
      (allowed : Allowed S C s₁ line act install)
      (written : World.rabSinkAppend C.env s₁.fd line s₁.toWorld = (.durable, w))
      (healthy : (s₁.committed S C w line act install).poisoned = false)
      (after : Idle C.env (s₁.committed S C w line act install) s') :
      Durably S C s (l ++ [C.entry s₁ line act]) s'

theorem Durably.trans_idle (h : Durably S C s l s') (h' : Idle C.env s' s'') :
    Durably S C s l s'' := by
  cases h with
  | idle idle => exact .idle (idle.trans h')
  | line before ok allowed written healthy after =>
    exact .line before ok allowed written healthy (after.trans h')

theorem rabSinkAppend_of_appendLine {e : Entry} (h : s.appendLine E e = (true, s')) :
    ∃ w, World.rabSinkAppend E s.fd e.line s.toWorld = (.durable, w) ∧
      s' = { s with toWorld := w, segBytes := s.segBytes + e.size, journal := s.journal ++ [e] } := by
  unfold St.appendLine at h
  split at h
  · rename_i w heq
    exact ⟨w, heq, (Prod.mk.inj h).2.symm⟩
  · simp at h
  · simp at h

/-- One step of a handler that ends unpoisoned. -/
theorem Step.durably (h : Step S C s' s'') (hd : s'.poisoned = false → Durably S C s l s')
    (hj : s'.journal = s.journal ++ l) (hok : s'.uids.Ok s'.cfg) (hp : s''.poisoned = false) :
    ∃ l', Durably S C s l' s'' ∧ s''.journal = s.journal ++ l' := by
  cases h with
  | clock => exact ⟨l, (hd hp).trans_idle (idle_readClock C.env s'), hj⟩
  | check hev => exact ⟨l, (hd hp).trans_idle (idle_check hev), hj⟩
  | @commit line act install healthy allowed clocked rate =>
    obtain ⟨t, hev, heq | ⟨-, ⟨s₂, happ, heq⟩ | ⟨s₂, happ, heq⟩⟩⟩ :=
      commit_cases (S := S) (C := C) hok line act install
    · rw [heq]
      exact ⟨l, (hd healthy).trans_idle (idle_check hev), hj⟩
    · rw [heq] at hp
      have hpois : s₂.poisoned = true := appendLine_failed happ
      exact absurd (hpois.symm.trans hp) (by simp)
    · obtain ⟨w, hw, rfl⟩ := rabSinkAppend_of_appendLine happ
      have hallowed := allowed.of_evicts hev
      have hbefore : Durably S C s l { s' with uids := t } :=
        (hd healthy).trans_idle (idle_check hev)
      rw [heq] at hp ⊢
      refine ⟨l ++ [C.entry { s' with uids := t } line act],
        .line hbefore hev.ok hallowed hw hp (.refl _ _), ?_⟩
      rw [← List.append_assoc, ← hj]
      exact (hallowed.rotates_committed hev.ok w).journal_eq

theorem Step.poisoned_mono (h : Step S C s s') (hp : s'.poisoned = false) :
    s.poisoned = false := by
  cases h with
  | clock => exact hp
  | check => exact hp
  | commit healthy => exact healthy

/-- The steps of a handler that ends unpoisoned. -/
theorem Steps.durably (h : Steps S C s s') (hok : s.uids.Ok s.cfg) (hp : s'.poisoned = false) :
    ∃ l, Durably S C s l s' ∧ s'.journal = s.journal ++ l := by
  have hall : s'.uids.Ok s'.cfg ∧
      (s'.poisoned = false → ∃ l, Durably S C s l s' ∧ s'.journal = s.journal ++ l) := by
    clear hp
    induction h with
    | refl => exact ⟨hok, fun _ => ⟨[], .idle (.refl _ _), by simp⟩⟩
    | tail _ hstep ih =>
      refine ⟨(hstep.grows ih.1).2, fun hp => ?_⟩
      obtain ⟨l, hd, hj⟩ := ih.2 (hstep.poisoned_mono hp)
      exact hstep.durably (fun _ => hd) hj ih.1 hp
  exact hall.2 hp

/-- A request that leaves the broker unpoisoned appended the lines that its reply accounts for, each
durably. -/
theorem rabBrokerHandle_durably (hok : s.uids.Ok s.cfg) (hnew : s.Unwritten)
    (hp : (rabBrokerHandle S C s).2.poisoned = false) :
    ∃ l, Durably S C s l (rabBrokerHandle S C s).2 ∧
      (rabBrokerHandle S C s).2.journal = s.journal ++ l ∧ Accounts C l (rabBrokerHandle S C s).1 := by
  have hhandled := rabBrokerHandle_handled (S := S) (C := C) hok hnew
  obtain ⟨l, hd, hj⟩ := hhandled.steps.durably hok hp
  obtain ⟨l', hj', hl⟩ := hhandled.accounted.lines hp
  obtain rfl : l = l' := List.append_cancel_left (hj.symm.trans hj')
  exact ⟨l, hd, hj, hl⟩

/-! ## Refusals -/

theorem Durably.idle_of_nil (h : Durably S C s [] s') : Idle C.env s s' := by
  generalize hl : ([] : List Entry) = l at h
  cases h with
  | idle idle => exact idle
  | line => simp at hl

/-- An intent was written, charged to its opener and opened without a receipt, and nothing else
happened than a rotation, clock readings and evictions. -/
structure HalfOpened (S : Site) (C : Ctx) (s s' : St) (e : Entry) (cid : Buf cidMax)
    (oi : OpenIntent) : Prop where
  act : e.act = .intent cid oi
  peer : e.peer = C.peer
  history : s'.journal = s.journal ++ [e]
  /-- The line was written once, and at most a rotation followed. -/
  written : ∃ s₁ w install, Idle C.env s s₁ ∧
    World.rabSinkAppend C.env s₁.fd e.line s₁.toWorld = (.durable, w) ∧
    Idle C.env (s₁.committed S C w e.line e.act install) s'
  fresh : s.opens.view cid = none ∧ ∀ e' ∈ s.journal, ∀ oi', e'.act ≠ .intent cid oi'
  opened : s'.opens.view = Function.update s.opens.view cid (some oi)
  receipt : oi.receipt = none
  gwin : s'.gwin = globalBytesNote s.cfg s.gwin e.now e.size
  /-- One entry on the ring of the opener, and evictions. -/
  charged : s.cfg.rateMaxInWindow ≠ 0 → ∀ v, ∃ u, Dropped C.env s s' (s.uids.node v).ring u ∧
    Dropped C.env s s' (if v = C.peer.uid then u.uidPush e.now e.size else u) (s'.uids.node v).ring

theorem Rotates.dropped (h : Rotates E s s') (v : UInt32) :
    Dropped E s s' (s.uids.node v) (s'.uids.node v) := by
  obtain ⟨now, hev, hnow⟩ := h.evicts
  rcases hev.node v with hn | hn
  · exact Or.inl hn
  · exact Or.inr ⟨now, hnow, hn⟩

theorem Rotates.reading (h : Rotates E s s') : Reading E s s' s'.lastClock := by
  rcases h.clock with ⟨-, hlast⟩ | ⟨hlt, hlast⟩
  · exact Or.inl hlast
  · exact Or.inr ⟨s'.ticks - 1, by omega, by omega, hlast⟩

theorem Durably.halfOpened {e : Entry} {cid : Buf cidMax} {oi : OpenIntent}
    (h : Durably S C s [e] s') (hact : e.act = .intent cid oi) (hj : s'.journal = s.journal ++ [e])
    (hok : s.toTables.Ok) (hf : FreshCid C s) (hu : Unopened C s) :
    C.req.type = .openIntent ∧ HalfOpened S C s s' e cid oi := by
  generalize hl : [e] = l at h
  cases h with
  | idle => simp at hl
  | @line l s₁ _ w line act install before ok allowed written healthy after =>
    obtain ⟨rfl, he⟩ := List.append_eq_singleton_iff.mp hl.symm |>.resolve_right (by simp)
    obtain rfl := List.singleton_inj.mp he
    have hidle := before.idle_of_nil
    have hok₁ : s₁.toTables.Ok := ⟨by rw [hidle.opens_eq]; exact hok.opens, ok⟩
    have hseq : s₁.seq = s.seq := by rw [hidle.rest]
    have hu₁ : Unopened C s₁ :=
      hu.congr (hidle.journal_eq ▸ List.prefix_rfl) hseq hidle.opens_eq
    have hf₁ : FreshCid C s₁ := hf.congr hidle.journal_eq hseq
    have hrot := allowed.rotates_committed ok w
    have hinstall := allowed.install_of_new hok₁ (hu₁.new allowed)
    have hact' : act = .intent cid oi := hact
    -- The readings of the parts are readings of the whole.
    have hticks₁ := hidle.ticks_le
    have hticks₂ : s₁.ticks ≤ (s₁.committed S C w line act install).ticks := hrot.ticks_le
    have hticks₃ := after.ticks_le
    have hlast₂ : Reading C.env s (s₁.committed S C w line act install)
        (s₁.committed S C w line act install).lastClock :=
      Reading.trans (show Reading C.env s₁ _ _ from hrot.reading) hidle.clock hticks₁ hticks₂
    have hview : s'.opens.view = act.apply s.opens.view := by
      rw [after.opens_eq, hrot.opens_eq, ← hidle.opens_eq]
      exact hinstall.2
    have hgwin : s'.gwin = globalBytesNote s.cfg s.gwin s₁.lastClock (C.entry s₁ line act).size := by
      rw [after.gwin_eq, hrot.rest, ← hidle.cfg_eq, ← hidle.gwin_eq]
      rfl
    have hcfg₁ : (s₁.charged C w line act install).cfg = s.cfg :=
      (allowed.install_uids (t := s₁.toTables) ok).1.trans hidle.cfg_eq
    have hcharged : s.cfg.rateMaxInWindow ≠ 0 → ∀ v, ∃ u,
        Dropped C.env s s' (s.uids.node v).ring u ∧
        Dropped C.env s s' (if v = (C.entry s₁ line act).chargedUid then
          u.uidPush s₁.lastClock (C.entry s₁ line act).size else u) (s'.uids.node v).ring := by
      intro hon v
      have hclock₁ : Reading C.env s (s₁.charged C w line act install)
          (s₁.charged C w line act install).lastClock := hidle.clock
      have hrotated := ((hrot.dropped v).ring.later hclock₁ hcfg₁ hticks₁ hticks₂).mono hticks₃
      have hafter := (after.rings v).ring.later hlast₂ (hrot.cfg_eq.trans hcfg₁)
        (hticks₁.trans hticks₂) hticks₃
      refine ⟨(s₁.uids.node v).ring, (hidle.rings v).ring.mono (hticks₂.trans hticks₃), ?_⟩
      rw [← allowed.ring_charged hok₁ (hu₁.new allowed) (hidle.cfg_eq ▸ hon) w v]
      exact hrotated.trans hafter
    subst hact'
    cases allowed with
    | @intent _ binding type fits hcid hbinding first caps hline =>
      refine ⟨type, rfl, rfl, hj, ⟨s₁, w, _, hidle, written, after⟩, ⟨?_, ?_⟩, hview, rfl, hgwin,
        hcharged⟩
      · rw [← hidle.opens_eq]
        exact hu₁ first type cid hcid
      · rw [← hidle.journal_eq]
        exact hf₁ first type cid hcid

/-- Nothing that a refusal may not change has changed. -/
theorem Idle.untouched (h : Idle E s s') :
    s'.fs = s.fs ∧ s'.opens = s.opens ∧ s'.gwin = s.gwin ∧
      ∀ v, Dropped E s s' (s.uids.node v) (s'.uids.node v) ∧
        ((s.uids.node v).Ring → ∃ old, (s.uids.node v).entries = old ++ (s'.uids.node v).entries ∧
          ∀ x ∈ old, ∃ t, Reading E s s' t ∧ x.1 < winTh s.cfg t) :=
  ⟨h.fs_eq, h.opens_eq, h.gwin_eq, fun v => ⟨h.rings v, (h.rings v).entries⟩⟩

section Runs

variable {fs : Fs} {evs : List Event} {env : Env} {peer : Actor} {body : Bytes} {req : Request}

/-- A refusal that does not poison the broker changes nothing but that rings may lose old entries,
except that an effect open whose receipt is refused leaves its intent behind. -/
theorem refusal_atomic (S : Site) {ec : ErrCode} {msg : String}
    (hfresh : FreshRun S (St.initial fs) (evs ++ [.request env peer body]))
    (halive : (run S (St.initial fs) evs).alive = true)
    (hs : s = (run S (St.initial fs) evs).begin_)
    (hreply : connHandle S env peer body s = (.error ec msg, s')) (hp : s'.poisoned = false) :
    (s'.fs = s.fs ∧ s'.opens = s.opens ∧ s'.gwin = s.gwin ∧
      ∀ v, Dropped env s s' (s.uids.node v) (s'.uids.node v) ∧
        ((s.uids.node v).Ring → ∃ old, (s.uids.node v).entries = old ++ (s'.uids.node v).entries ∧
          ∀ x ∈ old, ∃ t, Reading env s s' t ∧ x.1 < winTh s.cfg t)) ∨
    ∃ req e cid oi, rabParseRequest S.codec body = .ok req ∧ req.type = .openIntent ∧
      req.effectPresent = true ∧ HalfOpened S { env, peer, req } s s' e cid oi := by
  obtain ⟨hpre, hlast⟩ := hfresh.of_concat
  have hc : s.toTables.Coherent := by
    rw [hs]
    exact coherent_run hpre halive
  unfold connHandle at hreply
  split at hreply
  · cases hreply
    exact Or.inl (Idle.refl env s).untouched
  rename_i req hreq
  have hminted : req.type = .openIntent → ∀ cid, rabMakeCorrelationId env = some cid →
      Event.minted? S (.request env peer body) = some cid := by
    intro hopen cid hcid
    simp [Event.minted?, hreq, hopen, hcid]
  have hf : FreshCid { env, peer, req } s := by
    intro _ hopen cid hcid
    rw [hs]
    exact (hlast cid (hminted hopen cid hcid) halive).2
  have hu : Unopened { env, peer, req } s := by
    intro _ hopen cid hcid
    rw [hs]
    exact (hlast cid (hminted hopen cid hcid) halive).1
  have hnew : s.Unwritten := by
    rw [hs]
    exact (dated_run S fs evs).unwritten
  have hdurably := rabBrokerHandle_durably (S := S) (C := { env, peer, req }) hc.uids hnew
  rw [hreply] at hdurably
  obtain ⟨l, hd, hj, rfl | ⟨heffect, e, cid, oi, hact, rfl⟩⟩ := hdurably hp
  · exact Or.inl hd.idle_of_nil.untouched
  · obtain ⟨htype, hhalf⟩ := hd.halfOpened hact hj hc.toOk hf hu
    exact Or.inr ⟨req, e, cid, oi, hreq, htype, heffect, hhalf⟩

/-- The sample run goes on with an outcome for a binding that no intent has. -/
def Sample.unknownOutcome : Response × St :=
  connHandle Sample.site (Sample.env 3000000 2) (Sample.actor 1000)
    (Sample.outcomeBody 9 (lit "install"))
    (run Sample.site (St.initial Sample.fs) Sample.openRun).begin_

/-- That request is refused, and the files are as before. -/
theorem refusal_atomic_unknown :
    Sample.unknownOutcome.1 = .error .unknownIntent "no such open intent" ∧
      Sample.unknownOutcome.2.fs = (run Sample.site (St.initial Sample.fs) Sample.openRun).fs := by
  have herror : Sample.unknownOutcome.1 = .error .unknownIntent "no such open intent" := by
    decide +kernel
  have hreply : Sample.unknownOutcome =
      (.error .unknownIntent "no such open intent", Sample.unknownOutcome.2) := by
    rw [← herror]
  have hpois : Sample.unknownOutcome.2.poisoned = false := by decide +kernel
  have halive : (run Sample.site (St.initial Sample.fs) Sample.openRun).alive = true := by
    decide +kernel
  have hids : FreshIds Sample.site (Sample.openRun ++ [.request (Sample.env 3000000 2)
      (Sample.actor 1000) (Sample.outcomeBody 9 (lit "install"))]) := by
    decide +kernel
  have hunlinks : UnlinksRun (Sample.openRun ++ [.request (Sample.env 3000000 2)
      (Sample.actor 1000) (Sample.outcomeBody 9 (lit "install"))]) := by
    refine Sample.unlinksRun ?_
    simp only [Sample.openRun, List.cons_append, List.nil_append, List.forall_mem_cons]
    exact ⟨⟨_, _, rfl⟩, ⟨_, _, rfl⟩, ⟨_, _, rfl⟩, by simp⟩
  refine ⟨herror, ?_⟩
  have hfresh := hids.freshRun hunlinks Sample.emptySink
  rcases refusal_atomic Sample.site hfresh halive rfl hreply hpois with
    ⟨hfs, -⟩ | ⟨req, e, cid, oi, hreq, htype, -⟩
  · rw [hfs, St.begin_]
  · -- The request is not an open.
    have hother : (rabParseRequest Sample.site.codec
        (Sample.outcomeBody 9 (lit "install"))).toOption.map Request.type = some .writeOutcome := by
      decide +kernel
    rw [hreq] at hother
    have htype' : req.type = .writeOutcome := Option.some.inj hother
    rw [htype] at htype'
    cases htype'

/-! ## Torn bytes -/

/-- The reply says `ok` and `persisted`. -/
def Response.Persisted (r : Response) : Prop :=
  ∃ ms, r.body = .obj ms ∧ member? ms "ok" = some (.bool true) ∧
    member? ms "persisted" = some (.bool true)

/-- Such a reply accounts for a line. -/
theorem Response.Persisted.ne_nil {r : Response} (h : r.Persisted) (hl : Accounts C l r) : l ≠ [] := by
  obtain ⟨ms, hbody, -, hpers⟩ := h
  cases r with
  | openOk cid binding token =>
    obtain ⟨e, oi, -, hl⟩ := hl
    cases token with
    | none => simp [show l = [e] from hl]
    | some t =>
      obtain ⟨e', rc, -, rfl⟩ := hl
      simp
  | outcomeOk =>
    obtain ⟨e, cid, -, rfl⟩ := hl
    simp
  | emitOk cid =>
    obtain ⟨e, -, rfl⟩ := hl
    simp
  | redeemOk cid =>
    obtain ⟨e, rc, -, rfl⟩ := hl
    simp
  | capabilities =>
    cases hbody
    exact absurd hpers (by simp [member?])
  | error code message =>
    cases hbody
    exact absurd hpers (by simp [member?])

theorem Response.Persisted.not_error {ec : ErrCode} {msg : String} :
    ¬(Response.error ec msg).Persisted := by
  rintro ⟨ms, hbody, -, hpers⟩
  cases hbody
  exact absurd hpers (by simp [member?])

/-- A poisoned broker refuses every request and touches no file. -/
theorem step_of_poisoned (hp : s.poisoned = true) (env : Env) (peer : Actor) (body : Bytes) :
    (step S s (.request env peer body)).2.fs = s.fs ∧
      (step S s (.request env peer body)).2.poisoned = true ∧
      ∀ r, (step S s (.request env peer body)).1 = .reply r → ∃ ec msg, r = .error ec msg := by
  have hhandle : ∃ ec msg, connHandle S env peer body s.begin_ = (.error ec msg, s.begin_) := by
    unfold connHandle
    split
    · exact ⟨_, _, rfl⟩
    · exact ⟨_, _, if_pos hp⟩
  obtain ⟨ec, msg, hhandle⟩ := hhandle
  simp only [step]
  split
  · rw [hhandle]
    refine ⟨rfl, hp, fun r hr => ?_⟩
    simp only at hr
    split at hr
    · cases hr
    · cases hr
      exact ⟨ec, msg, rfl⟩
  · exact ⟨rfl, hp, fun r hr => by cases hr⟩

theorem run_of_poisoned (hp : s.poisoned = true)
    (hreqs : ∀ ev ∈ evs, ∃ env peer body, ev = .request env peer body) :
    (run S s evs).fs = s.fs ∧ (run S s evs).poisoned = true := by
  induction evs using List.reverseRecOn with
  | nil => exact ⟨rfl, hp⟩
  | append_singleton evs ev ih =>
    obtain ⟨hfs, hpois⟩ := ih fun ev' hev' => hreqs ev' (List.mem_append_left _ hev')
    obtain ⟨env, peer, body, rfl⟩ := hreqs ev (by simp)
    obtain ⟨hfs', hpois', -⟩ := step_of_poisoned (S := S) hpois env peer body
    rw [run_concat]
    exact ⟨hfs'.trans hfs, hpois'⟩

theorem error_of_poisoned (hp : s.poisoned = true)
    (hreqs : ∀ ev ∈ evs, ∃ env peer body, ev = .request env peer body) {n : ℕ} {r : Response}
    (hout : outAt S s evs n = .reply r) : ∃ ec msg, r = .error ec msg := by
  unfold outAt at hout
  split at hout
  · rename_i ev hev
    obtain ⟨env, peer, body, rfl⟩ := hreqs ev (List.mem_of_getElem? hev)
    have hpois : (run S s (evs.take n)).poisoned = true :=
      (run_of_poisoned hp fun ev hev => hreqs ev (List.mem_of_mem_take hev)).2
    exact (step_of_poisoned hpois env peer body).2.2 r hout
  · cases hout

/-- What the files hold, whatever ids were minted: records and a fragment at the sink's path, where a
process that is not poisoned can append. -/
structure Shaped (S : Site) (s : St) : Prop where
  fs_ok : s.fs.Ok
  disk : OnDisk S (fun lines => ∀ line ∈ lines, IsLine S.codec line) s.fs
  ready : s.alive = true → s.poisoned = false → SinkReady S s

/-- One move of a process. -/
theorem Move.shaped (h : Move S C s s') (hs : Shaped S s) (halive : s.alive = true) :
    Shaped S s' ∧ s'.alive = true := by
  have hready := hs.ready halive
  have hline : ∀ {line act install}, Appendable S C s line act install → ∀ fs,
      fs = s.fs.extend s.fd (line ++ [newline]) →
        fs.Ok ∧ OnDisk S (fun lines => ∀ line ∈ lines, IsLine S.codec line) fs := by
    rintro line act install ok fs rfl
    refine ⟨hs.fs_ok.extend _ _, (hready ok.healthy).line hs.disk ok.allowed.isLine.newline_notMem
      fun lines hlines line' hmem => ?_⟩
    rcases List.mem_append.mp hmem with hmem | hmem
    · exact hlines line' hmem
    · rw [List.mem_singleton.mp hmem]
      exact ok.allowed.isLine
  cases h with
  | clock => exact ⟨⟨hs.fs_ok, hs.disk, fun _ hp => (hready hp).congr rfl rfl⟩, halive⟩
  | check => exact ⟨⟨hs.fs_ok, hs.disk, fun _ hp => (hready hp).congr rfl rfl⟩, halive⟩
  | @torn w b healthy hb hfs =>
    have hok : w.fs.Ok := hfs ▸ hs.fs_ok.extend _ _
    have hdisk : OnDisk S _ w.fs := hfs ▸ (hready healthy).torn hs.disk hb
    exact ⟨⟨hok, hdisk, by simp⟩, halive⟩
  | landed ok hfs =>
    obtain ⟨hok, hdisk⟩ := hline ok _ hfs
    exact ⟨⟨hok, hdisk, by simp⟩, halive⟩
  | append ok hfs =>
    obtain ⟨hok, hdisk⟩ := hline ok _ hfs
    refine ⟨⟨hok, hdisk, fun _ _ => ?_⟩, halive⟩
    exact (hready ok.healthy).ready_line ok.allowed.isLine.newline_notMem hfs rfl
  | stay healthy hst =>
    obtain ⟨hdisk, hok, hready'⟩ := hst.onDisk (hready healthy) hs.fs_ok hs.disk
    exact ⟨⟨hok, hdisk, fun _ _ => hready'⟩, by rw [hst.rest]; exact halive⟩
  | turn healthy htu =>
    obtain ⟨hdisk, hready'⟩ := htu.onDisk hs.disk fun ls hls line hmem => by
      rcases List.mem_append.mp hmem with hmem | hmem
      · exact hls.isLine line hmem
      · exact isLine_rateLines S _ _ line hmem
    exact ⟨⟨htu.fs_ok, hdisk, fun _ => hready'⟩, by rw [htu.rest]; exact halive⟩

theorem Moves.shaped (h : Moves S C s s') (hs : Shaped S s) (halive : s.alive = true) :
    Shaped S s' := by
  have hboth : Shaped S s' ∧ s'.alive = true := by
    induction h with
    | refl => exact ⟨hs, halive⟩
    | tail _ hmove ih => exact hmove.shaped ih.1 ih.2
  exact hboth.1

/-- One event. -/
theorem Shaped.step {ev : Event} (h : Shaped S s) (hdated : Dated s) (hE : ev.env.UnlinksWork) :
    Shaped S (step S s ev).2 := by
  cases ev with
  | request env peer body =>
    simp only [AuditBroker.step]
    split
    · rename_i halive
      have hbegin : Shaped S s.begin_ := ⟨h.fs_ok, h.disk, fun ha hp => (h.ready ha hp).congr rfl rfl⟩
      have huids : s.begin_.uids.Ok s.begin_.cfg := hdated.uids halive
      unfold connHandle
      split
      · exact ⟨h.fs_ok, h.disk, fun _ hp => (h.ready halive hp).congr rfl rfl⟩
      · rename_i req hreq
        have hsteps := (rabBrokerHandle_handled (S := S) (C := { env, peer, req }) huids
          hdated.unwritten).steps
        have hs' := (hsteps.moves hE ⟨huids, hbegin.fs_ok⟩).1.shaped hbegin halive
        have halive' := (hsteps.grows huids).1.alive.trans halive
        exact ⟨hs'.fs_ok, hs'.disk, fun _ hp => (hs'.ready halive' hp).congr rfl rfl⟩
    · rename_i hdead
      exact ⟨h.fs_ok, h.disk, fun halive => absurd halive hdead⟩
  | start env cfg rollback =>
    have hmem := dir_settle_mem s.begin_ rollback
    have hok : (s.found rollback).fs.Ok := h.fs_ok.of_mem_dirs hmem rfl rfl rfl
    have hdisk : OnDisk S _ (s.found rollback).fs := h.disk.of_mem_dirs hmem rfl rfl
    obtain ⟨⟨hok', -, hkeep⟩, hopen⟩ := rabBrokerOpen_spec S env cfg
      (show (s.found rollback).fs.undo = none from rfl) hok
    rw [step_start]
    refine ⟨hok', hkeep _ hdisk, fun halive _ => ?_⟩
    rcases hopen with ⟨-, hrest⟩ | ⟨-, hstarted⟩
    · have hdead : (rabBrokerOpen S env cfg (s.found rollback)).2.alive = false := by
        rw [hrest]
        rfl
      simp [St.finish, hdead] at halive
    · exact hstarted.ready.congr rfl rfl

/-- In every run whose unlinks work, from an empty sink. -/
theorem shaped_run (h : EmptySink S fs) (hunlinks : UnlinksRun evs) :
    Shaped S (run S (St.initial fs) evs) := by
  induction evs using List.reverseRecOn with
  | nil =>
    have hinv := (traced_initial h).inv
    exact ⟨hinv.fs_ok, hinv.disk.imp fun _ hsegment => hsegment.isLine, fun halive => by cases halive⟩
  | append_singleton evs ev ih =>
    rw [run_concat]
    exact (ih hunlinks.of_append).step (dated_run S fs evs) hunlinks.last

/-- What a start may find at the sink's path: complete lines and a fragment. -/
theorem Shaped.lines (h : Shaped S s) {d : List (Bytes × ℕ)} (hd : d ∈ s.fs.dirs)
    {n : Inode} (hn : sinkFile S (s.fs.settled d) = some n) :
    ∃ lines frag, n.bytes = joinLines lines ++ frag ∧ (∀ line ∈ lines, IsLine S.codec line) ∧
      newline ∉ frag ∧ (s.alive = true → s.poisoned = false → frag = []) := by
  have hlines := (h.disk d hd).lines
  rw [hn] at hlines
  obtain ⟨hjoin, hfrag⟩ := joinLines_splitLines n.bytes
  refine ⟨_, _, hjoin.symm, hlines, hfrag, fun halive hp => ?_⟩
  have hready := h.ready halive hp
  obtain rfl : d = s.fs.dir := by simpa [Fs.dirs, hready.undo] using hd
  have hfile : sinkFile S (s.fs.settled s.fs.dir) = sinkFile S s.fs := rfl
  rw [hfile, hready.sinkFile_eq] at hn
  cases hn
  exact hready.whole

/-- In a run from an empty sink whose unlinks work, the bytes at the sink's path are complete lines and
a fragment, which is empty unless the broker is poisoned or there is no process; a poisoned broker
changes no file and acknowledges nothing until it is started again; and a reply with `persisted` is
given only after all lines of its request are written and synced. -/
theorem no_torn_records (S : Site) (h : EmptySink S fs) (hunlinks : UnlinksRun evs)
    (hs : s = run S (St.initial fs) evs) :
    (∀ d ∈ s.fs.dirs, ∀ n, sinkFile S (s.fs.settled d) = some n →
      ∃ lines frag, n.bytes = joinLines lines ++ frag ∧ (∀ line ∈ lines, IsLine S.codec line) ∧
        newline ∉ frag ∧ (s.alive = true → s.poisoned = false → frag = [])) ∧
    (s.poisoned = true → ∀ reqs, (∀ ev ∈ reqs, ∃ env peer body, ev = .request env peer body) →
      (run S s reqs).fs = s.fs ∧
        ∀ n r, outAt S s reqs n = .reply r → ∃ ec msg, r = .error ec msg) ∧
    ∀ env peer body req, rabParseRequest S.codec body = .ok req → s.alive = true →
      ∀ r s', rabBrokerHandle S { env, peer, req } s.begin_ = (r, s') → r.Persisted →
        s'.poisoned = false ∧ ∃ l, l ≠ [] ∧ s'.journal = s.journal ++ l ∧
          Durably S { env, peer, req } s.begin_ l s' := by
  have hshaped : Shaped S s := hs ▸ shaped_run h hunlinks
  refine ⟨fun d hd n hn => hshaped.lines hd hn, ?_, ?_⟩
  · intro hp reqs hreqs
    exact ⟨(run_of_poisoned hp hreqs).1, fun n r => error_of_poisoned hp hreqs⟩
  · intro env peer body req hreq halive r s' hhandle hr
    have hdated : Dated s := hs ▸ dated_run S fs evs
    have huids : s.begin_.uids.Ok s.begin_.cfg := hdated.uids halive
    have hhandled := rabBrokerHandle_handled (S := S) (C := { env, peer, req }) huids hdated.unwritten
    have hdurably := rabBrokerHandle_durably (S := S) (C := { env, peer, req }) huids hdated.unwritten
    rw [hhandle] at hhandled hdurably
    have hp : s'.poisoned = false := by
      by_contra hpois
      obtain ⟨ec, msg, rfl⟩ := hhandled.accounted.healthy (by simpa using hpois)
      exact hr.not_error
    obtain ⟨l, hd, hj, hl⟩ := hdurably hp
    exact ⟨hp, l, hr.ne_nil hl, hj, hd⟩

/-- The effect open of the sample run. -/
def Sample.effectOpen : Response × St :=
  connHandle Sample.site (Sample.env 2000000 1) (Sample.actor 1000)
    (Sample.effectBody (lit "install"))
    (run Sample.site (St.initial Sample.fs) (Sample.openRun.take 1)).begin_

/-- It is acknowledged, so the broker is not poisoned and has written lines. -/
theorem no_torn_records_effectOpen :
    Sample.effectOpen.1 =
        .openOk (Sample.cid 2000000 1) (Sample.binding 1) (some (Sample.receipt 1)) ∧
      Sample.effectOpen.2.poisoned = false ∧
      ∃ l, l ≠ [] ∧ Sample.effectOpen.2.journal =
        (run Sample.site (St.initial Sample.fs) (Sample.openRun.take 1)).journal ++ l := by
  have hreply : Sample.effectOpen.1 =
      .openOk (Sample.cid 2000000 1) (Sample.binding 1) (some (Sample.receipt 1)) := by
    decide +kernel
  have hpersisted : Sample.effectOpen.1.Persisted := by
    rw [hreply]
    exact ⟨_, rfl, by simp [member?], by simp [member?]⟩
  have halive : (run Sample.site (St.initial Sample.fs) (Sample.openRun.take 1)).alive = true := by
    decide +kernel
  obtain ⟨-, -, hack⟩ := no_torn_records Sample.site Sample.emptySink
    (Sample.unlinksRun_openRun.take 1) rfl
  have hparse : (rabParseRequest Sample.site.codec
      (Sample.effectBody (lit "install"))).toOption.isSome = true := by
    decide +kernel
  cases hreq : rabParseRequest Sample.site.codec (Sample.effectBody (lit "install")) with
  | error ec =>
    rw [hreq] at hparse
    cases hparse
  | ok req =>
    have hhandle : rabBrokerHandle Sample.site ⟨Sample.env 2000000 1, Sample.actor 1000, req⟩
        (run Sample.site (St.initial Sample.fs) (Sample.openRun.take 1)).begin_ =
          (Sample.effectOpen.1, Sample.effectOpen.2) := by
      rw [Sample.effectOpen, connHandle, hreq]
    obtain ⟨hpois, l, hl, hj, -⟩ := hack _ _ _ req hreq halive _ _ hhandle hpersisted
    exact ⟨hreply, hpois, l, hl, hj⟩

end Runs

end AuditBroker
