import AuditBroker.Census
import AuditBroker.Queue
import AuditBroker.Restart

/-!
# Accounting within a request

What a request does to the rings and to the global window, whatever it asks for: `Charged` lists the
lines that were appended and charged, with the checks that came before each of them.  Nothing is
assumed about identifiers, and faults may occur.

A line is charged only after a rate check of the uid it is charged to, on every path: the second line
of an effect open and the line of a redemption, which is charged to the uid of the receipt, have rate
checks of their own.  So a handler never pushes onto a full ring.
-/

namespace AuditBroker

open Foundation

variable {S : Site} {C : Ctx} {cfg : Config} {s s₁ s' : St} {l : List Entry} {line : Bytes}
  {act : Act} {install : Tables → Tables}

/-! ## Changes that keep the rings -/

/-- The in-memory change of a commit keeps the configuration and the rings. -/
def KeepsRings (install : Tables → Tables) : Prop :=
  ∀ t : Tables, t.uids.Ok t.cfg → (install t).cfg = t.cfg ∧ (install t).uids.Ok t.cfg ∧
    ∀ v, ((install t).uids.node v).ring = (t.uids.node v).ring

theorem keepsRings_id : KeepsRings id := fun _ h => ⟨rfl, h, fun _ => rfl⟩

theorem keepsRings_openAdd (cid : Buf cidMax) (binding : Buf bindingMax) (actor : Actor)
    (operation resource : Buf metaMax) (scope : Buf scopeMax) :
    KeepsRings (·.openAdd cid binding actor operation resource scope) :=
  fun _ h => ⟨rfl, Tables.uids_openAdd h _ _ _ _ _ _⟩

theorem keepsRings_openRemove (a : ℕ) : KeepsRings (·.openRemove a) :=
  fun _ h => ⟨rfl, Tables.uids_openRemove h a⟩

theorem keepsRings_installReceipt (a : ℕ) (r : Receipt) : KeepsRings (·.installReceipt a r) :=
  fun _ h => ⟨rfl, h, fun _ => rfl⟩

theorem keepsRings_setReceipt (a : ℕ) (r : Receipt) : KeepsRings (·.setReceipt a r) :=
  fun _ h => ⟨rfl, h, fun _ => rfl⟩

/-- The change in memory that goes with a line leaves the rings alone. -/
theorem Allowed.keepsRings (h : Allowed S C s line act install) : KeepsRings install := by
  cases h with
  | intent => exact keepsRings_openAdd _ _ _ _ _ _
  | outcome => exact keepsRings_openRemove _
  | emit => exact keepsRings_id
  | issue => exact keepsRings_installReceipt _ _
  | redeem => exact keepsRings_setReceipt _ _

/-! ## Charged lines -/

/-- The part of a request so far, with the lines that it has appended and charged. -/
inductive Charged (S : Site) (C : Ctx) (s : St) : List Entry → St → Prop
  | refl : Charged S C s [] s
  /-- The clock is read. -/
  | clock {l : List Entry} {s' : St} (h : Charged S C s l s') :
      Charged S C s l (s'.readClock C.env).2
  /-- Rings are evicted. -/
  | check {l : List Entry} {s' : St} {th : UInt64} {t : UidTable} (h : Charged S C s l s')
      (evicts : UidTable.Evicts s'.cfg th s'.uids t) : Charged S C s l { s' with uids := t }
  /-- A line is appended and charged, after its checks. -/
  | append {l : List Entry} {s' : St} {w : World} {n : UInt64} {line : Bytes} {act : Act}
      {install : Tables → Tables} (h : Charged S C s l s') (healthy : s'.poisoned = false)
      (clocked : ∃ k < s'.ticks, s'.lastClock = C.env.clock k)
      (rate : s'.RateOk (C.entry s' line act).chargedUid)
      (bytes : globalBytesAllowed s'.cfg s'.gwin s'.lastClock (C.entry s' line act).size = true)
      (keeps : KeepsRings install) :
      Charged S C s (l ++ [C.entry s' line act])
        (({ s' with toWorld := w, segBytes := n,
                    journal := s'.journal ++ [C.entry s' line act] } : St).charge install
          (C.entry s' line act))
  /-- An append fails, which poisons the broker. -/
  | failed {l : List Entry} {s' s'' : St} (h : Charged S C s l s')
      (faulty : ¬C.env.Faultless) (same : SameProcess s' s'') (poisoned : s''.poisoned = true) :
      Charged S C s l s''
  /-- The segment is rotated. -/
  | rotate {l : List Entry} {s' s'' : St} (h : Charged S C s l s')
      (healthy : s'.poisoned = false) (rotates : Rotates C.env s' s'') : Charged S C s l s''

/-- Without faults an append succeeds. -/
theorem rabSinkAppend_of_faultless {E : Env} (hE : E.Faultless) (i : ℕ) {line : Bytes}
    (hline : newline ∉ line) (w : World) :
    ∃ w', World.rabSinkAppend E i line w = (.durable, w') := by
  have hcontains : line.contains 10 = false := by simpa using hline
  simp only [World.rabSinkAppend, hcontains, World.write, hE.plain, hE.outcome]
  exact ⟨_, rfl⟩

/-- What an append does to the state. -/
theorem appendLine_cases (E : Env) {e : Entry} (hline : newline ∉ e.line) (s : St) :
    (∃ w n, s.appendLine E e =
      (true, { s with toWorld := w, segBytes := n, journal := s.journal ++ [e] })) ∨
    ∃ s', s.appendLine E e = (false, s') ∧ ¬E.Faultless ∧ SameProcess s s' ∧
      s'.poisoned = true := by
  cases happ : s.appendLine E e with
  | mk ok s' =>
    cases ok with
    | true =>
      left
      unfold St.appendLine at happ
      split at happ
      · cases happ
        exact ⟨_, _, rfl⟩
      · simp at happ
      · simp at happ
    | false =>
      refine Or.inr ⟨s', rfl, fun hE => ?_, ?_, appendLine_failed happ⟩
      · obtain ⟨w, hw⟩ := rabSinkAppend_of_faultless hE s.fd hline s.toWorld
        rw [St.appendLine, hw] at happ
        simp at happ
      · have hsame := appendLine_same E e s
        rwa [happ] at hsame

/-- Charging a line keeps the configuration and the accounting table. -/
theorem KeepsRings.charge (hkeeps : KeepsRings install) (hok : s.uids.Ok s.cfg) (e : Entry) :
    (s.charge install e).cfg = s.cfg ∧
      (s.charge install e).uids.Ok (s.charge install e).cfg := by
  obtain ⟨hcfg, huids, -⟩ := hkeeps s.toTables hok
  rw [← hcfg] at huids
  exact ⟨hcfg, (huids.rateNote_spec e.chargedUid e.now e.size).1⟩

/-- A commit: the quotas, the line and the rotation. -/
theorem Charged.commit (h : Charged S C s l s₁) (hok : s₁.uids.Ok s₁.cfg)
    (hp : s₁.poisoned = false) (heq : (commit S C line act s₁.lastClock install s₁).2 = s')
    (hline : newline ∉ line) (hclock : ∃ k < s₁.ticks, s₁.lastClock = C.env.clock k)
    (hrate : s₁.RateOk (C.entry s₁ line act).chargedUid) (hkeeps : KeepsRings install) :
    ∃ l', Charged S C s l' s' := by
  obtain ⟨hev, -⟩ := hok.uidBytesAllowed_spec (C.entry s₁ line act).chargedUid s₁.lastClock
    (C.entry s₁ line act).size
  rw [commit_eq S C line act install s₁ rfl rfl] at heq
  set b := s₁.uids.uidBytesAllowed s₁.cfg (C.entry s₁ line act).chargedUid s₁.lastClock
    (C.entry s₁ line act).size
  have hchecked : Charged S C s l { s₁ with uids := b.2 } := h.check hev
  cases hallow : b.1 && globalBytesAllowed s₁.cfg s₁.gwin s₁.lastClock
    (C.entry s₁ line act).size with
  | false =>
    rw [hallow] at heq
    exact heq ▸ ⟨l, hchecked⟩
  | true =>
    rw [hallow] at heq
    simp only at heq
    rcases appendLine_cases C.env (e := C.entry s₁ line act) hline { s₁ with uids := b.2 } with
      ⟨w, n, happ⟩ | ⟨s₂, happ, hfaulty, hsame, hpois⟩
    · rw [happ] at heq
      have happend := hchecked.append (w := w) (n := n) hp hclock (hrate.evicts hev)
        (Bool.and_eq_true_iff.mp hallow).2 hkeeps
      obtain ⟨-, huids⟩ := hkeeps.charge hev.ok (C.entry s₁ line act)
        (s := { s₁ with uids := b.2, toWorld := w, segBytes := n,
                        journal := s₁.journal ++ [C.entry s₁ line act] })
      exact heq ▸ ⟨_, happend.rotate hp (maybeRotate_rotates S C.env huids)⟩
    · rw [happ] at heq
      exact heq ▸ ⟨l, hchecked.failed hfaulty hsame hpois⟩

/-- One small step of a handler. -/
theorem Step.charged (h : Step S C s₁ s') (hl : Charged S C s l s₁) (hok : s₁.uids.Ok s₁.cfg) :
    ∃ l', Charged S C s l' s' := by
  cases h with
  | clock => exact ⟨l, hl.clock⟩
  | check hev => exact ⟨l, hl.check hev⟩
  | commit healthy allowed clocked rate =>
    exact hl.commit hok healthy rfl allowed.isLine.newline_notMem clocked rate allowed.keepsRings

theorem Steps.charged (h : Steps S C s s') (hok : s.uids.Ok s.cfg) :
    ∃ l, Charged S C s l s' := by
  induction h with
  | refl => exact ⟨[], .refl⟩
  | tail hsteps hstep ih =>
    obtain ⟨l, hl⟩ := ih
    exact hstep.charged hl (Steps.grows hsteps hok).2

/-- A frame that is not a request changes nothing. -/
theorem connHandle_charged (S : Site) (env : Env) (peer : Actor) (body : Bytes)
    (hok : s.uids.Ok s.cfg) (hnew : s.Unwritten) :
    (connHandle S env peer body s).2 = s ∨
      ∃ req l, Charged S { env, peer, req } s l (connHandle S env peer body s).2 := by
  unfold connHandle
  split
  · exact Or.inl rfl
  · rename_i req _
    have hhandled := rabBrokerHandle_handled (S := S) (C := { env, peer, req }) hok hnew
    obtain ⟨l, hl⟩ := Steps.charged hhandled.steps hok
    exact Or.inr ⟨req, l, hl⟩

/-! ## Tables whose rings fit -/

/-- Every ring has the configured capacity and no more entries than that. -/
structure UidTable.Fits (cfg : Config) (t : UidTable) : Prop extends t.Ok cfg where
  rings : ∀ v, (t.node v).Fits (ringCap cfg)

section Fits

variable {t t' : UidTable} {R R' : Replay}

theorem UidTable.fits_init (cfg : Config) : (UidTable.init cfg).Fits cfg :=
  ⟨UidTable.ok_init cfg, fun _ => UidState.fits_zero _⟩

theorem UidTable.Fits.of_ring (h : t.Fits cfg) (hok : t'.Ok cfg)
    (hring : ∀ v, (t'.node v).ring = (t.node v).ring) : t'.Fits cfg :=
  ⟨hok, fun v => (h.rings v).of_ring (hring v)⟩

theorem UidTable.Fits.evicts (h : t.Fits cfg) {th : UInt64}
    (hev : UidTable.Evicts cfg th t t') : t'.Fits cfg := by
  refine ⟨hev.ok, fun v => ?_⟩
  rcases hev.node v with hn | hn
  · rw [hn]
    exact h.rings v
  · rw [hn]
    exact (h.rings v).uidEvict th

theorem UidTable.Fits.rateNote (h : t.Fits cfg) (uid : UInt32) (time nbytes : UInt64) :
    (t.rateNote cfg uid time nbytes).Fits cfg := by
  obtain ⟨hok, hnode⟩ := h.toOk.rateNote_spec uid time nbytes
  refine ⟨hok, fun v => ?_⟩
  rw [hnode]
  split
  · exact h.rings v
  · rcases eq_or_ne v uid with rfl | hne
    · rw [Function.update_self]
      exact (h.rings v).uidPush time nbytes
    · rw [Function.update_of_ne hne]
      exact h.rings v

theorem KeepsRings.fits (hkeeps : KeepsRings install) {t : Tables} (h : t.uids.Fits t.cfg) :
    (install t).cfg = t.cfg ∧ (install t).uids.Fits (install t).cfg := by
  obtain ⟨hcfg, hok, hring⟩ := hkeeps t h.toOk
  refine ⟨hcfg, ?_⟩
  rw [hcfg]
  exact h.of_ring hok hring

theorem Rotates.fits {E : Env} (h : Rotates E s s') (hfits : s.uids.Fits s.cfg) :
    s'.uids.Fits s'.cfg := by
  obtain ⟨now, hev, -⟩ := h.evicts
  rw [h.cfg_eq]
  exact hfits.evicts hev

/-! ## Replay -/

/-- A record changes the open set and leaves the rings alone. -/
theorem applyStored_keeps {st : Stored} (h : applyStored R st = .ok R') :
    ∃ install, KeepsRings install ∧ R'.tables = install R.tables := by
  have hsame : ∃ install, KeepsRings install ∧ R.tables = install R.tables :=
    ⟨id, keepsRings_id, rfl⟩
  have hopening : ∀ {x isCheckpoint}, applyOpening R x isCheckpoint = .ok R' →
      ∃ install, KeepsRings install ∧ R'.tables = install R.tables := by
    intro x isCheckpoint h
    unfold applyOpening at h
    split at h
    · cases h
    split at h
    · simp only at h
      split at h
      · cases h
      split at h
      · cases h
      · cases h
        exact hsame
    split at h
    · cases h
    simp only at h
    have hadd := keepsRings_openAdd x.cid x.binding x.actor x.operation x.resource x.scope
    split at h
    · split at h
      · rename_i a _
        cases h
        -- Marking a node as a checkpoint changes the open set only.
        exact ⟨fun t => { t.openAdd x.cid x.binding x.actor x.operation x.resource x.scope with
          opens := (t.openAdd x.cid x.binding x.actor x.operation x.resource
            x.scope).opens.markCheckpoint a }, hadd, rfl⟩
      · cases h
        exact ⟨_, hadd, rfl⟩
    · cases h
      exact ⟨_, hadd, rfl⟩
  cases st with
  | checkpoint x => exact hopening h
  | audit x phase =>
    simp only [applyStored] at h
    split at h
    · exact hopening h
    split at h
    · split at h
      · cases h
      · rename_i a _
        cases h
        exact ⟨_, keepsRings_openRemove a, rfl⟩
    · cases h
      exact hsame
  | rate uid entries =>
    cases h
    exact hsame
  | receipt cid isCheckpoint r =>
    simp only [applyStored] at h
    split at h
    · cases h
    rename_i a _
    cases happly : applyReceipt R.tables a isCheckpoint r with
    | error e =>
      rw [happly] at h
      cases h
    | ok t =>
      rw [happly] at h
      cases h
      unfold applyReceipt at happly
      simp only at happly
      split at happly
      · cases happly
      split at happly
      · cases happly
      split at happly
      · split at happly
        · cases happly
        split at happly
        · cases happly
        · cases happly
          exact ⟨_, keepsRings_installReceipt a r, rfl⟩
      · split at happly
        · cases happly
        split at happly
        · split at happly
          · cases happly
          · cases happly
            exact hsame
        split at happly
        · cases happly
          exact ⟨_, keepsRings_setReceipt a _, rfl⟩
        · cases happly

theorem fits_chargeStored {t : Tables} (h : t.uids.Fits t.cfg) (st : Stored) (nbytes : UInt64) :
    (chargeStored t st nbytes).cfg = t.cfg ∧ (chargeStored t st nbytes).uids.Fits t.cfg := by
  have hnote : ∀ uid time n, (t.rateNote uid time n).cfg = t.cfg ∧
      (t.rateNote uid time n).uids.Fits t.cfg := fun uid time n => ⟨rfl, h.rateNote uid time n⟩
  cases st with
  | audit x phase => exact hnote _ _ _
  | checkpoint x => exact ⟨rfl, h⟩
  | receipt cid isCheckpoint r =>
    cases isCheckpoint with
    | false => exact hnote _ _ _
    | true => exact ⟨rfl, h⟩
  | rate uid entries =>
    simp only [chargeStored]
    clear hnote
    induction entries generalizing t with
    | nil => exact ⟨rfl, h⟩
    | cons x entries ih => exact ih (t := t.rateNote uid x.1 x.2) (h.rateNote uid x.1 x.2)

/-- One line of the segment. -/
theorem fits_replayLine {line : Bytes} (h : R.tables.uids.Fits R.tables.cfg)
    (heq : replayLine S R line = .ok R') :
    R'.tables.cfg = R.tables.cfg ∧ R'.tables.uids.Fits R'.tables.cfg := by
  by_cases hnil : line = []
  · rw [replayLine, if_pos hnil] at heq
    cases heq
    exact ⟨rfl, h⟩
  obtain ⟨st, R₁, -, happly, rfl⟩ := (replayLine_eq_ok hnil).mp heq
  obtain ⟨install, hkeeps, htables⟩ := applyStored_keeps happly
  obtain ⟨hcfg, hfits⟩ := hkeeps.fits h
  rw [← htables] at hcfg hfits
  obtain ⟨hcfg', hfits'⟩ := fits_chargeStored hfits st (UInt64.ofNat (line.length + 1))
  refine ⟨hcfg'.trans hcfg, ?_⟩
  simp only [hcfg']
  exact hfits'

/-- The segment. -/
theorem fits_replayLines {lines : List Bytes} (h : R.tables.uids.Fits R.tables.cfg)
    (heq : replayLines S R lines = .ok R') :
    R'.tables.cfg = R.tables.cfg ∧ R'.tables.uids.Fits R'.tables.cfg := by
  induction lines generalizing R with
  | nil =>
    cases heq
    exact ⟨rfl, h⟩
  | cons line lines ih =>
    obtain ⟨R₁, hline, hlines⟩ := replayLines_cons_eq_ok.mp heq
    obtain ⟨hcfg, hfits⟩ := fits_replayLine h hline
    obtain ⟨hcfg', hfits'⟩ := ih hfits hlines
    exact ⟨hcfg'.trans hcfg, hfits'⟩

end Fits

/-! ## What a request does to the rings -/

/-- The entries that lines push onto the ring of a uid. -/
def charges (cfg : Config) (v : UInt32) (l : List Entry) : List (UInt64 × UInt64) :=
  if cfg.rateMaxInWindow = 0 then []
  else (l.filter fun e => e.chargedUid == v).map fun e => (e.now, e.size)

@[simp] theorem charges_nil (cfg : Config) (v : UInt32) : charges cfg v [] = [] := by
  simp [charges]

theorem charges_concat (cfg : Config) (v : UInt32) (l : List Entry) (e : Entry) :
    charges cfg v (l ++ [e]) =
      charges cfg v l ++ if cfg.rateMaxInWindow ≠ 0 ∧ e.chargedUid = v then [(e.now, e.size)]
        else [] := by
  unfold charges
  by_cases hoff : cfg.rateMaxInWindow = 0
  · simp [hoff]
  · by_cases hv : e.chargedUid = v
    · simp [hoff, hv]
    · simp [hoff, hv]

/-- The nodes after a line has been charged. -/
theorem KeepsRings.ring_charge (hkeeps : KeepsRings install) (hok : s.uids.Ok s.cfg) (e : Entry)
    (v : UInt32) :
    ((s.charge install e).uids.node v).ring =
      if s.cfg.rateMaxInWindow ≠ 0 ∧ e.chargedUid = v then
        (s.uids.node v).ring.uidPush e.now e.size
      else (s.uids.node v).ring := by
  obtain ⟨hcfg, huids, hring⟩ := hkeeps s.toTables hok
  rw [← hcfg] at huids
  have hnode := (huids.rateNote_spec e.chargedUid e.now e.size).2
  have heq : (s.charge install e).uids.node =
      ((install s.toTables).uids.rateNote (install s.toTables).cfg e.chargedUid e.now e.size).node :=
    rfl
  rw [heq, hnode, hcfg]
  by_cases hoff : s.cfg.rateMaxInWindow = 0
  · rw [if_pos hoff, if_neg fun h => h.1 hoff, hring v]
  · rw [if_neg hoff]
    by_cases hv : e.chargedUid = v
    · rw [if_pos ⟨hoff, hv⟩, ← hv, Function.update_self, UidState.ring_uidPush, hring]
    · rw [if_neg fun h => hv h.2, Function.update_of_ne (Ne.symm hv), hring v]

/-- A uid that passed the rate check has a ring with room. -/
theorem St.RateOk.room {uid : UInt32} (h : s.RateOk uid) (hfits : s.uids.Fits s.cfg)
    (hon : s.cfg.rateMaxInWindow ≠ 0) :
    (s.uids.node uid).ring.n ≠ (s.uids.node uid).ring.cap := by
  change (s.uids.node uid).n ≠ (s.uids.node uid).cap
  rw [(hfits.rings uid).cap_eq, ringCap, if_pos hon]
  exact UInt32.ne_of_lt (h hon)

/-- The configuration stays, and the rings go on fitting. -/
theorem Charged.fits (h : Charged S C s l s') (hfits : s.uids.Fits s.cfg) :
    s'.cfg = s.cfg ∧ s'.uids.Fits s'.cfg := by
  induction h with
  | refl => exact ⟨rfl, hfits⟩
  | clock _ ih => exact ih
  | check _ hev ih => exact ⟨ih.1, ih.2.evicts hev⟩
  | @append l s' w n line act install _ _ _ _ _ hkeeps ih =>
    obtain ⟨hcfg, hinstalled⟩ := hkeeps.fits (t := s'.toTables) ih.2
    exact ⟨hcfg.trans ih.1, hinstalled.rateNote _ _ _⟩
  | failed _ _ hsame _ ih =>
    rw [hsame.tables]
    exact ih
  | rotate _ _ hrot ih => exact ⟨hrot.cfg_eq.trans ih.1, hrot.fits ih.2⟩

theorem UidTable.Evicts.driven {t t' : UidTable} {th : UInt64} (h : UidTable.Evicts cfg th t t')
    {u : UidState} {v : UInt32} {pushes : List (UInt64 × UInt64)}
    (hu : u.Driven (t.node v).ring pushes) : u.Driven (t'.node v).ring pushes := by
  rcases h.node v with hn | hn
  · rw [hn]
    exact hu
  · rw [hn, UidState.ring_uidEvict]
    exact hu.evict th

/-- Every ring is driven by evictions and by pushes of the charged lines, none of them onto a full
ring. -/
theorem Charged.driven (h : Charged S C s l s') (hfits : s.uids.Fits s.cfg) (v : UInt32) :
    (s.uids.node v).ring.Driven (s'.uids.node v).ring (charges s.cfg v l) := by
  induction h with
  | refl =>
    rw [charges_nil]
    exact .refl _
  | clock _ ih => exact ih
  | check _ hev ih => exact hev.driven ih
  | @append l s' w n line act install h _ _ hrate _ hkeeps ih =>
    obtain ⟨hcfg, hfits'⟩ := h.fits hfits
    have hring := hkeeps.ring_charge hfits'.toOk (C.entry s' line act) v
      (s := { s' with toWorld := w, segBytes := n,
                      journal := s'.journal ++ [C.entry s' line act] })
    rw [hring, charges_concat, ← hcfg]
    rw [← hcfg] at ih
    split
    · rename_i hcharged
      obtain ⟨hon, rfl⟩ := hcharged
      exact ih.push (hrate.room hfits' hon) _ _
    · rw [List.append_nil]
      exact ih
  | failed _ _ hsame _ ih =>
    rw [hsame.tables]
    exact ih
  | rotate _ _ hrot ih =>
    obtain ⟨now, hev, -⟩ := hrot.evicts
    exact hev.driven ih

theorem Tables.noteOverflows_eq_false {t : Tables} (hok : t.uids.Ok t.cfg) {uid : UInt32}
    (hroom : t.cfg.rateMaxInWindow ≠ 0 →
      (t.uids.node uid).ring.n ≠ (t.uids.node uid).ring.cap) : t.noteOverflows uid = false := by
  obtain ⟨-, hnode, -⟩ := hok.uidGet uid
  rw [Tables.noteOverflows, hnode]
  by_cases hon : t.cfg.rateMaxInWindow = 0
  · simp [hon]
  · have hne : (t.uids.node uid).n ≠ (t.uids.node uid).cap := hroom hon
    simp [hne]

/-- No push of the request itself finds its ring full. -/
theorem Charged.overflowed (h : Charged S C s l s') (hfits : s.uids.Fits s.cfg) :
    s'.overflowed = s.overflowed := by
  induction h with
  | refl => rfl
  | clock _ ih => exact ih
  | check _ _ ih => exact ih
  | @append l s' w n line act install h _ _ hrate _ hkeeps ih =>
    obtain ⟨-, hfits'⟩ := h.fits hfits
    obtain ⟨hcfg, hok, hring⟩ := hkeeps s'.toTables hfits'.toOk
    rw [← hcfg] at hok
    -- the rate check left room, and what the line installs keeps the rings
    have hroom : (install s'.toTables).noteOverflows (C.entry s' line act).chargedUid = false := by
      refine Tables.noteOverflows_eq_false hok fun hon => ?_
      rw [hring]
      rw [hcfg] at hon
      exact hrate.room hfits' hon
    change (s'.overflowed || (install s'.toTables).noteOverflows _) = _
    rw [hroom, Bool.or_false, ih]
  | failed _ _ hsame _ ih => exact hsame.overflowed.trans ih
  | rotate _ _ hrot ih =>
    rw [hrot.rest]
    exact ih

/-- Unless the broker is poisoned, the charged lines are the lines that landed. -/
theorem Charged.journal (h : Charged S C s l s') (hp : s'.poisoned = false) :
    s'.journal = s.journal ++ l := by
  induction h with
  | refl => rw [List.append_nil]
  | clock _ ih => exact ih hp
  | check _ _ ih => exact ih hp
  | @append l s' w n line act install _ healthy _ _ _ _ ih =>
    rw [← List.append_assoc, ← ih healthy]
    rfl
  | failed _ _ _ hpois => rw [hpois] at hp; cases hp
  | rotate _ healthy hrot ih => exact hrot.journal_eq.trans (ih healthy)

/-! ## Runs -/

section Runs

variable {evs : List Event} {ev : Event} {fs : Fs}

/-- A broker that has started: its rings fit and the global window is fresh. -/
theorem fits_rabBrokerOpen {E : Env} (h : rabBrokerOpen S E cfg s = (none, s')) :
    s'.cfg = cfg ∧ s'.uids.Fits s'.cfg ∧ s'.gwin = { start := 0, bytes := 0 } ∧
      s'.poisoned = false := by
  unfold rabBrokerOpen at h
  split at h
  · cases h
  simp only at h
  split at h
  · cases h
  rename_i t w hrec
  split at h
  · cases h
  cases h
  suffices t.cfg = cfg ∧ t.uids.Fits t.cfg from ⟨this.1, this.2, rfl, rfl⟩
  unfold reconstruct at hrec
  split at hrec
  · cases hrec
  simp only at hrec
  split at hrec
  · cases hrec
  rename_i R hreplay
  have hR := fits_replayLines (UidTable.fits_init cfg) hreplay
  split at hrec
  · cases hrec
    exact hR
  split at hrec
  · cases hrec
  · cases hrec
    exact hR

/-- The rings of a running broker fit, whatever it found in its directory. -/
theorem fits_step (hdated : Dated s) (h : s.alive = true → s.uids.Fits s.cfg)
    (halive : (step S s ev).2.alive = true) :
    (step S s ev).2.uids.Fits (step S s ev).2.cfg := by
  cases ev with
  | request env peer body =>
    simp only [step] at halive ⊢
    split at halive
    · rename_i hs
      rw [if_pos hs]
      rcases connHandle_charged S env peer body (s := s.begin_) (h hs).toOk hdated.unwritten with
        hsame | ⟨req, l, hl⟩
      · rw [hsame]
        exact h hs
      · exact (hl.fits (h hs)).2
    · rename_i hs
      exact absurd halive hs
  | start env cfg rollback =>
    rw [step_start] at halive ⊢
    cases hopen : rabBrokerOpen S env cfg (s.found rollback) with
    | mk err s' =>
      cases err with
      | none => exact (fits_rabBrokerOpen hopen).2.1
      | some e =>
        rw [hopen] at halive
        have hdead : s'.alive = false := alive_of_refused hopen
        simp [St.finish, hdead] at halive

theorem fits_run (halive : (run S (St.initial fs) evs).alive = true) :
    (run S (St.initial fs) evs).uids.Fits (run S (St.initial fs) evs).cfg := by
  induction evs using List.reverseRecOn with
  | nil => cases halive
  | append_singleton evs ev ih =>
    rw [run_concat] at halive ⊢
    exact fits_step (dated_run S fs evs) ih halive

/-- A request does not take the overflow branch. -/
theorem overflowed_connHandle (S : Site) (env : Env) (peer : Actor) (body : Bytes)
    (hfits : s.uids.Fits s.cfg) (hnew : s.Unwritten) :
    (connHandle S env peer body s).2.overflowed = s.overflowed := by
  rcases connHandle_charged S env peer body hfits.toOk hnew with hsame | ⟨req, l, hl⟩
  · rw [hsame]
  · exact hl.overflowed hfits

/-- No request of a run takes the overflow branch. -/
theorem overflowed_run (S : Site) (fs : Fs) (evs : List Event) :
    (run S (St.initial fs) evs).overflowed = false := by
  induction evs using List.reverseRecOn with
  | nil => rfl
  | append_singleton evs ev ih =>
    rw [run_concat]
    cases ev with
    | request env peer body =>
      simp only [step]
      split
      · rename_i halive
        exact (overflowed_connHandle S env peer body (s := (run S (St.initial fs) evs).begin_)
          (fits_run halive) (dated_run S fs evs).unwritten).trans ih
      · exact ih
    | start env cfg rollback =>
      rw [step_start]
      obtain ⟨-, -, -, hsame⟩ := history_rabBrokerOpen S env cfg
        ((run S (St.initial fs) evs).found rollback)
      exact hsame.trans ih

/-- A ring of some capacity is a bounded queue under every sequence of calls exactly when the capacity
is at most `2 ^ 31`.  In every run, over every directory, the rings have the configured capacity and
no more entries than that; no request handler has taken the overflow branch of `uid_push`, nor does the
next request take it, whatever it is; and it drives each ring by evictions and by pushes of the lines
charged to its uid. -/
theorem ring_bounded_queue (S : Site) :
    (∀ cap : UInt32, 1 ≤ cap.toNat →
      ((∀ ops, (ringAfter cap ops).IsQueue (queueAfter cap.toNat ops)) ↔ cap.toNat ≤ 2 ^ 31)) ∧
    ∀ fs evs env peer body s, s = run S (St.initial fs) evs → s.alive = true →
      (∀ v, (s.uids.node v).cap = ringCap s.cfg ∧ (s.uids.node v).n ≤ ringCap s.cfg) ∧
      (s.overflowed = false ∧ (connHandle S env peer body s.begin_).2.overflowed = false) ∧
      ∃ l, ((connHandle S env peer body s.begin_).2.poisoned = false →
          (connHandle S env peer body s.begin_).2.journal = s.journal ++ l) ∧
        ∀ v, (s.uids.node v).ring.Driven
          ((connHandle S env peer body s.begin_).2.uids.node v).ring (charges s.cfg v l) := by
  refine ⟨fun cap hcap => isQueue_iff hcap, ?_⟩
  rintro fs evs env peer body s rfl halive
  have hfits := fits_run halive
  have hnew := (dated_run S fs evs).unwritten
  have hnone := overflowed_run S fs evs
  set s := run S (St.initial fs) evs
  refine ⟨fun v => ⟨(hfits.rings v).cap_eq, (hfits.rings v).n_le⟩,
    ⟨hnone, (overflowed_connHandle S env peer body (s := s.begin_) hfits hnew).trans hnone⟩, ?_⟩
  rcases connHandle_charged S env peer body (s := s.begin_) hfits.toOk hnew with
    hsame | ⟨req, l, hl⟩
  · rw [hsame]
    refine ⟨[], fun _ => (List.append_nil _).symm, fun v => ?_⟩
    rw [charges_nil]
    exact .refl _
  · exact ⟨l, hl.journal, hl.driven (s := s.begin_) hfits⟩

end Runs

/-- A full ring of two entries makes room, and the rings of a broker with an open intent fit. -/
theorem ring_bounded_queue_two :
    (ringAfter 2 [.push 5 1, .push 6 1, .push 7 1, .evict 7]).entries = [(7, 1)] ∧
      ∀ v, ((run Sample.site (St.initial Sample.fs) Sample.openRun).uids.node v).n ≤
        ringCap (run Sample.site (St.initial Sample.fs) Sample.openRun).cfg := by
  obtain ⟨hqueue, hruns⟩ := ring_bounded_queue Sample.site
  have htwo := (hqueue 2 (by decide)).mpr (by decide) [.push 5 1, .push 6 1, .push 7 1, .evict 7]
  have halive : (run Sample.site (St.initial Sample.fs) Sample.openRun).alive = true := by
    decide +kernel
  refine ⟨htwo.entries_eq.trans (by decide), fun v => ?_⟩
  exact ((hruns Sample.fs Sample.openRun (Sample.env 0 0) (Sample.actor 0) [] _ rfl halive).1 v).2

end AuditBroker
