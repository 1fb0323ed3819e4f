import AuditBroker.Accounting
import AuditBroker.Replies

/-!
# Brokers that look alike to a uid

Two states are alike for a uid when its open intents and its count of them are the same and its rings
are the same once the entries that have left the window are dropped.  A request of that uid, and a
redemption of one of its receipts, is then answered alike and leaves the states alike, unless the
global byte limit refuses it in one of them.
-/

namespace AuditBroker

open Foundation

variable {S : Site} {E : Env} {C : Ctx} {B : UInt32} {th now : UInt64} {t t' t'' : Tables}
  {s s' s'' : St}

/-! ## The relation -/

/-- The configuration without the global byte limit. -/
def Config.unlimited (cfg : Config) : Config := { cfg with rateMaxBytesGlobal := 0 }

/-- The intent, if it is one of the uid. -/
def ofUid (B : UInt32) (o : Option OpenIntent) : Option OpenIntent :=
  o.filter fun oi => oi.actor.uid == B

/-- Tables that are alike for a uid at a window threshold. -/
structure Tables.Alike (B : UInt32) (th : UInt64) (t t' : Tables) : Prop where
  cfg : t.cfg.unlimited = t'.cfg.unlimited
  ok : t.Ok
  ok' : t'.Ok
  opens : ∀ cid, ofUid B (t.opens.view cid) = ofUid B (t'.opens.view cid)
  nOpen : (t.uids.node B).nOpen = (t'.uids.node B).nOpen
  ring : (t.uids.node B).ring.uidEvict th = (t'.uids.node B).ring.uidEvict th

/-- Brokers that are alike for a uid. -/
structure Twins (B : UInt32) (th : UInt64) (s s' : St) : Prop extends
    s.toTables.Alike B th s'.toTables where
  host : s.host = s'.host
  healthy : s.poisoned = false
  healthy' : s'.poisoned = false

namespace Tables.Alike

theorem refl (h : t.Ok) (B : UInt32) (th : UInt64) : t.Alike B th t :=
  ⟨rfl, h, h, fun _ => rfl, rfl, rfl⟩

theorem symm (h : t.Alike B th t') : t'.Alike B th t :=
  ⟨h.cfg.symm, h.ok', h.ok, fun cid => (h.opens cid).symm, h.nOpen.symm, h.ring.symm⟩

theorem trans (h : t.Alike B th t') (h' : t'.Alike B th t'') : t.Alike B th t'' :=
  ⟨h.cfg.trans h'.cfg, h.ok, h'.ok', fun cid => (h.opens cid).trans (h'.opens cid),
    h.nOpen.trans h'.nOpen, h.ring.trans h'.ring⟩

/-- As the window moves on, tables stay alike. -/
theorem mono (h : t.Alike B th t') {th' : UInt64} (hle : th ≤ th') : t.Alike B th' t' where
  cfg := h.cfg
  ok := h.ok
  ok' := h.ok'
  opens := h.opens
  nOpen := h.nOpen
  ring := by
    have hlater : ∀ u : UidState, u.uidEvict th' = (u.uidEvict th).uidEvict th' := fun u => by
      rw [UidState.uidEvict_uidEvict, if_pos hle]
    rw [hlater, h.ring, ← hlater]

theorem rateMaxInWindow_eq (h : t.Alike B th t') :
    t.cfg.rateMaxInWindow = t'.cfg.rateMaxInWindow := congrArg (·.rateMaxInWindow) h.cfg

theorem winTh_eq (h : t.Alike B th t') (now : UInt64) : winTh t.cfg now = winTh t'.cfg now := by
  have hsec : t.cfg.rateWindowSec = t'.cfg.rateWindowSec := congrArg (·.rateWindowSec) h.cfg
  rw [winTh, winTh, hsec]

/-- Evicting rings at the threshold changes nothing. -/
theorem evicts (h : t.Alike B th t') {u : UidTable}
    (hev : UidTable.Evicts t.cfg th t.uids u) : ({ t with uids := u } : Tables).Alike B th t' where
  cfg := h.cfg
  ok := ⟨h.ok.opens, hev.ok⟩
  ok' := h.ok'
  opens := h.opens
  nOpen := (hev.nOpen_eq B).trans h.nOpen
  ring := by
    rw [← h.ring]
    rcases hev.node B with hn | hn
    · rw [hn]
    · rw [hn, UidState.ring_uidEvict, UidState.uidEvict_uidEvict, if_pos (UInt64.le_refl th)]

/-- An open intent of the uid is open in the other tables too. -/
theorem view_eq (h : t.Alike B th t') {cid : Buf cidMax} {oi : OpenIntent}
    (hoi : t.opens.view cid = some oi) (hB : oi.actor.uid = B) : t'.opens.view cid = some oi := by
  have heq := h.opens cid
  rw [hoi, ofUid, Option.filter_some, if_pos (by simpa using hB)] at heq
  exact (Option.filter_eq_some_iff.mp heq.symm).1

end Tables.Alike

theorem Twins.symm (h : Twins B th s s') : Twins B th s' s :=
  ⟨h.toAlike.symm, h.host.symm, h.healthy', h.healthy⟩

theorem Twins.trans (h : Twins B th s s') (h' : Twins B th s' s'') : Twins B th s s'' :=
  ⟨h.toAlike.trans h'.toAlike, h.host.trans h'.host, h.healthy, h'.healthy'⟩

theorem Twins.mono (h : Twins B th s s') {th' : UInt64} (hle : th ≤ th') : Twins B th' s s' :=
  ⟨h.toAlike.mono hle, h.host, h.healthy, h.healthy'⟩

theorem Twins.evicts (h : Twins B th s s') {u : UidTable}
    (hev : UidTable.Evicts s.cfg th s.uids u) : Twins B th { s with uids := u } s' :=
  ⟨h.toAlike.evicts hev, h.host, h.healthy, h.healthy'⟩

/-! ## Within a request -/

/-- Alike brokers that have read the clock, which shows one instant throughout the request. -/
structure Clocked (B : UInt32) (th now : UInt64) (s s' : St) : Prop extends Twins B th s s' where
  threshold : th = winTh s.cfg now
  last : s.lastClock = now
  last' : s'.lastClock = now

/-- The ring of the uid has no entry that has left the window. -/
def Tables.Trimmed (B : UInt32) (th : UInt64) (t : Tables) : Prop :=
  t.cfg.rateMaxInWindow ≠ 0 → (t.uids.node B).ring.uidEvict th = (t.uids.node B).ring

/-- Clocked brokers that have passed a rate check. -/
structure Checked (B : UInt32) (th now : UInt64) (s s' : St) : Prop extends
    Clocked B th now s s' where
  trimmed : s.toTables.Trimmed B th
  trimmed' : s'.toTables.Trimmed B th

theorem Twins.readClock (h : Twins B th s s') (hnow : ∀ k, E.clock k = now)
    (hth : th = winTh s.cfg now) :
    ∃ s₁ s₁', s.readClock E = (now, s₁) ∧ s'.readClock E = (now, s₁') ∧
      s₁.toTables = s.toTables ∧ s₁'.toTables = s'.toTables ∧ Clocked B th now s₁ s₁' := by
  refine ⟨(s.readClock E).2, (s'.readClock E).2, ?_, ?_, rfl, rfl,
    ⟨⟨h.toAlike, h.host, h.healthy, h.healthy'⟩, hth, hnow _, hnow _⟩⟩
  · rw [← hnow s.ticks]
    rfl
  · rw [← hnow s'.ticks]
    rfl

/-- The ring after the eviction at the threshold, as the checks see it. -/
theorem Tables.Alike.evicted_eq (h : t.Alike B th t') :
    ((t.uids.node B).uidEvict th).n = ((t'.uids.node B).uidEvict th).n ∧
      ((t.uids.node B).uidEvict th).bsum = ((t'.uids.node B).uidEvict th).bsum := by
  have hring : ((t.uids.node B).uidEvict th).ring = ((t'.uids.node B).uidEvict th).ring := by
    rw [UidState.ring_uidEvict, h.ring, ← UidState.ring_uidEvict]
  have hn : ∀ u : UidState, u.n = u.ring.n ∧ u.bsum = u.ring.bsum := fun u => ⟨rfl, rfl⟩
  rw [(hn _).1, (hn _).2, hring]
  exact ⟨rfl, rfl⟩

theorem UidState.ring_uidEvict_self (u : UidState) (th : UInt64) :
    (u.uidEvict th).ring.uidEvict th = (u.uidEvict th).ring := by
  rw [UidState.ring_uidEvict, UidState.uidEvict_uidEvict, if_pos (UInt64.le_refl th)]

/-- `rate_allowed` answers alike, and afterwards the rings are trimmed. -/
theorem Clocked.rateAllowed (h : Clocked B th now s s') :
    ∃ b s₁ s₁', s.rateAllowed B now = (b, s₁) ∧ s'.rateAllowed B now = (b, s₁') ∧
      (∃ u, s₁ = { s with uids := u }) ∧ (∃ u, s₁' = { s' with uids := u }) ∧
      Checked B th now s₁ s₁' := by
  have hth' : th = winTh s'.cfg now := h.threshold.trans (h.winTh_eq now)
  obtain ⟨hev, hspec⟩ := h.ok.uids.rateAllowed_spec B now
  obtain ⟨hev', hspec'⟩ := h.ok'.uids.rateAllowed_spec B now
  rw [← h.threshold] at hev hspec
  rw [← hth'] at hev' hspec'
  have hanswer : (s.uids.rateAllowed s.cfg B now).1 = (s'.uids.rateAllowed s'.cfg B now).1 := by
    by_cases hon : s.cfg.rateMaxInWindow = 0
    · have hon' : s'.cfg.rateMaxInWindow = 0 := h.rateMaxInWindow_eq ▸ hon
      simp only [UidTable.rateAllowed, if_pos hon, if_pos hon']
    · have hon' : s'.cfg.rateMaxInWindow ≠ 0 := h.rateMaxInWindow_eq ▸ hon
      rw [Bool.eq_iff_iff, (hspec hon).2, (hspec' hon').2, h.toAlike.evicted_eq.1,
        h.rateMaxInWindow_eq]
  refine ⟨_, { s with uids := (s.uids.rateAllowed s.cfg B now).2 },
    { s' with uids := (s'.uids.rateAllowed s'.cfg B now).2 }, rfl, ?_, ⟨_, rfl⟩, ⟨_, rfl⟩,
    ⟨⟨((h.toTwins.evicts hev).symm.evicts hev').symm, h.threshold, h.last, h.last'⟩, ?_, ?_⟩⟩
  · rw [hanswer]
    rfl
  · intro hon
    simp only [(hspec hon).1]
    exact UidState.ring_uidEvict_self _ _
  · intro hon
    simp only [(hspec' hon).1]
    exact UidState.ring_uidEvict_self _ _

/-! ## Commits without faults -/

/-- Without faults the rename of a rotation is made durable. -/
theorem poisoned_rotate_of_faultless (S : Site) (hE : E.Faultless) (hok : s.uids.Ok s.cfg) :
    (rotate S E s).2.poisoned = s.poisoned := by
  rcases rotate_cases (fun _ => False) (fun _ => True) (S := S) (E := E) hok id id
    (fun _ _ => trivial) (Or.inr fun _ _ => trivial) with
    ⟨-, hcarries, -⟩ | ⟨pfd, w₀, s₁, w, hprep, -, -, -, heq⟩
  · exact hcarries.toQuiet.poisoned_eq
  · have hsync : (World.rabFsyncParentDir E w).1 = true := by
      rw [World.rabFsyncParentDir, hE.outcome]
    have hpois : s₁.poisoned = s.poisoned := hprep.toCarries.toQuiet.poisoned_eq
    rw [heq]
    simp [adoptSegment, hsync, hpois]

theorem poisoned_maybeRotate_of_faultless (S : Site) (hE : E.Faultless) (hok : s.uids.Ok s.cfg) :
    (maybeRotate S E s).poisoned = s.poisoned := by
  unfold maybeRotate
  split
  · rfl
  · exact poisoned_rotate_of_faultless S hE hok

/-- Without faults a commit is decided by the quotas, and what is within them is durable. -/
theorem commit_of_faultless (hE : C.env.Faultless) (hok : s.uids.Ok s.cfg)
    (hp : s.poisoned = false) {line : Bytes} (hline : 10 ∉ line) {act : Act}
    {install : Tables → Tables}
    (hinstall : ∀ t : Tables, t.uids.Ok t.cfg → (install t).uids.Ok (install t).cfg)
    {e : Entry} (he : e = C.entry s line act) (hnow : s.lastClock = now)
    {b : Bool × UidTable} (hb : b = s.uids.uidBytesAllowed s.cfg e.chargedUid now e.size) :
    ((b.1 && globalBytesAllowed s.cfg s.gwin now e.size) = false →
      commit S C line act now install s = (.overQuota, { s with uids := b.2 })) ∧
    ((b.1 && globalBytesAllowed s.cfg s.gwin now e.size) = true → ∃ w,
      commit S C line act now install s =
        (.durable, ({ s with uids := b.2 } : St).committed S C w line act install) ∧
      (({ s with uids := b.2 } : St).committed S C w line act install).poisoned = false) := by
  subst hnow
  have hcommit := commit_eq S C line act install s he hb
  constructor
  · intro hover
    rw [hcommit, hover]
  · intro hfits
    obtain ⟨w, hw⟩ := rabSinkAppend_of_faultless hE s.fd hline s.toWorld
    have happ : ({ s with uids := b.2 } : St).appendLine C.env e =
        (true, { s with uids := b.2, toWorld := w, segBytes := s.segBytes + e.size,
                        journal := s.journal ++ [e] }) := by
      have hw' : World.rabSinkAppend C.env s.fd e.line s.toWorld = (.durable, w) := by
        rw [he]
        exact hw
      simp only [St.appendLine, hw']
    have huids : b.2.Ok s.cfg := by
      rw [hb]
      exact (hok.uidBytesAllowed_spec _ _ _).1.ok
    have hcharged : (({ s with uids := b.2 } : St).charged C w line act install).uids.Ok
        (({ s with uids := b.2 } : St).charged C w line act install).cfg :=
      ((hinstall { s.toTables with uids := b.2 } huids).rateNote_spec _ _ _).1
    have hpois : (({ s with uids := b.2 } : St).committed S C w line act install).poisoned =
        false := (poisoned_maybeRotate_of_faultless S hE hcharged).trans hp
    refine ⟨w, ?_, hpois⟩
    have hstate : maybeRotate S C.env
        (({ s with
            uids := b.2, toWorld := w, segBytes := s.segBytes + e.size,
            journal := s.journal ++ [e] } : St).charge install e) =
          ({ s with uids := b.2 } : St).committed S C w line act install := by
      rw [he]
      rfl
    rw [hcommit, hfits]
    simp only [happ, hstate, hpois]
    rfl

/-! ## What a line installs -/

/-- The count of open intents of the uid that a line is about. -/
def Act.count (act : Act) (n : UInt32) : UInt32 :=
  match act with
  | .intent _ _ => n + 1
  | .outcome _ => if 0 < n then n - 1 else n
  | _ => n

/-- The tables with the change that a line of the uid stands for. -/
structure Installs (B : UInt32) (o : OpenSet) (act : Act) (install : Tables → Tables) : Prop where
  cfg : ∀ t, (install t).cfg = t.cfg
  uids : ∀ t : Tables, t.uids.Ok t.cfg → (install t).uids.Ok (install t).cfg
  spec : ∀ t : Tables, t.Ok → t.opens = o → (install t).Ok ∧
    (install t).opens.view = act.apply o.view ∧
    ((install t).uids.node B).ring = (t.uids.node B).ring ∧
    ((install t).uids.node B).nOpen = act.count (t.uids.node B).nOpen

section Install

variable {o : OpenSet} {a : ℕ} {cid : Buf cidMax} {r r₀ : Receipt}

theorem installs_openAdd (hnew : o.view cid = none) (binding : Buf bindingMax) (actor : Actor)
    (operation resource : Buf metaMax) (scope : Buf scopeMax) :
    Installs actor.uid o
      (.intent cid { binding, actor, operation, resource, scope, receipt := none })
      (·.openAdd cid binding actor operation resource scope) where
  cfg _ := rfl
  uids t ht := by
    obtain ⟨hok, -, hm⟩ := ht.uidGet actor.uid
    exact hok.setNode hm _
  spec t ht ho := by
    subst ho
    obtain ⟨hok, hring⟩ := ht.openAdd hnew binding actor operation resource scope
    refine ⟨hok, ht.opens.view_openAdd hnew, hring _, ?_⟩
    obtain ⟨-, hnode, -⟩ := ht.uids.uidGet actor.uid
    simp only [Tables.openAdd, UidTable.setNode, Function.update_self, hnode, Act.count]

theorem installs_openRemove (ha : o.Open a) (hB : (o.heap a).actor.uid = B) :
    Installs B o (.outcome (o.heap a).cid) (·.openRemove a) where
  cfg _ := rfl
  uids t ht := by
    simp only [Tables.openRemove]
    split
    · rename_i hif
      exact ht.setNode (UidTable.uidFind_iff.mp hif.1) _
    · exact ht
  spec t ht ho := by
    subst ho
    obtain ⟨hok, hring⟩ := ht.openRemove a
    refine ⟨hok, ht.opens.view_openRemove ha, hring B, ?_⟩
    subst hB
    -- A uid without a node has no open intent to count down.
    by_cases hpos : 0 < (t.uids.node (t.opens.heap a).actor.uid).nOpen
    · have hfind : t.uids.uidFind (t.opens.heap a).actor.uid = true := by
        rw [UidTable.uidFind_iff]
        by_contra habs
        rw [ht.uids.absent _ habs] at hpos
        simp [UidState.zero] at hpos
      simp [Tables.openRemove, UidTable.setNode, hfind, hpos, Act.count]
    · simp [Tables.openRemove, hpos, Act.count]

theorem installs_id (B : UInt32) (o : OpenSet) (cid : Buf cidMax) :
    Installs B o (.emit cid) id where
  cfg _ := rfl
  uids _ ht := ht
  spec t ht ho := ⟨ht, by rw [id, ho, Act.apply_emit], rfl, rfl⟩

theorem installs_installReceipt (ha : o.Open a) (hr : (o.heap a).receipt = none) (B : UInt32) :
    Installs B o (.receipt (o.heap a).cid r) (·.installReceipt a r) where
  cfg _ := rfl
  uids _ ht := ht
  spec t ht ho := by
    subst ho
    refine ⟨⟨ht.opens.installReceipt ha hr, ht.uids⟩, ?_, rfl, rfl⟩
    refine (ht.opens.view_installReceipt ha hr).trans ?_
    rw [Act.apply, ht.opens.view_of_open ha, Option.map_some]

theorem installs_setReceipt (ha : o.Open a) (hr : (o.heap a).receipt = some r₀)
    (hv : r.verifier = r₀.verifier) (B : UInt32) :
    Installs B o (.receipt (o.heap a).cid r) (·.setReceipt a r) where
  cfg _ := rfl
  uids _ ht := ht
  spec t ht ho := by
    subst ho
    refine ⟨⟨ht.opens.setReceipt hr hv, ht.uids⟩, ?_, rfl, rfl⟩
    refine (ht.opens.view_setReceipt ha hr hv).trans ?_
    rw [Act.apply, ht.opens.view_of_open ha, Option.map_some]

end Install

/-- A line changes what is seen of one uid alike. -/
theorem Act.ofUid_apply (act : Act) {L L' : Ledger} (h : ∀ cid, ofUid B (L cid) = ofUid B (L' cid))
    (cid : Buf cidMax) : ofUid B (act.apply L cid) = ofUid B (act.apply L' cid) := by
  by_cases hcid : cid = act.cid
  · cases act with
    | intent c oi =>
      obtain rfl : cid = c := hcid
      rw [Act.apply_intent, Act.apply_intent]
    | outcome c =>
      obtain rfl : cid = c := hcid
      rw [Act.apply_outcome, Act.apply_outcome]
    | emit c => exact h cid
    | receipt c r =>
      obtain rfl : cid = c := hcid
      have hmap : ∀ o : Option OpenIntent,
          ofUid B (o.map fun oi => { oi with receipt := some r }) =
            (ofUid B o).map fun oi => { oi with receipt := some r } := by
        intro o
        cases o with
        | none => simp [ofUid]
        | some oi => by_cases hB : oi.actor.uid = B <;> simp [ofUid, Option.filter_some, hB]
      rw [Act.apply_receipt, Act.apply_receipt, hmap, hmap, h cid]
  · rw [Act.apply_of_ne hcid, Act.apply_of_ne hcid, h cid]

/-! ## A line of the uid -/

/-- A broker without faults after it committed a line of the uid. -/
theorem committed_spec {line : Bytes} {act : Act} {install : Tables → Tables}
    (hin : Installs B s.opens act install) (hok : s.toTables.Ok)
    (hcharged : (C.entry s line act).chargedUid = B) (hnow : ∀ k, C.env.clock k = now)
    (hlast : s.lastClock = now) (w : World) {s₁ : St}
    (hs₁ : s₁ = s.committed S C w line act install) :
    s₁.cfg = s.cfg ∧ s₁.host = s.host ∧ s₁.lastClock = now ∧ s₁.toTables.Ok ∧
      s₁.opens.view = act.apply s.opens.view ∧
      (s₁.uids.node B).nOpen = act.count (s.uids.node B).nOpen ∧
      (s₁.uids.node B).ring.uidEvict (winTh s.cfg now) =
        (if s.cfg.rateMaxInWindow = 0 then (s.uids.node B).ring
          else (s.uids.node B).ring.uidPush now (C.entry s line act).size).uidEvict
            (winTh s.cfg now) := by
  obtain ⟨hiok, hview, hring, hcount⟩ := hin.spec s.toTables hok rfl
  have hcfg := hin.cfg s.toTables
  -- The line is charged.
  obtain ⟨s₀, hs₀⟩ : ∃ s₀, s₀ = s.charged C w line act install := ⟨_, rfl⟩
  have huids₀ : s₀.uids =
      (install s.toTables).uids.rateNote (install s.toTables).cfg B now (C.entry s line act).size := by
    rw [hs₀, ← hcharged, ← hlast]
    rfl
  have hcfg₀ : s₀.cfg = s.cfg := by
    rw [hs₀]
    exact hcfg
  have hopens₀ : s₀.opens = (install s.toTables).opens := by
    rw [hs₀]
    rfl
  obtain ⟨hok₀, hnode₀⟩ := hiok.uids.rateNote_spec B now (C.entry s line act).size
  rw [← huids₀] at hok₀ hnode₀
  have hcount₀ : (s₀.uids.node B).nOpen = act.count (s.uids.node B).nOpen := by
    rw [hnode₀, ← hcount]
    split
    · rfl
    · rw [Function.update_self, UidState.uidPush_nOpen]
  have hring₀ : (s₀.uids.node B).ring = if s.cfg.rateMaxInWindow = 0 then (s.uids.node B).ring
      else (s.uids.node B).ring.uidPush now (C.entry s line act).size := by
    rw [hnode₀, hcfg, ← hring]
    split
    · rfl
    · rw [Function.update_self, UidState.ring_uidPush]
  -- The rotation that may follow evicts at the same instant.
  have hrot : Rotates C.env s₀ s₁ := by
    rw [hs₁, hs₀]
    refine maybeRotate_rotates S C.env ?_
    rw [← hs₀, hcfg₀, ← hcfg]
    exact hok₀
  have hlast₀ : s₀.lastClock = now := by
    rw [hs₀, ← hlast]
    rfl
  have hlast₁ : s₁.lastClock = now := by
    rcases hrot.clock with ⟨-, hc⟩ | ⟨-, hc⟩
    · rw [hc, hlast₀]
    · rw [hc, hnow]
  obtain ⟨now', hev, hnow'⟩ := hrot.evicts
  obtain rfl : now' = now := by
    rcases hnow' with h | ⟨k, -, -, h⟩
    · rw [h, hlast₀]
    · rw [h, hnow]
  have hhost : s₁.host = s.host := by
    rw [hrot.rest, hs₀]
    rfl
  have hopens₁ : s₁.opens = (install s.toTables).opens := hrot.opens_eq.trans hopens₀
  have hcfg₁ : s₁.cfg = s.cfg := hrot.cfg_eq.trans hcfg₀
  refine ⟨hcfg₁, hhost, hlast₁, ⟨?_, ?_⟩, ?_, (hev.nOpen_eq B).trans hcount₀, ?_⟩
  · rw [hopens₁]
    exact hiok.opens
  · rw [hrot.cfg_eq]
    exact hev.ok
  · rw [hopens₁, hview]
  · rw [← hring₀, ← hcfg₀]
    rcases hev.node B with hn | hn
    · rw [hn]
    · rw [hn, UidState.ring_uidEvict, UidState.uidEvict_uidEvict, if_pos (UInt64.le_refl _)]

/-- How the commit of a line of the uid ends in two brokers of which the second has no global byte
limit. -/
inductive CommitPair (B : UInt32) (th now : UInt64) (s s' : St) (act : Act) :
    Commit × St → Commit × St → Prop
  | durable {s₁ s₁' : St} (clocked : Clocked B th now s₁ s₁')
      (cfg : s₁.cfg = s.cfg ∧ s₁'.cfg = s'.cfg)
      (view : s₁.opens.view = act.apply s.opens.view ∧ s₁'.opens.view = act.apply s'.opens.view) :
      CommitPair B th now s s' act (.durable, s₁) (.durable, s₁')
  | overQuota {s₁ s₁' : St} (twins : Twins B th s₁ s₁') :
      CommitPair B th now s s' act (.overQuota, s₁) (.overQuota, s₁')
  /-- The global byte limit refused the line in the first broker. -/
  | limited {s₁ s₁' : St} (on : s.cfg.rateMaxBytesGlobal ≠ 0) :
      CommitPair B th now s s' act (.overQuota, s₁) (.durable, s₁')

/-- Trimmed rings stay trimmed when they are evicted again. -/
theorem Tables.Trimmed.evicts (h : t.Trimmed B th) {u : UidTable}
    (hev : UidTable.Evicts t.cfg th t.uids u) : ({ t with uids := u } : Tables).Trimmed B th := by
  intro hon
  rcases hev.node B with hn | hn
  · simp only [hn]
    exact h hon
  · simp only [hn]
    exact UidState.ring_uidEvict_self _ _

theorem Tables.Alike.ring_eq (h : t.Alike B th t') (htrim : t.Trimmed B th)
    (htrim' : t'.Trimmed B th) (hon : t.cfg.rateMaxInWindow ≠ 0) :
    (t.uids.node B).ring = (t'.uids.node B).ring := by
  rw [← htrim hon, h.ring, htrim' (h.rateMaxInWindow_eq ▸ hon)]

theorem Checked.commit (h : Checked B th now s s') (hE : C.env.Faultless)
    (hnow : ∀ k, C.env.clock k = now) {line : Bytes} (hline : 10 ∉ line) (act : Act)
    (hcharged : ∀ s : St, (C.entry s line act).chargedUid = B) {install install' : Tables → Tables}
    (hin : Installs B s.opens act install) (hin' : Installs B s'.opens act install')
    (hoff : s'.cfg.rateMaxBytesGlobal = 0) :
    CommitPair B th now s s' act (commit S C line act now install s)
      (commit S C line act now install' s') := by
  have hth' : th = winTh s'.cfg now := h.threshold.trans (h.winTh_eq now)
  obtain ⟨n, hn⟩ : ∃ n, n = (C.entry s line act).size := ⟨_, rfl⟩
  have hn' : n = (C.entry s' line act).size := hn
  -- The per-uid part of the check.
  obtain ⟨b, hb⟩ : ∃ b, b = s.uids.uidBytesAllowed s.cfg B now n := ⟨_, rfl⟩
  obtain ⟨b', hb'⟩ : ∃ b', b' = s'.uids.uidBytesAllowed s'.cfg B now n := ⟨_, rfl⟩
  obtain ⟨hev, hspec⟩ := h.ok.uids.uidBytesAllowed_spec B now n
  obtain ⟨hev', hspec'⟩ := h.ok'.uids.uidBytesAllowed_spec B now n
  rw [← h.threshold, ← hb] at hev hspec
  rw [← hth', ← hb'] at hev' hspec'
  have hquota : s.cfg.rateMaxBytesPerUid = s'.cfg.rateMaxBytesPerUid :=
    congrArg (·.rateMaxBytesPerUid) h.cfg
  have hanswer : b.1 = b'.1 := by
    by_cases hon : s.cfg.rateMaxBytesPerUid = 0
    · rw [hb, hb', UidTable.uidBytesAllowed, UidTable.uidBytesAllowed, if_pos hon,
        if_pos (hquota ▸ hon)]
    · rw [Bool.eq_iff_iff, (hspec hon).2, (hspec' (hquota ▸ hon)).2, h.toAlike.evicted_eq.2, hquota]
  have htwins : Twins B th { s with uids := b.2 } { s' with uids := b'.2 } :=
    ((h.toTwins.evicts hev).symm.evicts hev').symm
  -- The second broker has no global part.
  have hglobal' : globalBytesAllowed s'.cfg s'.gwin now n = true := by
    rw [globalBytesAllowed, if_pos hoff]
  obtain ⟨hover, hfits⟩ := commit_of_faultless (S := S) hE h.ok.uids h.healthy hline hin.uids rfl
    h.last (b := b) (by rw [hcharged, ← hn]; exact hb)
  obtain ⟨hover', hfits'⟩ := commit_of_faultless (S := S) hE h.ok'.uids h.healthy' hline hin'.uids
    rfl h.last' (b := b') (by rw [hcharged, ← hn']; exact hb')
  rw [← hn] at hover hfits
  rw [← hn', hglobal', Bool.and_true] at hover' hfits'
  cases hdec : b.1 with
  | false =>
    rw [hdec, Bool.false_and] at hover
    rw [hover rfl, hover' (hanswer ▸ hdec)]
    exact .overQuota htwins
  | true =>
    obtain ⟨w', hcommit', hpois'⟩ := hfits' (hanswer ▸ hdec)
    rw [hdec, Bool.true_and] at hover hfits
    cases hglobal : globalBytesAllowed s.cfg s.gwin now n with
    | false =>
      rw [hover hglobal, hcommit']
      refine .limited fun hzero => ?_
      rw [globalBytesAllowed, if_pos hzero] at hglobal
      cases hglobal
    | true =>
      obtain ⟨w, hcommit, hpois⟩ := hfits hglobal
      obtain ⟨hcfg, hhost, hlast, hok, hview, hcount, hring⟩ := committed_spec (S := S)
        (s := { s with uids := b.2 }) hin htwins.ok (hcharged _) hnow h.last w rfl
      obtain ⟨hcfg', hhost', hlast', hok', hview', hcount', hring'⟩ := committed_spec (S := S)
        (s := { s' with uids := b'.2 }) hin' htwins.ok' (hcharged _) hnow h.last' w' rfl
      rw [hcommit, hcommit']
      refine .durable ⟨⟨⟨?_, hok, hok', ?_, ?_, ?_⟩, ?_, hpois, hpois'⟩, ?_, hlast, hlast'⟩
        ⟨hcfg, hcfg'⟩ ⟨hview, hview'⟩
      · rw [hcfg, hcfg']
        exact h.cfg
      · intro cid
        rw [hview, hview']
        exact act.ofUid_apply h.opens cid
      · rw [hcount, hcount', htwins.nOpen]
      · calc _ = (if s.cfg.rateMaxInWindow = 0 then (b.2.node B).ring
              else (b.2.node B).ring.uidPush now n).uidEvict th := by
              rw [h.threshold, hn]
              exact hring
          _ = (if s'.cfg.rateMaxInWindow = 0 then (b'.2.node B).ring
              else (b'.2.node B).ring.uidPush now n).uidEvict th := by
              rw [← h.rateMaxInWindow_eq]
              split
              · exact htwins.ring
              · rename_i hon
                rw [htwins.toAlike.ring_eq (h.trimmed.evicts hev) (h.trimmed'.evicts hev') hon]
          _ = _ := by
              rw [hth', hn']
              exact hring'.symm
      · rw [hhost, hhost']
        exact h.host
      · rw [hcfg]
        exact h.threshold

/-! ## Lookups -/

/-- At most one open intent has the key, and it is one of the uid. -/
structure Tables.Owned (B : UInt32) (p : OpenIntent → Prop) (t : Tables) : Prop where
  owner : ∀ cid oi, t.opens.view cid = some oi → p oi → oi.actor.uid = B
  unique : ∀ cid cid' oi oi', t.opens.view cid = some oi → p oi → t.opens.view cid' = some oi' →
    p oi' → cid = cid'

/-- The two lookups of a key that an intent of the uid has, or nobody. -/
inductive LookupPair (B : UInt32) (p : OpenIntent → Prop) (o o' : OpenSet) :
    Option ℕ → Option ℕ → Prop
  | none : LookupPair B p o o' none none
  | some {a a' : ℕ} (isOpen : o.Open a ∧ o'.Open a') (cid : (o.heap a).cid = (o'.heap a').cid)
      (intent : (o.heap a).toOpenIntent = (o'.heap a').toOpenIntent)
      (uid : (o.heap a).actor.uid = B) (key : p (o.heap a).toOpenIntent) :
      LookupPair B p o o' (some a) (some a')

/-- A lookup by a key finds what has it, if anything has. -/
structure Finds (o : OpenSet) (p : OpenIntent → Prop) (res : Option ℕ) : Prop where
  found : ∀ a, res = some a → o.Open a ∧ p (o.heap a).toOpenIntent
  missed : res = none → ∀ cid oi, o.view cid = some oi → ¬p oi

theorem Tables.Alike.lookup (h : t.Alike B th t') {p : OpenIntent → Prop} {res res' : Option ℕ}
    (hf : Finds t.opens p res) (hf' : Finds t'.opens p res') (ho : t.Owned B p)
    (ho' : t'.Owned B p) : LookupPair B p t.opens t'.opens res res' := by
  cases res with
  | none =>
    cases res' with
    | none => exact .none
    | some a' =>
      obtain ⟨hopen', hp'⟩ := hf'.found a' rfl
      have hview' := h.ok'.opens.view_of_open hopen'
      have hview := h.symm.view_eq hview' (ho'.owner _ _ hview' hp')
      exact absurd hp' (hf.missed rfl _ _ hview)
  | some a =>
    obtain ⟨hopen, hp⟩ := hf.found a rfl
    have hview := h.ok.opens.view_of_open hopen
    have huid := ho.owner _ _ hview hp
    have hview' := h.view_eq hview huid
    cases res' with
    | none => exact absurd hp (hf'.missed rfl _ _ hview')
    | some a' =>
      obtain ⟨hopen', hp'⟩ := hf'.found a' rfl
      have hview₁ := h.ok'.opens.view_of_open hopen'
      have hcid := ho'.unique _ _ _ _ hview' hp hview₁ hp'
      rw [← hcid, hview'] at hview₁
      exact .some ⟨hopen, hopen'⟩ hcid (Option.some.inj hview₁) huid hp

theorem finds_binding {o : OpenSet} (h : o.Wf) {binding : Bytes} (hne : binding ≠ []) :
    Finds o (fun oi => oi.binding.bytes = binding) (o.openFindBinding binding) :=
  ⟨fun _ => h.of_openFindBinding, (h.openFindBinding_eq_none_iff hne).mp⟩

/-- The intent holds the receipt of a token. -/
def HasToken (S : Site) (token : Bytes) (oi : OpenIntent) : Prop :=
  ∃ r, oi.receipt = some r ∧ r.verifier.bytes = (verifierOf S token).bytes

theorem finds_verifier {o : OpenSet} (h : o.Wf) (S : Site) (token : Bytes) :
    Finds o (HasToken S token) (o.openFindVerifier (verifierOf S token).bytes) :=
  ⟨fun _ => h.of_openFindVerifier, fun hnone cid oi hoi ⟨r, hr, hv⟩ =>
    (h.openFindVerifier_eq_none_iff (verifierOf_ne_nil S token)).mp hnone cid oi r hoi hr hv⟩

/-- The intent of the uid that is open under a correlation id in both brokers. -/
theorem Tables.Alike.lookup_cid {cid : Buf cidMax} {oi : OpenIntent} (h : t.Alike B th t')
    (hview : t.opens.view cid = some oi) (hB : oi.actor.uid = B) :
    ∃ a a', t.opens.openFindCid cid.bytes = some a ∧ t'.opens.openFindCid cid.bytes = some a' ∧
      (t.opens.Open a ∧ t'.opens.Open a') ∧ (t.opens.heap a).cid = cid ∧
      (t'.opens.heap a').cid = cid ∧ (t.opens.heap a).toOpenIntent = oi ∧
      (t'.opens.heap a').toOpenIntent = oi := by
  obtain ⟨a, ha, hcid, hoi⟩ := h.ok.opens.view_eq_some_iff.mp hview
  obtain ⟨a', ha', hcid', hoi'⟩ := h.ok'.opens.view_eq_some_iff.mp (h.view_eq hview hB)
  exact ⟨a, a', h.ok.opens.openFindCid_eq_some_iff.mpr ⟨ha, hcid⟩,
    h.ok'.opens.openFindCid_eq_some_iff.mpr ⟨ha', hcid'⟩, ⟨ha, ha'⟩, hcid, hcid', hoi, hoi'⟩

/-- The mint loop takes the same token where the same tokens are free. -/
theorem mintLoop_congr {o o' : OpenSet} {binding : Buf bindingMax}
    (h : ∀ k token, rabMakeReceipt E k = some token →
      (o.openFindVerifier (verifierOf S token.bytes).bytes = none ↔
        o'.openFindVerifier (verifierOf S token.bytes).bytes = none)) (tries attempt : ℕ) :
    mintLoop S E o binding tries attempt = mintLoop S E o' binding tries attempt := by
  induction tries generalizing attempt with
  | zero => rfl
  | succ tries ih =>
    rw [mintLoop, mintLoop]
    cases htoken : rabMakeReceipt E attempt with
    | none => rfl
    | some token =>
      cases E.digestOk attempt with
      | false => rfl
      | true =>
        simp only [h attempt token htoken, ih]

/-- No open intent holds the verifier of a token. -/
def VerifierFree (S : Site) (L : Ledger) (token : Bytes) : Prop :=
  ∀ cid oi r, L cid = some oi → oi.receipt = some r → r.verifier.bytes ≠ (verifierOf S token).bytes

/-- An intent that was just opened holds no verifier. -/
theorem VerifierFree.of_intent {o : OpenSet} {L : Ledger} {cid : Buf cidMax} {oi : OpenIntent}
    {token : Bytes} (h : VerifierFree S L token) (hwf : o.Wf)
    (hview : o.view = (Act.intent cid oi).apply L) (hoi : oi.receipt = none) :
    o.openFindVerifier (verifierOf S token).bytes = none := by
  rw [hwf.openFindVerifier_eq_none_iff (verifierOf_ne_nil S token), hview]
  intro c oi' r hview' hr
  by_cases hc : c = cid
  · rw [hc, Act.apply_intent, Option.some_inj] at hview'
    rw [← hview', hoi] at hr
    cases hr
  · rw [Act.apply_of_ne hc] at hview'
    exact h c oi' r hview' hr

/-- The answer to an open when the table of open intents is full. -/
def capReached : Response := .error .rateLimited "global open-intent cap"

/-! ## Requests of the uid -/

/-- How a request of the uid ends in two alike brokers of which the second has no global byte
limit. -/
inductive ReplyPair (B : UInt32) (th : UInt64) (s : St) : Response × St → Response × St → Prop
  | same {r : Response} {s₁ s₁' : St} (twins : Twins B th s₁ s₁') :
      ReplyPair B th s (r, s₁) (r, s₁')
  /-- The global byte limit of the first broker made the difference. -/
  | limited {r r' : Response × St} (on : s.cfg.rateMaxBytesGlobal ≠ 0) (ne : r.1 ≠ r'.1) :
      ReplyPair B th s r r'

theorem Twins.enoughFreeSpace_eq (h : Twins B th s s') (free : Option UInt64) :
    enoughFreeSpace s.cfg free = enoughFreeSpace s'.cfg free := by
  have hmin : s.cfg.minFreeBytes = s'.cfg.minFreeBytes := congrArg (·.minFreeBytes) h.cfg
  rw [enoughFreeSpace, enoughFreeSpace, hmin]

/-- The beginning of a request that is charged to the uid: the clock is read and the rate checked. -/
theorem Twins.enter (h : Twins B th s s') (hnow : ∀ k, E.clock k = now)
    (hth : th = winTh s.cfg now) :
    ∃ b s₁ s₁' s₂ s₂', s.readClock E = (now, s₁) ∧ s'.readClock E = (now, s₁') ∧
      s₁.rateAllowed B now = (b, s₂) ∧ s₁'.rateAllowed B now = (b, s₂') ∧
      (s₁.cfg = s.cfg ∧ s₁.opens = s.opens) ∧ (s₁'.cfg = s'.cfg ∧ s₁'.opens = s'.opens) ∧
      (s₂.cfg = s.cfg ∧ s₂.opens = s.opens) ∧ (s₂'.cfg = s'.cfg ∧ s₂'.opens = s'.opens) ∧
      Checked B th now s₂ s₂' := by
  obtain ⟨s₁, s₁', hc, hc', ht, ht', hclocked⟩ := h.readClock hnow hth
  obtain ⟨b, s₂, s₂', hr, hr', ⟨u, hs₂⟩, ⟨u', hs₂'⟩, hchecked⟩ := hclocked.rateAllowed
  refine ⟨b, s₁, s₁', s₂, s₂', hc, hc', hr, hr', ⟨?_, ?_⟩, ⟨?_, ?_⟩, ⟨?_, ?_⟩, ⟨?_, ?_⟩, hchecked⟩
  · rw [ht]
  · rw [ht]
  · rw [ht']
  · rw [ht']
  · rw [hs₂, ht]
  · rw [hs₂, ht]
  · rw [hs₂', ht']
  · rw [hs₂', ht']

theorem newline_notMem_rabBuildAudit {J : JsonCodec} {phase cid host line : Bytes}
    {binding : Option Bytes} {actor : Actor} {time : UInt64} {record : Members}
    (h : rabBuildAudit J phase cid binding actor host time record = some line) : 10 ∉ line :=
  (isLine_rabBuildAudit h).newline_notMem

/-- A node for the uid in the rate table changes nothing. -/
theorem Checked.uidGet (h : Checked B th now s s') (uid : UInt32) :
    Checked B th now { s with uids := s.uids.uidGet s.cfg uid }
      { s' with uids := s'.uids.uidGet s'.cfg uid } := by
  have hev := evicts_uidGet h.ok.uids uid th
  have hev' := evicts_uidGet h.ok'.uids uid th
  exact ⟨⟨((h.toTwins.evicts hev).symm.evicts hev').symm, h.threshold, h.last, h.last'⟩,
    h.trimmed.evicts hev, h.trimmed'.evicts hev'⟩

theorem openEffect_ne_overQuota (S : Site) (C : Ctx) (cid : Buf cidMax) (binding : Buf bindingMax)
    (s : St) :
    (openEffect S C cid binding s).1 ≠ .error .rateLimited "write-byte quota exceeded" := by
  unfold openEffect
  split <;> simp

section Request

variable (hE : C.env.Faultless) (hnow : ∀ k, C.env.clock k = now)
include hE hnow

theorem handleEmit_pair (h : Twins B th s s') (hth : th = winTh s.cfg now)
    (hoff : s'.cfg.rateMaxBytesGlobal = 0) (hpeer : C.peer.uid = B) :
    ReplyPair B th s (handleEmit S C s) (handleEmit S C s') := by
  obtain ⟨b, s₁, s₁', s₂, s₂', hc, hc', hr, hr', -, -, hs₂, hs₂', hchecked⟩ := h.enter hnow hth
  simp only [handleEmit, hc, hc', hpeer, hr, hr']
  cases b with
  | false => exact .same hchecked.toTwins
  | true =>
    simp only [hchecked.toTwins.enoughFreeSpace_eq]
    by_cases hfree : enoughFreeSpace s₂'.cfg (C.env.free 0) = false
    · simp only [if_pos hfree]
      exact .same hchecked.toTwins
    simp only [if_neg hfree]
    cases rabMakeCorrelationId C.env with
    | none => exact .same hchecked.toTwins
    | some cid =>
      simp only [hchecked.host]
      cases hline : rabBuildAudit S.codec C.req.phase.bytes cid.bytes none C.peer s₂'.host.bytes now
        C.req.record with
      | none => exact .same hchecked.toTwins
      | some line =>
        simp only
        have hpair := hchecked.commit (S := S) hE hnow (newline_notMem_rabBuildAudit hline)
          (.emit cid) (fun _ => hpeer) (installs_id B _ cid) (installs_id B _ cid)
          (hs₂'.1 ▸ hoff)
        generalize commit S C line (.emit cid) now id s₂ = c at hpair ⊢
        generalize commit S C line (.emit cid) now id s₂' = c' at hpair ⊢
        cases hpair with
        | durable clocked => exact .same clocked.toTwins
        | overQuota twins => exact .same twins
        | limited on => exact .limited (hs₂.1 ▸ on) (by simp)

theorem handleOutcome_pair (h : Twins B th s s') (hth : th = winTh s.cfg now)
    (hoff : s'.cfg.rateMaxBytesGlobal = 0) (hpeer : C.peer.uid = B)
    (howned : s.toTables.Owned B fun oi => oi.binding.bytes = C.req.binding.bytes)
    (howned' : s'.toTables.Owned B fun oi => oi.binding.bytes = C.req.binding.bytes) :
    ReplyPair B th s (handleOutcome S C s) (handleOutcome S C s') := by
  obtain ⟨b, s₁, s₁', s₂, s₂', hc, hc', hr, hr', -, -, hs₂, hs₂', hchecked⟩ := h.enter hnow hth
  simp only [handleOutcome, hc, hc', hpeer, hr, hr']
  cases b with
  | false => exact .same hchecked.toTwins
  | true =>
    have hlookup : LookupPair B (fun oi => oi.binding.bytes = C.req.binding.bytes) s₂.opens s₂'.opens
        (s₂.opens.openFindBinding C.req.binding.bytes)
        (s₂'.opens.openFindBinding C.req.binding.bytes) := by
      rw [hs₂.2, hs₂'.2]
      by_cases hne : C.req.binding.bytes = []
      · rw [OpenSet.openFindBinding, OpenSet.openFindBinding, if_pos hne, if_pos hne]
        exact .none
      · exact h.toAlike.lookup (finds_binding h.ok.opens hne) (finds_binding h.ok'.opens hne) howned
          howned'
    simp only [hchecked.toTwins.enoughFreeSpace_eq]
    generalize s₂.opens.openFindBinding C.req.binding.bytes = f at hlookup ⊢
    generalize s₂'.opens.openFindBinding C.req.binding.bytes = f' at hlookup ⊢
    cases hlookup with
    | none => exact .same hchecked.toTwins
    | @some a a' isOpen cid intent uid key =>
      have hactor : (s₂.opens.heap a).actor = (s₂'.opens.heap a').actor :=
        congrArg OpenIntent.actor intent
      have hgate : effectGate (s₂.opens.heap a) C.req.record =
          effectGate (s₂'.opens.heap a') C.req.record := by
        have hreceipt : (s₂.opens.heap a).receipt = (s₂'.opens.heap a').receipt :=
          congrArg OpenIntent.receipt intent
        rw [effectGate, effectGate, hreceipt]
      simp only [hactor, hgate, cid, hchecked.host]
      by_cases hmatch : rabActorEq (s₂'.opens.heap a').actor C.peer = false
      · simp only [if_pos hmatch]
        exact .same hchecked.toTwins
      by_cases hclaim : effectGate (s₂'.opens.heap a') C.req.record = true
      · simp only [if_neg hmatch, if_pos hclaim]
        exact .same hchecked.toTwins
      by_cases hfree : enoughFreeSpace s₂'.cfg (C.env.free 0) = false
      · simp only [if_neg hmatch, if_neg hclaim, if_pos hfree]
        exact .same hchecked.toTwins
      simp only [if_neg hmatch, if_neg hclaim, if_neg hfree]
      cases hline : rabBuildAudit S.codec phaseOutcome.bytes (s₂'.opens.heap a').cid.bytes none C.peer
        s₂'.host.bytes now C.req.record with
      | none => exact .same hchecked.toTwins
      | some line =>
        simp only
        have hin := installs_openRemove isOpen.1 uid
        rw [cid] at hin
        have hpair := hchecked.commit (S := S) hE hnow (newline_notMem_rabBuildAudit hline)
          (.outcome (s₂'.opens.heap a').cid) (fun _ => hpeer) hin
          (installs_openRemove isOpen.2 (hactor ▸ uid)) (hs₂'.1 ▸ hoff)
        generalize commit S C line _ now (fun t => t.openRemove a) s₂ = c at hpair ⊢
        generalize commit S C line _ now (fun t => t.openRemove a') s₂' = c' at hpair ⊢
        cases hpair with
        | durable clocked => exact .same clocked.toTwins
        | overQuota twins => exact .same twins
        | limited on => exact .limited (hs₂.1 ▸ on) (by simp)

/-- How the issuance of a receipt to the uid ends in the two brokers. -/
inductive IssuePair (B : UInt32) (th : UInt64) (s : St) : Issue × St → Issue × St → Prop
  | same {r : Issue} {s₁ s₁' : St} (twins : Twins B th s₁ s₁') : IssuePair B th s (r, s₁) (r, s₁')
  | limited {s₁ s₁' : St} {token : Buf receiptMax} (on : s.cfg.rateMaxBytesGlobal ≠ 0) :
      IssuePair B th s (.rateLimited, s₁) (.token token, s₁')

theorem issueReceipt_pair (h : Clocked B th now s s') (hoff : s'.cfg.rateMaxBytesGlobal = 0)
    {cid : Buf cidMax} {oi : OpenIntent} (hview : s.opens.view cid = some oi)
    (hB : oi.actor.uid = B)
    (htokens : ∀ k token, rabMakeReceipt C.env k = some token →
      (s.opens.openFindVerifier (verifierOf S token.bytes).bytes = none ↔
        s'.opens.openFindVerifier (verifierOf S token.bytes).bytes = none))
    (schema : ℤ) (hash : Buf hex64Max) :
    IssuePair B th s (rabBrokerIssueReceipt S C cid schema hash s)
      (rabBrokerIssueReceipt S C cid schema hash s') := by
  obtain ⟨a, a', hfind, hfind', hopen, hcid, hcid', hoi, hoi'⟩ := h.lookup_cid hview hB
  have hreceipt : (s.opens.heap a).receipt = (s'.opens.heap a').receipt := by
    rw [hoi, hoi']
  unfold rabBrokerIssueReceipt
  simp only [h.healthy, h.healthy', Bool.false_eq_true, if_false, hfind, hfind', hreceipt,
    h.toTwins.enoughFreeSpace_eq]
  by_cases hschema : schema ≠ planSchemaV1
  · simp only [if_pos hschema]
    exact .same h.toTwins
  simp only [if_neg hschema]
  by_cases hhas : (s'.opens.heap a').receipt.isSome = true
  · simp only [hhas, if_true]
    exact .same h.toTwins
  simp only [if_neg hhas]
  by_cases hfree : enoughFreeSpace s'.cfg (C.env.free 1) = false
  · simp only [if_pos hfree]
    exact .same h.toTwins
  simp only [if_neg hfree]
  cases C.env.boottime with
  | none => exact .same h.toTwins
  | some boottime =>
    cases C.env.bootid with
    | none => exact .same h.toTwins
    | some bootId =>
      simp only [hoi, hoi', mintLoop_congr htokens]
      cases mintLoop S C.env s'.opens oi.binding receiptMintTries 0 with
      | none => exact .same h.toTwins
      | some token =>
        obtain ⟨s₁, s₁', hc, hc', ht, ht', hclocked⟩ := h.toTwins.readClock hnow h.threshold
        obtain ⟨b, s₂, s₂', hr, hr', ⟨u, hs₂⟩, ⟨u', hs₂'⟩, hchecked⟩ := hclocked.rateAllowed
        have httl : s₁.cfg.receiptTtlSec = s₁'.cfg.receiptTtlSec :=
          congrArg (·.receiptTtlSec) hclocked.cfg
        simp only [hc, hc', hcid, hcid', httl, hB]
        obtain ⟨r, hgen⟩ : ∃ r : Receipt, r =
            { state := .issued, verifier := verifierOf S token.bytes, actorUid := B
              verb := oi.operation, resource := oi.resource, planSchema := schema, planHash := hash
              issueBoottimeUs := boottime, ttlUs := s₁'.cfg.receiptTtlSec.toUInt64 * 1000000
              bootId := bootId, acceptedTimeUs := now } := ⟨_, rfl⟩
        have hruid : r.actorUid = B := by rw [hgen]
        rw [← hgen]
        cases hline : receiptLine S.codec cid false r with
        | none => exact .same hclocked.toTwins
        | some line =>
          simp only [hr, hr']
          cases b with
          | false => exact .same hchecked.toTwins
          | true =>
            have hopens : s₂.opens = s.opens := by rw [hs₂, ht]
            have hopens' : s₂'.opens = s'.opens := by rw [hs₂', ht']
            have hnone : (s.opens.heap a).receipt = none := by
              rw [hreceipt]
              simpa using hhas
            have hin : Installs B s₂.opens (.receipt cid r) (·.installReceipt a r) := by
              rw [hopens, ← hcid]
              exact installs_installReceipt hopen.1 hnone B
            have hin' : Installs B s₂'.opens (.receipt cid r) (·.installReceipt a' r) := by
              rw [hopens', ← hcid']
              exact installs_installReceipt hopen.2 (hreceipt ▸ hnone) B
            have hoff₂ : s₂'.cfg.rateMaxBytesGlobal = 0 := by
              rw [hs₂', ht']
              exact hoff
            have hon₂ : s₂.cfg = s.cfg := by rw [hs₂, ht]
            have hpair := hchecked.commit (S := S) hE hnow (isLine_receiptLine hline).newline_notMem
              (.receipt cid r) (fun _ => hruid) hin hin' hoff₂
            simp only
            generalize commit S C line _ now (fun t => t.installReceipt a r) s₂ = c at hpair ⊢
            generalize commit S C line _ now (fun t => t.installReceipt a' r) s₂' = c' at hpair ⊢
            cases hpair with
            | durable clocked => exact .same clocked.toTwins
            | overQuota twins => exact .same twins
            | limited on => exact .limited (hon₂ ▸ on)

theorem handleOpen_pair (h : Twins B th s s') (hth : th = winTh s.cfg now)
    (hoff : s'.cfg.rateMaxBytesGlobal = 0) (hpeer : C.peer.uid = B)
    (hnew : ∀ cid, rabMakeCorrelationId C.env = some cid →
      s.opens.view cid = none ∧ s'.opens.view cid = none)
    (htokens : ∀ k token, rabMakeReceipt C.env k = some token →
      VerifierFree S s.opens.view token.bytes ∧ VerifierFree S s'.opens.view token.bytes)
    (hcap : (handleOpen S C s).1 ≠ capReached) (hcap' : (handleOpen S C s').1 ≠ capReached) :
    ReplyPair B th s (handleOpen S C s) (handleOpen S C s') := by
  obtain ⟨b, s₁, s₁', s₂, s₂', hc, hc', hr, hr', -, -, hs₂, hs₂', hchecked⟩ := h.enter hnow hth
  by_cases hlong : C.req.effectPresent ∧ (metaMax ≤ (domainStr C.req.record "operation").length ∨
      metaMax ≤ (domainStr C.req.record "resource").length)
  · simp only [handleOpen, if_pos hlong]
    exact .same h
  simp only [handleOpen, if_neg hlong, hc, hc', hpeer, hr, hr'] at hcap hcap' ⊢
  cases b with
  | false => exact .same hchecked.toTwins
  | true =>
    simp only at hcap hcap' ⊢
    by_cases hfull : s₂.cfg.maxOpenGlobal.toNat ≤ s₂.opens.openCount
    · simp only [if_pos hfull] at hcap
      exact absurd rfl hcap
    by_cases hfull' : s₂'.cfg.maxOpenGlobal.toNat ≤ s₂'.opens.openCount
    · simp only [if_pos hfull'] at hcap'
      exact absurd rfl hcap'
    simp only [if_neg hfull, if_neg hfull']
    have hgot := hchecked.uidGet B
    have hcount : ((s₂.uids.uidGet s₂.cfg B).node B).nOpen =
        ((s₂'.uids.uidGet s₂'.cfg B).node B).nOpen := hgot.nOpen
    have hmax : s₂.cfg.maxOpenPerUid = s₂'.cfg.maxOpenPerUid :=
      congrArg (·.maxOpenPerUid) hchecked.cfg
    have hopens : ({ s₂ with uids := s₂.uids.uidGet s₂.cfg B } : St).opens = s.opens := hs₂.2
    have hopens' : ({ s₂' with uids := s₂'.uids.uidGet s₂'.cfg B } : St).opens = s'.opens := hs₂'.2
    have hcfg : ({ s₂ with uids := s₂.uids.uidGet s₂.cfg B } : St).cfg = s.cfg := hs₂.1
    have hcfg' : ({ s₂' with uids := s₂'.uids.uidGet s₂'.cfg B } : St).cfg = s'.cfg := hs₂'.1
    generalize ({ s₂ with uids := s₂.uids.uidGet s₂.cfg B } : St) = s₃ at hgot hopens hcfg ⊢
    generalize ({ s₂' with uids := s₂'.uids.uidGet s₂'.cfg B } : St) = s₃' at hgot hopens' hcfg' ⊢
    simp only [hcount, hmax, hchecked.toTwins.enoughFreeSpace_eq, hchecked.host]
    by_cases hmany : s₂'.cfg.maxOpenPerUid ≤ ((s₂'.uids.uidGet s₂'.cfg B).node B).nOpen
    · simp only [if_pos hmany]
      exact .same hgot.toTwins
    by_cases hfree : enoughFreeSpace s₂'.cfg (C.env.free 0) = false
    · simp only [if_neg hmany, if_pos hfree]
      exact .same hgot.toTwins
    simp only [if_neg hmany, if_neg hfree]
    cases hcid : rabMakeCorrelationId C.env with
    | none => exact .same hgot.toTwins
    | some cid =>
      cases rabMakeBinding C.env with
      | none => exact .same hgot.toTwins
      | some binding =>
        simp only
        cases hline : rabBuildAudit S.codec phaseIntent.bytes cid.bytes (some binding.bytes) C.peer
          s₂'.host.bytes now C.req.record with
        | none => exact .same hgot.toTwins
        | some line =>
          simp only
          obtain ⟨hnone, hnone'⟩ := hnew cid hcid
          rw [← hopens] at hnone
          rw [← hopens'] at hnone'
          generalize hop : recStr metaMax C.req.record "operation" = op
          generalize hres : recStr metaMax C.req.record "resource" = res
          generalize hscope : recStr scopeMax C.req.record "scope" = scope
          have hin := installs_openAdd hnone binding C.peer op res scope
          have hin' := installs_openAdd hnone' binding C.peer op res scope
          rw [hpeer] at hin hin'
          have hpair := hgot.commit (S := S) hE hnow (newline_notMem_rabBuildAudit hline)
            (.intent cid { binding, actor := C.peer, operation := op, resource := res, scope
                           receipt := none }) (fun _ => hpeer) hin hin' (hcfg' ▸ hoff)
          generalize commit S C line _ now _ s₃ = c at hpair ⊢
          generalize commit S C line _ now _ s₃' = c' at hpair ⊢
          cases hpair with
          | overQuota twins => exact .same twins
          | limited on =>
            refine .limited (hcfg ▸ on) fun heq => ?_
            simp only at heq
            split at heq
            · exact openEffect_ne_overQuota S C cid binding _ heq.symm
            · cases heq
          | @durable s₄ s₄' clocked cfg view =>
            by_cases heffect : C.req.effectPresent = true
            · simp only [if_pos heffect]
              have hview := congrFun view.1 cid
              rw [Act.apply_intent] at hview
              have hissue := issueReceipt_pair hE hnow clocked (cfg.2 ▸ hcfg' ▸ hoff) hview hpeer
                (fun k token htoken => by
                  obtain ⟨hv, hv'⟩ := htokens k token htoken
                  rw [← hopens] at hv
                  rw [← hopens'] at hv'
                  simp only [hv.of_intent clocked.ok.opens view.1 rfl,
                    hv'.of_intent clocked.ok'.opens view.2 rfl])
                C.req.effectPlanSchema C.req.effectPlanHash (S := S)
              unfold openEffect
              generalize rabBrokerIssueReceipt S C cid C.req.effectPlanSchema C.req.effectPlanHash
                s₄ = i at hissue ⊢
              generalize rabBrokerIssueReceipt S C cid C.req.effectPlanSchema C.req.effectPlanHash
                s₄' = i' at hissue ⊢
              cases hissue with
              | @same r s₅ s₅' twins => cases r <;> exact .same twins
              | limited on => exact .limited (hcfg ▸ cfg.1 ▸ on) (by simp)
            · simp only [if_neg heffect]
              exact .same clocked.toTwins

/-- How the redemption of a receipt of the uid ends in the two brokers. -/
inductive RedeemPair (B : UInt32) (th : UInt64) (s : St) :
    RedeemResult × St → RedeemResult × St → Prop
  | same {r : RedeemResult} {s₁ s₁' : St} (twins : Twins B th s₁ s₁') :
      RedeemPair B th s (r, s₁) (r, s₁')
  | limited {s₁ s₁' : St} (on : s.cfg.rateMaxBytesGlobal ≠ 0) :
      RedeemPair B th s (.rate, s₁) (.ok, s₁')

theorem redeemReceipt_pair (h : Twins B th s s') (hth : th = winTh s.cfg now)
    (hoff : s'.cfg.rateMaxBytesGlobal = 0) {cid : Buf cidMax} {oi : OpenIntent}
    (hview : s.opens.view cid = some oi) (hB : oi.actor.uid = B)
    (hbearer : ∀ r, oi.receipt = some r → r.actorUid = B) :
    RedeemPair B th s (rabBrokerRedeemReceipt S C cid s) (rabBrokerRedeemReceipt S C cid s') := by
  obtain ⟨a, a', hfind, hfind', hopen, hcid, hcid', hoi, hoi'⟩ := h.lookup_cid hview hB
  unfold rabBrokerRedeemReceipt
  simp only [h.healthy, h.healthy', Bool.false_eq_true, if_false, hfind, hfind', hoi, hoi',
    h.enoughFreeSpace_eq]
  by_cases hroot : C.peer.uid ≠ 0
  · simp only [if_pos hroot]
    exact .same h
  simp only [if_neg hroot]
  cases hr : oi.receipt with
  | none => exact .same h
  | some r =>
    have hruid := hbearer r hr
    simp only [hruid]
    by_cases h₁ : C.req.redeemPrincipalUid ≠ B
    · simp only [if_pos h₁]
      exact .same h
    simp only [if_neg h₁]
    by_cases h₂ : verifierMatches S C.env C.req.effectReceipt.bytes r.verifier.bytes = false
    · simp only [if_pos h₂]
      exact .same h
    simp only [if_neg h₂]
    by_cases h₃ : C.req.redeemPlanSchema ≠ r.planSchema ∨ C.req.redeemVerb.bytes ≠ r.verb.bytes ∨
        C.req.redeemResource.bytes ≠ r.resource.bytes ∨
        C.req.redeemPlanHash.bytes ≠ r.planHash.bytes
    · simp only [if_pos h₃]
      exact .same h
    simp only [if_neg h₃]
    by_cases h₄ : r.state = .redeemed
    · simp only [if_pos h₄]
      exact .same h
    simp only [if_neg h₄]
    cases C.env.boottime with
    | none => exact .same h
    | some nowUs =>
      cases C.env.bootid with
      | none => exact .same h
      | some curBoot =>
        simp only
        by_cases h₅ : curBoot ≠ r.bootId ∨ nowUs < r.issueBoottimeUs ∨
            r.ttlUs < nowUs - r.issueBoottimeUs
        · simp only [if_pos h₅]
          exact .same h
        by_cases hfree : enoughFreeSpace s'.cfg (C.env.free 0) = false
        · simp only [if_neg h₅, if_pos hfree]
          exact .same h
        simp only [if_neg h₅, if_neg hfree]
        obtain ⟨b, s₁, s₁', s₂, s₂', hc, hc', hr₁, hr₁', hs₁, hs₁', hs₂, hs₂', hchecked⟩ :=
          h.enter hnow hth
        have hclocked : Twins B th s₁ s₁' := by
          obtain ⟨t₁, t₁', ht, ht', -, -, hclocked⟩ := h.readClock hnow hth
          rw [hc] at ht
          rw [hc'] at ht'
          cases ht
          cases ht'
          exact hclocked.toTwins
        simp only [hc, hc', hs₁.2, hs₁'.2, hcid, hcid']
        obtain ⟨r', hr'⟩ : ∃ r' : Receipt,
            r' = { r with state := .redeemed, actorUid := B, acceptedTimeUs := now } := ⟨_, rfl⟩
        have hruid' : r'.actorUid = B := by rw [hr']
        rw [← hr']
        cases hline : receiptLine S.codec cid false r' with
        | none => exact .same hclocked
        | some line =>
          simp only [hr₁, hr₁']
          cases b with
          | false => exact .same hchecked.toTwins
          | true =>
            have hin : Installs B s₂.opens (.receipt cid r') (·.setReceipt a r') := by
              rw [hs₂.2, ← hcid]
              exact installs_setReceipt hopen.1 (by rw [hoi, hr]) (by rw [hr']) B
            have hin' : Installs B s₂'.opens (.receipt cid r') (·.setReceipt a' r') := by
              rw [hs₂'.2, ← hcid']
              exact installs_setReceipt hopen.2 (by rw [hoi', hr]) (by rw [hr']) B
            have hpair := hchecked.commit (S := S) hE hnow (isLine_receiptLine hline).newline_notMem
              (.receipt cid r') (fun _ => hruid') hin hin' (hs₂'.1 ▸ hoff)
            simp only [hs₂.2, hs₂'.2, hcid, hcid']
            generalize commit S C line _ now (fun t => t.setReceipt a r') s₂ = c at hpair ⊢
            generalize commit S C line _ now (fun t => t.setReceipt a' r') s₂' = c' at hpair ⊢
            cases hpair with
            | durable clocked => exact .same clocked.toTwins
            | overQuota twins => exact .same twins
            | limited on => exact .limited (hs₂.1 ▸ on)

/-- A redemption of a receipt of the uid. -/
theorem handleRedeem_pair (h : Twins B th s s') (hth : th = winTh s.cfg now)
    (hoff : s'.cfg.rateMaxBytesGlobal = 0)
    (howned : s.toTables.Owned B (HasToken S C.req.effectReceipt.bytes))
    (howned' : s'.toTables.Owned B (HasToken S C.req.effectReceipt.bytes))
    (hbearer : ∀ cid oi r, s.opens.view cid = some oi → oi.receipt = some r →
      r.actorUid = oi.actor.uid) :
    ReplyPair B th s (handleRedeem S C s) (handleRedeem S C s') := by
  unfold handleRedeem
  by_cases hroot : C.peer.uid ≠ 0
  · simp only [if_pos hroot]
    exact .same h
  by_cases hdigest : C.env.digestOk 0 = false
  · simp only [if_neg hroot, if_pos hdigest]
    exact .same h
  simp only [if_neg hroot, if_neg hdigest]
  have hlookup := h.toAlike.lookup
    (finds_verifier h.ok.opens S C.req.effectReceipt.bytes)
    (finds_verifier h.ok'.opens S C.req.effectReceipt.bytes) howned howned'
  generalize s.opens.openFindVerifier (verifierOf S C.req.effectReceipt.bytes).bytes = f
    at hlookup ⊢
  generalize s'.opens.openFindVerifier (verifierOf S C.req.effectReceipt.bytes).bytes = f'
    at hlookup ⊢
  cases hlookup with
  | none => exact .same h
  | @some a a' isOpen cid intent uid key =>
    have hview := h.ok.opens.view_of_open isOpen.1
    have hredeem := redeemReceipt_pair hE hnow h hth hoff hview uid
      (fun r hr => (hbearer _ _ r hview hr).trans uid) (S := S)
    simp only [← cid]
    generalize rabBrokerRedeemReceipt S C (s.opens.heap a).cid s = r at hredeem ⊢
    generalize rabBrokerRedeemReceipt S C (s.opens.heap a).cid s' = r' at hredeem ⊢
    cases hredeem with
    | same twins => exact .same twins
    | limited on => exact .limited on (by simp [RedeemResult.reply])

end Request

end AuditBroker
