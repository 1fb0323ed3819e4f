import AuditBroker.Accounting
import AuditBroker.Foundation.Sliding

/-!
# Rate windows along a run

The charges of the whole history are a stream for each uid, which nothing ever removes.  A ring, and
what reconstruction pushes when it reads a segment back, are final parts of that stream which lack
only charges older than the window (`Recent`).  A restart pushes without evicting and may overflow
the ring; that is harmless, because the live ring, another final part, was not full when the last line
was admitted.

The invariant needs the rings to be queues, so the capacity is at most `2 ^ 31`.
-/

namespace AuditBroker

open Foundation

/-! ## Pushing onto a ring -/

section Rings

variable {u u' : UidState}

@[simp] theorem UidState.pushAll_nil (u : UidState) : u.pushAll [] = u := rfl

theorem UidState.pushAll_append (u : UidState) (l l' : List (UInt64 × UInt64)) :
    u.pushAll (l ++ l') = (u.pushAll l).pushAll l' := List.foldl_append

theorem UidState.pushAll_concat (u : UidState) (l : List (UInt64 × UInt64)) (x : UInt64 × UInt64) :
    u.pushAll (l ++ [x]) = (u.pushAll l).uidPush x.1 x.2 := by
  rw [UidState.pushAll_append]
  rfl

theorem ring_pushAll (u : UidState) (l : List (UInt64 × UInt64)) :
    (u.pushAll l).ring = u.ring.pushAll l := by
  induction l using List.reverseRecOn with
  | nil => rfl
  | append_singleton l x ih =>
    rw [UidState.pushAll_concat, UidState.pushAll_concat, UidState.ring_uidPush, ih]

theorem UidState.entries_of_ring (h : u'.ring = u.ring) : u'.entries = u.entries := by
  have hentries : u'.ring.entries = u.ring.entries := by rw [h]
  exact hentries

/-- An empty ring keeps a final part of what is pushed onto it, and is full if something is lost. -/
theorem UidState.entries_pushAll_zero {cap : UInt32} (hpos : 0 < cap.toNat)
    (hcap : cap.toNat ≤ 2 ^ 31) (l : List (UInt64 × UInt64)) :
    ((UidState.zero cap).pushAll l).Ring ∧ ((UidState.zero cap).pushAll l).cap = cap ∧
      ∃ old, l = old ++ ((UidState.zero cap).pushAll l).entries ∧
        (old ≠ [] → ((UidState.zero cap).pushAll l).entries.length = cap.toNat) := by
  induction l using List.reverseRecOn with
  | nil => exact ⟨UidState.ring_zero hpos hcap, rfl, [], rfl, fun h => absurd rfl h⟩
  | append_singleton l x ih =>
    obtain ⟨hring, hc, old, hl, hfull⟩ := ih
    rw [UidState.pushAll_concat]
    set u := (UidState.zero cap).pushAll l with hu
    obtain ⟨hentries, hring'⟩ := UidState.entries_uidPush hring x.1 x.2
    refine ⟨hring', (u.uidPush_cap x.1 x.2).trans hc, ?_⟩
    have hlen : u.n = u.cap ↔ u.entries.length = cap.toNat := by
      rw [UidState.length_entries, ← UInt32.toNat_inj, hc]
    by_cases hn : u.n = u.cap
    · -- the oldest entry makes room
      rw [if_pos hn] at hentries
      cases hcons : u.entries with
      | nil =>
        rw [hcons] at hlen
        exact absurd (hlen.mp hn) (by simp; omega)
      | cons y l' =>
        rw [hcons, List.tail_cons] at hentries
        refine ⟨old ++ [y], ?_, fun _ => ?_⟩
        · rw [hentries]
          conv_lhs => rw [hl, hcons]
          simp
        · have hl' := hlen.mp hn
          rw [hcons] at hl'
          rw [hentries, ← hl']
          simp
    · rw [if_neg hn] at hentries
      have hold : old = [] := by
        by_contra hne
        exact hn (hlen.mpr (hfull hne))
      refine ⟨[], ?_, fun h => absurd rfl h⟩
      rw [hentries, List.nil_append]
      conv_lhs => rw [hl, hold]
      simp

end Rings

/-! ## What a line charges when it is read back -/

section Lines

variable {S : Site} {R R' : Replay} {t : Tables} {v : UInt32} {line : Bytes} {lines : List Bytes}

/-- What reading a record back pushes onto the ring of a uid. -/
def Stored.pushes (cfg : Config) (v : UInt32) (nbytes : UInt64) (st : Stored) :
    List (UInt64 × UInt64) :=
  if cfg.rateMaxInWindow = 0 then []
  else
    match st with
    | .audit x _ => if x.actor.uid = v then [(x.timeUs, nbytes)] else []
    | .receipt _ false r => if r.actorUid = v then [(r.acceptedTimeUs, nbytes)] else []
    | .rate uid l => if uid = v then l else []
    | _ => []

@[simp] theorem Stored.pushes_checkpoint (cfg : Config) (v : UInt32) (nbytes : UInt64)
    (x : StoredIntent) : (Stored.checkpoint x).pushes cfg v nbytes = [] := by
  simp [Stored.pushes]

@[simp] theorem Stored.pushes_receiptCheckpoint (cfg : Config) (v : UInt32) (nbytes : UInt64)
    (cid : Buf cidMax) (r : Receipt) : (Stored.receipt cid true r).pushes cfg v nbytes = [] := by
  simp [Stored.pushes]

/-- What reading a line back pushes onto the ring of a uid. -/
def linePushes (S : Site) (cfg : Config) (v : UInt32) (line : Bytes) : List (UInt64 × UInt64) :=
  ((rabParseStored S.codec line).map
    (Stored.pushes cfg v (UInt64.ofNat (line.length + 1)))).getD []

/-- What reading a segment back pushes onto the ring of a uid. -/
def segmentPushes (S : Site) (cfg : Config) (v : UInt32) (lines : List Bytes) :
    List (UInt64 × UInt64) :=
  lines.flatMap (linePushes S cfg v)

/-- `rate_note` on the ring of a uid. -/
theorem ring_rateNote (hok : t.uids.Ok t.cfg) (uid : UInt32) (time nbytes : UInt64) (v : UInt32) :
    ((t.rateNote uid time nbytes).uids.node v).ring = (t.uids.node v).ring.pushAll
      (if t.cfg.rateMaxInWindow ≠ 0 ∧ uid = v then [(time, nbytes)] else []) := by
  obtain ⟨-, hnode⟩ := hok.rateNote_spec uid time nbytes
  simp only [Tables.rateNote, hnode]
  by_cases hoff : t.cfg.rateMaxInWindow = 0
  · rw [if_pos hoff, if_neg (fun h => h.1 hoff), UidState.pushAll_nil]
  · rw [if_neg hoff]
    by_cases hv : uid = v
    · rw [hv, Function.update_self, if_pos ⟨hoff, rfl⟩, UidState.ring_uidPush]
      rfl
    · rw [Function.update_of_ne (Ne.symm hv), if_neg (fun h => hv h.2), UidState.pushAll_nil]

theorem uids_foldl_rateNote (hok : t.uids.Ok t.cfg) (uid : UInt32) (l : List (UInt64 × UInt64))
    (v : UInt32) :
    ((l.foldl (fun t x => t.rateNote uid x.1 x.2) t).uids.node v).ring =
      (t.uids.node v).ring.pushAll
        (if t.cfg.rateMaxInWindow ≠ 0 ∧ uid = v then l else []) := by
  induction l generalizing t with
  | nil => rw [ite_self, UidState.pushAll_nil, List.foldl_nil]
  | cons x l ih =>
    have hok' : (t.rateNote uid x.1 x.2).uids.Ok (t.rateNote uid x.1 x.2).cfg :=
      (hok.rateNote_spec uid x.1 x.2).1
    rw [List.foldl_cons, ih hok', ring_rateNote hok, ← UidState.pushAll_append]
    congr 1
    change (if t.cfg.rateMaxInWindow ≠ 0 ∧ uid = v then _ else _) ++
      (if t.cfg.rateMaxInWindow ≠ 0 ∧ uid = v then _ else _) = _
    split <;> rfl

/-- Charging a record that was read back. -/
theorem ring_chargeStored (hok : t.uids.Ok t.cfg) (st : Stored) (nbytes : UInt64) (v : UInt32) :
    ((chargeStored t st nbytes).uids.node v).ring =
      (t.uids.node v).ring.pushAll (st.pushes t.cfg v nbytes) := by
  have hif : ∀ {uid : UInt32} {l : List (UInt64 × UInt64)},
      (if t.cfg.rateMaxInWindow ≠ 0 ∧ uid = v then l else []) =
        if t.cfg.rateMaxInWindow = 0 then [] else if uid = v then l else [] := by
    intro uid l
    by_cases hoff : t.cfg.rateMaxInWindow = 0 <;> simp [hoff]
  unfold Stored.pushes
  cases st with
  | audit x phase => exact (ring_rateNote hok _ _ _ v).trans (by rw [hif])
  | checkpoint x => simp only [chargeStored, ite_self, UidState.pushAll_nil]
  | receipt cid isCheckpoint r =>
    cases isCheckpoint with
    | false => exact (ring_rateNote hok _ _ _ v).trans (by rw [hif])
    | true => simp only [chargeStored, ite_self, UidState.pushAll_nil]
  | rate uid l => exact (uids_foldl_rateNote hok uid l v).trans (by rw [hif])

/-- Replaying a line pushes what it charges. -/
theorem ring_replayLine (hfits : R.tables.uids.Fits R.tables.cfg) (hne : line ≠ [])
    (h : replayLine S R line = .ok R') (v : UInt32) :
    (R'.tables.uids.node v).ring =
      (R.tables.uids.node v).ring.pushAll (linePushes S R.tables.cfg v line) := by
  obtain ⟨st, R₁, hst, happly, rfl⟩ := (replayLine_eq_ok hne).mp h
  obtain ⟨install, hkeeps, hinstall⟩ := applyStored_keeps happly
  obtain ⟨hcfg, hok, hring⟩ := hkeeps R.tables hfits.toOk
  rw [← hinstall] at hcfg hok hring
  rw [linePushes, hst, Option.map_some, Option.getD_some, ← hring, ← hcfg]
  exact ring_chargeStored (by rw [hcfg]; exact hok) st _ v

/-- Replaying a segment pushes what its lines charge. -/
theorem ring_replayLines (hfits : R.tables.uids.Fits R.tables.cfg)
    (hne : ∀ line ∈ lines, line ≠ []) (h : replayLines S R lines = .ok R') (v : UInt32) :
    (R'.tables.uids.node v).ring =
      (R.tables.uids.node v).ring.pushAll (segmentPushes S R.tables.cfg v lines) := by
  induction lines generalizing R with
  | nil =>
    rw [replayLines_nil, Except.ok.injEq] at h
    rw [h]
    rfl
  | cons line lines ih =>
    obtain ⟨R₁, hline, hlines⟩ := replayLines_cons_eq_ok.mp h
    obtain ⟨hcfg, hfits₁⟩ := fits_replayLine hfits hline
    rw [ih hfits₁ (fun l hl => hne l (by simp [hl])) hlines, hcfg,
      ring_replayLine hfits (hne line (by simp)) hline, ← UidState.pushAll_append]
    rfl

end Lines

/-! ## Segments -/

section Segments

variable {S : Site} {cfg : Config} {th th' : UInt64} {J : List Entry} {e : Entry} {v : UInt32}
  {lines : List Bytes} {o : OpenSet}

/-- What a segment that can be parsed pushes is, for every uid, a final part of its charges, and
lacks only charges older than the threshold. -/
def RateSegment (S : Site) (cfg : Config) (th : UInt64) (J : List Entry) (lines : List Bytes) :
    Prop :=
  (∀ line ∈ lines, (rabParseStored S.codec line).isSome = true) →
    ∀ v, Recent Prod.fst th (charges cfg v J) (segmentPushes S cfg v lines)

theorem RateSegment.mono (h : RateSegment S cfg th J lines) (hth : th ≤ th') :
    RateSegment S cfg th' J lines := fun hparse v => (h hparse v).mono hth

theorem rateSegment_nil (S : Site) (cfg : Config) (th : UInt64) : RateSegment S cfg th [] [] := by
  intro _ v
  rw [charges_nil]
  exact Recent.refl th []

theorem charges_append (cfg : Config) (v : UInt32) (J J' : List Entry) :
    charges cfg v (J ++ J') = charges cfg v J ++ charges cfg v J' := by
  unfold charges
  split
  · rfl
  · rw [List.filter_append, List.map_append]

theorem charges_singleton (cfg : Config) (v : UInt32) (e : Entry) :
    charges cfg v [e] = if cfg.rateMaxInWindow ≠ 0 ∧ e.chargedUid = v then [(e.now, e.size)]
      else [] := by
  have hconcat := charges_concat cfg v [] e
  rwa [List.nil_append, charges_nil, List.nil_append] at hconcat

/-- A charge is appended to the stream and to its final part. -/
theorem recent_charges_concat {l : List (UInt64 × UInt64)}
    (h : Recent Prod.fst th (charges cfg v J) l) (e : Entry) :
    Recent Prod.fst th (charges cfg v (J ++ [e])) (l ++ charges cfg v [e]) := by
  obtain ⟨old, hold, hlt⟩ := h
  exact ⟨old, by rw [charges_append, hold, List.append_assoc], hlt⟩

/-- The record of an entry is charged when it is read back as it was when it was appended. -/
theorem pushes_stored (hg : EntryGuard S J e) (cfg : Config) (v : UInt32) :
    e.stored.pushes cfg v e.size = charges cfg v [e] := by
  have hif : ∀ {uid : UInt32} {x : UInt64 × UInt64},
      (if cfg.rateMaxInWindow = 0 then [] else if uid = v then [x] else []) =
        if cfg.rateMaxInWindow ≠ 0 ∧ uid = v then [x] else [] := by
    intro uid x
    by_cases hoff : cfg.rateMaxInWindow = 0 <;> simp [hoff]
  rw [charges_singleton]
  unfold Entry.stored Entry.chargedUid Stored.pushes
  cases hact : e.act with
  | intent cid oi => exact hif
  | outcome cid => exact hif
  | emit cid => exact hif
  | receipt cid r =>
    have hacc : r.acceptedTimeUs = e.now := by
      rcases hg.receipt hact with hi | hr
      · exact hi.accepted
      · obtain ⟨oi, r₀, -, -, -, heq⟩ := hr.opened
        rw [heq]
    rw [← hacc]
    exact hif

theorem segmentPushes_append (S : Site) (cfg : Config) (v : UInt32) (ls ls' : List Bytes) :
    segmentPushes S cfg v (ls ++ ls') = segmentPushes S cfg v ls ++ segmentPushes S cfg v ls' :=
  List.flatMap_append

theorem RateSegment.snoc (h : RateSegment S cfg th J lines) (hJ : Guarded (EntryGuard S) J)
    (hg : EntryGuard S J e) : RateSegment S cfg th (J ++ [e]) (lines ++ [e.line]) := by
  intro hparse v
  obtain ⟨st, hst⟩ := Option.isSome_iff_exists.mp (hparse e.line (by simp))
  obtain ⟨-, rfl⟩ := (rabParseStored_entry hJ hg).mp hst
  have hline : segmentPushes S cfg v [e.line] = charges cfg v [e] := by
    rw [← pushes_stored hg, segmentPushes, List.flatMap_singleton, linePushes, hst,
      Option.map_some, Option.getD_some]
    rfl
  rw [segmentPushes_append, hline]
  exact recent_charges_concat (h (fun line hl => hparse line (by simp [hl])) v) e

/-- Checkpoints charge nothing. -/
theorem segmentPushes_carryIntents (hc : Carriable o) {as : List ℕ} {ls : List Bytes}
    (hci : CarryIntents S o.heap as ls) (hopen : ∀ a ∈ as, o.Open a)
    (hparse : ∀ line ∈ ls, (rabParseStored S.codec line).isSome = true) (v : UInt32) :
    segmentPushes S cfg v ls = [] := by
  induction hci with
  | nil => rfl
  | @cons a as now line rls ls hline hrls _ ih =>
    obtain ⟨st, hst⟩ := Option.isSome_iff_exists.mp (hparse line (by simp))
    obtain ⟨hcid, hbinding⟩ := hc.ne_nil a (hopen a (by simp))
    have hst' := ((rabParseStored_checkpoint hcid hbinding hline).mp hst).2
    have hnone : linePushes S cfg v line = [] := by
      rw [linePushes, hst, hst', Option.map_some, Option.getD_some, Stored.pushes_checkpoint]
    have hreceipt : segmentPushes S cfg v rls = [] := by
      unfold receiptCarry at hrls
      split at hrls
      · rw [← Option.some.inj hrls]
        rfl
      · rename_i r hr
        obtain ⟨rl, hrl, rfl⟩ := Option.map_eq_some_iff.mp hrls
        have hschema : r.planSchema < 2 ^ 63 := by
          rw [(hc.receipt a r (hopen a (by simp)) hr).1]
          decide
        rw [segmentPushes, List.flatMap_singleton, linePushes,
          rabParseStored_receiptLine hschema hrl, Option.map_some, Option.getD_some,
          Stored.pushes_receiptCheckpoint]
    have hrest := ih (fun b hb => hopen b (by simp [hb])) fun l hl => hparse l (by simp [hl])
    rw [← List.singleton_append, segmentPushes_append, segmentPushes_append, hreceipt, hrest]
    simp [segmentPushes, hnone]

/-- The rate records charge the windows that they carry. -/
theorem segmentPushes_rateLines (hon : cfg.rateMaxInWindow ≠ 0) (t : UidTable) {vs : List UInt32}
    (hnd : vs.Nodup) (v : UInt32) :
    segmentPushes S cfg v (rateLines S t vs) = if v ∈ vs then t.entries v else [] := by
  have hline : ∀ u, linePushes S cfg v (rabBuildRate S.codec u (t.entries u)) =
      if u = v then t.entries u else [] := by
    intro u
    rw [linePushes, rabParseStored_rate, Option.map_some, Option.getD_some, Stored.pushes,
      if_neg hon]
  induction vs with
  | nil => rfl
  | cons u vs ih =>
    obtain ⟨hu, hnd⟩ := List.nodup_cons.mp hnd
    have hrest := ih hnd
    by_cases hn : (t.node u).n = 0
    · have hnil : t.entries u = [] := by
        rw [← List.length_eq_zero_iff, UidTable.entries, UidState.length_entries, hn]
        rfl
      rw [rateLines, List.filter_cons_of_neg (by simpa using hn)]
      refine hrest.trans ?_
      by_cases hv : v = u
      · simp [hv, hu, hnil]
      · simp [hv]
    · rw [rateLines, List.filter_cons_of_pos (by simpa using hn), List.map_cons,
        ← List.singleton_append, segmentPushes_append]
      have hone : segmentPushes S cfg v [rabBuildRate S.codec u (t.entries u)] =
          if u = v then t.entries u else [] := by
        rw [segmentPushes, List.flatMap_singleton, hline]
      rw [hone]
      change _ ++ segmentPushes S cfg v (rateLines S t vs) = _
      rw [hrest]
      by_cases hv : u = v
      · subst hv
        simp [hu]
      · have hv' : v ≠ u := Ne.symm hv
        simp [hv, hv']

end Segments

/-! ## The clock -/

section Clock

variable {S : Site} {C : Ctx} {E : Env} {s s' : St}

/-- The clock of an environment does not go back, and none of its further readings comes before the
last one that was taken. -/
structure Env.Forward (E : Env) (s : St) : Prop where
  mono : ∀ j k, j ≤ k → E.clock j ≤ E.clock k
  next : ∀ k, s.ticks ≤ k → s.lastClock ≤ E.clock k

/-- A rotation reads the clock, and evicts at a time between the last reading before it and its own
last one. -/
theorem Rotates.forward (h : Rotates E s s') (hf : E.Forward s) :
    E.Forward s' ∧ s.lastClock ≤ s'.lastClock ∧
      ∃ now, UidTable.Evicts s.cfg (winTh s.cfg now) s.uids s'.uids ∧ s.lastClock ≤ now ∧
        now ≤ s'.lastClock := by
  obtain ⟨now, hev, hnow⟩ := h.evicts
  rcases h.clock with ⟨hticks, hlast⟩ | ⟨hticks, hlast⟩
  · refine ⟨⟨hf.mono, fun k hk => ?_⟩, hlast ▸ UInt64.le_refl _, now, hev, ?_⟩
    · rw [hlast]
      exact hf.next k (hticks ▸ hk)
    · rcases hnow with rfl | ⟨k, hk, hk', -⟩
      · exact ⟨UInt64.le_refl _, hlast ▸ UInt64.le_refl _⟩
      · omega
  · have hle : s.lastClock ≤ s'.lastClock := by
      rw [hlast]
      exact hf.next _ (by omega)
    refine ⟨⟨hf.mono, fun k hk => ?_⟩, hle, now, hev, ?_⟩
    · rw [hlast]
      exact hf.mono _ _ (by omega)
    · rcases hnow with rfl | ⟨k, hk, hk', rfl⟩
      · exact ⟨UInt64.le_refl _, hle⟩
      · refine ⟨hf.next k hk, ?_⟩
        rw [hlast]
        exact hf.mono _ _ (by omega)

theorem Move.forward (h : Move S C s s') (hf : C.env.Forward s) :
    C.env.Forward s' ∧ s.lastClock ≤ s'.lastClock := by
  have hsame : C.env.Forward s ∧ s.lastClock ≤ s.lastClock := ⟨hf, UInt64.le_refl _⟩
  cases h with
  | clock =>
    exact ⟨⟨hf.mono, fun k hk => hf.mono _ _ (Nat.le_of_succ_le hk)⟩, hf.next _ le_rfl⟩
  | check => exact ⟨⟨hf.mono, hf.next⟩, hsame.2⟩
  | torn => exact ⟨⟨hf.mono, hf.next⟩, hsame.2⟩
  | landed => exact ⟨⟨hf.mono, hf.next⟩, hsame.2⟩
  | append => exact ⟨⟨hf.mono, hf.next⟩, hsame.2⟩
  | stay _ hst =>
    obtain ⟨hf', hle, -⟩ := hst.toCarries.rotates.forward hf
    exact ⟨hf', hle⟩
  | turn _ htu =>
    obtain ⟨hf', hle, -⟩ := htu.toRotates.forward hf
    exact ⟨hf', hle⟩

end Clock

/-! ## The invariant -/

section Invariant

variable {S : Site} {C : Ctx} {cfg : Config} {s s' : St} {line : Bytes} {act : Act}
  {install : Tables → Tables}

/-- The line passed the quotas of its uid: what the ring held was the window, it had room for one more
line, and the bytes of the line fitted, too. -/
def RateGuard (cfg : Config) (J : List Entry) (e : Entry) : Prop :=
  cfg.rateMaxInWindow ≠ 0 →
    ∃ L, Recent Prod.fst (winTh cfg e.now) (charges cfg e.chargedUid J) L ∧
      L.length < cfg.rateMaxInWindow.toNat ∧
      (cfg.rateMaxBytesPerUid ≠ 0 → (L.map Prod.snd).sum + e.size ≤ cfg.rateMaxBytesPerUid)

/-- The lines of the history passed their quotas, every file that a crash may leave holds the windows,
and no window has more charges than a ring has cells. -/
structure Windowed (S : Site) (cfg : Config) (s : St) : Prop where
  guarded : Guarded (RateGuard cfg) s.journal
  disk : OnDisk S (RateSegment S cfg (winTh cfg s.lastClock) s.journal) s.fs
  bounded : ∀ v, ∃ L, Recent Prod.fst (winTh cfg s.lastClock) (charges cfg v s.journal) L ∧
    L.length ≤ (ringCap cfg).toNat

/-- The rings of a process are queues, and those of a healthy one hold the windows. -/
structure LiveWindows (S : Site) (cfg : Config) (s : St) : Prop extends Windowed S cfg s where
  cfg_eq : s.cfg = cfg
  rings : ∀ v, (s.uids.node v).Ring ∧ (s.uids.node v).cap = ringCap cfg
  recent : s.poisoned = false → ∀ v,
    Recent Prod.fst (winTh cfg s.lastClock) (charges cfg v s.journal) (s.uids.entries v)

theorem ringCap_of_on (hon : cfg.rateMaxInWindow ≠ 0) : ringCap cfg = cfg.rateMaxInWindow :=
  if_pos hon

theorem ringCap_pos (cfg : Config) : 0 < (ringCap cfg).toNat := by
  unfold ringCap
  split
  · rename_i hon
    exact Nat.pos_of_ne_zero fun h => hon (UInt32.toNat_inj.mp h)
  · decide

theorem ringCap_le (hcap : cfg.rateMaxInWindow.toNat ≤ 2 ^ 31) : (ringCap cfg).toNat ≤ 2 ^ 31 := by
  unfold ringCap
  split
  · exact hcap
  · decide

/-- The threshold of the last reading moves on. -/
theorem Windowed.later (h : Windowed S cfg s) (hj : s'.journal = s.journal) (hfs : s'.fs = s.fs)
    (hclock : s.lastClock ≤ s'.lastClock) : Windowed S cfg s' where
  guarded := hj ▸ h.guarded
  disk := by
    rw [hj, hfs]
    exact h.disk.imp fun _ hls => hls.mono (winTh_mono cfg hclock)
  bounded v := by
    obtain ⟨L, hL, hlen⟩ := h.bounded v
    rw [hj]
    exact ⟨L, hL.mono (winTh_mono cfg hclock), hlen⟩

/-- Eviction keeps the windows. -/
theorem LiveWindows.evicts (h : LiveWindows S cfg s) {now now' : UInt64} {t : UidTable}
    (hev : UidTable.Evicts s.cfg (winTh s.cfg now) s.uids t) (hnow : s.lastClock ≤ now)
    (hnow' : now ≤ now') :
    (∀ v, (t.node v).Ring ∧ (t.node v).cap = ringCap cfg) ∧
      (s.poisoned = false → ∀ v,
        Recent Prod.fst (winTh cfg now') (charges cfg v s.journal) (t.entries v)) := by
  rw [h.cfg_eq] at hev
  constructor
  · intro v
    obtain ⟨hring, hcap⟩ := h.rings v
    rcases hev.node v with hn | hn
    · rw [hn]
      exact ⟨hring, hcap⟩
    · rw [hn]
      exact ⟨(UidState.entries_uidEvict hring _).2, (UidState.uidEvict_cap _ _).trans hcap⟩
  · intro hp v
    have hrecent := (h.recent hp v).mono (winTh_mono cfg hnow)
    rw [UidTable.entries]
    rcases hev.node v with hn | hn
    · rw [hn]
      exact hrecent.mono (winTh_mono cfg hnow')
    · rw [hn, (UidState.entries_uidEvict (h.rings v).1 _).1]
      exact (recent_evict hrecent).mono (winTh_mono cfg hnow')

/-- The line meets the guard of the quotas. -/
theorem LiveWindows.rateGuard (h : LiveWindows S cfg s) (ok : Appendable S C s line act install) :
    RateGuard cfg s.journal (C.entry s line act) := by
  intro hon
  set uid := (C.entry s line act).chargedUid with huid
  refine ⟨s.uids.entries uid, h.recent ok.healthy uid, ?_, fun hbytes => ?_⟩
  · have hlt := ok.rate (h.cfg_eq.symm ▸ hon)
    rw [h.cfg_eq, UInt32.lt_iff_toNat_lt] at hlt
    rw [UidTable.entries, UidState.length_entries]
    exact hlt
  · have hle := ok.bytes (h.cfg_eq.symm ▸ hbytes)
    rw [h.cfg_eq, (h.rings _).1.bsum_eq] at hle
    exact hle

/-- The history and the files after a complete line. -/
theorem LiveWindows.windowed_line (h : LiveWindows S cfg s) (hl : Live S s) (hC : C.Parsed S)
    (hfresh : FreshCid C s) (ok : Appendable S C s line act install)
    (hj : s'.journal = s.journal ++ [C.entry s line act])
    (hfs : s'.fs = s.fs.extend s.fd (line ++ [newline])) (hclock : s'.lastClock = s.lastClock) :
    Windowed S cfg s' where
  guarded := hj ▸ h.guarded.snoc (h.rateGuard ok)
  disk := by
    have hguard := ok.allowed.guard hC hfresh hl.tables.opens (hl.view_eq ok.healthy)
    rw [hj, hfs, hclock]
    exact (hl.ready ok.healthy).1.line h.disk ok.allowed.isLine.newline_notMem
      fun ls hls => hls.snoc hl.guarded hguard
  bounded v := by
    rw [hj, hclock]
    refine ⟨_, recent_charges_concat (h.recent ok.healthy v) _, ?_⟩
    obtain ⟨hring, hcap⟩ := h.rings v
    rw [List.length_append, charges_singleton, UidTable.entries, UidState.length_entries]
    split
    · rename_i hv
      have hlt := ok.rate (h.cfg_eq.symm ▸ hv.1)
      rw [hv.2, h.cfg_eq, UInt32.lt_iff_toNat_lt] at hlt
      rw [ringCap_of_on hv.1]
      exact hlt
    · rw [← hcap]
      exact hring.n_le

/-- A charged line is in the ring of its uid. -/
theorem LiveWindows.charged (h : LiveWindows S cfg s) (hok : s.uids.Ok s.cfg)
    (ok : Appendable S C s line act install) (w : World) (n : UInt64) (v : UInt32) :
    let s' := ({ s with toWorld := w, segBytes := n,
                        journal := s.journal ++ [C.entry s line act] } : St).charge install
      (C.entry s line act)
    (s'.uids.node v).Ring ∧ (s'.uids.node v).cap = ringCap cfg ∧
      s'.uids.entries v = s.uids.entries v ++ charges cfg v [C.entry s line act] := by
  intro s'
  obtain ⟨hring, hcap⟩ := h.rings v
  have hcharge := ok.allowed.keepsRings.ring_charge
    (s := { s with toWorld := w, segBytes := n, journal := s.journal ++ [C.entry s line act] }) hok
    (C.entry s line act) v
  change (s'.uids.node v).ring = if s.cfg.rateMaxInWindow ≠ 0 ∧ _ then
    (s.uids.node v).ring.uidPush _ _ else (s.uids.node v).ring at hcharge
  have hof : ∀ u : UidState, u.Ring → u.cap = ringCap cfg → (s'.uids.node v).ring = u.ring →
      (s'.uids.node v).Ring ∧ (s'.uids.node v).cap = ringCap cfg ∧
        s'.uids.entries v = u.entries := by
    intro u hu hc heq
    have hcapeq : (s'.uids.node v).ring.cap = u.ring.cap := by rw [heq]
    exact ⟨hu.of_ring heq, hcapeq.trans hc, UidState.entries_of_ring heq⟩
  rw [charges_singleton, ← h.cfg_eq]
  rw [h.cfg_eq] at hcharge ⊢
  split at hcharge
  · rename_i hv
    rw [if_pos hv]
    have hlt := ok.rate (h.cfg_eq.symm ▸ hv.1)
    rw [hv.2, h.cfg_eq, ← ringCap_of_on hv.1, ← hcap] at hlt
    obtain ⟨hentries, hring'⟩ := UidState.entries_uidPush hring (C.entry s line act).now
      (C.entry s line act).size
    rw [if_neg (UInt32.ne_of_lt hlt)] at hentries
    rw [← UidState.ring_uidPush] at hcharge
    obtain ⟨h₁, h₂, h₃⟩ := hof _ hring' ((UidState.uidPush_cap _ _ _).trans hcap) hcharge
    exact ⟨h₁, h₂, h₃.trans hentries⟩
  · rename_i hv
    rw [if_neg hv, List.append_nil]
    exact hof _ hring hcap hcharge

/-- What a rotation carries are the windows of the rings after it. -/
theorem rateSegment_carry (hl : Live S s) (hp : s.poisoned = false) (hcfg : s.cfg = cfg)
    {th : UInt64} {t : UidTable} {th' : UInt64} (hev : UidTable.Evicts s.cfg th' s.uids t)
    (hrecent : ∀ v, Recent Prod.fst th (charges cfg v s.journal) (t.entries v)) {ls : List Bytes}
    (hci : CarryIntents S s.opens.heap s.opens.walk ls) :
    RateSegment S cfg th s.journal (ls ++ rateLines S t (carriedUids s)) := by
  intro hparse v
  have hwf := hl.tables.opens
  have hnone : segmentPushes S cfg v ls = [] :=
    segmentPushes_carryIntents (carriable_of_ledger hl.guarded hwf (hl.view_eq hp)) hci
      (fun a ha => hwf.mem_walk.mp ha) (fun line hline => hparse line (by simp [hline])) v
  rw [segmentPushes_append, hnone, List.nil_append]
  have hv := hrecent v
  by_cases hoff : cfg.rateMaxInWindow = 0
  · -- without a rate limit nothing is charged and no window is carried
    have hcarried : carriedUids s = [] := by rw [carriedUids, hcfg, if_pos hoff]
    have hcharges : charges cfg v s.journal = [] := if_pos hoff
    rw [hcarried, hcharges]
    exact Recent.refl _ _
  · rw [segmentPushes_rateLines hoff t (nodup_carriedUids hl.tables.uids)]
    split
    · exact hv
    · rename_i hnot
      have hzero := node_of_notMem_carriedUids hl.tables.uids (hcfg.symm ▸ hoff) hnot
      have hnil : t.entries v = [] := by
        rw [UidTable.entries]
        rcases hev.node v with hn | hn
        · rw [hn, hzero]
          rfl
        · rw [hn, hzero]
          rfl
      rwa [hnil] at hv

theorem Stays.windows {E : Env} (hst : Stays S E s s') (healthy : s.poisoned = false)
    (hl : Live S s) (hf : E.Forward s) (hw : LiveWindows S cfg s) : LiveWindows S cfg s' := by
  obtain ⟨-, hle, now, hev, hnow, hnow'⟩ := hst.toCarries.rotates.forward hf
  obtain ⟨hrings, hrecent⟩ := hw.evicts hev hnow hnow'
  obtain ⟨hdisk, -, -⟩ := hst.onDisk (hl.ready healthy).1 hl.fs_ok hw.disk
  have hj : s'.journal = s.journal := by rw [hst.rest]
  have hp : s'.poisoned = s.poisoned := hst.poisoned_eq
  have hlater : Windowed S cfg { s' with lastClock := s.lastClock } :=
    ⟨hj ▸ hw.guarded, by rw [hj]; exact hdisk, by rw [hj]; exact hw.bounded⟩
  refine ⟨hlater.later rfl rfl hle, hst.cfg_eq.trans hw.cfg_eq, hrings, fun hp' v => ?_⟩
  rw [hj]
  exact hrecent (hp ▸ hp') v

theorem Turns.windows {E : Env} (htu : Turns S E s s') (healthy : s.poisoned = false)
    (hl : Live S s) (hf : E.Forward s) (hw : LiveWindows S cfg s) : LiveWindows S cfg s' := by
  obtain ⟨-, hle, now, hev, hnow, hnow'⟩ := htu.toRotates.forward hf
  obtain ⟨hrings, hrecent⟩ := hw.evicts hev hnow hnow'
  have hlater : Windowed S cfg { s with lastClock := s'.lastClock } :=
    hw.toWindowed.later rfl rfl hle
  obtain ⟨hdisk, -⟩ := htu.onDisk hlater.disk fun ls hls =>
    rateSegment_carry hl healthy hw.cfg_eq hev (hrecent healthy) hls
  refine ⟨⟨htu.journal_eq ▸ hw.guarded, by rw [htu.journal_eq]; exact hdisk,
    by rw [htu.journal_eq]; exact hlater.bounded⟩, htu.cfg_eq.trans hw.cfg_eq, hrings,
    fun _ v => ?_⟩
  rw [htu.journal_eq]
  exact hrecent healthy v

/-- Every move keeps the windows. -/
theorem Move.windows (h : Move S C s s') (hC : C.Parsed S) (hfresh : FreshCid C s) (hl : Live S s)
    (hf : C.env.Forward s) (hw : LiveWindows S cfg s) : LiveWindows S cfg s' := by
  have hrefl := UInt64.le_refl s.lastClock
  cases h with
  | clock =>
    have hle : s.lastClock ≤ (s.readClock C.env).2.lastClock := hf.next _ le_rfl
    exact ⟨hw.toWindowed.later rfl rfl hle, hw.cfg_eq, hw.rings,
      fun hp v => (hw.recent hp v).mono (winTh_mono cfg hle)⟩
  | check hev =>
    obtain ⟨hrings, hrecent⟩ := hw.evicts hev hrefl hrefl
    exact ⟨hw.toWindowed.later rfl rfl hrefl, hw.cfg_eq, hrings, hrecent⟩
  | @torn w b healthy hb hfs =>
    have hdisk : OnDisk S (RateSegment S cfg (winTh cfg s.lastClock) s.journal) w.fs :=
      hfs ▸ (hl.ready healthy).1.torn hw.disk hb
    exact ⟨⟨hw.guarded, hdisk, hw.bounded⟩, hw.cfg_eq, hw.rings, by simp⟩
  | landed ok hfs => exact ⟨hw.windowed_line hl hC hfresh ok rfl hfs rfl, hw.cfg_eq, hw.rings, by simp⟩
  | @append w n line act install ok hfs =>
    have hring := hw.charged hl.tables.uids ok w n
    refine ⟨hw.windowed_line hl hC hfresh ok rfl hfs rfl, ?_,
      fun v => ⟨(hring v).1, (hring v).2.1⟩, fun _ v => ?_⟩
    · exact (ok.allowed.install_uids hl.tables.uids).1.trans hw.cfg_eq
    · rw [(hring v).2.2]
      exact recent_charges_concat (hw.recent ok.healthy v) _
  | stay healthy hst => exact hst.windows healthy hl hf hw
  | turn healthy htu => exact htu.windows healthy hl hf hw

theorem Moves.windows (h : Moves S C s s') (hC : C.Parsed S) (hfresh : FreshCid C s)
    (hl : Live S s) (hf : C.env.Forward s) (hw : LiveWindows S cfg s) :
    Live S s' ∧ C.env.Forward s' ∧ LiveWindows S cfg s' := by
  induction h with
  | refl => exact ⟨hl, hf, hw⟩
  | tail hmoves hmove ih =>
    obtain ⟨hl', hf', hw'⟩ := ih
    have hfresh' := Moves.freshCid hmoves hfresh
    exact ⟨hmove.live hC hfresh' hl', (hmove.forward hf').1, hmove.windows hC hfresh' hl' hf' hw'⟩

end Invariant

/-! ## Starts and runs -/

section Runs

variable {S : Site} {cfg : Config} {E : Env} {s s' s₀ : St} {fs : Fs} {evs : List Event} {ev : Event}

/-- A crash keeps the windows. -/
theorem Windowed.of_mem_dirs (h : Windowed S cfg s) (hj : s'.journal = s.journal)
    (hclock : s'.lastClock = s.lastClock) (hd : s'.fs.dir ∈ s.fs.dirs)
    (hnode : s'.fs.node = s.fs.node) (hundo : s'.fs.undo = none) : Windowed S cfg s' where
  guarded := hj ▸ h.guarded
  disk := by
    rw [hj, hclock]
    exact h.disk.of_mem_dirs hd hnode hundo
  bounded := by
    rw [hj, hclock]
    exact h.bounded

/-- The rings that a start rebuilds are the windows of the whole history. -/
theorem windows_of_open (hcap : cfg.rateMaxInWindow.toNat ≤ 2 ^ 31) (hs : Sound S s)
    (hw : Windowed S cfg s) (hundo : s.fs.undo = none)
    (hopen : rabBrokerOpen S E cfg s = (none, s')) (v : UInt32) :
    ((s'.uids.node v).Ring ∧ (s'.uids.node v).cap = ringCap cfg) ∧
      Recent Prod.fst (winTh cfg s.lastClock) (charges cfg v s.journal) (s'.uids.entries v) := by
  have hspec := (rabBrokerOpen_spec S E cfg hundo hs.fs_ok).2
  rw [hopen] at hspec
  obtain ⟨hne, -⟩ | ⟨-, hstarted⟩ := hspec
  · exact absurd rfl hne
  obtain ⟨total, R, hR, htables⟩ := hstarted.replay
  have hrate := hw.disk.sinkFile.lines
  have hne : ∀ line ∈ sinkLines (sinkFile S s.fs), line ≠ [] :=
    fun line hline => (hs.disk.sinkFile.lines.isLine line hline).ne_nil
  have hpushed := hrate (parsed_of_replayLines hne hR) v
  set P := segmentPushes S cfg v (sinkLines (sinkFile S s.fs)) with hP
  have hring : (s'.uids.node v).ring = ((UidState.zero (ringCap cfg)).pushAll P).ring := by
    have huids : s'.uids = R.tables.uids := congrArg Tables.uids htables
    have hreplay := ring_replayLines (UidTable.fits_init cfg) hne hR v
    rw [huids, hreplay]
    exact (ring_pushAll (UidState.zero (ringCap cfg)) P).symm
  obtain ⟨hqueue, hc, old, hold, hfull⟩ :=
    UidState.entries_pushAll_zero (ringCap_pos cfg) (ringCap_le hcap) P
  have hcapeq : (s'.uids.node v).ring.cap = ((UidState.zero (ringCap cfg)).pushAll P).ring.cap := by
    rw [hring]
  refine ⟨⟨hqueue.of_ring hring, hcapeq.trans hc⟩, ?_⟩
  rw [UidTable.entries, UidState.entries_of_ring hring]
  by_cases hnil : old = []
  · rw [hnil, List.nil_append] at hold
    rw [← hold]
    exact hpushed
  · -- what overflowed is older than the window, which fits the ring
    obtain ⟨L, hL, hlen⟩ := hw.bounded v
    obtain ⟨old', hstream, -⟩ := hpushed
    have hsuffix : charges cfg v s.journal =
        (old' ++ old) ++ ((UidState.zero (ringCap cfg)).pushAll P).entries := by
      rw [hstream, List.append_assoc, ← hold]
    exact hL.of_length_le hsuffix (by rw [hfull hnil]; exact hlen)

theorem windows_of_start (hcap : cfg.rateMaxInWindow.toNat ≤ 2 ^ 31) (hs : Sound S s)
    (hw : Windowed S cfg s) {rollback : Bool}
    (hopen : rabBrokerOpen S E cfg (s.found rollback) = (none, s')) (v : UInt32) :
    ((s'.uids.node v).Ring ∧ (s'.uids.node v).cap = ringCap cfg) ∧
      Recent Prod.fst (winTh cfg s.lastClock) (charges cfg v s.journal) (s'.uids.entries v) := by
  obtain ⟨hsound, hundo⟩ := hs.settle rollback
  have hfound : Sound S (s.found rollback) := hsound.congr rfl rfl
  have hwindowed : Windowed S cfg (s.found rollback) :=
    hw.of_mem_dirs rfl rfl (dir_settle_mem s rollback) rfl hundo
  exact windows_of_open hcap hfound hwindowed hundo hopen v

/-- The clock of a run does not go back: within an event, and from the last reading that was taken to
the next event. -/
structure ForwardRun (S : Site) (s₀ : St) (evs : List Event) : Prop where
  mono : ∀ ev ∈ evs, ∀ j k, j ≤ k → ev.env.clock j ≤ ev.env.clock k
  next : ∀ n ev, evs[n]? = some ev → (run S s₀ (evs.take n)).lastClock ≤ ev.env.clock 0

theorem ForwardRun.of_append {evs' : List Event} (h : ForwardRun S s₀ (evs ++ evs')) :
    ForwardRun S s₀ evs := by
  refine ⟨fun ev hev => h.mono ev (by simp [hev]), fun n ev hev => ?_⟩
  have hlt : n < evs.length := (List.getElem?_eq_some_iff.mp hev).1
  have hnext := h.next n ev (by rw [List.getElem?_append_left hlt, hev])
  rwa [List.take_append_of_le_length hlt.le] at hnext

/-- The next event starts with the last reading behind it. -/
theorem ForwardRun.forward (h : ForwardRun S s₀ (evs ++ [ev])) :
    ev.env.Forward (run S s₀ evs).begin_ := by
  have hmono := h.mono ev (by simp)
  have hnext := h.next evs.length ev (by simp)
  rw [List.take_left] at hnext
  exact ⟨hmono, fun k _ => UInt64.le_trans hnext (hmono 0 k (Nat.zero_le k))⟩

/-- The invariant between events. -/
structure RateTraced (S : Site) (cfg : Config) (s : St) : Prop where
  windowed : Windowed S cfg s
  live : s.alive = true → LiveWindows S cfg s

theorem LiveWindows.congr (h : LiveWindows S cfg s) (hj : s'.journal = s.journal)
    (hfs : s'.fs = s.fs) (huids : s'.uids = s.uids) (hcfg : s'.cfg = s.cfg)
    (hp : s'.poisoned = s.poisoned) (hclock : s'.lastClock = s.lastClock) :
    LiveWindows S cfg s' where
  toWindowed := h.toWindowed.later hj hfs (hclock ▸ UInt64.le_refl _)
  cfg_eq := hcfg.trans h.cfg_eq
  rings := huids ▸ h.rings
  recent hpois v := by
    rw [hj, huids, hclock]
    exact h.recent (hp ▸ hpois) v

/-- A start keeps the windows on disk, and the new process has them in its rings. -/
theorem RateTraced.start (h : RateTraced S cfg s) (hcap : cfg.rateMaxInWindow.toNat ≤ 2 ^ 31)
    (hs : Sound S s) (env : Env) (rollback : Bool) :
    RateTraced S cfg (step S s (.start env cfg rollback)).2 := by
  obtain ⟨hsound, hundo⟩ := hs.settle rollback
  obtain ⟨⟨-, -, hdisk⟩, hopen⟩ :=
    rabBrokerOpen_spec (s := s.found rollback) S env cfg hundo hsound.fs_ok
  have hdisk := hdisk _ (h.windowed.disk.of_mem_dirs (dir_settle_mem s rollback) rfl hundo)
  rw [step_start]
  cases heq : rabBrokerOpen S env cfg (s.found rollback) with
  | mk err s' =>
    rw [heq] at hdisk hopen
    simp only at hdisk hopen
    have hsame : s'.journal = s.journal ∧ s'.lastClock = s.lastClock := by
      rcases hopen with ⟨-, hrest⟩ | ⟨-, hstarted⟩
      · rw [hrest]
        exact ⟨rfl, rfl⟩
      · rw [hstarted.rest]
        exact ⟨rfl, rfl⟩
    have hw : Windowed S cfg s' :=
      ⟨hsame.1 ▸ h.windowed.guarded, by rw [hsame.1, hsame.2]; exact hdisk,
        by rw [hsame.1, hsame.2]; exact h.windowed.bounded⟩
    refine ⟨hw.later rfl rfl (UInt64.le_refl _), fun halive => ?_⟩
    have halive' : s'.alive = true := (Bool.and_eq_true_iff.mp halive).1
    cases err with
    | some e =>
      rw [alive_of_refused heq] at halive'
      cases halive'
    | none =>
      have hring := windows_of_start hcap hs h.windowed heq
      have hlive : LiveWindows S cfg s' := by
        refine ⟨hw, (fits_rabBrokerOpen heq).1, fun v => (hring v).1, fun _ v => ?_⟩
        rw [hsame.1, hsame.2]
        exact (hring v).2
      exact hlive.congr rfl rfl rfl rfl rfl rfl

/-- The rings of a request of a run, to a living process. -/
theorem RateTraced.handle (h : RateTraced S cfg s) (ht : Traced S s₀ evs s) {env : Env}
    {peer : Actor} {body : Bytes} {req : Request}
    (hids : FreshIds S (evs ++ [.request env peer body])) (halive : s.alive = true)
    (hreq : rabParseRequest S.codec body = .ok req) (hf : env.Forward s.begin_) {s₁ : St}
    (hm : Moves S { env, peer, req } s.begin_ s₁) :
    Live S s₁ ∧ env.Forward s₁ ∧ LiveWindows S cfg s₁ :=
  hm.windows ⟨body, hreq⟩ (ht.freshCid hids hreq) (ht.inv.live halive).begin_ hf
    ((h.live halive).congr rfl rfl rfl rfl rfl rfl)

theorem RateTraced.step (h : RateTraced S cfg s) (hcap : cfg.rateMaxInWindow.toNat ≤ 2 ^ 31)
    (ht : Traced S s₀ evs s) (hE : ev.env.UnlinksWork) (hids : FreshIds S (evs ++ [ev]))
    (hu : Under cfg [ev]) (hf : ev.env.Forward s.begin_) : RateTraced S cfg (step S s ev).2 := by
  cases ev with
  | request env peer body =>
    simp only [AuditBroker.step]
    split
    · rename_i halive
      unfold connHandle
      split
      · have hlive := h.live halive
        exact ⟨hlive.toWindowed.later rfl rfl (UInt64.le_refl _),
          fun _ => hlive.congr rfl rfl rfl rfl rfl rfl⟩
      · rename_i req hreq
        obtain ⟨-, -, hlive⟩ := h.handle ht hids halive hreq hf (ht.moves peer req hE halive)
        exact ⟨hlive.toWindowed.later rfl rfl (UInt64.le_refl _),
          fun _ => hlive.congr rfl rfl rfl rfl rfl rfl⟩
    · rename_i hdead
      exact ⟨h.windowed.later rfl rfl (UInt64.le_refl _), fun halive => absurd halive hdead⟩
  | start env cfg' rollback =>
    obtain rfl : cfg' = cfg := hu env cfg' rollback (by simp)
    exact h.start hcap ht.inv.toSound env rollback

/-- After every run from an empty sink under one configuration, with a clock that does not go back,
the history, the files and the rings agree about the windows. -/
theorem rateTraced_run (hsink : EmptySink S fs) (hunlinks : UnlinksRun evs)
    (hids : FreshIds S evs) (hu : Under cfg evs) (hcap : cfg.rateMaxInWindow.toNat ≤ 2 ^ 31)
    (hf : ForwardRun S (St.initial fs) evs) :
    RateTraced S cfg (run S (St.initial fs) evs) := by
  induction evs using List.reverseRecOn with
  | nil =>
    refine ⟨⟨.nil, ?_, fun v => ⟨[], ?_, Nat.zero_le _⟩⟩, fun halive => by cases halive⟩
    · have hundo : (run S (St.initial fs) []).fs.undo = none := hsink.undo
      have hdisk := (traced_initial hsink).inv.disk
      rw [onDisk_iff_of_undo hundo]
      refine ⟨hdisk.sinkFile.regular, ?_⟩
      have hlines : sinkLines (sinkFile S (run S (St.initial fs) []).fs) = [] := by
        cases hfile : sinkFile S (run S (St.initial fs) []).fs with
        | none => rfl
        | some n => simp [sinkLines, (hsink.empty n hfile).2.2, splitLines]
      rw [hlines]
      exact rateSegment_nil S cfg _
    · change Recent _ _ (charges cfg v []) []
      rw [charges_nil]
      exact Recent.refl _ _
  | append_singleton evs ev ih =>
    have hpre : Under cfg evs := fun env cfg' rollback hmem =>
      hu env cfg' rollback (List.mem_append_left _ hmem)
    have hlast : Under cfg [ev] := fun env cfg' rollback hmem =>
      hu env cfg' rollback (List.mem_append_right _ hmem)
    rw [run_concat]
    have ht := traced_run hsink hunlinks.of_append hids.of_append
    exact (ih hunlinks.of_append hids.of_append hpre hf.of_append).step hcap ht hunlinks.last hids
      hlast hf.forward

end Runs

end AuditBroker
