import AuditBroker.Journal
import AuditBroker.Reconstruct

/-!
# Reconstruction follows the ledger

Replaying the line of an entry turns tables that stand for a history into tables that stand for the
history with the entry (`replayLine_entry`).  So every segment that holds the lines of a history, or
the carried records of a rotation followed by the lines after it, is read back as the ledger of the
history: `Segment`.
-/

namespace AuditBroker

open Foundation

/-! ## Closed correlation ids -/

namespace CidSet

theorem has_init (hint : ℕ) (cid : Buf cidMax) : (init hint).has cid = false := rfl

theorem has_add {s : CidSet} {cid c : Buf cidMax} :
    (s.add cid).has c = true ↔ c = cid ∨ s.has c = true := by
  unfold has add
  simp only [List.any_eq_true, Chains.mem_push, beq_iff_eq, ← Buf.ext_iff']
  constructor
  · rintro ⟨x, ⟨rfl, -⟩ | hx, rfl⟩
    · exact Or.inl rfl
    · exact Or.inr ⟨x, hx, rfl⟩
  · rintro (rfl | ⟨x, hx, rfl⟩)
    · exact ⟨c, Or.inl ⟨rfl, rfl⟩, rfl⟩
    · exact ⟨x, Or.inr hx, rfl⟩

end CidSet

/-! ## One record -/

/-- The replayed tables stand for a history. -/
structure Replay.Tracks (R : Replay) (J : List Entry) : Prop where
  ok : R.tables.Ok
  view : R.tables.opens.view = ledger J
  /-- Only a correlation id with an outcome counts as closed. -/
  closed : ∀ cid, R.closed.has cid = true → ∃ e ∈ J, e.act = .outcome cid

/-- The tables agree but for the open set and the charge of one line. -/
def Tables.Charges (t t' : Tables) (uid : UInt32) (time nbytes : UInt64) : Prop :=
  t'.cfg = t.cfg ∧ (t.cfg.rateMaxInWindow ≠ 0 → ∀ v, (t'.uids.node v).ring =
    if v = uid then (t.uids.node v).ring.uidPush time nbytes else (t.uids.node v).ring)

/-- The tables agree but for the open set. -/
def Tables.SameRings (t t' : Tables) : Prop :=
  t'.cfg = t.cfg ∧ ∀ v, (t'.uids.node v).ring = (t.uids.node v).ring

theorem Tables.SameRings.trans {t t' t'' : Tables} (h : t.SameRings t') (h' : t'.SameRings t'') :
    t.SameRings t'' :=
  ⟨h'.1.trans h.1, fun v => (h'.2 v).trans (h.2 v)⟩

variable {S : Site} {R R' : Replay} {J : List Entry} {e : Entry} {cid : Buf cidMax}
  {oi : OpenIntent} {r : Receipt}

theorem Replay.tracks_init (cfg : Config) (total : ℕ) : (Replay.init cfg total).Tracks [] where
  ok := Tables.ok_init cfg
  view := rfl
  closed := by
    intro cid h
    exact absurd h (by simp [Replay.init, CidSet.has_init])

theorem Replay.Tracks.closed_snoc (hT : R.Tracks J) (e : Entry) (cid : Buf cidMax)
    (h : R.closed.has cid = true) : ∃ e' ∈ J ++ [e], e'.act = .outcome cid := by
  obtain ⟨e', he', hact⟩ := hT.closed cid h
  exact ⟨e', List.mem_append_left _ he', hact⟩

/-- The node of an open intent. -/
theorem Replay.Tracks.find (hT : R.Tracks J) (hoi : ledger J cid = some oi) :
    ∃ a, R.tables.opens.openFindCid cid.bytes = some a ∧ R.tables.opens.Open a ∧
      (R.tables.opens.heap a).cid = cid ∧ (R.tables.opens.heap a).toOpenIntent = oi := by
  have hview : R.tables.opens.view cid = some oi := by rw [hT.view, hoi]
  obtain ⟨a, hopen, hcid, hoi⟩ := hT.ok.opens.view_eq_some_iff.mp hview
  exact ⟨a, hT.ok.opens.openFindCid_eq_some_iff.mpr ⟨hopen, hcid⟩, hopen, hcid, hoi⟩

/-- A correlation id that was never opened is neither open nor closed. -/
theorem Replay.Tracks.fresh (hJ : Guarded (EntryGuard S) J) (hT : R.Tracks J)
    (hfresh : ∀ e' ∈ J, ∀ oi', e'.act ≠ .intent cid oi') :
    R.tables.opens.view cid = none ∧ R.closed.has cid = false := by
  constructor
  · rw [hT.view, Option.eq_none_iff_forall_ne_some]
    intro oi hoi
    obtain ⟨e', he', hact⟩ := opened_of_ledger hJ hoi
    exact hfresh e' he' _ hact
  · rw [Bool.eq_false_iff]
    intro hcl
    obtain ⟨e', he', hact⟩ := hT.closed cid hcl
    obtain ⟨J₁, J₂, rfl⟩ := List.append_of_mem he'
    obtain ⟨e₀, he₀, oi₀, hact₀⟩ := opened_before hJ rfl (Or.inl hact)
    exact hfresh e₀ (List.mem_append_left _ he₀) oi₀ hact₀

theorem OpenSet.openFindCid_eq_none {o : OpenSet} (h : o.view cid = none) :
    o.openFindCid cid.bytes = none := by
  rwa [OpenSet.view, Option.map_eq_none_iff] at h

/-- Applying an intent record. -/
theorem applyStored_intent (hJ : Guarded (EntryGuard S) J) (hT : R.Tracks J)
    (hact : e.act = .intent cid oi) (hg : OpenGuard S J e cid oi) :
    ∃ R', applyStored R e.stored = .ok R' ∧ R'.Tracks (J ++ [e]) ∧
      R.tables.SameRings R'.tables := by
  obtain ⟨hview, hclosed⟩ := hT.fresh hJ hg.fresh
  obtain ⟨hok, hring⟩ := hT.ok.openAdd hview oi.binding e.peer
    (recStr metaMax e.req.record "operation") (recStr metaMax e.req.record "resource")
    (recStr scopeMax e.req.record "scope")
  refine ⟨⟨R.tables.openAdd _ _ _ _ _ _, R.closed⟩, ?_, ⟨hok, ?_, ?_⟩, rfl, hring⟩
  · have hb : oi.binding.bytes ≠ [] := rabMakeBinding_ne_nil hg.binding_minted
    simp [Entry.stored, hact, applyStored, applyOpening, metadata, hb,
      OpenSet.openFindCid_eq_none hview, hclosed]
  · rw [ledger_snoc, hact, Act.apply, hg.oi_eq, ← hT.view]
    exact hT.ok.opens.view_openAdd hview
  · exact hT.closed_snoc e

/-- Applying an outcome record. -/
theorem applyStored_outcome (hT : R.Tracks J) (hact : e.act = .outcome cid)
    (hg : OutcomeGuard S J e cid) :
    ∃ R', applyStored R e.stored = .ok R' ∧ R'.Tracks (J ++ [e]) ∧
      R.tables.SameRings R'.tables := by
  obtain ⟨oi, hoi, -⟩ := hg.opened
  obtain ⟨a, hfind, hopen, hcid, -⟩ := hT.find hoi
  obtain ⟨hok, hring⟩ := hT.ok.openRemove a
  refine ⟨{ tables := R.tables.openRemove a, closed := R.closed.add cid }, ?_, ⟨hok, ?_, ?_⟩,
    rfl, hring⟩
  · have hp : phaseOutcome ≠ phaseIntent := by decide
    simp [Entry.stored, hact, applyStored, metadata, hp, hfind]
  · rw [ledger_snoc, hact, Act.apply, ← hT.view, ← hcid]
    exact hT.ok.opens.view_openRemove hopen
  · intro c hc
    rcases CidSet.has_add.mp hc with rfl | hc
    · exact ⟨e, by simp, hact⟩
    · exact hT.closed_snoc e c hc

/-- Applying the record of an emit. -/
theorem applyStored_emit (hT : R.Tracks J) (hact : e.act = .emit cid) (hg : EmitGuard S e cid) :
    ∃ R', applyStored R e.stored = .ok R' ∧ R'.Tracks (J ++ [e]) ∧
      R.tables.SameRings R'.tables := by
  obtain ⟨hni, hno, -⟩ := hg.phase_ne
  refine ⟨R, ?_, ⟨hT.ok, ?_, ?_⟩, rfl, fun _ => rfl⟩
  · simp [Entry.stored, hact, applyStored, hni, hno]
  · rw [ledger_snoc, hact, Act.apply_emit, hT.view]
  · exact hT.closed_snoc e

/-- Applying the record of an issued receipt. -/
theorem applyStored_issue (hT : R.Tracks J) (hact : e.act = .receipt cid r)
    (hg : IssueGuard S J e cid r) :
    ∃ R', applyStored R e.stored = .ok R' ∧ R'.Tracks (J ++ [e]) ∧
      R.tables.SameRings R'.tables := by
  obtain ⟨oi, hoi, hnone, hbound⟩ := hg.ledger_eq
  obtain ⟨a, hfind, hopen, hcid, heq⟩ := hT.find hoi
  have hrcpt : (R.tables.opens.heap a).receipt = none := by rw [← hnone, ← heq]
  have hver : R.tables.opens.openFindVerifier r.verifier.bytes = none := by
    obtain ⟨token, attempt, -, hv⟩ := hg.minted
    rw [hT.ok.opens.openFindVerifier_eq_none_iff (by rw [hv]; exact verifierOf_ne_nil S _)]
    intro c oi' r' hoi' hr' heq'
    rw [hT.view] at hoi'
    exact hg.fresh c oi' r' hoi' hr' (Buf.ext heq')
  refine ⟨{ R with tables := R.tables.installReceipt a r }, ?_,
    ⟨⟨hT.ok.opens.installReceipt hopen hrcpt, hT.ok.uids⟩, ?_, ?_⟩, rfl, fun _ => rfl⟩
  · subst heq
    simp [Entry.stored, hact, applyStored, hfind, applyReceipt, hbound, hrcpt, hg.state, hver,
      Except.map]
  · rw [ledger_snoc, hact, Act.apply, hoi, ← hT.view, ← hcid, Option.map_some, ← heq]
    exact hT.ok.opens.view_installReceipt hopen hrcpt
  · exact hT.closed_snoc e

/-- Applying the record of a redeemed receipt. -/
theorem applyStored_redeem (hJ : Guarded (EntryGuard S) J) (hT : R.Tracks J)
    (hact : e.act = .receipt cid r) (hg : RedeemGuard S J e cid r) :
    ∃ R', applyStored R e.stored = .ok R' ∧ R'.Tracks (J ++ [e]) ∧
      R.tables.SameRings R'.tables := by
  obtain ⟨oi, r₀, hoi, hr₀, hissued, hr⟩ := hg.opened
  obtain ⟨a, hfind, hopen, hcid, heq⟩ := hT.find hoi
  have hbound := bound_of_ledger hJ hoi hr₀
  have hrcpt : (R.tables.opens.heap a).receipt = some r₀ := by rw [← hr₀, ← heq]
  have hv : r.verifier = r₀.verifier := by rw [hr]
  refine ⟨{ R with tables := R.tables.setReceipt a r }, ?_,
    ⟨⟨hT.ok.opens.setReceipt hrcpt hv, hT.ok.uids⟩, ?_, ?_⟩, rfl, fun _ => rfl⟩
  · subst heq
    have hb : receiptBoundEq r₀ r = true := by simp [receiptBoundEq, hr]
    have hbound' : r.actorUid = (R.tables.opens.heap a).actor.uid ∧
        r.verb = (R.tables.opens.heap a).operation ∧
        r.resource = (R.tables.opens.heap a).resource := by rw [hr]; exact hbound
    have hst : r.state = .redeemed := by rw [hr]
    have hset : { r₀ with state := .redeemed, acceptedTimeUs := r.acceptedTimeUs } = r := by
      rw [hr]
    simp [Entry.stored, hact, applyStored, hfind, applyReceipt, hbound', hrcpt, hissued, hst, hb,
      hset, Except.map]
  · rw [ledger_snoc, hact, Act.apply, hoi, ← hT.view, ← hcid, Option.map_some, ← heq]
    exact hT.ok.opens.view_setReceipt hopen hrcpt hv
  · exact hT.closed_snoc e

/-- Applying the record of a line that was appended under its guard. -/
theorem applyStored_entry (hJ : Guarded (EntryGuard S) J) (hT : R.Tracks J)
    (hg : EntryGuard S J e) :
    ∃ R', applyStored R e.stored = .ok R' ∧ R'.Tracks (J ++ [e]) ∧
      R.tables.SameRings R'.tables := by
  cases hact : e.act with
  | intent cid oi => exact applyStored_intent hJ hT hact (hg.intent hact)
  | outcome cid => exact applyStored_outcome hT hact (hg.outcome hact)
  | emit cid => exact applyStored_emit hT hact (hg.emit hact)
  | receipt cid r =>
    rcases hg.receipt hact with hi | hr
    · exact applyStored_issue hT hact hi
    · exact applyStored_redeem hJ hT hact hr

/-! ## One line -/

/-- A line is replayed by applying its record and charging it. -/
theorem replayLine_eq_ok {line : Bytes} (hline : line ≠ []) :
    replayLine S R line = .ok R' ↔ ∃ st R₁, rabParseStored S.codec line = some st ∧
      applyStored R st = .ok R₁ ∧
      R' = { R₁ with tables := chargeStored R₁.tables st (UInt64.ofNat (line.length + 1)) } := by
  rw [replayLine, if_neg hline]
  cases rabParseStored S.codec line with
  | none => simp
  | some st =>
    cases ha : applyStored R st with
    | error err => simp [ha, Except.map]
    | ok R₁ => simp [ha, Except.map, eq_comm]

/-- A line is charged at replay as it was when it was appended. -/
theorem chargeStored_entry (hg : EntryGuard S J e) (t : Tables) :
    chargeStored t e.stored e.size = t.rateNote e.chargedUid e.now e.size := by
  unfold Entry.stored Entry.chargedUid
  cases hact : e.act with
  | intent cid oi => rfl
  | outcome cid => rfl
  | emit cid => rfl
  | receipt cid r =>
    have hacc : r.acceptedTimeUs = e.now := by
      rcases hg.receipt hact with hi | hr
      · exact hi.accepted
      · obtain ⟨oi, r₀, -, -, -, heq⟩ := hr.opened
        rw [heq]
    simp [chargeStored, hacc]

/-- Replaying the line of an entry: the tables then stand for the history with the entry, and its
charge is the only change to the rings. -/
theorem replayLine_entry (hJ : Guarded (EntryGuard S) J) (hT : R.Tracks J)
    (hg : EntryGuard S J e) :
    (∀ R', replayLine S R e.line = .ok R' → e.Readable ∧ R'.Tracks (J ++ [e]) ∧
      R.tables.Charges R'.tables e.chargedUid e.now e.size) ∧
    (e.Readable → ∃ R', replayLine S R e.line = .ok R') := by
  have hne := (isLine_of_guard hJ hg).ne_nil
  obtain ⟨R₁, happly, hT₁, hcfg, hring⟩ := applyStored_entry hJ hT hg
  obtain ⟨hok, hnote⟩ := hT₁.ok.rateNote e.chargedUid e.now e.size
  simp only [replayLine_eq_ok hne, rabParseStored_entry hJ hg]
  constructor
  · rintro R' ⟨st, R₂, ⟨hread, rfl⟩, happly₂, rfl⟩
    rw [happly, Except.ok.injEq] at happly₂
    subst happly₂
    have hcharge := chargeStored_entry hg R₁.tables
    refine ⟨hread, ⟨?_, ?_, hT₁.closed⟩, ?_⟩
    · exact hcharge ▸ hok
    · rw [← hT₁.view]
      exact congrArg (fun t => t.opens.view) hcharge
    · change R.tables.Charges (chargeStored R₁.tables e.stored e.size) _ _ _
      rw [hcharge]
      refine ⟨hcfg, fun hon v => ?_⟩
      rw [hnote (by rwa [hcfg]), hring]
  · exact fun hread => ⟨_, e.stored, R₁, ⟨hread, rfl⟩, happly, rfl⟩

/-! ## Segments -/

/-- A segment that reconstruction reads back as a history. -/
structure Segment (S : Site) (J : List Entry) (lines : List Bytes) : Prop where
  isLine : ∀ line ∈ lines, IsLine S.codec line
  /-- If the segment is accepted, the tables stand for the history. -/
  tracks : ∀ cfg total R, replayLines S (Replay.init cfg total) lines = .ok R → R.Tracks J
  /-- The segment is accepted if every line of the history can be parsed back. -/
  accepted : (∀ e ∈ J, e.Readable) →
    ∀ cfg total, ∃ R, replayLines S (Replay.init cfg total) lines = .ok R

@[simp] theorem replayLines_nil (R : Replay) : replayLines S R [] = .ok R := rfl

theorem replayLines_append_eq_ok {as bs : List Bytes} :
    replayLines S R (as ++ bs) = .ok R' ↔
      ∃ R₁, replayLines S R as = .ok R₁ ∧ replayLines S R₁ bs = .ok R' := by
  unfold replayLines
  rw [List.foldlM_append]
  cases List.foldlM (replayLine S) R as with
  | error err => simp [bind, Except.bind]
  | ok R₁ => simp [bind, Except.bind]

theorem replayLines_singleton (R : Replay) (line : Bytes) :
    replayLines S R [line] = replayLine S R line := by
  unfold replayLines
  rw [List.foldlM_cons]
  cases replayLine S R line <;> rfl

theorem replayLines_cons_eq_ok {line : Bytes} {lines : List Bytes} :
    replayLines S R (line :: lines) = .ok R' ↔
      ∃ R₁, replayLine S R line = .ok R₁ ∧ replayLines S R₁ lines = .ok R' := by
  rw [← List.singleton_append, replayLines_append_eq_ok]
  simp only [replayLines_singleton]

theorem segment_nil (S : Site) : Segment S [] [] where
  isLine := by simp
  tracks cfg total R h := by
    rw [replayLines_nil, Except.ok.injEq] at h
    exact h ▸ Replay.tracks_init cfg total
  accepted _ _ _ := ⟨_, replayLines_nil _⟩

/-- A segment with one more line. -/
theorem Segment.snoc (hJ : Guarded (EntryGuard S) J) {lines : List Bytes}
    (h : Segment S J lines) (hg : EntryGuard S J e) :
    Segment S (J ++ [e]) (lines ++ [e.line]) where
  isLine := by
    simp only [List.mem_append, List.mem_singleton]
    rintro line (hline | rfl)
    · exact h.isLine line hline
    · exact isLine_of_guard hJ hg
  tracks cfg total R' hR' := by
    obtain ⟨R, hR, hstep⟩ := replayLines_append_eq_ok.mp hR'
    rw [replayLines_singleton] at hstep
    exact ((replayLine_entry hJ (h.tracks cfg total R hR) hg).1 R' hstep).2.1
  accepted hread cfg total := by
    obtain ⟨R, hR⟩ := h.accepted (fun e' he' => hread e' (List.mem_append_left _ he')) cfg total
    obtain ⟨R', hR'⟩ := (replayLine_entry hJ (h.tracks cfg total R hR) hg).2
      (hread e (List.mem_append_right _ (List.mem_singleton_self _)))
    refine ⟨R', replayLines_append_eq_ok.mpr ⟨R, hR, ?_⟩⟩
    rw [replayLines_singleton, hR']

/-- Every line of an accepted segment can be parsed back. -/
theorem parsed_of_replayLines {lines : List Bytes} (hne : ∀ line ∈ lines, line ≠ [])
    (h : replayLines S R lines = .ok R') :
    ∀ line ∈ lines, (rabParseStored S.codec line).isSome = true := by
  induction lines generalizing R with
  | nil => simp
  | cons line lines ih =>
    obtain ⟨R₁, hline, hlines⟩ := replayLines_cons_eq_ok.mp h
    obtain ⟨st, -, hst, -⟩ := (replayLine_eq_ok (hne line (by simp))).mp hline
    simp only [List.mem_cons]
    rintro l (rfl | hl)
    · rw [hst]
      rfl
    · exact ih (fun x hx => hne x (by simp [hx])) hlines l hl

end AuditBroker
