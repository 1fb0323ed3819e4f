import AuditBroker.Replay

/-!
# Carried records

Rotation starts a segment with a checkpoint of every open intent, the checkpoint of its receipt, and
the rate window of every uid.  Reconstruction reads the checkpoints back as the open set that they
were written from (`carryIntents_tracks`) and the rate records as the windows.
-/

namespace AuditBroker

open Foundation

/-! ## The map of a list of nodes -/

section Carried

variable {heap : ℕ → Intent} {D : List ℕ} {a : ℕ} {cid : Buf cidMax}

/-- The map of the intents at some addresses. -/
def carried (heap : ℕ → Intent) (D : List ℕ) : Ledger :=
  D.foldl (fun L a => Function.update L (heap a).cid (some (heap a).toOpenIntent)) fun _ => none

theorem carried_snoc (heap : ℕ → Intent) (D : List ℕ) (a : ℕ) :
    carried heap (D ++ [a]) =
      Function.update (carried heap D) (heap a).cid (some (heap a).toOpenIntent) := by
  simp [carried]

/-- What the map holds is the intent at one of the addresses. -/
theorem mem_of_carried {oi : OpenIntent} (h : carried heap D cid = some oi) :
    ∃ a ∈ D, (heap a).cid = cid ∧ (heap a).toOpenIntent = oi := by
  induction D using List.reverseRecOn with
  | nil => simp [carried] at h
  | append_singleton D a ih =>
    rw [carried_snoc] at h
    by_cases hc : cid = (heap a).cid
    · rw [hc, Function.update_self, Option.some_inj] at h
      exact ⟨a, by simp, hc.symm, h⟩
    · rw [Function.update_of_ne hc] at h
      obtain ⟨b, hb, hcid, heq⟩ := ih h
      exact ⟨b, List.mem_append_left _ hb, hcid, heq⟩

theorem carried_eq_none (h : ∀ a ∈ D, (heap a).cid ≠ cid) : carried heap D cid = none := by
  rw [Option.eq_none_iff_forall_ne_some]
  intro oi hoi
  obtain ⟨a, ha, hcid, -⟩ := mem_of_carried hoi
  exact h a ha hcid

/-- The map holds the intent at every address, if their correlation ids differ. -/
theorem carried_eq_some (hinj : ∀ b ∈ D, (heap b).cid = (heap a).cid → b = a) (ha : a ∈ D) :
    carried heap D (heap a).cid = some (heap a).toOpenIntent := by
  induction D using List.reverseRecOn with
  | nil => simp at ha
  | append_singleton D b ih =>
    rw [carried_snoc]
    by_cases hc : (heap a).cid = (heap b).cid
    · have hb : b = a := hinj b (by simp) hc.symm
      rw [hb, Function.update_self]
    · rw [Function.update_of_ne hc]
      have hne : a ≠ b := fun h => hc (h ▸ rfl)
      have ha' : a ∈ D := by simpa [hne] using ha
      exact ih (fun d hd => hinj d (by simp [hd])) ha'

end Carried

theorem OpenSet.Wf.mem_walk {o : OpenSet} (h : o.Wf) {a : ℕ} : a ∈ o.walk ↔ o.Open a :=
  h.cid_placed.mem_walk fun _ => bucket_lt h.nbkt_pos _

/-- The map of all nodes is the map of the tables. -/
theorem OpenSet.Wf.carried_walk {o : OpenSet} (h : o.Wf) : carried o.heap o.walk = o.view := by
  funext cid
  cases hv : o.view cid with
  | none =>
    exact carried_eq_none fun a ha => h.view_eq_none_iff.mp hv a (h.mem_walk.mp ha)
  | some oi =>
    obtain ⟨a, hopen, rfl, rfl⟩ := h.view_eq_some_iff.mp hv
    exact carried_eq_some (fun b hb => h.cid_inj b a (h.mem_walk.mp hb) hopen)
      (h.mem_walk.mpr hopen)

/-! ## The lines -/

/-- The checkpoint line of an intent's receipt, if it has one. -/
def receiptCarry (S : Site) (it : Intent) : Option (List Bytes) :=
  match it.receipt with
  | none => some []
  | some r => (receiptLine S.codec it.cid true r).map fun line => [line]

/-- The lines that carry the intents at some addresses. -/
inductive CarryIntents (S : Site) (heap : ℕ → Intent) : List ℕ → List Bytes → Prop
  | nil : CarryIntents S heap [] []
  /-- A checkpoint, built at some time, and that of the receipt. -/
  | cons {a : ℕ} {as : List ℕ} {now : UInt64} {line : Bytes} {rls ls : List Bytes} :
      rabBuildCheckpoint S.codec (heap a).cid.bytes (heap a).binding.bytes (heap a).actor now
        (heap a).operation.bytes (heap a).resource.bytes (heap a).scope.bytes = some line →
      receiptCarry S (heap a) = some rls → CarryIntents S heap as ls →
      CarryIntents S heap (a :: as) (line :: (rls ++ ls))

/-- What the carried records need to know of an open set. -/
structure Carriable (o : OpenSet) : Prop where
  wf : o.Wf
  ne_nil : ∀ a, o.Open a → (o.heap a).cid.bytes ≠ [] ∧ (o.heap a).binding.bytes ≠ []
  /-- A receipt is bound to its intent. -/
  receipt : ∀ a r, o.Open a → (o.heap a).receipt = some r → r.planSchema = planSchemaV1 ∧
    r.verifier.bytes ≠ [] ∧ r.actorUid = (o.heap a).actor.uid ∧ r.verb = (o.heap a).operation ∧
    r.resource = (o.heap a).resource
  verifier_inj : ∀ a b r r', o.Open a → o.Open b → (o.heap a).receipt = some r →
    (o.heap b).receipt = some r' → r.verifier = r'.verifier → a = b

/-- The open set of a history can be carried. -/
theorem carriable_of_ledger {S : Site} {J : List Entry} (hJ : Guarded (EntryGuard S) J)
    {o : OpenSet} (hwf : o.Wf) (hview : o.view = ledger J) : Carriable o where
  wf := hwf
  ne_nil a ha := ne_nil_of_ledger hJ (hview ▸ hwf.view_of_open ha)
  receipt a r ha hr := by
    have hoi : ledger J (o.heap a).cid = _ := hview ▸ hwf.view_of_open ha
    obtain ⟨-, J₁, e, J₂, r₀, -, -, hi, heq⟩ := issued_of_ledger hJ hoi hr
    obtain ⟨token, attempt, -, hv⟩ := hi.minted
    refine ⟨planSchema_of_ledger hJ hoi hr, ?_, bound_of_ledger hJ hoi hr⟩
    rw [heq]
    exact hv ▸ verifierOf_ne_nil S _
  verifier_inj a b r r' ha hb hr hr' hv :=
    hwf.cid_inj a b ha hb (verifier_inj hJ (hview ▸ hwf.view_of_open ha) hr
      (hview ▸ hwf.view_of_open hb) hr' hv)

/-! ## Reading the intents back -/

/-- The replayed tables stand for a map, and nothing counts as closed. -/
structure Replay.Shows (R : Replay) (L : Ledger) : Prop where
  ok : R.tables.Ok
  view : R.tables.opens.view = L
  closed : ∀ cid, R.closed.has cid = false

variable {S : Site} {R R' : Replay} {o : OpenSet} {D : List ℕ} {a : ℕ}

/-- Reading a checkpoint back. -/
theorem applyStored_checkpoint (hc : Carriable o) (ha : o.Open a) (hD : ∀ d ∈ D, o.Open d)
    (haD : a ∉ D) (hS : R.Shows (carried o.heap D)) (now : UInt64) :
    ∃ R', applyStored R (.checkpoint ⟨(o.heap a).cid, (o.heap a).binding, (o.heap a).actor, now,
        (o.heap a).operation, (o.heap a).resource, (o.heap a).scope⟩) = .ok R' ∧
      R'.Shows (Function.update (carried o.heap D) (o.heap a).cid
        (some { (o.heap a).toOpenIntent with receipt := none })) ∧
      R.tables.SameRings R'.tables ∧
      ∃ n, R'.tables.opens.openFindCid (o.heap a).cid.bytes = some n ∧
        R'.tables.opens.Open n ∧
        R'.tables.opens.heap n =
          { o.heap a with receipt := none, fromCheckpoint := true } := by
  have hview : R.tables.opens.view (o.heap a).cid = none := by
    rw [hS.view]
    refine carried_eq_none fun d hd heq => haD ?_
    rwa [← hc.wf.cid_inj d a (hD d hd) ha heq]
  obtain ⟨hok, hring⟩ := hS.ok.openAdd hview (o.heap a).binding (o.heap a).actor
    (o.heap a).operation (o.heap a).resource (o.heap a).scope
  set t := R.tables.openAdd (o.heap a).cid (o.heap a).binding (o.heap a).actor
    (o.heap a).operation (o.heap a).resource (o.heap a).scope with ht
  have hopen : t.opens.Open R.tables.opens.next := OpenSet.open_openAdd.mpr (Or.inl rfl)
  have hheap : t.opens.heap R.tables.opens.next = _ := OpenSet.heap_openAdd_next
  have hfind : t.opens.openFindCid (o.heap a).cid.bytes = some R.tables.opens.next :=
    hok.opens.openFindCid_eq_some_iff.mpr ⟨hopen, by rw [hheap]⟩
  obtain ⟨hwf, hmview, hmopen⟩ := hok.opens.markCheckpoint hopen
  have hmheap : (t.opens.markCheckpoint R.tables.opens.next).heap R.tables.opens.next =
      { o.heap a with receipt := none, fromCheckpoint := true } := by
    rw [OpenSet.markCheckpoint]
    simp only [Function.update_self, hheap]
  refine ⟨{ R with tables := { t with opens := t.opens.markCheckpoint R.tables.opens.next } }, ?_,
    ⟨⟨hwf, hok.uids⟩, ?_, hS.closed⟩, ⟨rfl, hring⟩, R.tables.opens.next, ?_,
    (hmopen _).mpr hopen, hmheap⟩
  · simp only [applyStored, applyOpening, if_neg (hc.ne_nil a ha).2,
      OpenSet.openFindCid_eq_none hview, hS.closed, Bool.false_eq_true, if_false, if_true, ← ht,
      hfind]
  · rw [hmview, ← hS.view]
    exact hS.ok.opens.view_openAdd hview
  · exact hwf.openFindCid_eq_some_iff.mpr ⟨(hmopen _).mpr hopen, by rw [hmheap]⟩

/-- Reading the checkpoint of a receipt back, right after that of its intent. -/
theorem applyStored_receiptCheckpoint (hc : Carriable o) (ha : o.Open a)
    (hD : ∀ d ∈ D, o.Open d) (haD : a ∉ D) {r : Receipt} (hr : (o.heap a).receipt = some r)
    (hS : R.Shows (Function.update (carried o.heap D) (o.heap a).cid
      (some { (o.heap a).toOpenIntent with receipt := none }))) {n : ℕ}
    (hfind : R.tables.opens.openFindCid (o.heap a).cid.bytes = some n)
    (hopen : R.tables.opens.Open n)
    (hheap : R.tables.opens.heap n = { o.heap a with receipt := none, fromCheckpoint := true }) :
    ∃ R', applyStored R (.receipt (o.heap a).cid true r) = .ok R' ∧
      R'.Shows (carried o.heap (D ++ [a])) ∧ R.tables.SameRings R'.tables := by
  obtain ⟨-, hne, huid, hverb, hres⟩ := hc.receipt a r ha hr
  have hnone : (R.tables.opens.heap n).receipt = none := by rw [hheap]
  have hver : R.tables.opens.openFindVerifier r.verifier.bytes = none := by
    rw [hS.ok.opens.openFindVerifier_eq_none_iff hne]
    intro c oi r' hoi hr' hv
    rw [hS.view] at hoi
    by_cases hcid : c = (o.heap a).cid
    · rw [hcid, Function.update_self, Option.some_inj] at hoi
      rw [← hoi] at hr'
      exact absurd hr' (by simp)
    · -- The verifier of another carried intent differs.
      rw [Function.update_of_ne hcid] at hoi
      obtain ⟨d, hd, -, rfl⟩ := mem_of_carried hoi
      exact haD (hc.verifier_inj d a r' r (hD d hd) ha hr' hr (Buf.ext hv) ▸ hd)
  refine ⟨{ R with tables := R.tables.installReceipt n r }, ?_,
    ⟨⟨hS.ok.opens.installReceipt hopen hnone, hS.ok.uids⟩, ?_, hS.closed⟩, rfl, fun _ => rfl⟩
  · simp [applyStored, hfind, applyReceipt, hheap, huid, hverb, hres, hver, Except.map]
  · refine (hS.ok.opens.view_installReceipt hopen hnone).trans ?_
    rw [hS.view, hheap, carried_snoc, Function.update_idem, ← hr]

/-- Reading the carried lines of one intent back. -/
theorem replayLines_carry (hc : Carriable o) (ha : o.Open a) (hD : ∀ d ∈ D, o.Open d)
    (haD : a ∉ D) (hS : R.Shows (carried o.heap D)) {now : UInt64} {line : Bytes}
    {rls : List Bytes}
    (hline : rabBuildCheckpoint S.codec (o.heap a).cid.bytes (o.heap a).binding.bytes
      (o.heap a).actor now (o.heap a).operation.bytes (o.heap a).resource.bytes
      (o.heap a).scope.bytes = some line)
    (hrls : receiptCarry S (o.heap a) = some rls) :
    (replayLines S R (line :: rls) = .ok R' → R'.Shows (carried o.heap (D ++ [a])) ∧
      R.tables.SameRings R'.tables) ∧
    ((o.heap a).actor.FromPeer → ∃ R', replayLines S R (line :: rls) = .ok R') := by
  have hparse : ∀ st, rabParseStored S.codec line = some st ↔ _ := fun st =>
    rabParseStored_checkpoint (hc.ne_nil a ha).1 (hc.ne_nil a ha).2 hline
  have hne := (isLine_rabBuildCheckpoint hline).ne_nil
  obtain ⟨R₁, happly, hS₁, hring₁, n, hfind, hopen, hheap⟩ :=
    applyStored_checkpoint hc ha hD haD hS now
  simp only [replayLines_cons_eq_ok, replayLine_eq_ok hne, hparse]
  cases hr : (o.heap a).receipt with
  | none =>
    have hrls : rls = [] := by
      rw [receiptCarry, hr, Option.some_inj] at hrls
      exact hrls.symm
    subst hrls
    have hlast : carried o.heap (D ++ [a]) = Function.update (carried o.heap D) (o.heap a).cid
        (some { (o.heap a).toOpenIntent with receipt := none }) := by
      rw [carried_snoc, ← hr]
    constructor
    · rintro ⟨R₂, ⟨st, R₃, ⟨-, rfl⟩, happly', rfl⟩, hR'⟩
      rw [happly, Except.ok.injEq] at happly'
      subst happly'
      rw [replayLines_nil, Except.ok.injEq] at hR'
      subst hR'
      exact ⟨hlast ▸ hS₁, hring₁⟩
    · exact fun hpeer => ⟨_, _, ⟨_, _, ⟨hpeer, rfl⟩, happly, rfl⟩, rfl⟩
  | some r =>
    obtain ⟨rl, hrl, rfl⟩ : ∃ rl, receiptLine S.codec (o.heap a).cid true r = some rl ∧
        [rl] = rls := by
      rwa [receiptCarry, hr, Option.map_eq_some_iff] at hrls
    obtain ⟨R₂, happly₂, hS₂, hring₂⟩ :=
      applyStored_receiptCheckpoint hc ha hD haD hr hS₁ hfind hopen hheap
    have hparse₂ := rabParseStored_receiptLine
      (by rw [(hc.receipt a r ha hr).1]; decide) hrl
    have hne₂ := (isLine_receiptLine hrl).ne_nil
    simp only [replayLines_singleton, replayLine_eq_ok hne₂, hparse₂, Option.some_inj]
    constructor
    · rintro ⟨R₃, ⟨st, R₄, ⟨-, rfl⟩, happly', rfl⟩, st', R₅, rfl, happly₂', rfl⟩
      rw [happly, Except.ok.injEq] at happly'
      subst happly'
      have heq : R₅ = R₂ := Except.ok.inj (happly₂'.symm.trans happly₂)
      subst heq
      exact ⟨hS₂, hring₁.trans hring₂⟩
    · exact fun hpeer => ⟨_, _, ⟨_, _, ⟨hpeer, rfl⟩, happly, rfl⟩, _, R₂, rfl, happly₂, rfl⟩

/-- Reading all carried intents back. -/
theorem carryIntents_shows (hc : Carriable o) {as : List ℕ} {ls : List Bytes}
    (hci : CarryIntents S o.heap as ls) (hopen : ∀ a ∈ D ++ as, o.Open a)
    (hnd : (D ++ as).Nodup) (hS : R.Shows (carried o.heap D)) :
    (∀ R', replayLines S R ls = .ok R' → R'.Shows (carried o.heap (D ++ as)) ∧
      R.tables.SameRings R'.tables) ∧
    ((∀ a ∈ as, (o.heap a).actor.FromPeer) → ∃ R', replayLines S R ls = .ok R') := by
  induction hci generalizing D R with
  | nil =>
    rw [List.append_nil]
    constructor
    · intro R' hR'
      rw [replayLines_nil, Except.ok.injEq] at hR'
      subst hR'
      exact ⟨hS, rfl, fun _ => rfl⟩
    · exact fun _ => ⟨R, rfl⟩
  | @cons a as now line rls ls hline hrls _ ih =>
    have ha : o.Open a := hopen a (by simp)
    have hD : ∀ d ∈ D, o.Open d := fun d hd => hopen d (by simp [hd])
    have haD : a ∉ D := fun h => (List.nodup_append.mp hnd).2.2 a h a (by simp) rfl
    have hstep : ∀ R', (replayLines S R (line :: rls) = .ok R' → _) ∧ _ := fun R' =>
      replayLines_carry hc ha hD haD hS hline hrls
    rw [List.append_cons] at hopen hnd ⊢
    rw [← List.cons_append]
    simp only [replayLines_append_eq_ok]
    constructor
    · rintro R' ⟨R₁, hR₁, hR'⟩
      obtain ⟨hS₁, hring₁⟩ := (hstep R₁).1 hR₁
      obtain ⟨hS', hring'⟩ := (ih hopen hnd hS₁).1 R' hR'
      exact ⟨hS', hring₁.trans hring'⟩
    · intro hpeer
      obtain ⟨R₁, hR₁⟩ := (hstep R).2 (hpeer a (by simp))
      obtain ⟨hS₁, -⟩ := (hstep R₁).1 hR₁
      obtain ⟨R₂, hR₂⟩ := (ih hopen hnd hS₁).2 fun b hb => hpeer b (by simp [hb])
      exact ⟨R₂, R₁, hR₁, hR₂⟩

/-! ## Reading the rate windows back -/

/-- Push a list of entries. -/
def UidState.pushAll (u : UidState) (l : List (UInt64 × UInt64)) : UidState :=
  l.foldl (fun u x => u.uidPush x.1 x.2) u

/-- The rate records of some uids; a uid without entries has none. -/
def rateLines (S : Site) (t : UidTable) (vs : List UInt32) : List Bytes :=
  (vs.filter fun v => (t.node v).n ≠ 0).map fun v => rabBuildRate S.codec v (t.entries v)

/-- The tables agree but for entries pushed onto rings. -/
structure Tables.Pushes (t t' : Tables) (l : UInt32 → List (UInt64 × UInt64)) : Prop where
  ok : t'.Ok
  cfg : t'.cfg = t.cfg
  opens : t'.opens = t.opens
  ring : t.cfg.rateMaxInWindow ≠ 0 → ∀ v, (t'.uids.node v).ring =
    (t.uids.node v).ring.pushAll (l v)

/-- Noting a list of entries of one uid. -/
theorem Tables.Ok.foldl_rateNote {t : Tables} (h : t.Ok) (uid : UInt32)
    (l : List (UInt64 × UInt64)) :
    t.Pushes (l.foldl (fun t x => t.rateNote uid x.1 x.2) t)
      (fun v => if v = uid then l else []) := by
  induction l generalizing t with
  | nil => exact ⟨h, rfl, rfl, fun _ v => by simp [UidState.pushAll]⟩
  | cons x l ih =>
    obtain ⟨hok, hnote⟩ := h.rateNote uid x.1 x.2
    obtain ⟨hok', hcfg, hopens, hring⟩ := ih hok
    refine ⟨hok', hcfg, hopens, fun hon v => ?_⟩
    have hv := hring hon v
    rw [hnote hon] at hv
    rw [List.foldl_cons, hv]
    by_cases huid : v = uid
    · simp [huid, UidState.pushAll]
    · simp [huid, UidState.pushAll]

/-- Reading the rate records back pushes their entries. -/
theorem replayLines_rateLines {t : UidTable} {vs : List UInt32} (hnd : vs.Nodup)
    (h : R.tables.Ok) :
    ∃ R', replayLines S R (rateLines S t vs) = .ok R' ∧ R'.closed = R.closed ∧
      R.tables.Pushes R'.tables (fun v => if v ∈ vs then t.entries v else []) := by
  induction vs generalizing R with
  | nil => exact ⟨R, rfl, rfl, h, rfl, rfl, fun _ v => by simp [UidState.pushAll]⟩
  | cons v vs ih =>
    obtain ⟨hv, hnd⟩ := List.nodup_cons.mp hnd
    by_cases hn : (t.node v).n = 0
    · -- A uid without entries has no record.
      obtain ⟨R', hR', hclosed, hok, hcfg, hopens, hring⟩ := ih hnd h
      have hnil : t.entries v = [] := by
        rw [← List.length_eq_zero_iff, UidTable.entries, UidState.length_entries, hn]
        rfl
      refine ⟨R', ?_, hclosed, hok, hcfg, hopens, fun hon u => ?_⟩
      · rw [← hR', rateLines, List.filter_cons_of_neg (by simpa using hn)]
        rfl
      · rw [hring hon u]
        congr 1
        by_cases hu : u = v
        · simp [hu, hv, hnil]
        · simp [hu]
    · have hpush := h.foldl_rateNote v (t.entries v)
      set t' := (t.entries v).foldl (fun t x => t.rateNote v x.1 x.2) R.tables with ht'
      have hline : replayLine S R (rabBuildRate S.codec v (t.entries v)) =
          .ok { R with tables := t' } :=
        (replayLine_eq_ok (isLine_rabBuildRate v _).ne_nil).mpr
          ⟨_, R, rabParseStored_rate _ _ _, rfl, rfl⟩
      have hok' : ({ R with tables := t' } : Replay).tables.Ok := hpush.ok
      obtain ⟨R', hR', hclosed, hok, hcfg, hopens, hring⟩ := ih hnd hok'
      refine ⟨R', ?_, hclosed, hok, hcfg.trans hpush.cfg, hopens.trans hpush.opens,
        fun hon u => ?_⟩
      · rw [rateLines, List.filter_cons_of_pos (by simpa using hn), List.map_cons,
          replayLines_cons_eq_ok]
        exact ⟨_, hline, hR'⟩
      · have hon' : t'.cfg.rateMaxInWindow ≠ 0 := by rwa [hpush.cfg]
        rw [hring hon' u, hpush.ring hon u]
        by_cases hu : u = v
        · simp [hu, hv, UidState.pushAll]
        · simp [hu, UidState.pushAll]

/-! ## The carried segment -/

theorem CarryIntents.isLine {heap : ℕ → Intent} {as : List ℕ} {ls : List Bytes}
    (h : CarryIntents S heap as ls) : ∀ line ∈ ls, IsLine S.codec line := by
  induction h with
  | nil => simp
  | @cons a as now line rls ls hline hrls _ ih =>
    simp only [List.mem_cons, List.mem_append]
    rintro l (rfl | hl | hl)
    · exact isLine_rabBuildCheckpoint hline
    · rw [receiptCarry] at hrls
      split at hrls
      · rw [← Option.some.inj hrls] at hl
        simp at hl
      · obtain ⟨rl, hrl, rfl⟩ := Option.map_eq_some_iff.mp hrls
        rw [List.mem_singleton.mp hl]
        exact isLine_receiptLine hrl
    · exact ih l hl

theorem isLine_rateLines (S : Site) (t : UidTable) (vs : List UInt32) :
    ∀ line ∈ rateLines S t vs, IsLine S.codec line := by
  intro line hline
  obtain ⟨v, -, rfl⟩ := List.mem_map.mp hline
  exact isLine_rabBuildRate v _

/-- Openers are peers, if every line of the history can be parsed back. -/
theorem fromPeer_of_readable {J : List Entry} (hJ : Guarded (EntryGuard S) J) (hwf : o.Wf)
    (hview : o.view = ledger J) (hread : ∀ e ∈ J, e.Readable) (ha : o.Open a) :
    (o.heap a).actor.FromPeer := by
  have hoi := hwf.view_of_open ha
  rw [hview] at hoi
  obtain ⟨e, he, hact⟩ := opened_of_ledger hJ hoi
  obtain ⟨J₁, J₂, -, -, hg⟩ := hJ.exists_of_mem he
  have hactor : (o.heap a).actor = e.peer := (hg.intent hact).actor_eq
  have hr := hread e he
  rw [Entry.Readable, hact] at hr
  exact hactor ▸ hr.1

/-- Carried records are read back as the history they were written for. -/
theorem segment_carry {J : List Entry} (hJ : Guarded (EntryGuard S) J) (hwf : o.Wf)
    (hview : o.view = ledger J) {ls : List Bytes} (hci : CarryIntents S o.heap o.walk ls)
    (t : UidTable) {vs : List UInt32} (hnd : vs.Nodup) :
    Segment S J (ls ++ rateLines S t vs) := by
  have hinit : ∀ cfg total, (Replay.init cfg total).Shows (carried o.heap []) := fun cfg total =>
    ⟨Tables.ok_init cfg, rfl, CidSet.has_init _⟩
  have hcarry : ∀ cfg total, _ := fun cfg total =>
    carryIntents_shows (carriable_of_ledger hJ hwf hview) hci
      (fun a ha => hwf.mem_walk.mp ha) (hwf.cid_placed.nodup_walk _) (hinit cfg total)
  refine ⟨?_, fun cfg total R' hR' => ?_, fun hread cfg total => ?_⟩
  · intro line hline
    rcases List.mem_append.mp hline with hline | hline
    · exact hci.isLine line hline
    · exact isLine_rateLines S t vs line hline
  · obtain ⟨R₁, hR₁, hR'⟩ := replayLines_append_eq_ok.mp hR'
    obtain ⟨hS₁, -⟩ := (hcarry cfg total).1 R₁ hR₁
    obtain ⟨R₂, hR₂, hclosed, hpush⟩ := replayLines_rateLines (S := S) (t := t) hnd hS₁.ok
    obtain rfl : R₂ = R' := Except.ok.inj (hR₂.symm.trans hR')
    refine ⟨hpush.ok, ?_, fun cid hcid => ?_⟩
    · rw [hpush.opens, hS₁.view, List.nil_append, hwf.carried_walk, hview]
    · rw [hclosed, hS₁.closed cid] at hcid
      exact absurd hcid (by simp)
  · obtain ⟨R₁, hR₁⟩ := (hcarry cfg total).2 fun a ha =>
      fromPeer_of_readable hJ hwf hview hread (hwf.mem_walk.mp ha)
    obtain ⟨hS₁, -⟩ := (hcarry cfg total).1 R₁ hR₁
    obtain ⟨R₂, hR₂, -⟩ := replayLines_rateLines (S := S) (t := t) hnd hS₁.ok
    exact ⟨R₂, replayLines_append_eq_ok.mpr ⟨R₁, hR₁, hR₂⟩⟩

end AuditBroker
