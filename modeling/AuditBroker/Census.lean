import AuditBroker.Sample
import Mathlib.Data.Set.Card

/-!
# The open set and its counters

The three chained tables of the open set agree (`OpenSet.Wf`), the verifiers of the open receipts
are distinct, `open_count` is the number of open intents and the counter of a uid that of its own
(`Tables.Coherent`).  Reconstruction establishes this from any sink that it accepts, since a segment
has too few lines for a counter to wrap around, and every step of a request keeps it.

The caps are checked against the counters in memory.  That they hold across restarts is a fact about
the history: the intents that the ledger leaves open never number more than the caps allow
(`Capped`), also after a line that landed although its append failed.
-/

namespace AuditBroker

open Foundation

/-! ## Sets of open intents -/

namespace OpenSet

/-- The open intents with a property. -/
def those (o : OpenSet) (p : Intent → Prop) : Set ℕ := {a | o.Open a ∧ p (o.heap a)}

variable {o o' : OpenSet} {a : ℕ} {p : Intent → Prop}

theorem Wf.finite_those (h : o.Wf) (p : Intent → Prop) : (o.those p).Finite :=
  (Set.finite_Iio o.next).subset fun a ha => h.lt_next a ha.1

theorem those_true (o : OpenSet) : o.those (fun _ => True) = {a | o.Open a} := by
  ext a
  simp [those]

section Add

variable {cid : Buf cidMax} {binding : Buf bindingMax} {actor : Actor}
  {operation resource : Buf metaMax} {scope : Buf scopeMax}

/-- The new intent counts where it has the property. -/
theorem Wf.ncard_those_openAdd (h : o.Wf) [DecidablePred p] :
    ((o.openAdd cid binding actor operation resource scope).those p).ncard =
      (o.those p).ncard +
        if p { binding, actor, operation, resource, scope, receipt := none, cid,
               fromCheckpoint := false } then 1 else 0 := by
  have hheap : ∀ b, o.Open b →
      (o.openAdd cid binding actor operation resource scope).heap b = o.heap b :=
    fun b hb => heap_openAdd_of_ne (h.ne_next hb)
  have hnext : o.next ∉ o.those p := fun hmem => h.ne_next hmem.1 rfl
  split
  · rename_i hp
    rw [← Set.ncard_insert_of_notMem hnext (h.finite_those p)]
    congr 1
    ext b
    simp only [those, Set.mem_ofPred_eq, Set.mem_insert_iff, open_openAdd]
    constructor
    · rintro ⟨rfl | hb, hpb⟩
      · exact Or.inl rfl
      · exact Or.inr ⟨hb, hheap b hb ▸ hpb⟩
    · rintro (rfl | ⟨hb, hpb⟩)
      · exact ⟨Or.inl rfl, by rw [heap_openAdd_next]; exact hp⟩
      · exact ⟨Or.inr hb, (hheap b hb).symm ▸ hpb⟩
  · rename_i hp
    rw [Nat.add_zero]
    congr 1
    ext b
    simp only [those, Set.mem_ofPred_eq, open_openAdd]
    constructor
    · rintro ⟨rfl | hb, hpb⟩
      · rw [heap_openAdd_next] at hpb
        exact absurd hpb hp
      · exact ⟨hb, hheap b hb ▸ hpb⟩
    · rintro ⟨hb, hpb⟩
      exact ⟨Or.inr hb, (hheap b hb).symm ▸ hpb⟩

end Add

/-- The removed intent counted where it had the property. -/
theorem Wf.ncard_those_openRemove (h : o.Wf) [DecidablePred p] (ha : o.Open a) :
    ((o.openRemove a).those p).ncard + (if p (o.heap a) then 1 else 0) = (o.those p).ncard := by
  have hset : (o.openRemove a).those p = o.those p \ {a} := by
    ext b
    simp only [those, Set.mem_ofPred_eq, h.open_openRemove, heap_openRemove, Set.mem_sdiff,
      Set.mem_singleton_iff]
    tauto
  rw [hset]
  split
  · rename_i hp
    exact Set.ncard_sdiff_singleton_add_one (show a ∈ o.those p from ⟨ha, hp⟩) (h.finite_those p)
  · rename_i hp
    rw [Set.sdiff_singleton_eq_self fun hmem => hp hmem.2, Nat.add_zero]

end OpenSet

/-! ## The invariant -/

namespace Tables

/-- The representation invariant of the tables, with the counters. -/
structure Coherent (t : Tables) : Prop extends t.Ok where
  /-- No two open intents share a verifier. -/
  verifiers : ∀ a b ra rb, t.opens.Open a → t.opens.Open b →
    (t.opens.heap a).receipt = some ra → (t.opens.heap b).receipt = some rb →
      ra.verifier = rb.verifier → a = b
  openCount_eq : t.opens.openCount = {a | t.opens.Open a}.ncard
  nOpen_eq : ∀ uid, (t.uids.node uid).nOpen.toNat =
    {a | t.opens.Open a ∧ (t.opens.heap a).actor.uid = uid}.ncard

/-- The open sets are the same, with their counters. -/
structure SameOpens (t t' : Tables) : Prop where
  cfg : t'.cfg = t.cfg
  opens : t'.opens = t.opens
  nOpen : ∀ v, (t'.uids.node v).nOpen = (t.uids.node v).nOpen

variable {t t' : Tables} {a : ℕ} {r : Receipt}

theorem coherent_init (cfg : Config) : (init cfg).Coherent where
  toOk := ok_init cfg
  verifiers a b ra rb ha := by simp [OpenSet.Open, init, OpenSet.init] at ha
  openCount_eq := by simp [OpenSet.Open, init, OpenSet.init]
  nOpen_eq uid := by simp [OpenSet.Open, init, OpenSet.init, UidTable.init, UidState.zero]

theorem Coherent.congr (h : t.Coherent) (hs : t.SameOpens t') (huids : t'.uids.Ok t'.cfg) :
    t'.Coherent where
  opens := hs.opens ▸ h.opens
  uids := huids
  verifiers := by
    rw [hs.opens]
    exact h.verifiers
  openCount_eq := by
    rw [hs.opens]
    exact h.openCount_eq
  nOpen_eq uid := by
    rw [hs.opens, hs.nOpen]
    exact h.nOpen_eq uid

/-- A uid has no more open intents than there are. -/
theorem Coherent.nOpen_le (h : t.Coherent) (uid : UInt32) :
    (t.uids.node uid).nOpen.toNat ≤ t.opens.openCount := by
  rw [h.nOpen_eq, h.openCount_eq]
  refine Set.ncard_le_ncard (fun a ha => ha.1) ?_
  rw [← OpenSet.those_true]
  exact h.opens.finite_those _

section Add

variable {cid : Buf cidMax} {binding : Buf bindingMax} {actor : Actor}
  {operation resource : Buf metaMax} {scope : Buf scopeMax}

theorem Ok.nOpen_openAdd (h : t.Ok) (v : UInt32) :
    ((t.openAdd cid binding actor operation resource scope).uids.node v).nOpen =
      if actor.uid = v then (t.uids.node v).nOpen + 1 else (t.uids.node v).nOpen := by
  have hnode := (h.uids.uidGet actor.uid).2.1
  simp only [Tables.openAdd, UidTable.setNode, hnode]
  rcases eq_or_ne v actor.uid with rfl | hv
  · rw [Function.update_self, if_pos rfl]
  · rw [Function.update_of_ne hv, if_neg hv.symm]

/-- `open_add` under a new correlation id. -/
theorem Coherent.openAdd (h : t.Coherent) (hfresh : t.opens.view cid = none)
    (hroom : t.opens.openCount + 1 < 2 ^ 32) :
    (t.openAdd cid binding actor operation resource scope).Coherent := by
  have hopens : (t.openAdd cid binding actor operation resource scope).opens =
      t.opens.openAdd cid binding actor operation resource scope := rfl
  have hheap : ∀ b, t.opens.Open b →
      (t.opens.openAdd cid binding actor operation resource scope).heap b = t.opens.heap b :=
    fun b hb => OpenSet.heap_openAdd_of_ne (h.opens.ne_next hb)
  refine ⟨(h.toOk.openAdd hfresh binding actor operation resource scope).1, ?_, ?_, ?_⟩
  · -- The new intent has no receipt.
    have hold : ∀ b r, (t.opens.openAdd cid binding actor operation resource scope).Open b →
        ((t.opens.openAdd cid binding actor operation resource scope).heap b).receipt = some r →
        t.opens.Open b ∧ (t.opens.heap b).receipt = some r := by
      intro b r hb hr
      rcases OpenSet.open_openAdd.mp hb with rfl | hb
      · rw [OpenSet.heap_openAdd_next] at hr
        cases hr
      · exact ⟨hb, hheap b hb ▸ hr⟩
    intro a b ra rb ha hb hra hrb
    obtain ⟨ha, hra⟩ := hold a ra ha hra
    obtain ⟨hb, hrb⟩ := hold b rb hb hrb
    exact h.verifiers a b ra rb ha hb hra hrb
  · rw [hopens, ← OpenSet.those_true, h.opens.ncard_those_openAdd, OpenSet.those_true,
      ← h.openCount_eq]
    simp [OpenSet.openAdd]
  · intro uid
    have hcount : ((t.opens.openAdd cid binding actor operation resource scope).those
        fun it => it.actor.uid = uid).ncard = (t.opens.those fun it => it.actor.uid = uid).ncard +
          if actor.uid = uid then 1 else 0 := h.opens.ncard_those_openAdd
    have hold : (t.opens.those fun it => it.actor.uid = uid).ncard = (t.uids.node uid).nOpen.toNat :=
      (h.nOpen_eq uid).symm
    have hle := h.nOpen_le uid
    rw [hold] at hcount
    rw [h.toOk.nOpen_openAdd]
    refine Eq.trans ?_ hcount.symm
    split
    · rw [UInt32.toNat_add]
      exact Nat.mod_eq_of_lt (by
        change (t.uids.node uid).nOpen.toNat + 1 < 2 ^ 32
        omega)
    · rfl

end Add

theorem Coherent.nOpen_openRemove (h : t.Coherent) (ha : t.opens.Open a) (v : UInt32) :
    ((t.openRemove a).uids.node v).nOpen.toNat + (if (t.opens.heap a).actor.uid = v then 1 else 0) =
      (t.uids.node v).nOpen.toNat := by
  have hpos : 0 < (t.uids.node (t.opens.heap a).actor.uid).nOpen.toNat := by
    rw [h.nOpen_eq]
    exact (Set.ncard_pos (h.opens.finite_those fun it =>
      it.actor.uid = (t.opens.heap a).actor.uid)).mpr ⟨a, ha, rfl⟩
  have hpos' : 0 < (t.uids.node (t.opens.heap a).actor.uid).nOpen := by
    rw [UInt32.lt_iff_toNat_lt]
    exact hpos
  -- A uid that is counted has a node.
  have hfind : t.uids.uidFind (t.opens.heap a).actor.uid = true := by
    rw [UidTable.uidFind_iff]
    by_contra hno
    rw [h.uids.absent _ hno] at hpos
    exact absurd hpos (by simp [UidState.zero])
  simp only [Tables.openRemove, if_pos (And.intro hfind hpos'), UidTable.setNode]
  rcases eq_or_ne v (t.opens.heap a).actor.uid with rfl | hv
  · rw [Function.update_self, if_pos rfl, UInt32.toNat_sub_of_le _ _ (by
      rw [UInt32.le_iff_toNat_le]
      exact hpos)]
    exact Nat.sub_add_cancel hpos
  · rw [Function.update_of_ne hv, if_neg hv.symm, Nat.add_zero]

/-- `open_remove` of an open intent. -/
theorem Coherent.openRemove (h : t.Coherent) (ha : t.opens.Open a) : (t.openRemove a).Coherent := by
  have hopens : (t.openRemove a).opens = t.opens.openRemove a := rfl
  refine ⟨(h.toOk.openRemove a).1, ?_, ?_, ?_⟩
  · intro b c rb rc hb hc
    rw [hopens] at hb hc ⊢
    rw [OpenSet.heap_openRemove]
    exact h.verifiers b c rb rc (h.opens.open_openRemove.mp hb).2 (h.opens.open_openRemove.mp hc).2
  · have hcount := h.opens.ncard_those_openRemove (p := fun _ => True) ha
    rw [OpenSet.those_true, OpenSet.those_true, ← h.openCount_eq, if_pos trivial] at hcount
    have hsub : (t.openRemove a).opens.openCount = t.opens.openCount - 1 := by
      rw [hopens, OpenSet.openRemove_eq]
    rw [hsub, hopens]
    omega
  · intro uid
    have hcount := h.opens.ncard_those_openRemove (p := fun it => it.actor.uid = uid) ha
    have hold : (t.opens.those fun it => it.actor.uid = uid).ncard = (t.uids.node uid).nOpen.toNat :=
      (h.nOpen_eq uid).symm
    rw [hold, ← h.nOpen_openRemove ha uid] at hcount
    exact (Nat.add_right_cancel hcount).symm

/-- The open set changes in nothing that the counters see. -/
theorem Coherent.of_opens (h : t.Coherent) {o : OpenSet} (hwf : o.Wf)
    (hopen : ∀ b, o.Open b ↔ t.opens.Open b)
    (hactor : ∀ b, (o.heap b).actor = (t.opens.heap b).actor)
    (hcount : o.openCount = t.opens.openCount)
    (hver : ∀ a b ra rb, t.opens.Open a → t.opens.Open b → (o.heap a).receipt = some ra →
      (o.heap b).receipt = some rb → ra.verifier = rb.verifier → a = b) :
    ({ t with opens := o } : Tables).Coherent where
  opens := hwf
  uids := h.uids
  verifiers a b ra rb ha hb := hver a b ra rb ((hopen a).mp ha) ((hopen b).mp hb)
  openCount_eq := by
    simp only [hopen, hcount]
    exact h.openCount_eq
  nOpen_eq uid := by
    simp only [hopen, hactor]
    exact h.nOpen_eq uid

theorem actor_setReceipt (o : OpenSet) (a b : ℕ) (r : Receipt) :
    ((o.setReceipt a r).heap b).actor = (o.heap b).actor := by
  rcases eq_or_ne b a with rfl | hb
  · rw [OpenSet.heap_setReceipt_self]
  · rw [OpenSet.heap_setReceipt_of_ne hb]

/-- A first receipt, with a verifier that is not in use. -/
theorem Coherent.installReceipt (h : t.Coherent) (ha : t.opens.Open a)
    (hr : (t.opens.heap a).receipt = none) (hv : r.verifier.bytes ≠ [])
    (hunused : t.opens.openFindVerifier r.verifier.bytes = none) : (t.installReceipt a r).Coherent := by
  have hother : ∀ b rb, t.opens.Open b → (t.opens.heap b).receipt = some rb →
      rb.verifier ≠ r.verifier := by
    intro b rb hb hrb heq
    refine (h.opens.openFindVerifier_eq_none_iff hv).mp hunused _ _ rb (h.opens.view_of_open hb) hrb ?_
    rw [heq]
  refine h.of_opens (h.opens.installReceipt ha hr) (fun b => OpenSet.open_installReceipt)
    (fun b => actor_setReceipt _ _ _ _) rfl ?_
  intro b c rb rc hb hc hrb hrc heq
  rw [OpenSet.heap_installReceipt] at hrb hrc
  rcases eq_or_ne b a with rfl | hba
  · rcases eq_or_ne c b with rfl | hcb
    · rfl
    · rw [OpenSet.heap_setReceipt_self] at hrb
      rw [OpenSet.heap_setReceipt_of_ne hcb] at hrc
      cases hrb
      exact absurd heq.symm (hother c rc hc hrc)
  · rw [OpenSet.heap_setReceipt_of_ne hba] at hrb
    rcases eq_or_ne c a with rfl | hca
    · rw [OpenSet.heap_setReceipt_self] at hrc
      cases hrc
      exact absurd heq (hother b rb hb hrb)
    · rw [OpenSet.heap_setReceipt_of_ne hca] at hrc
      exact h.verifiers b c rb rc hb hc hrb hrc heq

/-- A receipt advances, with the same verifier. -/
theorem Coherent.setReceipt (h : t.Coherent) {r₀ : Receipt}
    (hr : (t.opens.heap a).receipt = some r₀) (hv : r.verifier = r₀.verifier) :
    (t.setReceipt a r).Coherent := by
  have hold : ∀ b rb, ((t.opens.setReceipt a r).heap b).receipt = some rb →
      ∃ rb₀, (t.opens.heap b).receipt = some rb₀ ∧ rb₀.verifier = rb.verifier := by
    intro b rb hrb
    rcases eq_or_ne b a with rfl | hba
    · rw [OpenSet.heap_setReceipt_self] at hrb
      cases hrb
      exact ⟨r₀, hr, hv.symm⟩
    · rw [OpenSet.heap_setReceipt_of_ne hba] at hrb
      exact ⟨rb, hrb, rfl⟩
  refine h.of_opens (h.opens.setReceipt hr hv) (fun b => OpenSet.open_setReceipt)
    (fun b => actor_setReceipt _ _ _ _) rfl ?_
  intro b c rb rc hb hc hrb hrc heq
  obtain ⟨rb₀, hrb₀, hvb⟩ := hold b rb hrb
  obtain ⟨rc₀, hrc₀, hvc⟩ := hold c rc hrc
  exact h.verifiers b c rb₀ rc₀ hb hc hrb₀ hrc₀ (hvb.trans (heq.trans hvc.symm))

theorem Coherent.markCheckpoint (h : t.Coherent) (ha : t.opens.Open a) :
    ({ t with opens := t.opens.markCheckpoint a } : Tables).Coherent := by
  have hheap : ∀ b, ((t.opens.markCheckpoint a).heap b).actor = (t.opens.heap b).actor ∧
      ((t.opens.markCheckpoint a).heap b).receipt = (t.opens.heap b).receipt := by
    intro b
    rcases eq_or_ne b a with rfl | hb
    · simp [OpenSet.markCheckpoint]
    · simp [OpenSet.markCheckpoint, Function.update_of_ne hb]
  obtain ⟨hwf, -, hopen⟩ := h.opens.markCheckpoint ha
  refine h.of_opens hwf hopen (fun b => (hheap b).1) rfl ?_
  intro b c rb rc hb hc hrb hrc
  rw [(hheap b).2] at hrb
  rw [(hheap c).2] at hrc
  exact h.verifiers b c rb rc hb hc hrb hrc

theorem Ok.sameOpens_rateNote (h : t.Ok) (uid : UInt32) (time nbytes : UInt64) :
    t.SameOpens (t.rateNote uid time nbytes) ∧ (t.rateNote uid time nbytes).uids.Ok t.cfg := by
  obtain ⟨hok, hnode⟩ := h.uids.rateNote_spec uid time nbytes
  refine ⟨⟨rfl, rfl, fun v => ?_⟩, hok⟩
  simp only [Tables.rateNote, hnode]
  split
  · rfl
  · rcases eq_or_ne v uid with rfl | hv
    · rw [Function.update_self, UidState.uidPush_nOpen]
    · rw [Function.update_of_ne hv]

theorem Coherent.rateNote (h : t.Coherent) (uid : UInt32) (time nbytes : UInt64) :
    (t.rateNote uid time nbytes).Coherent :=
  have hs := h.toOk.sameOpens_rateNote uid time nbytes
  h.congr hs.1 hs.2

end Tables

/-! ## Reconstruction -/

section Replay

variable {S : Site} {E : Env} {cfg : Config} {R R' : Replay} {t t' : Tables} {a : ℕ} {ck : Bool}

theorem Tables.Coherent.applyReceipt {r : Receipt} (h : t.Coherent) (ha : t.opens.Open a)
    (hv : r.verifier.bytes ≠ []) (heq : AuditBroker.applyReceipt t a ck r = .ok t') :
    t'.Coherent ∧ t'.cfg = t.cfg ∧ t'.opens.openCount = t.opens.openCount := by
  unfold AuditBroker.applyReceipt at heq
  simp only at heq
  split at heq
  · cases heq
  split at heq
  · cases heq
  split at heq
  · rename_i hr
    split at heq
    · cases heq
    split at heq
    · cases heq
    · rename_i hunused
      cases heq
      exact ⟨h.installReceipt ha hr hv (by simpa using hunused), rfl, rfl⟩
  · rename_i r₀ hr
    split at heq
    · cases heq
    split at heq
    · split at heq
      · cases heq
      · cases heq
        exact ⟨h, rfl, rfl⟩
    split at heq
    · cases heq
      exact ⟨h.setReceipt hr rfl, rfl, rfl⟩
    · cases heq

theorem Tables.Coherent.applyOpening {s : StoredIntent} (h : R.tables.Coherent)
    (hroom : R.tables.opens.openCount + 1 < 2 ^ 32)
    (heq : AuditBroker.applyOpening R s ck = .ok R') :
    R'.tables.Coherent ∧ R'.tables.cfg = R.tables.cfg ∧
      R'.tables.opens.openCount ≤ R.tables.opens.openCount + 1 := by
  unfold AuditBroker.applyOpening at heq
  simp only at heq
  split at heq
  · cases heq
  split at heq
  · split at heq
    · cases heq
    split at heq
    · cases heq
    · cases heq
      exact ⟨h, rfl, Nat.le_succ _⟩
  · rename_i hnone
    have hview : R.tables.opens.view s.cid = none := by rw [OpenSet.view, hnone]; rfl
    have hadd : (R.tables.openAdd s.cid s.binding s.actor s.operation s.resource
      s.scope).Coherent := h.openAdd hview hroom
    split at heq
    · cases heq
    split at heq
    · split at heq
      · rename_i b hb
        cases heq
        exact ⟨hadd.markCheckpoint (hadd.opens.openFindCid_eq_some_iff.mp hb).1, rfl, le_rfl⟩
      · cases heq
        exact ⟨hadd, rfl, le_rfl⟩
    · cases heq
      exact ⟨hadd, rfl, le_rfl⟩

/-- One record. -/
theorem Tables.Coherent.applyStored {st : Stored} (h : R.tables.Coherent) (hst : st.Ok)
    (hroom : R.tables.opens.openCount + 1 < 2 ^ 32) (heq : AuditBroker.applyStored R st = .ok R') :
    R'.tables.Coherent ∧ R'.tables.cfg = R.tables.cfg ∧
      R'.tables.opens.openCount ≤ R.tables.opens.openCount + 1 := by
  unfold AuditBroker.applyStored at heq
  cases st with
  | checkpoint s => exact h.applyOpening hroom heq
  | audit s phase =>
    simp only at heq
    split at heq
    · exact h.applyOpening hroom heq
    split at heq
    · split at heq
      · cases heq
      · rename_i b hb
        cases heq
        have hopen := (h.opens.openFindCid_eq_some_iff.mp hb).1
        refine ⟨h.openRemove hopen, rfl, ?_⟩
        simp only [Tables.openRemove, OpenSet.openRemove_eq]
        omega
    · cases heq
      exact ⟨h, rfl, Nat.le_succ _⟩
  | receipt cid isCheckpoint r =>
    simp only at heq
    split at heq
    · cases heq
    · rename_i b hb
      have hopen := (h.opens.openFindCid_eq_some_iff.mp hb).1
      cases hres : AuditBroker.applyReceipt R.tables b isCheckpoint r with
      | error e =>
        rw [hres] at heq
        cases heq
      | ok t' =>
        rw [hres] at heq
        cases heq
        obtain ⟨hc, hcfg, hcount⟩ := h.applyReceipt hopen hst hres
        exact ⟨hc, hcfg, hcount.trans_le (Nat.le_succ _)⟩
  | rate uid entries =>
    cases heq
    exact ⟨h, rfl, Nat.le_succ _⟩

theorem Tables.Coherent.chargeStored (h : t.Coherent) (st : Stored) (nbytes : UInt64) :
    (AuditBroker.chargeStored t st nbytes).Coherent ∧
      (AuditBroker.chargeStored t st nbytes).cfg = t.cfg ∧
      (AuditBroker.chargeStored t st nbytes).opens = t.opens := by
  unfold AuditBroker.chargeStored
  split
  · exact ⟨h.rateNote _ _ _, rfl, rfl⟩
  · exact ⟨h.rateNote _ _ _, rfl, rfl⟩
  · rename_i uid entries
    induction entries generalizing t with
    | nil => exact ⟨h, rfl, rfl⟩
    | cons e entries ih => exact ih (h.rateNote uid e.1 e.2)
  · exact ⟨h, rfl, rfl⟩

/-- One line. -/
theorem Tables.Coherent.replayLine {line : Bytes} (h : R.tables.Coherent)
    (hroom : R.tables.opens.openCount + 1 < 2 ^ 32)
    (heq : AuditBroker.replayLine S R line = .ok R') :
    R'.tables.Coherent ∧ R'.tables.cfg = R.tables.cfg ∧
      R'.tables.opens.openCount ≤ R.tables.opens.openCount + 1 := by
  by_cases hline : line = []
  · rw [AuditBroker.replayLine, if_pos hline] at heq
    cases heq
    exact ⟨h, rfl, Nat.le_succ _⟩
  · obtain ⟨st, R₁, hparse, happly, rfl⟩ := (replayLine_eq_ok hline).mp heq
    obtain ⟨hc, hcfg, hcount⟩ := h.applyStored (ok_of_rabParseStored hparse) hroom happly
    obtain ⟨hc', hcfg', hopens⟩ := hc.chargeStored st (UInt64.ofNat (line.length + 1))
    exact ⟨hc', hcfg'.trans hcfg, (congrArg OpenSet.openCount hopens).trans_le hcount⟩

/-- Lines that are too few for a counter to wrap around. -/
theorem Tables.Coherent.replayLines {lines : List Bytes} (h : R.tables.Coherent)
    (hroom : R.tables.opens.openCount + lines.length < 2 ^ 32)
    (heq : AuditBroker.replayLines S R lines = .ok R') :
    R'.tables.Coherent ∧ R'.tables.cfg = R.tables.cfg := by
  induction lines generalizing R with
  | nil =>
    cases heq
    exact ⟨h, rfl⟩
  | cons line lines ih =>
    obtain ⟨R₁, hline, hrest⟩ := replayLines_cons_eq_ok.mp heq
    rw [List.length_cons] at hroom
    obtain ⟨hc, hcfg, hcount⟩ := h.replayLine (by omega) hline
    obtain ⟨hc', hcfg'⟩ := ih hc (by omega) hrest
    exact ⟨hc', hcfg'.trans hcfg⟩

/-- The tables of a start. -/
theorem coherent_rabBrokerOpen {s s' : St} (h : rabBrokerOpen S E cfg s = (none, s')) :
    s'.toTables.Coherent ∧ s'.cfg = cfg ∧ s'.poisoned = false := by
  unfold rabBrokerOpen at h
  split at h
  · cases h
  simp only at h
  split at h
  · cases h
  rename_i t w hrec
  split at h
  · cases h
  cases h
  rw [← and_assoc]
  refine ⟨?_, rfl⟩
  change t.Coherent ∧ t.cfg = cfg
  unfold reconstruct at hrec
  split at hrec
  · cases hrec
  rename_i buf w₁ hslurp
  simp only at hrec
  have hlen : (splitLines buf).1.length ≤ 2 ^ 30 :=
    (length_splitLines_le buf).trans (length_le_of_slurpSegment hslurp)
  split at hrec
  · cases hrec
  rename_i R hreplay
  have hroom : (Replay.init cfg buf.length).tables.opens.openCount +
      (splitLines buf).1.length < 2 ^ 32 := by
    change 0 + (splitLines buf).1.length < 2 ^ 32
    omega
  obtain ⟨hc, hcfg⟩ := (Tables.coherent_init cfg).replayLines hroom hreplay
  split at hrec
  · cases hrec
    exact ⟨hc, hcfg⟩
  split at hrec
  · cases hrec
  · cases hrec
    exact ⟨hc, hcfg⟩

/-- A start that is refused leaves no process. -/
theorem alive_of_refused {s s' : St} {e : String} (h : rabBrokerOpen S E cfg s = (some e, s')) :
    s'.alive = s.alive := by
  have hpending : (unlinkPending S E s).alive = s.alive := rfl
  unfold rabBrokerOpen at h
  split at h
  · cases h
    rfl
  simp only at h
  have hif : (if S.pendingTooLong then s else unlinkPending S E s).alive = s.alive := by
    split <;> rfl
  split at h
  · cases h
    exact hif
  split at h
  · cases h
    exact hif
  · cases h

end Replay

/-! ## Requests -/

section Requests

variable {S : Site} {C : Ctx} {s s' : St} {line : Bytes} {act : Act} {install : Tables → Tables}

/-- As long as its event has written nothing, the correlation id that a request mints is not open. -/
def Unopened (C : Ctx) (s : St) : Prop :=
  s.Unwritten → C.req.type = .openIntent → ∀ cid, rabMakeCorrelationId C.env = some cid →
    s.opens.view cid = none

theorem Unopened.new (h : Unopened C s) (ha : Allowed S C s line act install) :
    ∀ cid oi, act = .intent cid oi → s.opens.view cid = none := by
  rintro cid oi rfl
  cases ha with
  | intent type fits hcid hbinding first caps hline => exact h first type cid hcid

/-- The change in memory of an allowed commit. -/
theorem Tables.Coherent.installed (h : s.toTables.Coherent) (ha : Allowed S C s line act install)
    (hnew : ∀ cid oi, act = .intent cid oi → s.opens.view cid = none) :
    (install s.toTables).Coherent := by
  cases ha with
  | @intent cid binding type fits hcid hbinding first caps hline =>
    have hlt := s.cfg.maxOpenGlobal.toNat_lt
    have hcount := caps.1
    exact h.openAdd (hnew cid _ rfl) (by omega)
  | @outcome a type find actor gate hline =>
    exact h.openRemove (h.opens.of_openFindBinding find).1
  | emit => exact h
  | @issue a r token attempt effect find opened none r_eq schema boot minted unused hline =>
    have hver : r.verifier = verifierOf S token.bytes := by rw [r_eq]
    refine h.installReceipt (h.opens.openFindCid_eq_some_iff.mp find).1 none ?_ ?_
    · rw [hver]
      exact verifierOf_ne_nil S token.bytes
    · rw [hver]
      exact unused
  | @redeem a r nowUs type superuser find receipt issued principal token bound boot ttl hline =>
    exact h.setReceipt receipt rfl

theorem sameOpens_of_evicts {t : Tables} {th : UInt64} {u : UidTable}
    (h : UidTable.Evicts t.cfg th t.uids u) : t.SameOpens { t with uids := u } :=
  ⟨rfl, rfl, h.nOpen_eq⟩

theorem Tables.Coherent.evicts {t : Tables} {th : UInt64} {u : UidTable} (h : t.Coherent)
    (hev : UidTable.Evicts t.cfg th t.uids u) : ({ t with uids := u } : Tables).Coherent :=
  h.congr (sameOpens_of_evicts hev) hev.ok

theorem Rotates.coherent {E : Env} (h : Rotates E s s') (hc : s.toTables.Coherent) :
    s'.toTables.Coherent := by
  obtain ⟨now, hev, -⟩ := h.evicts
  refine hc.congr ⟨h.cfg_eq, h.opens_eq, hev.nOpen_eq⟩ ?_
  rw [h.cfg_eq]
  exact hev.ok

theorem Unopened.congr (h : Unopened C s) (hj : s.journal <+: s'.journal)
    (hseq : s'.seq = s.seq) (hopens : s'.opens = s.opens) : Unopened C s' := by
  intro hnew
  rw [hopens]
  refine h fun e he => ?_
  rw [← hseq]
  exact hnew e (hj.subset he)

/-- A line of the event leaves nothing to show. -/
theorem unopened_of_line {e : Entry} (hj : s'.journal = s.journal ++ [e]) (he : e.seq = s'.seq) :
    Unopened C s' := by
  intro hnew
  exact absurd he (hnew e (by simp [hj]))

/-- One step. -/
theorem Step.coherent (h : Step S C s s') (hc : s.toTables.Coherent) (hu : Unopened C s) :
    s'.toTables.Coherent ∧ Unopened C s' := by
  cases h with
  | clock => exact ⟨hc, hu⟩
  | check hev => exact ⟨hc.evicts hev, hu⟩
  | @commit line act install healthy allowed clocked rate =>
    obtain ⟨t, hev, heq | ⟨-, ⟨s₂, happ, heq⟩ | ⟨s₂, happ, heq⟩⟩⟩ :=
      commit_cases (S := S) (C := C) hc.uids line act install
    · rw [heq]
      exact ⟨hc.evicts hev, hu⟩
    · have hsame := appendLine_same C.env (C.entry s line act) { s with uids := t }
      obtain ⟨l, hjournal, -⟩ := journal_appendLine C.env (C.entry s line act) { s with uids := t }
      rw [happ] at hsame hjournal
      have htables : s₂.toTables = { s.toTables with uids := t } := hsame.tables
      have hopens : s₂.opens = s.opens := by rw [htables]
      rw [heq]
      refine ⟨?_, hu.congr ⟨l, hjournal.symm⟩ hsame.seq hopens⟩
      change s₂.toTables.Coherent
      rw [htables]
      exact hc.evicts hev
    · have hsame := appendLine_same C.env (C.entry s line act) { s with uids := t }
      rw [happ] at hsame
      obtain ⟨hjournal, -, -⟩ := appendLine_durable happ
      have hallowed := allowed.of_evicts hev
      have hevicted : ({ s with uids := t } : St).toTables.Coherent := hc.evicts hev
      have hinstall : (install s₂.toTables).Coherent := by
        rw [hsame.tables]
        exact hevicted.installed hallowed (hu.new allowed)
      have hcharge : (s₂.charge install (C.entry s line act)).toTables.Coherent :=
        hinstall.rateNote _ _ _
      have hrot := maybeRotate_rotates S C.env hcharge.uids
      rw [heq]
      refine ⟨hrot.coherent hcharge, ?_⟩
      exact unopened_of_line (hrot.journal_eq.trans hjournal) (hrot.seq_eq.trans hsame.seq).symm

theorem Steps.coherent (h : Steps S C s s') (hc : s.toTables.Coherent) (hu : Unopened C s) :
    s'.toTables.Coherent := by
  have hboth : s'.toTables.Coherent ∧ Unopened C s' := by
    induction h with
    | refl => exact ⟨hc, hu⟩
    | tail _ hstep ih => exact hstep.coherent ih.1 ih.2
  exact hboth.1

end Requests

/-! ## Runs -/

section Runs

variable {S : Site} {s₀ : St} {evs : List Event} {ev : Event}

/-- Every minted correlation id is new: no intent is open under it, and none was opened under it
during the run. -/
def FreshRun (S : Site) (s₀ : St) (evs : List Event) : Prop :=
  ∀ i ev cid, evs[i]? = some ev → ev.minted? S = some cid →
    (run S s₀ (evs.take i)).alive = true →
      (run S s₀ (evs.take i)).opens.view cid = none ∧
        ∀ e ∈ (run S s₀ (evs.take i)).journal, ∀ oi, e.act ≠ .intent cid oi

theorem FreshRun.of_concat (h : FreshRun S s₀ (evs ++ [ev])) :
    FreshRun S s₀ evs ∧ ∀ cid, ev.minted? S = some cid → (run S s₀ evs).alive = true →
      (run S s₀ evs).opens.view cid = none ∧
        ∀ e ∈ (run S s₀ evs).journal, ∀ oi, e.act ≠ .intent cid oi := by
  constructor
  · intro i ev' cid hev' hcid
    have hlt : i < evs.length := (List.getElem?_eq_some_iff.mp hev').1
    have hfresh := h i ev' cid (by rw [List.getElem?_append_left hlt, hev']) hcid
    rwa [List.take_append_of_le_length hlt.le] at hfresh
  · intro cid hcid
    have hfresh := h evs.length ev cid (by simp) hcid
    rwa [List.take_left] at hfresh

/-- A start changes nothing of what is known of the past: the history, the number of the event, the
last clock reading and the mark of an overflow. -/
theorem history_rabBrokerOpen (S : Site) (E : Env) (cfg : Config) (s : St) :
    (rabBrokerOpen S E cfg s).2.journal = s.journal ∧ (rabBrokerOpen S E cfg s).2.seq = s.seq ∧
      (rabBrokerOpen S E cfg s).2.lastClock = s.lastClock ∧
      (rabBrokerOpen S E cfg s).2.overflowed = s.overflowed := by
  have hclean : (if S.pendingTooLong then s else unlinkPending S E s) =
      { s with toWorld := (if S.pendingTooLong then s else unlinkPending S E s).toWorld } := by
    split <;> rfl
  unfold rabBrokerOpen
  split
  · exact ⟨rfl, rfl, rfl, rfl⟩
  simp only
  rw [hclean]
  split
  · exact ⟨rfl, rfl, rfl, rfl⟩
  split
  · exact ⟨rfl, rfl, rfl, rfl⟩
  · exact ⟨rfl, rfl, rfl, rfl⟩

/-- What a run keeps whatever it mints: the accounting table of a process is in order, and the lines
of the history are those of events before. -/
structure Dated (s : St) : Prop where
  uids : s.alive = true → s.uids.Ok s.cfg
  seq_lt : ∀ e ∈ s.journal, e.seq < s.seq

theorem Dated.unwritten {s : St} (h : Dated s) : s.begin_.Unwritten := fun e he =>
  (h.seq_lt e he).ne

/-- One event. -/
theorem Dated.step {s : St} (h : Dated s) (ev : Event) : Dated (step S s ev).2 := by
  have hold : ∀ e ∈ s.journal, e.seq < s.seq + 1 := fun e he => (h.seq_lt e he).trans_le (by omega)
  cases ev with
  | request env peer body =>
    simp only [AuditBroker.step]
    split
    · rename_i hs
      unfold connHandle
      split
      · exact ⟨fun _ => h.uids hs, hold⟩
      · rename_i req hreq
        have hbegin : s.begin_.uids.Ok s.begin_.cfg := h.uids hs
        have hhandled := rabBrokerHandle_handled (S := S) (C := { env, peer, req }) hbegin h.unwritten
        obtain ⟨hgrows, hok⟩ := hhandled.steps.grows hbegin
        obtain ⟨l, hl, hfrom⟩ := hgrows.journal
        have hseq := hgrows.seq
        refine ⟨fun _ => hok, fun e he => ?_⟩
        change e ∈ (rabBrokerHandle S { env, peer, req } s.begin_).2.journal at he
        change e.seq < (rabBrokerHandle S { env, peer, req } s.begin_).2.seq + 1
        rw [hseq]
        rw [hl] at he
        rcases List.mem_append.mp he with he | he
        · exact hold e he
        · rw [(hfrom e he).1.1]
          exact Nat.lt_succ_self _
    · rename_i hdead
      exact ⟨fun halive => absurd halive hdead, hold⟩
  | start env cfg rollback =>
    rw [step_start]
    obtain ⟨hj, hseq, -⟩ := history_rabBrokerOpen S env cfg (s.found rollback)
    refine ⟨fun halive => ?_, fun e he => ?_⟩
    · cases hopen : rabBrokerOpen S env cfg (s.found rollback) with
      | mk err s' =>
        cases err with
        | none => exact (coherent_rabBrokerOpen hopen).1.uids
        | some e =>
          rw [hopen] at halive
          have hdead : s'.alive = false := alive_of_refused hopen
          simp [St.finish, hdead] at halive
    · change e.seq < (rabBrokerOpen S env cfg (s.found rollback)).2.seq + 1
      rw [hseq]
      exact hold e (hj ▸ he)

theorem dated_run (S : Site) (fs : Fs) (evs : List Event) : Dated (run S (St.initial fs) evs) := by
  induction evs using List.reverseRecOn with
  | nil =>
    refine ⟨fun halive => ?_, by simp [St.initial]⟩
    cases halive
  | append_singleton evs ev ih =>
    rw [run_concat]
    exact ih.step ev

/-- One event. -/
theorem coherent_step {s : St} (h : s.alive = true → s.toTables.Coherent)
    (hnew : s.begin_.Unwritten)
    (hfresh : ∀ cid, ev.minted? S = some cid → s.alive = true → s.opens.view cid = none ∧
      ∀ e ∈ s.journal, ∀ oi, e.act ≠ .intent cid oi)
    (halive : (step S s ev).2.alive = true) : (step S s ev).2.toTables.Coherent := by
  cases ev with
  | request env peer body =>
    simp only [step] at halive ⊢
    split at halive
    · rename_i hs
      rw [if_pos hs]
      unfold connHandle
      split
      · exact h hs
      · rename_i req hreq
        have hc : s.begin_.toTables.Coherent := h hs
        have hminted : req.type = .openIntent → ∀ cid, rabMakeCorrelationId env = some cid →
            Event.minted? S (.request env peer body) = some cid := by
          intro hopen cid hcid
          simp [Event.minted?, hreq, hopen, hcid]
        have hsteps : Steps S { env, peer, req } s.begin_
            (rabBrokerHandle S { env, peer, req } s.begin_).2 :=
          (rabBrokerHandle_handled hc.uids hnew).steps
        have hunopened : Unopened { env, peer, req } s.begin_ := fun _ hopen cid hcid =>
          (hfresh cid (hminted hopen cid hcid) hs).1
        have hc' := hsteps.coherent hc hunopened
        exact hc'
    · rename_i hs
      exact absurd halive hs
  | start env cfg rollback =>
    rw [step_start] at halive ⊢
    cases hopen : rabBrokerOpen S env cfg (s.found rollback) with
    | mk err s' =>
      cases err with
      | none => exact (coherent_rabBrokerOpen hopen).1
      | some e =>
        rw [hopen] at halive
        have hdead : s'.alive = false := alive_of_refused hopen
        simp [St.finish, hdead] at halive

/-- The invariant holds in every state that is reached from any directory. -/
theorem coherent_run {fs : Fs} (h : FreshRun S (St.initial fs) evs)
    (halive : (run S (St.initial fs) evs).alive = true) :
    (run S (St.initial fs) evs).toTables.Coherent := by
  induction evs using List.reverseRecOn with
  | nil => cases halive
  | append_singleton evs ev ih =>
    obtain ⟨hpre, hlast⟩ := h.of_concat
    rw [run_concat] at halive ⊢
    exact coherent_step (ih hpre) (dated_run S fs evs).unwritten hlast halive

end Runs

/-! ## Caps -/

/-- The open operations whose actor has a property. -/
def Ledger.those (L : Ledger) (q : Actor → Prop) : Set (Buf cidMax) :=
  {cid | ∃ oi, L cid = some oi ∧ q oi.actor}

section Caps

variable {S : Site} {C : Ctx} {cfg : Config} {s s' : St} {J : List Entry} {L : Ledger}
  {q : Actor → Prop} {line : Bytes} {act : Act} {install : Tables → Tables}

/-- The open set has one node for each open operation. -/
theorem OpenSet.Wf.those_view {o : OpenSet} (h : o.Wf) (q : Actor → Prop) :
    (Ledger.those o.view q).Finite ∧
      (Ledger.those o.view q).ncard = {a | o.Open a ∧ q (o.heap a).actor}.ncard := by
  have himage : Ledger.those o.view q =
      (fun a => (o.heap a).cid) '' {a | o.Open a ∧ q (o.heap a).actor} := by
    ext cid
    constructor
    · rintro ⟨oi, hview, hq⟩
      obtain ⟨a, ha, hcid, rfl⟩ := h.view_eq_some_iff.mp hview
      exact ⟨a, ⟨ha, hq⟩, hcid⟩
    · rintro ⟨a, ⟨ha, hq⟩, rfl⟩
      exact ⟨_, h.view_of_open ha, hq⟩
  have hfin : {a | o.Open a ∧ q (o.heap a).actor}.Finite := h.finite_those fun it => q it.actor
  rw [himage]
  refine ⟨hfin.image _, Set.InjOn.ncard_image ?_⟩
  intro a ha b hb heq
  exact h.cid_inj a b ha.1 hb.1 heq

/-- Only an intent adds an open operation, and only one of its own actor. -/
theorem Act.those_apply (act : Act) (L : Ledger) (q : Actor → Prop) :
    (act.apply L).those q ⊆ L.those q ∨
      ∃ cid oi, act = .intent cid oi ∧ q oi.actor ∧ (act.apply L).those q ⊆ insert cid (L.those q) := by
  have hother : ∀ c oi, act.apply L c = some oi → c ≠ act.cid → L c = some oi := by
    intro c oi hc hne
    rwa [Act.apply_of_ne hne] at hc
  cases act with
  | intent cid oi =>
    by_cases hq : q oi.actor
    · refine Or.inr ⟨cid, oi, rfl, hq, ?_⟩
      rintro c ⟨oi', hc, hq'⟩
      rcases eq_or_ne c cid with rfl | hne
      · exact Or.inl rfl
      · exact Or.inr ⟨oi', hother c oi' hc hne, hq'⟩
    · left
      rintro c ⟨oi', hc, hq'⟩
      rcases eq_or_ne c cid with rfl | hne
      · rw [Act.apply_intent] at hc
        cases hc
        exact absurd hq' hq
      · exact ⟨oi', hother c oi' hc hne, hq'⟩
  | outcome cid =>
    left
    rintro c ⟨oi', hc, hq'⟩
    rcases eq_or_ne c cid with rfl | hne
    · rw [Act.apply_outcome] at hc
      cases hc
    · exact ⟨oi', hother c oi' hc hne, hq'⟩
  | emit cid => exact Or.inl fun c hc => hc
  | receipt cid r =>
    left
    rintro c ⟨oi', hc, hq'⟩
    rcases eq_or_ne c cid with rfl | hne
    · rw [Act.apply_receipt] at hc
      obtain ⟨oi, hoi, rfl⟩ := Option.map_eq_some_iff.mp hc
      exact ⟨oi, hoi, hq'⟩
    · exact ⟨oi', hother c oi' hc hne, hq'⟩

/-- The operations that a history leaves open stay within the caps. -/
structure Capped (cfg : Config) (J : List Entry) : Prop where
  total : ((ledger J).those fun _ => True).ncard ≤ cfg.maxOpenGlobal.toNat
  perUid : ∀ uid, ((ledger J).those fun a => a.uid = uid).ncard ≤ cfg.maxOpenPerUid.toNat

/-- The counters stay within the caps. -/
structure Tables.WithinCaps (t : Tables) : Prop where
  total : t.opens.openCount ≤ t.cfg.maxOpenGlobal.toNat
  perUid : ∀ uid, (t.uids.node uid).nOpen ≤ t.cfg.maxOpenPerUid

theorem Tables.WithinCaps.congr {t t' : Tables} (h : t.WithinCaps) (hs : t.SameOpens t') :
    t'.WithinCaps where
  total := by
    rw [hs.opens, hs.cfg]
    exact h.total
  perUid uid := by
    rw [hs.nOpen, hs.cfg]
    exact h.perUid uid

/-- The counters count the open operations of the history. -/
theorem Tables.Coherent.count {t : Tables} (h : t.Coherent) (hview : t.opens.view = ledger J) :
    ((ledger J).those fun _ => True).ncard = t.opens.openCount ∧
      ∀ uid, ((ledger J).those fun a => a.uid = uid).ncard = (t.uids.node uid).nOpen.toNat := by
  rw [← hview]
  refine ⟨?_, fun uid => ?_⟩
  · rw [(h.opens.those_view _).2, h.openCount_eq]
    simp
  · rw [(h.opens.those_view _).2, h.nOpen_eq]

theorem Capped.withinCaps {t : Tables} (h : Capped t.cfg J) (hc : t.Coherent)
    (hview : t.opens.view = ledger J) : t.WithinCaps where
  total := (hc.count hview).1 ▸ h.total
  perUid uid := by
    rw [UInt32.le_iff_toNat_le, ← (hc.count hview).2]
    exact h.perUid uid

/-- One more line: where it opens an intent, the caps were checked. -/
theorem Capped.snoc (h : Capped s.cfg s.journal) (hc : s.toTables.Coherent)
    (hview : s.opens.view = ledger s.journal) (ha : Allowed S C s line act install) :
    Capped s.cfg (s.journal ++ [C.entry s line act]) := by
  have hcount := hc.count hview
  have hfin : ∀ q, ((ledger s.journal).those q).Finite := by
    intro q
    rw [← hview]
    exact (hc.opens.those_view q).1
  -- An intent adds one where a counter was below its cap; nothing else adds any.
  have hbound : ∀ (q : Actor → Prop) (n : ℕ), ((ledger s.journal).those q).ncard ≤ n →
      (∀ cid oi, act = .intent cid oi → q oi.actor → ((ledger s.journal).those q).ncard < n) →
      ((ledger (s.journal ++ [C.entry s line act])).those q).ncard ≤ n := by
    intro q n hle hlt
    rw [ledger_snoc]
    rcases act.those_apply (ledger s.journal) q with hsub | ⟨cid, oi, hact, hq, hsub⟩
    · exact (Set.ncard_le_ncard hsub (hfin q)).trans hle
    · calc ((act.apply (ledger s.journal)).those q).ncard
          ≤ (insert cid ((ledger s.journal).those q)).ncard :=
            Set.ncard_le_ncard hsub ((hfin q).insert cid)
        _ ≤ ((ledger s.journal).those q).ncard + 1 := Set.ncard_insert_le _ _
        _ ≤ n := hlt cid oi hact hq
  constructor
  · refine hbound _ _ h.total ?_
    rintro cid oi rfl -
    cases ha with
    | intent type fits hcid hbinding first caps hline => exact hcount.1 ▸ caps.1
  · intro uid
    refine hbound _ _ (h.perUid uid) ?_
    rintro cid oi rfl huid
    cases ha with
    | intent type fits hcid hbinding first caps hline =>
      have huid : C.peer.uid = uid := huid
      rw [hcount.2, ← UInt32.lt_iff_toNat_lt, ← huid]
      exact caps.2

/-- What a request keeps. -/
structure CapInv (s : St) : Prop where
  coherent : s.toTables.Coherent
  within : s.toTables.WithinCaps
  history : Capped s.cfg s.journal

theorem Rotates.capInv {E : Env} (h : Rotates E s s') (hc : CapInv s) : CapInv s' := by
  obtain ⟨now, hev, -⟩ := h.evicts
  refine ⟨h.coherent hc.coherent, hc.within.congr ⟨h.cfg_eq, h.opens_eq, hev.nOpen_eq⟩, ?_⟩
  rw [h.cfg_eq, h.journal_eq]
  exact hc.history

/-- One move. -/
theorem Move.capInv (h : Move S C s s') (hC : C.Parsed S) (hf : FreshCid C s) (hl : Live S s)
    (hc : CapInv s) : CapInv s' := by
  have hl' := h.live hC hf hl
  cases h with
  | clock => exact ⟨hc.coherent, hc.within, hc.history⟩
  | check hev =>
    exact ⟨hc.coherent.evicts hev, hc.within.congr (sameOpens_of_evicts hev), hc.history⟩
  | torn => exact ⟨hc.coherent, hc.within, hc.history⟩
  | landed ok hfs =>
    exact ⟨hc.coherent, hc.within, hc.history.snoc hc.coherent (hl.view_eq ok.healthy) ok.allowed⟩
  | @append w n line act install ok hfs =>
    have hview := hl.view_eq ok.healthy
    have hcfg : (install s.toTables).cfg = s.cfg := (ok.allowed.install_uids hc.coherent.uids).1
    have hcoherent := (hc.coherent.installed ok.allowed
      (ok.allowed.view_eq_none hf hl.guarded hview)).rateNote (C.entry s line act).chargedUid
        (C.entry s line act).now (C.entry s line act).size
    have hcapped := hc.history.snoc hc.coherent hview ok.allowed
    rw [← hcfg] at hcapped
    exact ⟨hcoherent, Capped.withinCaps hcapped hcoherent (hl'.view_eq ok.healthy), hcapped⟩
  | stay _ hst => exact hst.toCarries.rotates.capInv hc
  | turn _ htu => exact htu.toRotates.capInv hc

theorem Moves.capInv (h : Moves S C s s') (hC : C.Parsed S) (hf : FreshCid C s) (hl : Live S s)
    (hc : CapInv s) : CapInv s' := by
  induction h with
  | refl => exact hc
  | tail hmoves hmove ih =>
    exact hmove.capInv hC (Moves.freshCid hmoves hf) (Moves.live hmoves hC hf hl) ih

end Caps

section CappedRuns

variable {S : Site} {fs : Fs} {cfg : Config} {evs : List Event} {ev : Event}

/-- Every start of the run has this configuration. -/
def Under (cfg : Config) (evs : List Event) : Prop :=
  ∀ env cfg' rollback, .start env cfg' rollback ∈ evs → cfg' = cfg

/-- What a run under one configuration keeps. -/
structure CapTraced (cfg : Config) (s : St) : Prop where
  history : Capped cfg s.journal
  live : s.alive = true → s.cfg = cfg ∧ CapInv s

theorem CapTraced.step {s₀ s : St} (h : CapTraced cfg s) (ht : Traced S s₀ evs s)
    (hs : s = run S s₀ evs) (hE : ev.env.UnlinksWork) (hids : FreshIds S (evs ++ [ev]))
    (hu : Under cfg [ev]) :
    CapTraced cfg (step S s ev).2 := by
  have ht' := (ht.step hs hE hids).1
  cases ev with
  | request env peer body =>
    simp only [AuditBroker.step] at ht' ⊢
    split
    · rename_i halive
      unfold connHandle
      split
      · obtain ⟨hcfg, hc⟩ := h.live halive
        exact ⟨h.history, fun _ => ⟨hcfg, hc.coherent, hc.within, hc.history⟩⟩
      · rename_i req hreq
        obtain ⟨hcfg, hc⟩ := h.live halive
        have hE : env.UnlinksWork := hE
        have hmoves := ht.moves peer req hE halive
        have hbegin : CapInv s.begin_ := ⟨hc.coherent, hc.within, hc.history⟩
        have hlive := (ht.inv.live halive).begin_
        have hc' := hmoves.capInv ⟨body, hreq⟩ (ht.freshCid hids hreq) hlive hbegin
        have hgrows := (ht.handle hE hids halive hreq).2.1
        have hcfg' := hgrows.cfg.trans hcfg
        exact ⟨hcfg' ▸ hc'.history, fun _ => ⟨hcfg', hc'.coherent, hc'.within, hc'.history⟩⟩
    · rename_i hdead
      exact ⟨h.history, fun halive => absurd halive hdead⟩
  | start env cfg' rollback =>
    obtain rfl : cfg' = cfg := hu env cfg' rollback (by simp)
    obtain ⟨hinv, hj, -⟩ := ht.inv.start env cfg' rollback
    have hhistory : Capped cfg' (AuditBroker.step S s (.start env cfg' rollback)).2.journal := by
      rw [hj]
      exact h.history
    refine ⟨hhistory, fun halive => ?_⟩
    have hlive := hinv.live halive
    rw [step_start] at hhistory halive hlive ⊢
    cases hopen : rabBrokerOpen S env cfg' (s.found rollback) with
    | mk err s' =>
      rw [hopen] at hhistory halive hlive
      cases err with
      | some e =>
        have hdead : s'.alive = false := alive_of_refused hopen
        simp [St.finish, hdead] at halive
      | none =>
        obtain ⟨hc, hcfg, hp⟩ := coherent_rabBrokerOpen hopen
        have hcapped : Capped s'.cfg s'.journal := hcfg.symm ▸ hhistory
        exact ⟨hcfg, hc, hcapped.withinCaps hc (hlive.view_eq hp), hcapped⟩

theorem capTraced_run (h : EmptySink S fs) (hunlinks : UnlinksRun evs) (hids : FreshIds S evs)
    (hu : Under cfg evs) :
    CapTraced cfg (run S (St.initial fs) evs) := by
  induction evs using List.reverseRecOn with
  | nil =>
    refine ⟨⟨?_, fun uid => ?_⟩, fun halive => by cases halive⟩ <;>
      simp [Ledger.those, St.initial]
  | append_singleton evs ev ih =>
    have hpre : Under cfg evs := fun env cfg' rollback hmem =>
      hu env cfg' rollback (List.mem_append_left _ hmem)
    have hlast : Under cfg [ev] := fun env cfg' rollback hmem =>
      hu env cfg' rollback (List.mem_append_right _ hmem)
    rw [run_concat]
    have ht := traced_run h hunlinks.of_append hids.of_append
    exact (ih hunlinks.of_append hids.of_append hpre).step ht rfl hunlinks.last hids hlast

/-- Minted ids that do not collide are new in a run from an empty sink. -/
theorem FreshIds.freshRun (hids : FreshIds S evs) (hunlinks : UnlinksRun evs)
    (h : EmptySink S fs) : FreshRun S (St.initial fs) evs := by
  intro i ev cid hev hcid halive
  have htake : evs.take (i + 1) = evs.take i ++ [ev] := by
    rw [List.take_add_one, hev]
    rfl
  have hids' : FreshIds S (evs.take i ++ [ev]) := htake ▸ hids.take (i + 1)
  have ht := traced_run h (hunlinks.take i) (hids.take i)
  cases ev with
  | start env cfg rollback => cases hcid
  | request env peer body =>
    simp only [Event.minted?] at hcid
    split at hcid
    · rename_i req hreq
      split at hcid
      · rename_i htype
        have hfresh := ht.freshCid hids' hreq ht.unwritten htype cid hcid
        refine ⟨?_, hfresh⟩
        obtain ⟨J, hJ, hview⟩ := (ht.inv.live halive).log
        rw [hview]
        cases hled : ledger J cid with
        | none => rfl
        | some oi =>
          have hg : Guarded (EntryGuard S) J := by
            have hg := (ht.inv.live halive).guarded
            rw [hJ] at hg
            exact hg.of_append
          obtain ⟨e, he, hact⟩ := opened_of_ledger hg hled
          exact absurd hact (hfresh e (by rw [hJ]; exact List.mem_append_left _ he) _)
      · cases hcid
    · cases hcid

/-- The representation invariant of the open set holds whenever there is a process, whatever the
sink contained; and after a run from an empty sink under one configuration the counters are within
the caps. -/
theorem open_set_invariant (S : Site) (evs : List Event) (fs : Fs)
    (halive : (run S (St.initial fs) evs).alive = true) :
    (FreshRun S (St.initial fs) evs → (run S (St.initial fs) evs).toTables.Coherent) ∧
    (EmptySink S fs → UnlinksRun evs → FreshIds S evs → ∀ cfg, Under cfg evs →
      (run S (St.initial fs) evs).opens.openCount ≤ cfg.maxOpenGlobal.toNat ∧
      ∀ uid, ((run S (St.initial fs) evs).uids.node uid).nOpen ≤ cfg.maxOpenPerUid) := by
  refine ⟨fun hfresh => coherent_run hfresh halive, fun hempty hunlinks hids cfg hu => ?_⟩
  obtain ⟨hcfg, hc⟩ := (capTraced_run hempty hunlinks hids hu).live halive
  rw [← hcfg]
  exact ⟨hc.within.total, hc.within.perUid⟩

/-- After the effect open, one intent is open, and it is that of uid 1000. -/
theorem open_set_invariant_openRun :
    (run Sample.site (St.initial Sample.fs) Sample.openRun).opens.openCount = 1 ∧
      (run Sample.site (St.initial Sample.fs) Sample.openRun).toTables.Coherent ∧
      1 ≤ Sample.config.maxOpenGlobal.toNat ∧
      ((run Sample.site (St.initial Sample.fs) Sample.openRun).uids.node 1000).nOpen ≤
        Sample.config.maxOpenPerUid := by
  have hinv := open_set_invariant Sample.site Sample.openRun Sample.fs (by decide +kernel)
  have hunder : Under Sample.config Sample.openRun := by
    intro env cfg rollback hmem
    simp only [Sample.openRun, List.mem_cons, Event.start.injEq, reduceCtorEq, List.not_mem_nil,
      or_false] at hmem
    exact hmem.2.1
  obtain ⟨htotal, huid⟩ := hinv.2 Sample.emptySink Sample.unlinksRun_openRun
    Sample.freshIds_openRun Sample.config hunder
  have hone : (run Sample.site (St.initial Sample.fs) Sample.openRun).opens.openCount = 1 := by
    decide +kernel
  rw [hone] at htotal
  have hfresh := Sample.freshIds_openRun.freshRun Sample.unlinksRun_openRun Sample.emptySink
  exact ⟨hone, hinv.1 hfresh, htotal, huid 1000⟩

end CappedRuns

end AuditBroker
