import AuditBroker.Census

/-!
# What every node has

A property of every linked node of the open set survives the operations on the open set if it survives
what each of them does to one node, and it survives a replay if every record keeps it.
-/

namespace AuditBroker

open Foundation

variable {S : Site} {p : Intent → Prop} {o : OpenSet} {a : ℕ} {r : Receipt} {R R' : Replay}

/-- Every linked node is allocated and has the property. -/
def OpenSet.Each (p : Intent → Prop) (o : OpenSet) : Prop :=
  ∀ i, ∀ a ∈ o.bktCid i, a < o.next ∧ p (o.heap a)

namespace OpenSet.Each

theorem init (p : Intent → Prop) (nbkt : ℕ) : (OpenSet.init nbkt).Each p := by
  intro i a ha
  simp [OpenSet.init] at ha

theorem of_open (h : o.Each p) (ha : o.Open a) : p (o.heap a) := (h _ a ha).2

theorem openAdd {cid : Buf cidMax} {binding : Buf bindingMax} {actor : Actor}
    {op res : Buf metaMax} {scope : Buf scopeMax} (h : o.Each p)
    (hnew : p { binding, actor, operation := op, resource := res, scope, receipt := none, cid,
                fromCheckpoint := false }) :
    (o.openAdd cid binding actor op res scope).Each p := by
  intro i a ha
  rcases Chains.mem_push.mp ha with ⟨rfl, -⟩ | ha
  · refine ⟨Nat.lt_succ_self _, ?_⟩
    simpa [OpenSet.openAdd] using hnew
  · obtain ⟨hlt, hp⟩ := h i a ha
    refine ⟨Nat.lt_succ_of_lt hlt, ?_⟩
    simpa [OpenSet.openAdd, hlt.ne] using hp

theorem openRemove (h : o.Each p) (a : ℕ) : (o.openRemove a).Each p := by
  intro i b hb
  have hmem : b ∈ o.bktCid i := by
    have hb' : b ∈ o.bktCid.unlink (bucket o.nbkt (o.heap a).cid.bytes) a i := by
      simp only [OpenSet.openRemove] at hb
      split at hb <;> exact hb
    unfold Chains.unlink at hb'
    by_cases hi : i = bucket o.nbkt (o.heap a).cid.bytes
    · subst hi
      rw [Function.update_self] at hb'
      exact List.mem_of_mem_erase hb'
    · rwa [Function.update_of_ne hi] at hb'
  obtain ⟨hlt, hp⟩ := h i b hmem
  have hheap : (o.openRemove a).heap = o.heap ∧ (o.openRemove a).next = o.next := by
    simp only [OpenSet.openRemove]
    split <;> exact ⟨rfl, rfl⟩
  rw [hheap.1, hheap.2]
  exact ⟨hlt, hp⟩

theorem setReceipt (h : o.Each p)
    (hr : p (o.heap a) → p { o.heap a with receipt := some r }) : (o.setReceipt a r).Each p := by
  intro i b hb
  obtain ⟨hlt, hp⟩ := h i b hb
  refine ⟨hlt, ?_⟩
  by_cases hba : b = a
  · subst hba
    simp only [OpenSet.setReceipt, Function.update_self]
    exact hr hp
  · simpa [OpenSet.setReceipt, hba] using hp

theorem installReceipt (h : o.Each p)
    (hr : p (o.heap a) → p { o.heap a with receipt := some r }) : (o.installReceipt a r).Each p :=
  h.setReceipt hr

theorem markCheckpoint (h : o.Each p)
    (hmark : p (o.heap a) → p { o.heap a with fromCheckpoint := true }) :
    (o.markCheckpoint a).Each p := by
  intro i b hb
  obtain ⟨hlt, hp⟩ := h i b hb
  refine ⟨hlt, ?_⟩
  by_cases hba : b = a
  · subst hba
    simp only [OpenSet.markCheckpoint, Function.update_self]
    exact hmark hp
  · simpa [OpenSet.markCheckpoint, hba] using hp

end OpenSet.Each

/-! ## Replay -/

/-- A record keeps the property: the intent that it may open has it, and the receipt that it may add
keeps it. -/
structure Stored.Keeps (p : Intent → Prop) (st : Stored) : Prop where
  mark : ∀ it : Intent, p it → p { it with fromCheckpoint := true }
  opening : ∀ s, (st = .checkpoint s ∨ ∃ phase, st = .audit s phase) →
    p { binding := s.binding, actor := s.actor, operation := s.operation, resource := s.resource
        scope := s.scope, receipt := none, cid := s.cid, fromCheckpoint := false }
  issue : ∀ cid ck r (it : Intent), st = .receipt cid ck r → it.cid = cid →
    r.actorUid = it.actor.uid → p it → p { it with receipt := some r }
  redeem : ∀ r₀ now (it : Intent), it.receipt = some r₀ → p it →
    p { it with receipt := some { r₀ with state := .redeemed, acceptedTimeUs := now } }

theorem OpenSet.Each.applyOpening {s : StoredIntent} {ck : Bool} (h : R.tables.opens.Each p)
    (hmark : ∀ it : Intent, p it → p { it with fromCheckpoint := true })
    (hnew : p { binding := s.binding, actor := s.actor, operation := s.operation
                resource := s.resource, scope := s.scope, receipt := none, cid := s.cid
                fromCheckpoint := false })
    (heq : AuditBroker.applyOpening R s ck = .ok R') : R'.tables.opens.Each p := by
  have hadd : (R.tables.openAdd s.cid s.binding s.actor s.operation s.resource
      s.scope).opens.Each p := h.openAdd hnew
  unfold AuditBroker.applyOpening at heq
  simp only at heq
  split at heq
  · cases heq
  split at heq
  · split at heq
    · cases heq
    split at heq
    · cases heq
    · cases heq
      exact h
  · split at heq
    · cases heq
    split at heq
    · split at heq
      · cases heq
        exact hadd.markCheckpoint (hmark _)
      · cases heq
        exact hadd
    · cases heq
      exact hadd

theorem OpenSet.Each.applyReceipt {t t' : Tables} {cid : Buf cidMax} {ck : Bool}
    (h : t.opens.Each p) (hst : Stored.Keeps p (.receipt cid ck r)) (hcid : (t.opens.heap a).cid = cid)
    (heq : AuditBroker.applyReceipt t a ck r = .ok t') : t'.opens.Each p := by
  unfold AuditBroker.applyReceipt at heq
  simp only at heq
  split at heq
  · cases heq
  rename_i hbound
  have huid : r.actorUid = (t.opens.heap a).actor.uid := by
    by_contra hne
    exact hbound (Or.inl hne)
  split at heq
  · cases heq
  split at heq
  · split at heq
    · cases heq
    split at heq
    · cases heq
    · cases heq
      exact h.installReceipt (hst.issue cid ck r _ rfl hcid huid)
  · rename_i r₀ hr₀
    split at heq
    · cases heq
    split at heq
    · split at heq
      · cases heq
      · cases heq
        exact h
    split at heq
    · cases heq
      exact h.setReceipt (hst.redeem r₀ _ _ hr₀)
    · cases heq

theorem OpenSet.Each.applyStored {st : Stored} (h : R.tables.opens.Each p) (hst : st.Keeps p)
    (heq : AuditBroker.applyStored R st = .ok R') : R'.tables.opens.Each p := by
  unfold AuditBroker.applyStored at heq
  split at heq
  · exact h.applyOpening hst.mark (hst.opening _ (.inl rfl)) heq
  · split at heq
    · exact h.applyOpening hst.mark (hst.opening _ (.inr ⟨_, rfl⟩)) heq
    split at heq
    · split at heq
      · cases heq
      · cases heq
        exact h.openRemove _
    · cases heq
      exact h
  · rename_i cid ck r
    split at heq
    · cases heq
    · rename_i a ha
      have hcid : (R.tables.opens.heap a).cid = cid := OpenSet.cid_of_openFindCid ha
      cases hres : AuditBroker.applyReceipt R.tables a ck r with
      | error e =>
        rw [hres] at heq
        cases heq
      | ok t =>
        rw [hres] at heq
        cases heq
        exact h.applyReceipt hst hcid hres
  · cases heq
    exact h

theorem opens_chargeStored (t : Tables) (st : Stored) (nbytes : UInt64) :
    (chargeStored t st nbytes).opens = t.opens := by
  unfold chargeStored
  split
  · rfl
  · rfl
  · rename_i uid entries
    induction entries generalizing t with
    | nil => rfl
    | cons e entries ih => exact ih (t.rateNote uid e.1 e.2)
  · rfl

theorem OpenSet.Each.replayLines {lines : List Bytes} (h : R.tables.opens.Each p)
    (hst : ∀ line st, rabParseStored S.codec line = some st → st.Keeps p)
    (heq : AuditBroker.replayLines S R lines = .ok R') : R'.tables.opens.Each p := by
  induction lines generalizing R with
  | nil =>
    cases heq
    exact h
  | cons line lines ih =>
    obtain ⟨R₁, hline, hrest⟩ := replayLines_cons_eq_ok.mp heq
    refine ih ?_ hrest
    by_cases hnil : line = []
    · rw [AuditBroker.replayLine, if_pos hnil] at hline
      cases hline
      exact h
    · obtain ⟨st, R₂, hparse, happly, rfl⟩ := (replayLine_eq_ok hnil).mp hline
      rw [opens_chargeStored]
      exact h.applyStored (hst line st hparse) happly

end AuditBroker
