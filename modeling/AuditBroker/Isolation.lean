import AuditBroker.Foundation.Unwinding
import AuditBroker.Nodes
import AuditBroker.Provenance
import AuditBroker.Repair

/-!
# One uid and the others

What the others do changes nothing of what a uid has in the broker: its open intents, its count of
them, and its window.  So the requests of the uid and the redemptions of its receipts are answered as
if the others had not been there, as long as neither of the two global limits is the reason of a
refusal.
-/

namespace AuditBroker

open Foundation

variable {S : Site} {E : Env} {C D : Ctx} {B : UInt32} {th th' : UInt64} {L : Ledger}
  {Cs Cs' : List Ctx} {cid : Buf cidMax} {oi : OpenIntent} {s s' s₁ : St} {l : List Entry}

/-! ## Requests of others -/

/-- What a uid has in the broker has not changed, except that entries may have left its window. -/
structure Unmoved (B : UInt32) (th : UInt64) (s s' : St) : Prop where
  cfg : s'.cfg = s.cfg
  host : s'.host = s.host
  opens : ∀ cid, ofUid B (s'.opens.view cid) = ofUid B (s.opens.view cid)
  nOpen : (s'.uids.node B).nOpen = (s.uids.node B).nOpen
  ring : (s'.uids.node B).ring.uidEvict th = (s.uids.node B).ring.uidEvict th

theorem Unmoved.trans {s'' : St} (h : Unmoved B th s s') (h' : Unmoved B th s' s'') :
    Unmoved B th s s'' :=
  ⟨h'.cfg.trans h.cfg, h'.host.trans h.host, fun cid => (h'.opens cid).trans (h.opens cid),
    h'.nOpen.trans h.nOpen, h'.ring.trans h.ring⟩

/-- Evictions at thresholds that have passed. -/
theorem Dropped.evict {u u' : UidState} (h : Dropped E s s' u u')
    (hread : ∀ t, Reading E s s' t → winTh s.cfg t ≤ th) :
    u'.ring.uidEvict th = u.ring.uidEvict th ∧ u'.nOpen = u.nOpen := by
  rcases h with rfl | ⟨t, ht, rfl⟩
  · exact ⟨rfl, rfl⟩
  · rw [UidState.ring_uidEvict, UidState.uidEvict_uidEvict, if_pos (hread t ht),
      UidState.uidEvict_nOpen]
    exact ⟨rfl, rfl⟩

/-- All readings of a request are within the threshold. -/
theorem Reading.le {t : UInt64} (h : Reading E s s' t) (hs : winTh s.cfg s.lastClock ≤ th)
    (hE : ∀ k, winTh s.cfg (E.clock k) ≤ th) : winTh s.cfg t ≤ th := by
  rcases h with rfl | ⟨k, -, -, rfl⟩
  · exact hs
  · exact hE k

theorem Idle.unmoved (h : Idle E s s') (hs : winTh s.cfg s.lastClock ≤ th)
    (hE : ∀ k, winTh s.cfg (E.clock k) ≤ th) : Unmoved B th s s' := by
  obtain ⟨hring, hcount⟩ := (h.rings B).evict fun t ht => ht.le hs hE
  refine ⟨h.cfg_eq, ?_, fun cid => ?_, hcount, hring⟩
  · rw [h.rest]
  · rw [h.opens_eq]

theorem Rotates.unmoved (h : Rotates E s s') (hs : winTh s.cfg s.lastClock ≤ th)
    (hE : ∀ k, winTh s.cfg (E.clock k) ≤ th) : Unmoved B th s s' := by
  obtain ⟨hring, hcount⟩ := (h.dropped B).evict fun t ht => ht.le hs hE
  refine ⟨h.cfg_eq, ?_, fun cid => ?_, hcount, hring⟩
  · rw [h.rest]
  · rw [h.opens_eq]

theorem ofUid_eq_none (h : ∀ oi, L cid = some oi → oi.actor.uid ≠ B) : ofUid B (L cid) = none := by
  rw [ofUid, Option.filter_eq_none_iff]
  intro oi hoi
  simpa using h oi hoi

/-- A line about an intent of another uid. -/
theorem Act.ofUid_apply_of_ne {act : Act} (hold : ∀ oi, L act.cid = some oi → oi.actor.uid ≠ B)
    (hnew : ∀ oi, act.apply L act.cid = some oi → oi.actor.uid ≠ B) (cid : Buf cidMax) :
    ofUid B (act.apply L cid) = ofUid B (L cid) := by
  by_cases hcid : cid = act.cid
  · rw [hcid, ofUid_eq_none hold, ofUid_eq_none hnew]
  · rw [Act.apply_of_ne hcid]

/-- The receipts of the uid are not the ones that the request redeems. -/
def Ctx.Foreign (S : Site) (B : UInt32) (L : Ledger) (Cs : List Ctx) (C : Ctx) : Prop :=
  C.peer.uid ≠ B ∧ (C.peer.uid = 0 → C.req.type = .redeem → ∀ cid oi, Known S L Cs cid oi →
    HasToken S C.req.effectReceipt.bytes oi → oi.actor.uid ≠ B)

/-- A line of a foreign request is about another uid: that uid is charged, and nothing that this uid
has open changes. -/
theorem Allowed.foreign {line : Bytes} {act : Act} {install : Tables → Tables}
    (h : Allowed S C s line act install) (hf : C.Foreign S B L Cs) (hok : s.toTables.Ok)
    (hnew : ∀ cid oi, act = .intent cid oi → s.opens.view cid = none) (ho : Origins S L Cs s)
    (hm : Minting S L Cs) :
    (C.entry s line act).chargedUid ≠ B ∧
      (∀ cid, ofUid B (act.apply s.opens.view cid) = ofUid B (s.opens.view cid)) ∧
      ((install s.toTables).uids.node B).nOpen = (s.uids.node B).nOpen := by
  obtain ⟨hpeer, hredeem⟩ := hf
  cases h with
  | @intent cid binding type fits hcid hbinding first caps hline =>
    refine ⟨hpeer, Act.ofUid_apply_of_ne ?_ ?_, ?_⟩
    · intro oi hoi
      rw [Act.cid, hnew cid _ rfl] at hoi
      cases hoi
    · intro oi hoi
      rw [Act.cid, Act.apply_intent, Option.some_inj] at hoi
      rw [← hoi]
      exact hpeer
    · exact (hok.nOpen_openAdd B).trans (if_neg hpeer)
  | @outcome a type find actor gate hline =>
    have hopen := (hok.opens.of_openFindBinding find).1
    have huid : (s.opens.heap a).actor.uid ≠ B := by
      rw [rabActorEq_iff.mp actor]
      exact hpeer
    refine ⟨hpeer, Act.ofUid_apply_of_ne ?_ ?_, ?_⟩
    · intro oi hoi
      rw [Act.cid, hok.opens.view_of_open hopen, Option.some_inj] at hoi
      rw [← hoi]
      exact huid
    · intro oi hoi
      rw [Act.cid, Act.apply_outcome] at hoi
      cases hoi
    · simp only [Tables.openRemove]
      split
      · simp [UidTable.setNode, Function.update_of_ne huid.symm]
      · rfl
  | emit => exact ⟨hpeer, fun _ => rfl, rfl⟩
  | @issue a r token attempt effect find opened none r_eq schema boot minted unused hline =>
    have hopen := (hok.opens.openFindCid_eq_some_iff.mp find).1
    have hview := hok.opens.view_of_open hopen
    have huid : (s.opens.heap a).actor.uid ≠ B := by
      rw [(ho.of_opened hm hview opened).2.2.2]
      exact hpeer
    have hold : ∀ oi, s.opens.view (s.opens.heap a).cid = some oi → oi.actor.uid ≠ B := by
      intro oi hoi
      rw [hview, Option.some_inj] at hoi
      rw [← hoi]
      exact huid
    refine ⟨?_, Act.ofUid_apply_of_ne hold ?_, rfl⟩
    · change r.actorUid ≠ B
      rw [r_eq]
      exact huid
    · intro oi hoi
      rw [Act.cid, Act.apply_receipt, Option.map_eq_some_iff] at hoi
      obtain ⟨oi₁, hoi₁, rfl⟩ := hoi
      exact hold oi₁ hoi₁
  | @redeem a r nowUs type superuser find receipt issued principal token bound boot ttl hline =>
    have hopen := (hok.opens.openFindCid_eq_some_iff.mp find).1
    have hview := hok.opens.view_of_open hopen
    have hknown := ho.view _ _ hview
    have huid : (s.opens.heap a).actor.uid ≠ B := by
      obtain ⟨a₀, hfind₀, hcid₀⟩ := token
      obtain ⟨hopen₀, r₀, hr₀, hver⟩ := hok.opens.of_openFindVerifier hfind₀
      obtain rfl : a₀ = a := hok.opens.cid_inj a₀ a hopen₀ hopen hcid₀
      exact hredeem superuser type _ _ hknown ⟨r₀, hr₀, hver⟩
    have hold : ∀ oi, s.opens.view (s.opens.heap a).cid = some oi → oi.actor.uid ≠ B := by
      intro oi hoi
      rw [hview, Option.some_inj] at hoi
      rw [← hoi]
      exact huid
    refine ⟨?_, Act.ofUid_apply_of_ne hold ?_, rfl⟩
    · change r.actorUid ≠ B
      rw [hknown.bearer r receipt]
      exact huid
    · intro oi hoi
      rw [Act.cid, Act.apply_receipt, Option.map_eq_some_iff] at hoi
      obtain ⟨oi₁, hoi₁, rfl⟩ := hoi
      exact hold oi₁ hoi₁

/-- The lines of a foreign request. -/
theorem Durably.unmoved (h : Durably S C s l s₁) (hf : C.Foreign S B L Cs) (hwf : s.opens.Wf)
    (hu : Unopened C s) (ho : Origins S L Cs s) (hm : Minting S L Cs)
    (hC : C.req.type = .openIntent → C ∈ Cs) (hs : winTh s.cfg s.lastClock ≤ th)
    (hE : ∀ k, winTh s.cfg (C.env.clock k) ≤ th) : Unmoved B th s s₁ := by
  induction h with
  | idle hidle => exact hidle.unmoved hs hE
  | @line l s₁ s' w line act install before ok allowed _ _ after ih =>
    obtain ⟨hok, hu₁⟩ := before.ok hwf hu
    have hok₁ := hok ok
    have ho₁ := before.origins hwf hu ho hm hC
    obtain ⟨hcharged, hopens, hcount⟩ := allowed.foreign hf hok₁ (hu₁.new allowed) ho₁ hm
    obtain ⟨hiok, hview⟩ := allowed.install_of_new hok₁ (hu₁.new allowed)
    have hcfg : (s₁.charged C w line act install).cfg = s₁.cfg :=
      (allowed.install_uids (t := s₁.toTables) ok).1
    -- The line charges another uid.
    have hmoved : Unmoved B th s₁ (s₁.charged C w line act install) := by
      refine ⟨hcfg, rfl, fun cid => ?_, ?_, ?_⟩
      · rw [← hopens cid, ← hview]
        rfl
      · rw [← hcount]
        exact (hiok.sameOpens_rateNote _ _ _).1.nOpen B
      · have hring := allowed.keepsRings.ring_charge
          (s := { s₁ with toWorld := w, segBytes := s₁.segBytes + (C.entry s₁ line act).size
                          journal := s₁.journal ++ [C.entry s₁ line act] })
          ok (C.entry s₁ line act) B
        rw [if_neg fun hif => hcharged hif.2] at hring
        exact congrArg (fun u => UidState.uidEvict u th) hring
    -- The clock and the configuration at the later states.
    obtain ⟨-, hcfg₁, hclock₁⟩ := before.rest
    have hle : ∀ t : UInt64, (t = s.lastClock ∨ ∃ k, t = C.env.clock k) → winTh s.cfg t ≤ th := by
      rintro t (rfl | ⟨k, rfl⟩)
      · exact hs
      · exact hE k
    have hrot := allowed.rotates_committed ok w
    have hcfg₂ : (s₁.charged C w line act install).cfg = s.cfg := hcfg.trans hcfg₁
    have hcfg₃ : (s₁.committed S C w line act install).cfg = s.cfg := hrot.cfg_eq.trans hcfg₂
    have hlast₂ : winTh (s₁.charged C w line act install).cfg
        (s₁.charged C w line act install).lastClock ≤ th := by
      rw [hcfg₂]
      exact hle _ hclock₁
    have hE₂ : ∀ k, winTh (s₁.charged C w line act install).cfg (C.env.clock k) ≤ th := by
      rw [hcfg₂]
      exact hE
    have hE₃ : ∀ k, winTh (s₁.committed S C w line act install).cfg (C.env.clock k) ≤ th := by
      rw [hcfg₃]
      exact hE
    have hlast₃ : winTh (s₁.committed S C w line act install).cfg
        (s₁.committed S C w line act install).lastClock ≤ th := by
      rw [hcfg₃, ← hcfg₂]
      exact hrot.reading.le hlast₂ hE₂
    exact ((ih.trans hmoved).trans (hrot.unmoved hlast₂ hE₂)).trans (after.unmoved hlast₃ hE₃)

/-! ## Requests that are answered for the uid -/

/-- What a request that is answered for the uid finds in the tables. -/
structure Attended (S : Site) (B : UInt32) (C : Ctx) (t : Tables) : Prop where
  cids : C.req.type = .openIntent → ∀ cid, rabMakeCorrelationId C.env = some cid →
    t.opens.view cid = none
  tokens : C.req.type = .openIntent → ∀ k token, rabMakeReceipt C.env k = some token →
    VerifierFree S t.opens.view token.bytes
  binding : C.req.type = .writeOutcome → t.Owned B fun oi => oi.binding.bytes = C.req.binding.bytes
  token : C.peer.uid = 0 → C.req.type = .redeem → t.Owned B (HasToken S C.req.effectReceipt.bytes)
  bearer : ∀ cid oi r, t.opens.view cid = some oi → oi.receipt = some r → r.actorUid = oi.actor.uid

/-- The open set is all that matters. -/
theorem Attended.congr {t t' : Tables} (h : Attended S B C t) (ho : t'.opens = t.opens) :
    Attended S B C t' := by
  have howned : ∀ p, t.Owned B p → t'.Owned B p := by
    rintro p ⟨owner, unique⟩
    rw [← ho] at owner unique
    exact ⟨owner, unique⟩
  obtain ⟨cids, tokens, binding, token, bearer⟩ := h
  rw [← ho] at cids tokens bearer
  exact ⟨cids, tokens, fun htype => howned _ (binding htype),
    fun hroot htype => howned _ (token hroot htype), bearer⟩

/-- The request comes from the uid, or is a redemption by the superuser. -/
def Ctx.AnswersTo (B : UInt32) (C : Ctx) : Prop :=
  C.peer.uid = B ∨ C.peer.uid = 0 ∧ C.req.type = .redeem

/-- The broker without the global byte limit. -/
def St.unlimited (s : St) : St := { s with cfg := s.cfg.unlimited }

theorem twins_unlimited (hok : s.toTables.Ok) (hp : s.poisoned = false) (B : UInt32) (th : UInt64) :
    Twins B th s s.unlimited :=
  ⟨⟨rfl, hok, ⟨hok.opens, hok.uids.placed, hok.uids.absent⟩, fun _ => rfl, rfl, rfl⟩, rfl, hp, hp⟩

theorem ReplyPair.twins {r r' : Response × St} (h : ReplyPair B th s r r') (heq : r.1 = r'.1) :
    Twins B th r.2 r'.2 := by
  cases h with
  | same twins => exact twins
  | limited on ne => exact absurd heq ne

theorem rabBrokerHandle_pair {now : UInt64} (hE : C.env.Faultless) (hnow : ∀ k, C.env.clock k = now)
    (h : Twins B th s s') (hth : th = winTh s.cfg now) (hoff : s'.cfg.rateMaxBytesGlobal = 0)
    (hC : C.AnswersTo B) (hr : Attended S B C s.toTables) (hr' : Attended S B C s'.toTables)
    (hcap : (rabBrokerHandle S C s).1 ≠ capReached)
    (hcap' : (rabBrokerHandle S C s').1 ≠ capReached) :
    ReplyPair B th s (rabBrokerHandle S C s) (rabBrokerHandle S C s') := by
  have hpeer : C.req.type ≠ .redeem → C.peer.uid = B := fun hne => hC.resolve_right fun hx => hne hx.2
  simp only [rabBrokerHandle, h.healthy, h.healthy', Bool.false_eq_true, if_false] at hcap hcap' ⊢
  cases htype : C.req.type with
  | openIntent =>
    simp only [htype] at hcap hcap'
    exact handleOpen_pair hE hnow h hth hoff (hpeer (by simp [htype]))
      (fun cid hcid => ⟨hr.cids htype cid hcid, hr'.cids htype cid hcid⟩)
      (fun k token ht => ⟨hr.tokens htype k token ht, hr'.tokens htype k token ht⟩) hcap hcap'
  | writeOutcome =>
    exact handleOutcome_pair hE hnow h hth hoff (hpeer (by simp [htype])) (hr.binding htype)
      (hr'.binding htype)
  | emit => exact handleEmit_pair hE hnow h hth hoff (hpeer (by simp [htype]))
  | capabilities => exact .same h
  | redeem =>
    by_cases hroot : C.peer.uid = 0
    · exact handleRedeem_pair hE hnow h hth hoff (hr.token hroot htype) (hr'.token hroot htype) hr.bearer
    · simp only [handleRedeem, if_pos hroot]
      exact .same h

/-- A global limit is the reason of a refusal: the table of open intents is full, or the answer would
be different without the byte limit. -/
def Limited (S : Site) (C : Ctx) (s : St) : Prop :=
  (rabBrokerHandle S C s).1 = capReached ∨
    (rabBrokerHandle S C s).1 ≠ (rabBrokerHandle S C s.unlimited).1

/-- Alike brokers give the same answer, if no global limit interferes in either of them. -/
theorem Twins.handle {now : UInt64} (h : Twins B th s s') (hE : C.env.Faultless)
    (hnow : ∀ k, C.env.clock k = now) (hth : th = winTh s.cfg now) (hC : C.AnswersTo B)
    (hr : Attended S B C s.toTables) (hr' : Attended S B C s'.toTables) (hlim : ¬Limited S C s)
    (hlim' : ¬Limited S C s') :
    (rabBrokerHandle S C s).1 = (rabBrokerHandle S C s').1 ∧
      Twins B th (rabBrokerHandle S C s).2 (rabBrokerHandle S C s').2 := by
  simp only [Limited, not_or, not_not] at hlim hlim'
  have hu := twins_unlimited h.ok h.healthy B th
  have hu' := twins_unlimited h.ok' h.healthy' B th
  have hth' : th = winTh s'.cfg now := hth.trans (h.winTh_eq now)
  -- Without the limit, from each broker to its own copy and between the copies.
  have hown := rabBrokerHandle_pair hE hnow hu hth rfl hC hr (hr.congr rfl) hlim.1
    (hlim.2 ▸ hlim.1)
  have hown' := rabBrokerHandle_pair hE hnow hu' hth' rfl hC hr' (hr'.congr rfl) hlim'.1
    (hlim'.2 ▸ hlim'.1)
  have hcross := rabBrokerHandle_pair (S := S) hE hnow ((hu.symm.trans h).trans hu') hth rfl hC
    (hr.congr rfl) (hr'.congr rfl) (hlim.2 ▸ hlim.1) (hlim'.2 ▸ hlim'.1)
  have hsame : (rabBrokerHandle S C s.unlimited).1 = (rabBrokerHandle S C s'.unlimited).1 ∧
      Twins B th (rabBrokerHandle S C s.unlimited).2 (rabBrokerHandle S C s'.unlimited).2 := by
    generalize rabBrokerHandle S C s.unlimited = r at hcross ⊢
    generalize rabBrokerHandle S C s'.unlimited = r' at hcross ⊢
    cases hcross with
    | same twins => exact ⟨rfl, twins⟩
    | limited on => exact absurd rfl on
  refine ⟨(hlim.2.trans hsame.1).trans hlim'.2.symm, ?_⟩
  exact ((hown.twins hlim.2).trans hsame.2).trans (hown'.twins hlim'.2).symm

/-! ## Whose binding, whose token -/

/-- The receipt of a token was issued for an intent of the uid: one that was open at the beginning, or
one that a request opened. -/
def IssuedTo (S : Site) (B : UInt32) (L : Ledger) (Cs : List Ctx) (token : Bytes) : Prop :=
  (∃ cid oi, L cid = some oi ∧ oi.actor.uid = B ∧ HasToken S token oi) ∨
    ∃ D ∈ Cs, D.peer.uid = B ∧ ∃ k t, rabMakeReceipt D.env k = some t ∧
      (verifierOf S t.bytes).bytes = (verifierOf S token).bytes

/-- The binding was issued to nobody but the uid. -/
structure BindingOf (B : UInt32) (L : Ledger) (Cs : List Ctx) (binding : Bytes) : Prop where
  old : ∀ cid oi, L cid = some oi → oi.binding.bytes = binding → oi.actor.uid = B
  minted : ∀ D ∈ Cs, ∀ b, rabMakeBinding D.env = some b → b.bytes = binding → D.peer.uid = B

/-- No two open intents have a verifier in common. -/
def Ledger.Verified (L : Ledger) : Prop :=
  ∀ cid cid' oi oi' r r', L cid = some oi → L cid' = some oi' → oi.receipt = some r →
    oi'.receipt = some r' → r.verifier = r'.verifier → cid = cid'

theorem Tables.Coherent.verified {t : Tables} (h : t.Coherent) : Ledger.Verified t.opens.view := by
  intro cid cid' oi oi' r r' hoi hoi' hr hr' hv
  obtain ⟨a, ha, rfl, rfl⟩ := h.opens.view_eq_some_iff.mp hoi
  obtain ⟨a', ha', rfl, rfl⟩ := h.opens.view_eq_some_iff.mp hoi'
  rw [h.verifiers a a' r r' ha ha' hr hr' hv]

theorem Origins.owned_binding (h : Origins S L Cs' s) (hsub : Cs' ⊆ Cs) (hm : Minting S L Cs)
    {binding : Bytes} (hB : BindingOf B L Cs binding) :
    s.toTables.Owned B fun oi => oi.binding.bytes = binding := by
  constructor
  · intro cid oi hoi hbinding
    rcases (h.view cid oi hoi).origin with ⟨view, heq, actor, -⟩ | ⟨mem, -, hminted, actor, -⟩
    · rw [actor]
      exact hB.old cid _ view (heq ▸ hbinding)
    · rw [actor]
      exact hB.minted _ (hsub mem) _ hminted hbinding
  · intro cid cid' oi oi' hoi hb hoi' hb'
    have hbinding : oi.binding = oi'.binding := Buf.ext (hb.trans hb'.symm)
    rcases (h.view cid oi hoi).origin with ⟨view, heq, -, -⟩ | ⟨mem, hcid, hminted, -, -⟩ <;>
      rcases (h.view cid' oi' hoi').origin with ⟨view', heq', -, -⟩ | ⟨mem', hcid', hminted', -, -⟩
    · exact hm.old cid cid' _ _ view view' (by rw [← heq, ← heq', hbinding])
    · exact absurd (heq.symm.trans hbinding) ((hm.new _ (hsub mem')).binding _ hminted' cid _ view)
    · exact absurd (heq'.symm.trans hbinding.symm)
        ((hm.new _ (hsub mem)).binding _ hminted cid' _ view')
    · have hD := hm.eq_of_not_apart (hsub mem) (hsub mem') fun hap =>
        hap.bindings _ hminted (hbinding ▸ hminted')
      rw [← hD, hcid] at hcid'
      exact Option.some.inj hcid'

theorem Origins.owned_token (h : Origins S L Cs' s) (hsub : Cs' ⊆ Cs) (hm : Minting S L Cs)
    (hc : s.toTables.Coherent) (hL : L.Verified) {token : Bytes} (hB : IssuedTo S B L Cs token) :
    s.toTables.Owned B (HasToken S token) := by
  constructor
  · rintro cid oi hoi ⟨r, hr, hv⟩
    rcases (h.view cid oi hoi).origin with ⟨view, -, actor, receipt⟩ | ⟨mem, -, -, actor, receipt⟩
    · obtain ⟨r₀, hr₀, hv₀⟩ := receipt r hr
      rcases hB with ⟨cid', oi', view', huid, r', hr', hv'⟩ | ⟨D, hD, huid, k, t, ht, heq⟩
      · -- The two are one intent, since verifiers are unique.
        obtain rfl : cid = cid' :=
          hL cid cid' _ _ r₀ r' view view' hr₀ hr' (Buf.ext (by rw [← hv₀, hv, hv']))
        rw [view, Option.some_inj] at view'
        rw [actor, view']
        exact huid
      · exact absurd (by rw [← hv₀, hv, heq]) ((hm.new D hD).tokens k t ht cid _ r₀ view hr₀)
    · obtain ⟨j, u, hu, hv₀⟩ := receipt r hr
      rcases hB with ⟨cid', oi', view', huid, r', hr', hv'⟩ | ⟨D, hD, huid, k, t, ht, heq⟩
      · exact absurd (by rw [hv', ← hv, hv₀]) ((hm.new _ (hsub mem)).tokens j u hu cid' _ r' view' hr')
      · have hD' := hm.eq_of_not_apart (hsub mem) hD fun hap =>
          hap.tokens j k u t hu ht (by rw [← hv₀, hv, heq])
        rw [actor, hD']
        exact huid
  · rintro cid cid' oi oi' hoi ⟨r, hr, hv⟩ hoi' ⟨r', hr', hv'⟩
    exact hc.verified cid cid' oi oi' r r' hoi hoi' hr hr' (Buf.ext (hv.trans hv'.symm))

/-- A request that is neither the uid's nor a redemption of one of its receipts is foreign. -/
theorem foreign_of_not_issuedTo (hsub : Cs' ⊆ Cs) (hpeer : C.peer.uid ≠ B)
    (hB : C.peer.uid = 0 → C.req.type = .redeem → ¬IssuedTo S B L Cs C.req.effectReceipt.bytes) :
    C.Foreign S B L Cs' := by
  refine ⟨hpeer, fun hroot htype cid oi hknown htoken huid => hB hroot htype ?_⟩
  obtain ⟨r, hr, hv⟩ := htoken
  rcases hknown.origin with ⟨view, -, actor, receipt⟩ | ⟨mem, -, -, actor, receipt⟩
  · obtain ⟨r₀, hr₀, hv₀⟩ := receipt r hr
    exact .inl ⟨cid, _, view, actor ▸ huid, r₀, hr₀, by rw [← hv₀, hv]⟩
  · obtain ⟨k, t, ht, hv₀⟩ := receipt r hr
    exact .inr ⟨_, hsub mem, actor ▸ huid, k, t, ht, by rw [← hv₀, hv]⟩

/-! ## Runs -/

/-- A request as it arrives. -/
structure Arrival where
  env : Env
  peer : Actor
  body : Bytes

/-- The request that the body of the frame holds. -/
def Arrival.ctx? (S : Site) (c : Arrival) : Option Ctx :=
  match rabParseRequest S.codec c.body with
  | .ok req => some { env := c.env, peer := c.peer, req }
  | .error _ => none

/-- The broker serves one request. -/
def serve (S : Site) (s : St) (c : Arrival) : Out × St := step S s (.request c.env c.peer c.body)

/-- The requests to open an intent. -/
def openings (S : Site) (cs : List Arrival) : List Ctx :=
  (cs.filterMap (Arrival.ctx? S)).filter fun C => C.req.type = .openIntent

variable {c : Arrival} {cs hs : List Arrival} {cfg : Config}

theorem openings_append (S : Site) (cs hs : List Arrival) :
    openings S (cs ++ hs) = openings S cs ++ openings S hs := by
  simp [openings]

theorem openings_sublist (h : hs.Sublist cs) : (openings S hs).Sublist (openings S cs) :=
  (h.filterMap _).filter _

theorem mem_openings (hC : c.ctx? S = some C) (htype : C.req.type = .openIntent) :
    C ∈ openings S [c] := by
  simp [openings, hC, htype]

theorem Arrival.of_ctx? (h : c.ctx? S = some C) :
    C.env = c.env ∧ C.peer = c.peer ∧
      ∀ s, connHandle S c.env c.peer c.body s = rabBrokerHandle S C s := by
  unfold ctx? at h
  split at h
  · rename_i req hreq
    obtain rfl := Option.some.inj h
    refine ⟨rfl, rfl, fun s => ?_⟩
    rw [connHandle, hreq]
  · cases h

theorem Arrival.of_ctx?_none (h : c.ctx? S = none) :
    ∃ r, ∀ s, connHandle S c.env c.peer c.body s = (r, s) := by
  unfold ctx? at h
  split at h
  · cases h
  · rename_i ec hreq
    refine ⟨.error ec "invalid request", fun s => ?_⟩
    rw [connHandle, hreq]

theorem serve_of_faultless (hE : c.env.Faultless) (hs : s.alive = true) :
    serve S s c = (.reply (connHandle S c.env c.peer c.body s.begin_).1,
      (connHandle S c.env c.peer c.body s.begin_).2.finish c.env) := by
  have hdead : ∀ n, c.env.dead n = false := fun n => by rw [Env.dead, hE.alive]
  simp only [serve, step, hs, if_true, hdead, Bool.false_eq_true, if_false]

/-- A broker without faults after some requests. -/
structure Steady (S : Site) (cfg : Config) (L : Ledger) (hs : List Arrival) (s : St) : Prop where
  alive : s.alive = true
  healthy : s.poisoned = false
  cfg_eq : s.cfg = cfg
  coherent : s.toTables.Coherent
  dated : Dated s
  origins : Origins S L (openings S hs) s
  clock : ∀ th, (∀ c ∈ hs, ∀ k, winTh cfg (c.env.clock k) ≤ th) → winTh cfg s.lastClock ≤ th

/-- What the request mints is new when it arrives. -/
theorem Steady.fresh (h : Steady S cfg L hs s) (hm : Minting S L (openings S (hs ++ [c])))
    (hC : c.ctx? S = some C) (htype : C.req.type = .openIntent) :
    (∀ cid, rabMakeCorrelationId C.env = some cid → s.opens.view cid = none ∧
      ∀ e ∈ s.journal, ∀ oi, e.act ≠ .intent cid oi) ∧
    ∀ k token, rabMakeReceipt C.env k = some token → VerifierFree S s.opens.view token.bytes := by
  have hmem := mem_openings hC htype
  rw [openings_append] at hm
  refine h.origins.fresh (hm.new C (List.mem_append_right _ hmem)) fun D hD => ?_
  exact (List.pairwise_append.mp hm.apart).2.2 D hD C hmem

/-- The lines of a request, when it arrives. -/
theorem Steady.durably (h : Steady S cfg L hs s) (hm : Minting S L (openings S (hs ++ [c])))
    (hE : C.env.Faultless) (hC : c.ctx? S = some C) :
    Unopened C s.begin_ ∧ (rabBrokerHandle S C s.begin_).2.poisoned = false ∧
      (rabBrokerHandle S C s.begin_).2.toTables.Coherent ∧
      ∃ l, Durably S C s.begin_ l (rabBrokerHandle S C s.begin_).2 := by
  have hu : Unopened C s.begin_ := fun _ htype cid hcid => ((h.fresh hm hC htype).1 cid hcid).1
  have hc : s.begin_.toTables.Coherent := h.coherent
  have hsteps := (rabBrokerHandle_handled (S := S) (C := C) hc.uids h.dated.unwritten).steps
  have hp := hsteps.healthy hE hc.uids h.healthy
  obtain ⟨l, hl, -⟩ := hsteps.durably hc.uids hp
  exact ⟨hu, hp, hsteps.coherent hc hu, l, hl⟩

/-- One request. -/
theorem Steady.serve (h : Steady S cfg L hs s) (hm : Minting S L (openings S (hs ++ [c])))
    (hE : c.env.Faultless) : Steady S cfg L (hs ++ [c]) (serve S s c).2 := by
  have hdead : ∀ n, c.env.dead n = false := fun n => by rw [Env.dead, hE.alive]
  have hsub : openings S hs ⊆ openings S (hs ++ [c]) := by
    rw [openings_append]
    exact List.subset_append_left _ _
  have hclock : ∀ th, (∀ d ∈ hs ++ [c], ∀ k, winTh cfg (d.env.clock k) ≤ th) →
      winTh cfg s.lastClock ≤ th ∧ ∀ k, winTh cfg (c.env.clock k) ≤ th := fun th hth =>
    ⟨h.clock th fun d hd => hth d (List.mem_append_left _ hd), hth c (by simp)⟩
  have hdated : Dated (AuditBroker.serve S s c).2 := h.dated.step _
  rw [serve_of_faultless hE h.alive] at hdated ⊢
  cases hctx : c.ctx? S with
  | none =>
    obtain ⟨r, hr⟩ := Arrival.of_ctx?_none hctx
    simp only [hr] at hdated ⊢
    refine ⟨?_, h.healthy, h.cfg_eq, h.coherent, hdated, (h.origins.mono hsub).congr rfl rfl,
      fun th hth => (hclock th hth).1⟩
    simp only [St.finish, St.begin_, h.alive, hdead, Bool.not_false, Bool.and_self]
  | some C =>
    obtain ⟨henv, -, hhandle⟩ := Arrival.of_ctx? hctx
    have hE' : C.env.Faultless := henv ▸ hE
    obtain ⟨hu, hp, hc, l, hl⟩ := h.durably hm hE' hctx
    have hmem : C.req.type = .openIntent → C ∈ openings S (hs ++ [c]) := by
      intro htype
      rw [openings_append]
      exact List.mem_append_right _ (mem_openings hctx htype)
    have ho := hl.origins h.coherent.opens hu ((h.origins.mono hsub).congr rfl rfl) hm hmem
    obtain ⟨halive, hcfg, hlast⟩ := hl.rest
    simp only [hhandle] at hdated ⊢
    refine ⟨?_, hp, hcfg.trans h.cfg_eq, hc, hdated, ho.congr rfl rfl, fun th hth => ?_⟩
    · have halive' : (rabBrokerHandle S C s.begin_).2.alive = true := halive.trans h.alive
      simp only [St.finish, halive', hdead, Bool.not_false, Bool.and_self]
    · obtain ⟨hbefore, hnow⟩ := hclock th hth
      change winTh cfg (rabBrokerHandle S C s.begin_).2.lastClock ≤ th
      rcases hlast with hlast | ⟨k, hlast⟩
      · rw [hlast]
        exact hbefore
      · rw [hlast, henv]
        exact hnow k

/-- A foreign request. -/
theorem Steady.unmoved (h : Steady S cfg L hs s) (hm : Minting S L (openings S (hs ++ [c])))
    (hE : c.env.Faultless) (hf : ∀ C, c.ctx? S = some C → C.Foreign S B L (openings S (hs ++ [c])))
    (hth : ∀ d ∈ hs ++ [c], ∀ k, winTh cfg (d.env.clock k) ≤ th) :
    Unmoved B th s (AuditBroker.serve S s c).2 := by
  have hsub : openings S hs ⊆ openings S (hs ++ [c]) := by
    rw [openings_append]
    exact List.subset_append_left _ _
  rw [serve_of_faultless hE h.alive]
  cases hctx : c.ctx? S with
  | none =>
    obtain ⟨r, hr⟩ := Arrival.of_ctx?_none hctx
    simp only [hr]
    exact ⟨rfl, rfl, fun _ => rfl, rfl, rfl⟩
  | some C =>
    obtain ⟨henv, -, hhandle⟩ := Arrival.of_ctx? hctx
    obtain ⟨hu, hp, hc, l, hl⟩ := h.durably hm (henv ▸ hE) hctx
    have hmem : C.req.type = .openIntent → C ∈ openings S (hs ++ [c]) := by
      intro htype
      rw [openings_append]
      exact List.mem_append_right _ (mem_openings hctx htype)
    have hmoved : Unmoved B th s.begin_ (rabBrokerHandle S C s.begin_).2 := by
      refine hl.unmoved (hf C hctx) h.coherent.opens hu ((h.origins.mono hsub).congr rfl rfl) hm hmem
        ?_ ?_
      · change winTh s.cfg s.lastClock ≤ th
        rw [h.cfg_eq]
        exact h.clock th fun d hd => hth d (List.mem_append_left _ hd)
      · change ∀ k, winTh s.cfg (C.env.clock k) ≤ th
        rw [h.cfg_eq, henv]
        exact hth c (by simp)
    simp only [hhandle]
    exact ⟨hmoved.cfg, hmoved.host, hmoved.opens, hmoved.nOpen, hmoved.ring⟩

/-- A receipt is its opener's. -/
def Intent.Borne (it : Intent) : Prop := ∀ r, it.receipt = some r → r.actorUid = it.actor.uid

theorem keeps_borne (st : Stored) : st.Keeps Intent.Borne where
  mark _ hit := hit
  opening s _ r hr := by cases hr
  issue cid ck r it _ _ huid _ r' hr' := by
    obtain rfl := Option.some.inj hr'
    exact huid
  redeem r₀ now it hr₀ hit r' hr' := by
    obtain rfl := Option.some.inj hr'
    exact hit r₀ hr₀

/-- The broker after a start. -/
theorem steady_start {fs : Fs} {s₀ : St} {rollback : Bool}
    (hs₀ : s₀ = run S (St.initial fs) [.start E cfg rollback]) (halive : s₀.alive = true) :
    Steady S cfg s₀.opens.view [] s₀ := by
  have hrun : s₀ = (rabBrokerOpen S E cfg ((St.initial fs).found rollback)).2.finish E := by
    rw [hs₀, ← step_start]
    rfl
  cases hopen : rabBrokerOpen S E cfg ((St.initial fs).found rollback) with
  | mk err s' =>
    rw [hopen] at hrun
    cases err with
    | some e =>
      have hdead : s'.alive = false := alive_of_refused hopen
      rw [hrun] at halive
      simp [St.finish, hdead] at halive
    | none =>
      obtain ⟨hc, hcfg, hp⟩ := coherent_rabBrokerOpen hopen
      obtain ⟨hjournal, -, hclock, -⟩ :=
        history_rabBrokerOpen S E cfg ((St.initial fs).found rollback)
      rw [hopen] at hjournal hclock
      obtain ⟨-, -, ⟨total, R, hreplay, htables⟩, -⟩ := rabBrokerOpen_eq_none hopen
      have hborne : s'.opens.Each Intent.Borne := by
        rw [htables]
        exact (OpenSet.Each.init _ _).replayLines (fun _ st _ => keeps_borne st) hreplay
      have hjournal₀ : s₀.journal = [] := by
        rw [hrun]
        exact hjournal
      have hclock₀ : s₀.lastClock = 0 := by
        rw [hrun]
        exact hclock
      have hopens : s₀.opens = s'.opens := by rw [hrun]; rfl
      refine ⟨halive, by rw [hrun]; exact hp, by rw [hrun]; exact hcfg, by rw [hrun]; exact hc,
        hs₀ ▸ dated_run S fs _, ⟨?_, ?_⟩, ?_⟩
      · rw [hjournal₀]
        simp
      · intro cid oi hoi
        refine ⟨.old hoi rfl rfl fun r hr => ⟨r, hr, rfl⟩, ?_⟩
        rw [hopens] at hoi
        obtain ⟨a, ha, -, rfl⟩ := hc.opens.view_eq_some_iff.mp hoi
        exact hborne.of_open ha
      · intro th _
        rw [hclock₀, winTh, if_neg (by simp)]
        simp [UInt64.le_iff_toNat_le]

/-! ## Deleting the requests of others -/

/-- Requests without faults, each at one instant, in their order. -/
structure Orderly (cs : List Arrival) : Prop where
  faultless : ∀ c ∈ cs, c.env.Faultless
  instant : ∀ c ∈ cs, ∀ k, c.env.clock k = c.env.clock 0
  ordered : cs.Pairwise fun c d => c.env.clock 0 ≤ d.env.clock 0

/-- The request is the uid's, or the superuser redeems a receipt of one of the uid's intents. -/
def Arrival.Concerns (S : Site) (B : UInt32) (L : Ledger) (Cs : List Ctx) (c : Arrival) : Prop :=
  c.peer.uid = B ∨ ∃ C, c.ctx? S = some C ∧ C.peer.uid = 0 ∧ C.req.type = .redeem ∧
    IssuedTo S B L Cs C.req.effectReceipt.bytes

/-- The requests of a run that concern the uid. -/
noncomputable def concerning (S : Site) (B : UInt32) (L : Ledger) (cs : List Arrival)
    (c : Arrival) : Bool :=
  open Classical in decide (c.Concerns S B L (openings S cs))

/-- No request that is kept is refused because of a global limit. -/
def Unhindered (S : Site) (s₀ : St) (keep : Arrival → Bool) (cs : List Arrival) : Prop :=
  ∀ hs c C, hs ++ [c] <+: cs → keep c = true → c.ctx? S = some C →
    ¬Limited S C (final (serve S) s₀ hs).begin_

/-- What a request that concerns the uid finds in a broker. -/
theorem Steady.ready (h : Steady S cfg L hs s) (hm' : Minting S L (openings S (hs ++ [c])))
    (hm : Minting S L Cs) (hsub : openings S hs ⊆ Cs) (hL : L.Verified) (hC : c.ctx? S = some C)
    (hown : C.req.type = .writeOutcome → BindingOf B L Cs C.req.binding.bytes)
    (htoken : C.peer.uid = 0 → C.req.type = .redeem → IssuedTo S B L Cs C.req.effectReceipt.bytes) :
    Attended S B C s.begin_.toTables where
  cids htype cid hcid := ((h.fresh hm' hC htype).1 cid hcid).1
  tokens htype := (h.fresh hm' hC htype).2
  binding htype := h.origins.owned_binding hsub hm (hown htype)
  token hroot htype := h.origins.owned_token hsub hm h.coherent hL (htoken hroot htype)
  bearer cid oi r hoi hr := (h.origins.view cid oi hoi).bearer r hr

/-- After a request that does not concern the uid the brokers are alike as before. -/
theorem Twins.of_unmoved {u : St} (h : Twins B th s s') (hmoved : Unmoved B th s u)
    (hok : u.toTables.Ok) (hp : u.poisoned = false) : Twins B th u s' := by
  refine ⟨⟨?_, hok, h.ok', fun cid => (hmoved.opens cid).trans (h.opens cid),
    hmoved.nOpen.trans h.nOpen, hmoved.ring.trans h.ring⟩, hmoved.host.trans h.host, hp, h.healthy'⟩
  rw [hmoved.cfg]
  exact h.cfg

/-- A request that concerns the uid is answered alike. -/
theorem Twins.serve (h : Twins B th s s') (hst : Steady S cfg L hs s) {hs' : List Arrival}
    (hst' : Steady S cfg L hs' s') (hE : c.env.Faultless)
    (hnow : ∀ k, c.env.clock k = c.env.clock 0) (hth : th = winTh cfg (c.env.clock 0))
    (hC : ∀ C, c.ctx? S = some C → C.AnswersTo B ∧ Attended S B C s.begin_.toTables ∧
      Attended S B C s'.begin_.toTables ∧ ¬Limited S C s.begin_ ∧ ¬Limited S C s'.begin_) :
    (AuditBroker.serve S s c).1 = (AuditBroker.serve S s' c).1 ∧
      Twins B th (AuditBroker.serve S s c).2 (AuditBroker.serve S s' c).2 := by
  have hbegin : Twins B th s.begin_ s'.begin_ := ⟨h.toAlike, h.host, h.healthy, h.healthy'⟩
  rw [serve_of_faultless hE hst.alive, serve_of_faultless hE hst'.alive]
  cases hctx : c.ctx? S with
  | none =>
    obtain ⟨r, hr⟩ := Arrival.of_ctx?_none hctx
    simp only [hr]
    exact ⟨trivial, hbegin.toAlike, hbegin.host, hbegin.healthy, hbegin.healthy'⟩
  | some C =>
    obtain ⟨henv, -, hhandle⟩ := Arrival.of_ctx? hctx
    obtain ⟨hans, hr, hr', hlim, hlim'⟩ := hC C hctx
    have hth' : th = winTh s.begin_.cfg (c.env.clock 0) := by
      rw [hth, ← hst.cfg_eq]
      rfl
    obtain ⟨heq, htwins⟩ := hbegin.handle (henv ▸ hE) (henv ▸ hnow) hth' hans hr hr' hlim hlim'
    simp only [hhandle, heq]
    exact ⟨trivial, htwins.toAlike, htwins.host, htwins.healthy, htwins.healthy'⟩

/-- In a run of requests after a start, in which no global limit is the reason of a refusal, deleting
the requests that do not concern a uid leaves the answers to the others the same. -/
theorem answers_isolated (S : Site) {fs : Fs} {s₀ : St} {rollback : Bool} {keep : Arrival → Bool}
    (hs₀ : s₀ = run S (St.initial fs) [.start E cfg rollback]) (halive : s₀.alive = true)
    (hB : B ≠ 0) (hcs : Orderly cs) (hm : Minting S s₀.opens.view (openings S cs))
    (hown : ∀ c ∈ cs, ∀ C, c.ctx? S = some C → C.peer.uid = B → C.req.type = .writeOutcome →
      BindingOf B s₀.opens.view (openings S cs) C.req.binding.bytes)
    (hkeep : keep = concerning S B s₀.opens.view cs) (hlim : Unhindered S s₀ keep cs)
    (hlim' : Unhindered S s₀ keep (cs.filter keep)) :
    keptOutputs (serve S) keep s₀ cs = outputs (serve S) s₀ (cs.filter keep) := by
  have hstart := steady_start hs₀ halive
  have hkept : ∀ c, keep c = true ↔ c.Concerns S B s₀.opens.view (openings S cs) := by
    intro c
    simp only [hkeep, concerning, decide_eq_true_eq]
  refine unwinding (R := fun hs t t' => Steady S cfg s₀.opens.view hs t ∧
    Steady S cfg s₀.opens.view (hs.filter keep) t' ∧
      ∀ th, (∀ d ∈ hs, ∀ k, winTh cfg (d.env.clock k) ≤ th) → Twins B th t t')
    ⟨hstart, hstart, fun th _ => ?_⟩ ?_ ?_
  · have hok := hstart.coherent.toOk
    exact ⟨⟨rfl, hok, hok, fun _ => rfl, rfl, rfl⟩, rfl, hstart.healthy, hstart.healthy⟩
  · rintro hs c t t' hpre hc ht ht' ⟨hst, hst', htwins⟩
    have hm' := hm.sublist (openings_sublist hpre.sublist)
    have hmem : c ∈ cs := hpre.subset (by simp)
    have hE := hcs.faultless c hmem
    have hnext := hst.serve hm' hE
    have hnot : ¬c.Concerns S B s₀.opens.view (openings S cs) := fun hcon => by
      rw [(hkept c).mpr hcon] at hc
      cases hc
    refine ⟨hnext, ?_, fun th hth => ?_⟩
    · have hfilter : (hs ++ [c]).filter keep = hs.filter keep := by simp [hc]
      rw [hfilter]
      exact hst'
    · have hf : ∀ C, c.ctx? S = some C →
          C.Foreign S B s₀.opens.view (openings S (hs ++ [c])) := by
        intro C hC
        refine foreign_of_not_issuedTo (openings_sublist hpre.sublist).subset ?_ ?_
        · intro hpeer
          exact hnot (.inl ((Arrival.of_ctx? hC).2.1 ▸ hpeer))
        · intro hroot htype hissued
          exact hnot (.inr ⟨C, hC, hroot, htype, hissued⟩)
      exact (htwins th fun d hd => hth d (List.mem_append_left _ hd)).of_unmoved
        (hst.unmoved hm' hE hf hth) hnext.coherent.toOk hnext.healthy
  · rintro hs c t t' hpre hc ht ht' ⟨hst, hst', htwins⟩
    have hfilter : (hs ++ [c]).filter keep = hs.filter keep ++ [c] := by simp [hc]
    have hsub : (hs.filter keep ++ [c]).Sublist (hs ++ [c]) := hfilter ▸ List.filter_sublist
    have hm₁ := hm.sublist (openings_sublist hpre.sublist)
    have hm₂ := hm.sublist (openings_sublist (hsub.trans hpre.sublist))
    have hmem : c ∈ cs := hpre.subset (by simp)
    have hE := hcs.faultless c hmem
    have hinstant := hcs.instant c hmem
    -- The instant of this request is not before the others.
    have hlater : ∀ d ∈ hs, ∀ k, winTh cfg (d.env.clock k) ≤ winTh cfg (c.env.clock 0) := by
      intro d hd k
      rw [hcs.instant d (hpre.subset (List.mem_append_left _ hd)) k]
      refine winTh_mono cfg ?_
      exact (List.pairwise_append.mp (hcs.ordered.sublist hpre.sublist)).2.2 d hd c (by simp)
    have hctx : ∀ C, c.ctx? S = some C → C.AnswersTo B ∧ Attended S B C t.begin_.toTables ∧
        Attended S B C t'.begin_.toTables ∧ ¬Limited S C t.begin_ ∧ ¬Limited S C t'.begin_ := by
      intro C hC
      have hpeer := (Arrival.of_ctx? hC).2.1
      have hcon := (hkept c).mp hc
      have hans : C.AnswersTo B := by
        rcases hcon with hpeerB | ⟨C', hC', hroot, htype, -⟩
        · exact .inl (hpeer ▸ hpeerB)
        · obtain rfl : C' = C := Option.some.inj (hC'.symm.trans hC)
          exact .inr ⟨hroot, htype⟩
      have hbinding : C.req.type = .writeOutcome →
          BindingOf B s₀.opens.view (openings S cs) C.req.binding.bytes := by
        intro htype
        refine hown c hmem C hC (hans.resolve_right ?_) htype
        rintro ⟨-, hredeem⟩
        rw [htype] at hredeem
        cases hredeem
      have htoken : C.peer.uid = 0 → C.req.type = .redeem →
          IssuedTo S B s₀.opens.view (openings S cs) C.req.effectReceipt.bytes := by
        intro hroot _
        rcases hcon with hpeerB | ⟨C', hC', -, -, hissued⟩
        · exact absurd (hpeerB.symm.trans (hpeer ▸ hroot)) hB
        · obtain rfl : C' = C := Option.some.inj (hC'.symm.trans hC)
          exact hissued
      have hL := hstart.coherent.verified
      refine ⟨hans, hst.ready hm₁ hm ?_ hL hC hbinding htoken, hst'.ready hm₂ hm ?_ hL hC hbinding htoken,
        ?_, ?_⟩
      · exact (openings_sublist ((List.sublist_append_left hs [c]).trans hpre.sublist)).subset
      · exact (openings_sublist ((List.sublist_append_left _ [c]).trans
          (hsub.trans hpre.sublist))).subset
      · rw [ht]
        exact hlim hs c C hpre hc hC
      · rw [ht']
        refine hlim' (hs.filter keep) c C ?_ hc hC
        rw [← hfilter]
        exact hpre.filter keep
    obtain ⟨heq, hnext⟩ := (htwins _ hlater).serve hst hst' hE hinstant rfl hctx
    refine ⟨heq, hst.serve hm₁ hE, ?_, fun th hth => hnext.mono (hth c (by simp) 0)⟩
    rw [hfilter]
    exact hst'.serve hm₂ hE

/-! ## Two runs -/

instance (S : Site) (C : Ctx) (s : St) : Decidable (Limited S C s) :=
  inferInstanceAs (Decidable (_ ∨ _))

theorem unhindered_nil (S : Site) (s₀ : St) (keep : Arrival → Bool) : Unhindered S s₀ keep [] := by
  intro hs c C hpre
  simp at hpre

theorem Unhindered.cons {s₀ : St} {keep : Arrival → Bool}
    (hc : (c.ctx? S).all (fun C => !decide (Limited S C s₀.begin_)) = true)
    (h : Unhindered S (serve S s₀ c).2 keep cs) : Unhindered S s₀ keep (c :: cs) := by
  intro hs d C hpre hd hC
  cases hs with
  | nil =>
    obtain ⟨rfl, -⟩ := List.cons_prefix_cons.mp hpre
    change ¬Limited S C s₀.begin_
    simpa [hC] using hc
  | cons e hs =>
    obtain ⟨rfl, hrest⟩ := List.cons_prefix_cons.mp hpre
    exact h hs d C hrest hd hC

/-- A broker without open intents. -/
theorem Tables.Coherent.view_eq_none {t : Tables} (h : t.Coherent) (hzero : t.opens.openCount = 0)
    (cid : Buf cidMax) : t.opens.view cid = none := by
  rw [Option.eq_none_iff_forall_ne_some]
  intro oi hoi
  obtain ⟨a, ha, -⟩ := h.opens.view_eq_some_iff.mp hoi
  have hcount := h.openCount_eq
  have hfinite := h.opens.finite_those fun _ => True
  rw [OpenSet.those_true] at hfinite
  rw [hzero, eq_comm, Set.ncard_eq_zero hfinite] at hcount
  have hmem : a ∈ {a | t.opens.Open a} := ha
  rw [hcount] at hmem
  exact hmem

namespace Sample

/-- The request in a body. -/
def parsed (body : Bytes) : Request :=
  ((rabParseRequest jsonText body).toOption).getD { type := .capabilities }

theorem ctx?_eq (h : (rabParseRequest jsonText c.body).toOption.isSome = true) :
    c.ctx? site = some { env := c.env, peer := c.peer, req := parsed c.body } := by
  change (match rabParseRequest jsonText c.body with
    | .ok req => some ({ env := c.env, peer := c.peer, req } : Ctx)
    | .error _ => none) = _
  cases hreq : rabParseRequest jsonText c.body with
  | error e => simp [hreq, Except.toOption] at h
  | ok r => simp [parsed, hreq, Except.toOption]

/-- The request concerns uid 1000 if it comes from it. -/
theorem concerning_of_peer {L : Ledger} (hpeer : c.peer.uid = 1000) :
    concerning site 1000 L cs c = true := by
  simp only [concerning, decide_eq_true_eq]
  exact .inl hpeer

/-- A request of another uid does not concern it if it is no redemption. -/
theorem not_concerning_of_peer {L : Ledger} (hpeer : c.peer.uid ≠ 1000)
    (htype : (c.ctx? site).all (fun C => C.req.type ≠ .redeem) = true) :
    concerning site 1000 L cs c = false := by
  simp only [concerning, decide_eq_false_iff_not]
  rintro (h | ⟨C, hC, -, h, -⟩)
  · exact hpeer h
  · rw [hC] at htype
    simp [h] at htype

/-- The broker after a start with a quota for all uids together. -/
def shared (quota : UInt64) : St :=
  run site (St.initial fs)
    [.start (env 1000000 0) { config with rateMaxBytesGlobal := quota } false]

/-- An emit of uid 1001, and two of uid 1000 at the end of the window that it opens. -/
def crowd : List Arrival :=
  [⟨env 2000000 1, actor 1001, emitBody (lit "x")⟩,
    ⟨env 11999999 2, actor 1000, emitBody (lit "install")⟩,
    ⟨env 12000000 3, actor 1000, emitBody (lit "install")⟩]

/-- The requests of uid 1000 among them. -/
def alone : List Arrival :=
  [⟨env 11999999 2, actor 1000, emitBody (lit "install")⟩,
    ⟨env 12000000 3, actor 1000, emitBody (lit "install")⟩]

/-- Every request of a list is clear of the global limits when it is served. -/
def clear : St → List Arrival → Bool
  | _, [] => true
  | s, c :: cs => (c.ctx? site).all (fun C => !decide (Limited site C s.begin_)) &&
      clear (serve site s c).2 cs

theorem unhindered_of_clear {s₀ : St} (h : clear s₀ cs = true) (keep : Arrival → Bool) :
    Unhindered site s₀ keep cs := by
  induction cs generalizing s₀ with
  | nil => exact unhindered_nil site s₀ keep
  | cons c cs ih =>
    rw [clear, Bool.and_eq_true] at h
    exact .cons h.1 (ih h.2)

theorem crowd_facts :
    (shared 810).alive = true ∧ (shared 810).opens.openCount = 0 ∧ openings site crowd = [] ∧
      clear (shared 810) crowd = true ∧
      (crowd.all fun c => (c.ctx? site).all fun C => C.req.type = .emit) = true ∧
      (outputs (serve site) (shared 810) crowd).drop 1 ≠ outputs (serve site) (shared 810) alone := by
  decide +kernel

theorem orderly {cs : List Arrival} (henv : ∀ c ∈ cs, ∃ t k, c.env = env t k)
    (hordered : cs.Pairwise fun c d => c.env.clock 0 ≤ d.env.clock 0) : Orderly cs := by
  refine ⟨fun c hc => ?_, fun c hc k => ?_, hordered⟩
  · obtain ⟨t, k, h⟩ := henv c hc
    rw [h]
    exact faultless t k
  · obtain ⟨t, j, h⟩ := henv c hc
    rw [h]
    rfl

theorem view_shared {quota : UInt64} (halive : (shared quota).alive = true)
    (hzero : (shared quota).opens.openCount = 0) : (shared quota).opens.view = fun _ => none :=
  funext ((steady_start rfl halive).coherent.view_eq_none hzero)

end Sample

/-- If the byte limit for all uids together may be the reason of a refusal in the reduced run, the
answers may differ: the window of that limit begins with the first line after it has ended, so without
the line of the other uid it ends later. -/
theorem answers_not_isolated :
    ∃ (s₀ : St) (cs : List Arrival) (keep : Arrival → Bool),
      (∃ E cfg, s₀ = run Sample.site (St.initial Sample.fs) [.start E cfg false]) ∧
      s₀.alive = true ∧ Orderly cs ∧ Minting Sample.site s₀.opens.view (openings Sample.site cs) ∧
      (∀ c ∈ cs, ∀ C, c.ctx? Sample.site = some C → C.req.type ≠ .writeOutcome) ∧
      keep = concerning Sample.site 1000 s₀.opens.view cs ∧
      Unhindered Sample.site s₀ (fun _ => true) cs ∧
      keptOutputs (serve Sample.site) keep s₀ cs ≠
        outputs (serve Sample.site) s₀ (cs.filter keep) := by
  obtain ⟨halive, hzero, hopenings, hclear, htypes, hdiffer⟩ := Sample.crowd_facts
  have hL := Sample.view_shared halive hzero
  obtain ⟨keep, hkeep⟩ : ∃ keep, keep =
    concerning Sample.site 1000 (Sample.shared 810).opens.view Sample.crowd := ⟨_, rfl⟩
  have htype : ∀ c ∈ Sample.crowd, ∀ C, c.ctx? Sample.site = some C → C.req.type = .emit := by
    intro c hc C hC
    have h := List.all_eq_true.mp htypes c hc
    rw [hC] at h
    simpa using h
  have hother : keep ⟨Sample.env 2000000 1, Sample.actor 1001, Sample.emitBody (lit "x")⟩ = false := by
    rw [hkeep]
    refine Sample.not_concerning_of_peer (by decide) ?_
    rw [Option.all_eq_true]
    intro C hC
    simp [htype _ (by simp [Sample.crowd]) C hC]
  have hown : ∀ t k, keep ⟨Sample.env t k, Sample.actor 1000, Sample.emitBody (lit "install")⟩ =
      true := by
    intro t k
    rw [hkeep]
    exact Sample.concerning_of_peer rfl
  refine ⟨Sample.shared 810, Sample.crowd, keep, ⟨_, _, rfl⟩, halive, ?_, ?_, ?_, hkeep,
    Sample.unhindered_of_clear hclear _, ?_⟩
  · refine Sample.orderly ?_ (by decide)
    simp only [Sample.crowd, List.forall_mem_cons]
    exact ⟨⟨_, _, rfl⟩, ⟨_, _, rfl⟩, ⟨_, _, rfl⟩, by simp⟩
  · rw [hopenings, hL]
    exact ⟨.nil, by simp, by simp⟩
  · intro c hc C hC
    rw [htype c hc C hC]
    decide
  · have hfilter : Sample.crowd.filter keep = Sample.alone := by
      simp only [Sample.crowd, Sample.alone, List.filter_cons, hother, hown, if_true, List.filter_nil,
        Bool.false_eq_true, if_false]
    have hkept : keptOutputs (serve Sample.site) keep (Sample.shared 810) Sample.crowd =
        (outputs (serve Sample.site) (Sample.shared 810) Sample.crowd).drop 1 := by
      simp only [Sample.crowd, keptOutputs, outputs, hother, hown, if_true, Bool.false_eq_true,
        if_false, List.drop_succ_cons, List.drop_zero]
    rw [hfilter, hkept]
    exact hdiffer

namespace Sample

/-- Uid 1000 opens an intent with a receipt, the superuser redeems it, and the outcome follows. -/
def errand : List Arrival :=
  [⟨env 3000000 1, actor 1000, effectBody (lit "install")⟩,
    ⟨env 4000000 6, actor 0, redeemBody 1 1000 (lit "install")⟩,
    ⟨env 6000000 8, actor 1000, outcomeBody 1 (lit "install")⟩]

/-- In between uid 1001 emits two records. -/
def busy : List Arrival :=
  [⟨env 2000000 5, actor 1001, emitBody (lit "x")⟩,
    ⟨env 3000000 1, actor 1000, effectBody (lit "install")⟩,
    ⟨env 4000000 6, actor 0, redeemBody 1 1000 (lit "install")⟩,
    ⟨env 5000000 7, actor 1001, emitBody (lit "x")⟩,
    ⟨env 6000000 8, actor 1000, outcomeBody 1 (lit "install")⟩]

theorem busy_facts :
    (shared 100000).alive = true ∧ (shared 100000).opens.openCount = 0 ∧
      clear (shared 100000) busy = true ∧ clear (shared 100000) errand = true ∧
      (busy.all fun c => (rabParseRequest jsonText c.body).toOption.isSome) = true ∧
      busy.map (fun c => (parsed c.body).type) = [.emit, .openIntent, .redeem, .emit, .writeOutcome] ∧
      rabMakeReceipt (env 3000000 1) 0 = some (receipt 1) ∧
      (parsed (redeemBody 1 1000 (lit "install"))).effectReceipt.bytes = (receipt 1).bytes := by
  decide +kernel

/-- The open of that run. -/
def errandOpen : Ctx where
  env := env 3000000 1
  peer := actor 1000
  req := parsed (effectBody (lit "install"))

end Sample

/-- That run meets the assumptions, so its requests are answered as if uid 1001 had not been there. -/
theorem answers_isolated_errand :
    keptOutputs (serve Sample.site)
        (concerning Sample.site 1000 (Sample.shared 100000).opens.view Sample.busy)
        (Sample.shared 100000) Sample.busy =
      outputs (serve Sample.site) (Sample.shared 100000) Sample.errand := by
  obtain ⟨halive, hzero, hclear, hclear', hparse, htypes, htoken, hpresented⟩ := Sample.busy_facts
  have hL := Sample.view_shared halive hzero
  have hctx : ∀ c ∈ Sample.busy, c.ctx? Sample.site =
      some { env := c.env, peer := c.peer, req := Sample.parsed c.body } := fun c hc =>
    Sample.ctx?_eq (List.all_eq_true.mp hparse c hc)
  simp only [Sample.busy, List.map_cons, List.map_nil, List.cons.injEq, and_true] at htypes
  obtain ⟨hemit, hopen, hredeem, -, houtcome⟩ := htypes
  have hopenings : openings Sample.site Sample.busy = [Sample.errandOpen] := by
    simp only [Sample.busy, List.forall_mem_cons] at hctx
    obtain ⟨h₁, h₂, h₃, h₄, h₅, -⟩ := hctx
    simp only [openings, Sample.busy, List.filterMap_cons, h₁, h₂, h₃, h₄, h₅, List.filterMap_nil,
      List.filter_cons, List.filter_nil, hemit, hopen, hredeem, houtcome]
    rfl
  obtain ⟨keep, hkeep⟩ : ∃ keep, keep =
    concerning Sample.site 1000 (Sample.shared 100000).opens.view Sample.busy := ⟨_, rfl⟩
  have hother : ∀ t k, ⟨Sample.env t k, Sample.actor 1001, Sample.emitBody (lit "x")⟩ ∈ Sample.busy →
      keep ⟨Sample.env t k, Sample.actor 1001, Sample.emitBody (lit "x")⟩ = false := by
    intro t k hmem
    have hpeer : (Sample.actor 1001).uid ≠ 1000 := by decide
    rw [hkeep]
    refine Sample.not_concerning_of_peer hpeer ?_
    rw [hctx _ hmem]
    simp [hemit]
  have hroot : keep ⟨Sample.env 4000000 6, Sample.actor 0,
      Sample.redeemBody 1 1000 (lit "install")⟩ = true := by
    simp only [hkeep, concerning, decide_eq_true_eq]
    refine .inr ⟨_, hctx _ (by simp [Sample.busy]), rfl, hredeem, .inr ?_⟩
    rw [hopenings]
    exact ⟨Sample.errandOpen, by simp, rfl, 0, Sample.receipt 1, htoken, by rw [hpresented]⟩
  have hown : ∀ t k body, keep ⟨Sample.env t k, Sample.actor 1000, body⟩ = true := by
    intro t k body
    rw [hkeep]
    exact Sample.concerning_of_peer rfl
  have hfilter : Sample.busy.filter keep = Sample.errand := by
    simp only [Sample.busy, Sample.errand, List.filter_cons, List.filter_nil, hroot,
      hother 2000000 5 (by simp [Sample.busy]), hother 5000000 7 (by simp [Sample.busy]), hown,
      if_true, Bool.false_eq_true, if_false]
  rw [← hkeep, ← hfilter]
  refine answers_isolated (B := 1000) Sample.site rfl halive (by decide) ?_ ?_ ?_ hkeep
    (Sample.unhindered_of_clear hclear keep)
    (hfilter ▸ Sample.unhindered_of_clear hclear' keep)
  · refine Sample.orderly ?_ (by decide)
    simp only [Sample.busy, List.forall_mem_cons]
    exact ⟨⟨_, _, rfl⟩, ⟨_, _, rfl⟩, ⟨_, _, rfl⟩, ⟨_, _, rfl⟩, ⟨_, _, rfl⟩, by simp⟩
  · rw [hopenings, hL]
    refine ⟨List.pairwise_singleton _ _, fun C _ => ⟨fun _ _ => rfl, ?_, ?_⟩, by simp⟩
    · intro b _ cid oi hoi
      cases hoi
    · intro k t _ cid oi r hoi
      cases hoi
  · intro c hc C hC hpeer htype
    rw [hopenings, hL]
    constructor
    · intro cid oi hoi
      cases hoi
    · intro D hD b _ _
      rw [List.mem_singleton.mp hD]
      rfl

end AuditBroker
