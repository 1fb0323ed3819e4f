import AuditBroker.Attribution
import AuditBroker.Restart

/-!
# Redemption

A receipt is redeemed at most once, by the superuser, with the token that was minted when the intent
was opened, for the values bound then, in the same boot and within the time to live; and when the
reply is sent the redeemed line is durable.
-/

namespace AuditBroker

open Foundation

variable {S : Site} {fs : Fs} {evs : List Event} {J : List Entry} {e : Entry} {cid : Buf cidMax}
  {r : Receipt}

/-! ## On guarded histories -/

/-- The lines behind the receipt of a redemption: the issued one and, right before it, the intent, both
of one request. -/
structure Origin (S : Site) (J : List Entry) (cid : Buf cidMax) (r : Receipt) (e₀ e₁ : Entry)
    (oi : OpenIntent) (r₁ : Receipt) : Prop where
  mem_intent : e₀ ∈ J
  mem_issued : e₁ ∈ J
  intent : e₀.act = .intent cid oi
  issued : e₁.act = .receipt cid r₁
  state : r₁.state = .issued
  opens : ∃ K, OpenGuard S K e₀ cid oi
  issue : ∃ K, IssueGuard S K e₁ cid r₁
  same : e₀.seq = e₁.seq ∧ e₀.env = e₁.env ∧ e₀.peer = e₁.peer ∧ e₀.req = e₁.req
  bound : r₁.actorUid = oi.actor.uid ∧ r₁.verb = oi.operation ∧ r₁.resource = oi.resource
  /-- Nothing else changed since. -/
  rest : r = { r₁ with state := r.state, acceptedTimeUs := r.acceptedTimeUs }

theorem RedeemGuard.origin (hJ : Guarded (EntryGuard S) J) (h : RedeemGuard S J e cid r) :
    ∃ e₀ e₁ oi r₁, Origin S J cid r e₀ e₁ oi r₁ := by
  obtain ⟨oi', r₀, hoi, hr₀, -, hr⟩ := h.opened
  obtain ⟨-, J₁, e₁, J₂, r₁, rfl, hact₁, hissue, heq⟩ := issued_of_ledger hJ hoi hr₀
  obtain ⟨J₀, e₀, oi, hJ₁, hact₀, hseq, henv, hpeer, hreq, -, hbound⟩ := hissue.opened
  have hmem₀ : e₀ ∈ J₁ := by rw [hJ₁]; simp
  obtain ⟨K₁, K₂, -, -, hg₀⟩ := (hJ.guard_of_eq rfl).1.exists_of_mem hmem₀
  refine ⟨e₀, e₁, oi, r₁, ⟨by simp [hmem₀], by simp, hact₀, hact₁, hissue.state,
    ⟨K₁, hg₀.intent hact₀⟩, ⟨J₁, hissue⟩, ⟨hseq, henv, hpeer, hreq⟩, hbound, ?_⟩⟩
  rw [hr, heq]

/-- Equal verifiers mean equal digests. -/
theorem sha256_eq_of_verifierOf {t t' : Bytes}
    (h : (verifierOf S t).bytes = (verifierOf S t').bytes) : S.sha256 t = S.sha256 t' := by
  rw [verifierOf_bytes, verifierOf_bytes] at h
  exact Vector.toList_inj.mp (toHex_injective h)

/-! ## On runs -/

/-- A token in play: minted for a request, or presented by one. -/
def InPlay (S : Site) (evs : List Event) (t : Bytes) : Prop :=
  (∃ env peer body attempt token, Event.request env peer body ∈ evs ∧
    rabMakeReceipt env attempt = some token ∧ t = token.bytes) ∨
  ∃ env peer body req, Event.request env peer body ∈ evs ∧
    rabParseRequest S.codec body = .ok req ∧ t = req.effectReceipt.bytes

/-- The time to live of receipts issued by an event, in microseconds. -/
def ttlAt (S : Site) (s₀ : St) (evs : List Event) (m : ℕ) : ℕ :=
  1000000 * (run S s₀ (evs.take m)).cfg.receiptTtlSec.toNat

/-- What holds when event `n`, the request `req` of `peer`, redeems the receipt that event `m`, the
request `req₀` of `peer₀`, was issued for the intent `cid`. -/
structure Authorised (S : Site) (s₀ : St) (evs : List Event) (cid : Buf cidMax) (n : ℕ) (env : Env)
    (peer : Actor) (req : Request) (m : ℕ) (env₀ : Env) (peer₀ : Actor) (req₀ : Request) :
    Prop where
  superuser : peer.uid = 0
  /-- Event `m` is the effect open of the intent. -/
  opened : m < n ∧ req₀.type = .openIntent ∧ req₀.effectPresent = true ∧
    rabMakeCorrelationId env₀ = some cid
  principal : req.redeemPrincipalUid = peer₀.uid
  /-- The token is the one minted at that open, and the one returned if the reply carried one. -/
  token : (∃ attempt, rabMakeReceipt env₀ attempt = some req.effectReceipt) ∧
    ∀ c b t, outAt S s₀ evs m = .reply (.openOk c b (some t)) → t = req.effectReceipt
  /-- Operation and resource are those on the intent's line. -/
  audited : ∃ e ∈ (run S s₀ (evs.take n)).journal, e.seq = m ∧ IsAudit S "intent" cid e.line ∧
    (lineStr S e.line "operation").getD [] = req.redeemVerb.bytes ∧
    (lineStr S e.line "resource").getD [] = req.redeemResource.bytes
  /-- They and the plan are those on the line of the issued receipt. -/
  bound : ∃ e ∈ (run S s₀ (evs.take n)).journal, e.seq = m ∧ IsTransition S .issued cid e.line ∧
    lineStr S e.line "verb" = some req.redeemVerb.bytes ∧
    lineStr S e.line "resource" = some req.redeemResource.bytes ∧
    int? (member? (lineMembers S e.line) "plan_schema") = some req.redeemPlanSchema ∧
    lineStr S e.line "plan_hash" = some req.redeemPlanHash.bytes
  plan : req.redeemPlanSchema = req₀.effectPlanSchema ∧ req.redeemPlanHash = req₀.effectPlanHash
  /-- The intent has no outcome line. -/
  unclosed : ∀ e ∈ (run S s₀ (evs.take (n + 1))).journal, ¬IsAudit S "outcome" cid e.line
  boot : ∃ b, env.bootid = some b ∧ env₀.bootid = some b
  elapsed : ∃ t t₀, env.boottime = some t ∧ env₀.boottime = some t₀ ∧ t₀.toNat ≤ t.toNat ∧
    t.toNat - t₀.toNat ≤ ttlAt S s₀ evs m
  /-- The redeemed line is the last of the history, and its append succeeded. -/
  durable : ∃ e, (run S s₀ (evs.take (n + 1))).journal =
      (run S s₀ (evs.take n)).journal ++ [e] ∧ e.seq = n ∧ IsTransition S .redeemed cid e.line ∧
    (run S s₀ (evs.take (n + 1))).landed = none
  /-- Any restart from here finds the receipt redeemed. -/
  survives : ∀ E cfg rollback,
    (rabBrokerOpen S E cfg ((run S s₀ (evs.take (n + 1))).found rollback)).1 = none →
    ∃ oi r, (rabBrokerOpen S E cfg
      ((run S s₀ (evs.take (n + 1))).found rollback)).2.opens.view cid = some oi ∧
      oi.receipt = some r ∧ r.state = .redeemed

/-- The events are numbered from the start of the run. -/
theorem seq_take (hsink : EmptySink S fs) (hunlinks : UnlinksRun evs)
    (hids : FreshIds S evs) {n : ℕ} (hn : n < evs.length) :
    (run S (St.initial fs) (evs.take n)).seq = n := by
  rw [(traced_run hsink (hunlinks.take n) (hids.take n)).seq, List.length_take]
  omega

/-- A successful redemption appended the redeemed line, and the guard of that line holds. -/
theorem redeemed_of_outAt (hsink : EmptySink S fs) (hunlinks : UnlinksRun evs)
    (hids : FreshIds S evs) {n : ℕ}
    (hout : outAt S (St.initial fs) evs n = .reply (.redeemOk cid)) :
    ∃ body e r, evs[n]? = some (.request e.env e.peer body) ∧
      rabParseRequest S.codec body = .ok e.req ∧ e.seq = n ∧ e.act = .receipt cid r ∧
      (run S (St.initial fs) (evs.take (n + 1))).journal =
        (run S (St.initial fs) (evs.take n)).journal ++ [e] ∧
      r.state = .redeemed ∧ (run S (St.initial fs) (evs.take (n + 1))).landed = none ∧
      RedeemGuard S (run S (St.initial fs) (evs.take n)).journal e cid r := by
  obtain ⟨env, peer, body, req, hev, hparse, ⟨hpois, e, r, hj, hfrom, hact, hstate⟩, hrun⟩ :=
    answers_of_outAt hsink hunlinks hids hout (by simp)
  have htraced := traced_run hsink (hunlinks.take n) (hids.take n)
  have htraced' := traced_run hsink (hunlinks.take (n + 1)) (hids.take (n + 1))
  have hseq : e.seq = n := by
    rw [hfrom.1]
    exact seq_take hsink hunlinks hids (List.getElem?_eq_some_iff.mp hev).1
  obtain ⟨-, henv, hpeer, hreq⟩ := hfrom
  have hjournal : (run S (St.initial fs) (evs.take (n + 1))).journal =
      (run S (St.initial fs) (evs.take n)).journal ++ [e] := by
    rw [← hrun]
    exact hj
  have hguarded := htraced'.inv.guarded
  rw [hjournal] at hguarded
  obtain ⟨-, hg⟩ := hguarded.of_snoc
  refine ⟨body, e, r, ?_, ?_, hseq, hact, hjournal, hstate, ?_, hg.redeem hact hstate⟩
  · rw [henv, hpeer, hev]
  · rw [hreq, hparse]
  · -- The process that replied is healthy, so no failed append is left behind.
    have hserved : Served S (St.initial fs) (evs.take (n + 1)) := by
      obtain ⟨env', peer', body', hev', halive, -⟩ := outAt_eq_reply hout
      exact Or.inr ⟨evs.take n, env', peer', body', by rw [List.take_add_one, hev']; rfl, halive⟩
    refine ((hserved.live hsink (hunlinks.take (n + 1)) (hids.take (n + 1))).ready ?_).2
    rw [← hrun]
    exact hpois

/-- The domain fields on the intent's line are those of the request. -/
theorem lineStr_domain (hg : EntryGuard S J e) {phase : Buf 16} (hphase : e.phase? = some phase)
    {key : String} (hkey : key ∈ schemaNames) (hout : key ∉ framingNames) :
    (lineStr S e.line key).getD [] = domainStr e.req.record key := by
  obtain ⟨hrec, host, brk, hms, -⟩ := lineMembers_audit hg hphase
  have hframing : ∀ ms : Members, ms.map Prod.fst = framingNames → member? ms key = none :=
    fun ms hms => member?_eq_none (hms ▸ hout)
  have htail : ∀ t b : Json, member? [("time", t), ("broker", b)] key = none := by
    intro t b
    refine member?_eq_none ?_
    simp only [List.map_cons, List.map_nil, List.mem_cons, List.not_mem_nil, or_false]
    rintro (rfl | rfl)
    · exact absurd hkey (by decide)
    · exact absurd hkey (by decide)
  rw [lineStr, hms, auditMembers, member?_append, member?_append, hframing _ rfl, htail,
    Option.none_or, Option.or_none]
  rfl

/-- The bound fields on the line of a receipt. -/
theorem lineStr_bound (hJ : Guarded (EntryGuard S) J) (hg : EntryGuard S J e)
    (hact : e.act = .receipt cid r) :
    lineStr S e.line "verb" = some r.verb.bytes ∧
      lineStr S e.line "resource" = some r.resource.bytes ∧
      int? (member? (lineMembers S e.line) "plan_schema") = some r.planSchema ∧
      lineStr S e.line "plan_hash" = some r.planHash.bytes := by
  have hstr : ∀ {cap} (b : Buf cap), str? (some (.str (cstr b.bytes))) = some b.bytes := by
    intro cap b
    rw [cstr_eq_self b.nul_free]
    exact str?_buf b
  simp only [lineStr, lineMembers_receipt hJ hg hact]
  exact ⟨hstr _, hstr _, rfl, hstr _⟩

/-- The time to live of a configuration does not overflow. -/
theorem toNat_ttl (sec : UInt32) : (sec.toUInt64 * 1000000).toNat = 1000000 * sec.toNat := by
  have hlt := sec.toNat_lt
  rw [UInt64.toNat_mul, UInt32.toNat_toUInt64, show (1000000 : UInt64).toNat = 1000000 from rfl,
    mul_comm]
  exact Nat.mod_eq_of_lt (by omega)

/-- A successful redemption is the only one of its receipt. -/
theorem redeemOk_unique (hsink : EmptySink S fs) (hunlinks : UnlinksRun evs)
    (hids : FreshIds S evs) {n n' : ℕ}
    (hout : outAt S (St.initial fs) evs n = .reply (.redeemOk cid))
    (hout' : outAt S (St.initial fs) evs n' = .reply (.redeemOk cid)) : n' = n := by
  obtain ⟨-, e, r, -, -, hseq, hact, hj, hstate, -⟩ := redeemed_of_outAt hsink hunlinks hids hout
  obtain ⟨-, e', r', -, -, hseq', hact', hj', hstate', -⟩ :=
    redeemed_of_outAt hsink hunlinks hids hout'
  have hmem : ∀ {k e}, (run S (St.initial fs) (evs.take (k + 1))).journal =
      (run S (St.initial fs) (evs.take k)).journal ++ [e] →
      e ∈ (run S (St.initial fs) evs).journal := fun {k e} hj =>
    (prefix_journal_take hsink hunlinks hids (k + 1)).subset (by rw [hj]; simp)
  have heq := redeemed_unique (traced_run hsink hunlinks hids).inv.guarded (hmem hj') (hmem hj)
    hact' hact hstate' hstate
  rw [← hseq', heq, hseq]

/-- A reply that carries a token is backed by the line of an issued receipt. -/
theorem issued_of_openOk (hsink : EmptySink S fs) (hunlinks : UnlinksRun evs)
    (hids : FreshIds S evs) {m : ℕ}
    {binding : Buf bindingMax} {token : Buf receiptMax}
    (hout : outAt S (St.initial fs) evs m = .reply (.openOk cid binding (some token))) :
    ∃ e ∈ (run S (St.initial fs) evs).journal, ∃ body r, e.seq = m ∧
      evs[m]? = some (.request e.env e.peer body) ∧ e.act = .receipt cid r ∧ r.state = .issued ∧
      r.verifier = verifierOf S token.bytes ∧ rabMakeCorrelationId e.env = some cid ∧
      ∃ k, rabMakeReceipt e.env k = some token := by
  obtain ⟨env, peer, body, req, hev, hparse, ⟨-, ⟨e₀, he₀, hfrom₀, oi, hact₀, -⟩, htoken⟩, hrun⟩ :=
    answers_of_outAt hsink hunlinks hids hout (by simp)
  obtain ⟨hminted, e, he, ⟨hseq, henv, hpeer, hreq⟩, r, hact, hver⟩ := htoken token rfl
  have hmem : ∀ {e}, e ∈ (rabBrokerHandle S { env, peer, req }
      (run S (St.initial fs) (evs.take m)).begin_).2.journal →
      e ∈ (run S (St.initial fs) evs).journal := fun he =>
    (prefix_journal_take hsink hunlinks hids (m + 1)).subset (by rw [← hrun]; exact he)
  have hguarded := (traced_run hsink hunlinks hids).inv.guarded
  obtain ⟨K₀, -, -, -, hg₀⟩ := hguarded.exists_of_mem (hmem he₀)
  obtain ⟨K, -, -, -, hg⟩ := hguarded.exists_of_mem (hmem he)
  have hopen := hg₀.intent hact₀
  obtain ⟨-, henv₀, -, hreq₀⟩ := hfrom₀
  refine ⟨e, hmem he, body, r, ?_, ?_, hact, ?_, hver, ?_, henv ▸ hminted⟩
  · rw [hseq]
    exact seq_take hsink hunlinks hids (List.getElem?_eq_some_iff.mp hev).1
  · rw [henv, hpeer, hev]
  · rcases hg.receipt hact with hissue | hredeem
    · exact hissue.state
    · -- The request opens an intent, so it redeems nothing.
      have htype := hredeem.type
      rw [hreq, ← hreq₀, hopen.type] at htype
      simp at htype
  · rw [henv, ← henv₀]
    exact hopen.cid_minted

/-- Redemption is at most once and only for the authorised holder: every receipt gets at most one
successful reply, and with it everything in `Authorised` holds, for the one request that opened the
intent. -/
theorem redeem_authorised (hsink : EmptySink S fs) (hunlinks : UnlinksRun evs)
    (hids : FreshIds S evs)
    (hsha : ∀ t t', InPlay S evs t → InPlay S evs t' → S.sha256 t = S.sha256 t' → t = t') {n : ℕ}
    (hout : outAt S (St.initial fs) evs n = .reply (.redeemOk cid)) :
    (∀ n', outAt S (St.initial fs) evs n' = .reply (.redeemOk cid) → n' = n) ∧
      ∃ env peer body req m env₀ peer₀ body₀ req₀,
        evs[n]? = some (.request env peer body) ∧ rabParseRequest S.codec body = .ok req ∧
        evs[m]? = some (.request env₀ peer₀ body₀) ∧
        rabParseRequest S.codec body₀ = .ok req₀ ∧
        Authorised S (St.initial fs) evs cid n env peer req m env₀ peer₀ req₀ := by
  refine ⟨fun n' hout' => redeemOk_unique hsink hunlinks hids hout hout', ?_⟩
  obtain ⟨body, e, r, hev, hparse, hseq, hact, hj, hstate, hlanded, hg⟩ :=
    redeemed_of_outAt hsink hunlinks hids hout
  have htraced := traced_run hsink (hunlinks.take n) (hids.take n)
  have htraced' := traced_run hsink (hunlinks.take (n + 1)) (hids.take (n + 1))
  have hJ := htraced.inv.guarded
  obtain ⟨e₀, e₁, oi, r₁, ho⟩ := hg.origin hJ
  obtain ⟨K₀, hopen⟩ := ho.opens
  obtain ⟨K₁, hissue⟩ := ho.issue
  obtain ⟨hseq₀, henv₀, hpeer₀, hreq₀⟩ := ho.same
  have hrest := ho.rest
  -- The request that opened the intent, and the configuration it met.
  obtain ⟨body₀, hev₀, hparse₀, hlives⟩ := (traced_run hsink hunlinks hids).caused e₁
    ((prefix_journal_take hsink hunlinks hids n).subset ho.mem_issued)
  have hlt : e₁.seq < n := by
    obtain ⟨b, hb, -⟩ := htraced.caused e₁ ho.mem_issued
    have hlen := (List.getElem?_eq_some_iff.mp hb).1
    rw [List.length_take] at hlen
    omega
  have hmem₁ := List.mem_of_getElem? hev₀
  have hmem := List.mem_of_getElem? hev
  obtain ⟨token, attempt, hminted, hver⟩ := hissue.minted
  -- Injectivity of the digest turns equal verifiers into equal tokens.
  have htoken : ∀ t : Buf receiptMax, InPlay S evs t.bytes →
      (verifierOf S t.bytes).bytes = r₁.verifier.bytes → t = token := by
    intro t ht heq
    rw [hver] at heq
    exact Buf.ext (hsha _ _ ht (Or.inl ⟨_, _, _, _, _, hmem₁, hminted, rfl⟩)
      (sha256_eq_of_verifierOf heq))
  have hpresented : e.req.effectReceipt = token := by
    refine htoken _ (Or.inr ⟨_, _, _, _, hmem, hparse, rfl⟩) ?_
    rw [← hg.token, hrest]
  have hfits := hopen.effect_fits (by rw [hreq₀]; exact hissue.effect)
  have hoi := hopen.oi_eq
  refine ⟨e.env, e.peer, body, e.req, e₁.seq, e₁.env, e₁.peer, body₀, e₁.req, hev, hparse, hev₀,
    hparse₀, ⟨hg.superuser, ⟨hlt, hreq₀ ▸ hopen.type, hissue.effect, henv₀ ▸ hopen.cid_minted⟩, ?_,
    ⟨⟨attempt, hpresented ▸ hminted⟩, ?_⟩, ?_, ?_, ?_, ?_, ?_, ?_, ?_, ?_⟩⟩
  · rw [hg.principal, hrest, ← hpeer₀, ← hopen.actor_eq]
    exact ho.bound.1
  · intro c b t hreply
    obtain ⟨e₂, he₂, body₂, r₂, -, hev₂, hact₂, hstate₂, hver₂, hcid₂, k, hk⟩ :=
      issued_of_openOk hsink hunlinks hids hreply
    have henv₂ : e₂.env = e₁.env :=
      (Event.request.inj (Option.some.inj (hev₂.symm.trans hev₀))).1
    rw [henv₂] at hcid₂ hk
    have hcid₀ : rabMakeCorrelationId e₁.env = some cid := henv₀ ▸ hopen.cid_minted
    obtain rfl : c = cid := Option.some.inj (hcid₂.symm.trans hcid₀)
    -- An intent gets one receipt, so the token is that of the line found here.
    have heq := issued_unique (traced_run hsink hunlinks hids).inv.guarded he₂
      ((prefix_journal_take hsink hunlinks hids n).subset ho.mem_issued) hact₂ ho.issued hstate₂
      ho.state
    rw [heq, ho.issued] at hact₂
    rw [hpresented]
    refine htoken t (Or.inl ⟨_, _, _, k, t, hmem₁, hk, rfl⟩) ?_
    rw [(Act.receipt.inj hact₂).2, hver₂]
  · obtain ⟨K, -, -, hK, hgK⟩ := hJ.exists_of_mem ho.mem_intent
    have hphase : e₀.phase? = some phaseIntent := by rw [Entry.phase?, ho.intent]
    refine ⟨e₀, ho.mem_intent, hseq₀, (isIntent_iff hK hgK).mpr ⟨oi, ho.intent⟩, ?_, ?_⟩
    · rw [lineStr_domain hgK hphase (by decide) (by decide), ← recStr_bytes hfits.1, hg.verb, hrest]
      simp only [ho.bound.2.1]
      rw [hoi]
    · rw [lineStr_domain hgK hphase (by decide) (by decide), ← recStr_bytes hfits.2, hg.resource,
        hrest]
      simp only [ho.bound.2.2]
      rw [hoi]
  · obtain ⟨K, -, -, hK, hgK⟩ := hJ.exists_of_mem ho.mem_issued
    obtain ⟨hverb, hres, hschema, hhash⟩ := lineStr_bound hK hgK ho.issued
    refine ⟨e₁, ho.mem_issued, rfl, (isTransition_iff hK hgK).mpr ⟨r₁, ho.issued, ho.state⟩, ?_, ?_,
      ?_, ?_⟩
    · rw [hverb, hg.verb, hrest]
    · rw [hres, hg.resource, hrest]
    · rw [hschema, hg.planSchema, hrest]
    · rw [hhash, hg.planHash, hrest]
  · constructor
    · rw [hg.planSchema, hrest]
      exact hissue.planSchema.2
    · refine Buf.ext ?_
      rw [hg.planHash, hrest]
      simp only [hissue.planHash]
  · intro e' he' hline
    obtain ⟨K, -, -, hK, hgK⟩ := htraced'.inv.guarded.exists_of_mem he'
    have hact' := (isOutcome_iff hK hgK).mp hline
    rw [hj, List.mem_append, List.mem_singleton] at he'
    rcases he' with he' | rfl
    · obtain ⟨oi', -, hoi', -⟩ := hg.opened
      rw [ledger_eq_none_of_outcome hJ he' hact'] at hoi'
      simp at hoi'
    · rw [hact] at hact'
      simp at hact'
  · refine ⟨r.bootId, hg.boot.1, ?_⟩
    rw [hissue.boot.2, hrest]
  · obtain ⟨-, t, ht, hle, httl⟩ := hg.boot
    refine ⟨t, r₁.issueBoottimeUs, ht, hissue.boot.1, ?_, ?_⟩
    · rw [hrest] at hle
      exact UInt64.le_iff_toNat_le.mp hle
    · have hlive := hlives cid r₁ ho.issued ho.state
      rw [hrest] at hle httl
      simp only at hle httl
      rw [ttlAt, ← toNat_ttl, ← hlive, ← UInt64.toNat_sub_of_le _ _ hle]
      exact UInt64.le_iff_toNat_le.mp httl
  · obtain ⟨hK, hgK⟩ := (hj ▸ htraced'.inv.guarded : Guarded (EntryGuard S) (_ ++ [e])).of_snoc
    exact ⟨e, hj, hseq, (isTransition_iff hK hgK).mpr ⟨r, hact, hstate⟩, hlanded⟩
  · intro E cfg rollback haccept
    obtain ⟨oi', -, hoi', -⟩ := hg.opened
    refine ⟨{ oi' with receipt := some r }, r, ?_, rfl, hstate⟩
    rw [view_of_start htraced'.inv.toSound haccept, hj, ledger_snoc, hact, Act.apply_receipt, hoi']
    rfl

/-- The tokens of the run of an effect open and its redemption: those minted in its three
environments, the one presented, and the empty string of a request without one. -/
theorem Sample.inPlay_effectRun {t : Bytes} (h : InPlay site effectRun t) :
    t ∈ [[], token 1, token 2, token 3] := by
  have hevent : ∀ env peer body, Event.request env peer body ∈ effectRun →
      ∃ time k, env = Sample.env time k ∧ k ∈ [1, 2, 3] ∧
        body ∈ [effectBody (lit "install"), redeemBody 1 1000 (lit "install"),
          outcomeBody 1 (lit "install")] := by
    intro env peer body hmem
    simp only [effectRun, List.mem_cons, Event.request.injEq, reduceCtorEq, false_or,
      List.not_mem_nil, or_false] at hmem
    rcases hmem with ⟨rfl, -, rfl⟩ | ⟨rfl, -, rfl⟩ | ⟨rfl, -, rfl⟩
    all_goals exact ⟨_, _, rfl, by simp, by simp⟩
  rcases h with ⟨env, peer, body, attempt, tok, hmem, hmint, rfl⟩ | ⟨env, peer, body, req, hmem, hreq, rfl⟩
  · obtain ⟨time, k, rfl, hk, -⟩ := hevent _ _ _ hmem
    have htok : tok = Sample.receipt k := by
      have hmint : copyBounded receiptMax (token k) = some tok := hmint
      exact (snprintf_of_copyBounded hmint).symm
    subst htok
    simp only [List.mem_cons, List.not_mem_nil, or_false] at hk
    rcases hk with rfl | rfl | rfl <;> decide
  · obtain ⟨-, -, -, -, hbody⟩ := hevent _ _ _ hmem
    have hall : ∀ body ∈ [effectBody (lit "install"), redeemBody 1 1000 (lit "install"),
        outcomeBody 1 (lit "install")],
        ((rabParseRequest jsonText body).toOption.all fun req =>
          decide (req.effectReceipt.bytes ∈ [[], token 1, token 2, token 3])) = true := by
      decide +kernel
    have hreq : rabParseRequest jsonText body = .ok req := hreq
    have hmem := hall body hbody
    rw [hreq] at hmem
    exact of_decide_eq_true hmem

/-- The theorem at the redemption of that run. -/
theorem redeem_authorised_effectRun :
    outAt Sample.site (St.initial Sample.fs) Sample.effectRun 2 =
        .reply (.redeemOk (Sample.cid 2000000 1)) ∧
      ∃ env peer req m env₀ peer₀ req₀,
        Authorised Sample.site (St.initial Sample.fs) Sample.effectRun (Sample.cid 2000000 1) 2 env
          peer req m env₀ peer₀ req₀ := by
  have hout : outAt Sample.site (St.initial Sample.fs) Sample.effectRun 2 =
      .reply (.redeemOk (Sample.cid 2000000 1)) := by
    decide +kernel
  have hinj : ∀ t ∈ [[], Sample.token 1, Sample.token 2, Sample.token 3],
      ∀ t' ∈ [[], Sample.token 1, Sample.token 2, Sample.token 3],
        Sample.sha256 t = Sample.sha256 t' → t = t' := by
    decide +kernel
  obtain ⟨-, env, peer, body, req, m, env₀, peer₀, body₀, req₀, -, -, -, -, hauth⟩ :=
    redeem_authorised Sample.emptySink Sample.unlinksRun_effectRun Sample.freshIds_effectRun
      (fun t t' ht ht' => hinj t (Sample.inPlay_effectRun ht) t' (Sample.inPlay_effectRun ht')) hout
  exact ⟨hout, env, peer, req, m, env₀, peer₀, req₀, hauth⟩

/-- An effect open whose receipt line lands although its `fdatasync` fails, a restart, and a
redemption with the token that was minted. -/
def Sample.lostReplyRun : List Event :=
  [.start (env 1000000 0) config false,
    .request { env 2000000 1 with io := fun c n => if c = .fdatasync ∧ n = 7 then .fail 0 else .ok }
      (actor 1000) (effectBody (lit "install")),
    .start (env 3000000 0) config false,
    .request (env 4000000 2) (actor 0) (redeemBody 1 1000 (lit "install"))]

/-- The reply to an open with a receipt token. -/
def Out.bringsToken : Out → Bool
  | .reply (.openOk _ _ (some _)) => true
  | _ => false

/-- Two intents with one correlation id; the newer one gets its outcome, and the receipt of the older
one is redeemed. -/
def Sample.closedRun : List Event :=
  collidingRun ++ [.request (env 3000000 3) (actor 1000) (failureBody 2 (lit "remove")),
    .request (env 4000000 4) (actor 0) (redeemBody 1 1000 (lit "install"))]

/-- The redeemed token need not be one that an effect open returned: in the first run none was, the
reply to the open being an error, and yet the redemption succeeds.  Where two intents have the same
correlation id, there may be an outcome line for it: in the second run the redemption comes after that
line. -/
theorem redeem_unreturned_or_closed :
    (UnlinksRun Sample.lostReplyRun ∧ FreshIds Sample.site Sample.lostReplyRun ∧
      outAt Sample.site (St.initial Sample.fs) Sample.lostReplyRun 3 =
        .reply (.redeemOk (Sample.cid 2000000 1)) ∧
      ∀ n c b t, outAt Sample.site (St.initial Sample.fs) Sample.lostReplyRun n ≠
        .reply (.openOk c b (some t))) ∧
    outAt Sample.site (St.initial Sample.fs) Sample.closedRun 4 =
      .reply (.redeemOk (Sample.cid 2000000 1)) ∧
    ∃ e ∈ (run Sample.site (St.initial Sample.fs) (Sample.closedRun.take 4)).journal,
      IsAudit Sample.site "outcome" (Sample.cid 2000000 1) e.line := by
  refine ⟨⟨?_, by decide +kernel, by decide +kernel, ?_⟩, by decide +kernel, by decide +kernel⟩
  · simp only [UnlinksRun, Sample.lostReplyRun, List.forall_mem_cons]
    exact ⟨fun _ => rfl, fun _ => rfl, fun _ => rfl, fun _ => rfl, by simp⟩
  · intro n c b t hout
    by_cases hn : n < 4
    · have hnone : ∀ n < 4, (outAt Sample.site (St.initial Sample.fs) Sample.lostReplyRun
          n).bringsToken = false := by
        decide +kernel
      have hfalse := hnone n hn
      rw [hout] at hfalse
      cases hfalse
    · have hnone : Sample.lostReplyRun[n]? = none := List.getElem?_eq_none (not_lt.mp hn)
      rw [outAt, hnone] at hout
      cases hout

end AuditBroker
