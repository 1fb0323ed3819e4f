import AuditBroker.Redemption

/-!
# Issued receipts stay redeemable

An effect open that replied with a token can be completed: as long as no line closes the intent or
redeems the receipt, the superuser's request that presents this token with the values of the open is
accepted by the parser and by the broker, whatever requests, rotations and restarts came in between.
-/

namespace AuditBroker

open Foundation

/-! ## The request -/

/-- A `redeem_receipt` body that presents these values, its members in any order. -/
def Presents (J : JsonCodec) (body token : Bytes) (uid : UInt32) (operation resource : Bytes)
    (planSchema : ℤ) (planHash : Bytes) : Prop :=
  ∃ root effect : Members, J.loadb body = some (.obj root) ∧
    root.Perm [("type", .str (lit "redeem_receipt")), ("effect_receipt", .str token),
      ("principal_uid", .int uid.toNat), ("effect", .obj effect)] ∧
    effect.Perm [("operation", .str operation), ("resource", .str resource),
      ("plan_schema", .int planSchema), ("plan_hash", .str planHash)]

/-- The request that such a body is parsed to. -/
def redeemRequest (token : Bytes) (uid : UInt32) (operation resource planHash : Bytes) : Request where
  type := .redeem
  effectReceipt := Buf.snprintf _ token
  redeemPrincipalUid := uid
  redeemVerb := Buf.snprintf _ operation
  redeemResource := Buf.snprintf _ resource
  redeemPlanSchema := planSchemaV1
  redeemPlanHash := Buf.snprintf _ planHash

theorem cstr_of_isHexLcN {n : ℕ} {s : Bytes} (h : isHexLcN n s = true) : cstr s = s := by
  simp only [isHexLcN, Bool.and_eq_true, beq_iff_eq] at h
  exact cstr_eq_self fun hmem => (lt_of_isHexLc (List.all_eq_true.mp h.2 0 hmem)).2 rfl

/-- The nested object of the request passes `redeem_effect_valid`. -/
theorem redeemEffectValid_of_perm {effect : Members} {operation resource planHash : Bytes}
    (h : effect.Perm [("operation", .str operation), ("resource", .str resource),
      ("plan_schema", .int planSchemaV1), ("plan_hash", .str planHash)])
    (hop : operation.length < requestStrMax ∧ (0 : UInt8) ∉ operation)
    (hres : resource.length < requestStrMax ∧ (0 : UInt8) ∉ resource)
    (hhash : isHexLcN 64 planHash = true) :
    redeemEffectValid (.obj effect) = some ⟨operation, resource, planHash⟩ := by
  have hkeys : onlyKeys effect ["operation", "resource", "plan_schema", "plan_hash"] = true := by
    rw [onlyKeys, h.all_eq]
    simp
  have hmember := member?_of_perm h (by simp)
  have hlong : ¬(requestStrMax ≤ operation.length ∨ requestStrMax ≤ resource.length) := by omega
  simp [redeemEffectValid, hkeys, hmember, str?, int?, Json.string?, Json.int?,
    cstr_eq_self hop.2, cstr_eq_self hres.2, cstr_of_isHexLcN hhash, hlong, hhash]

/-- A body that presents well-formed values is accepted. -/
theorem Presents.accepted {J : JsonCodec} {body token : Bytes} {uid : UInt32}
    {operation resource planHash : Bytes}
    (h : Presents J body token uid operation resource planSchemaV1 planHash)
    (htoken : isHexLcN 32 token = true)
    (hop : operation.length < requestStrMax ∧ (0 : UInt8) ∉ operation)
    (hres : resource.length < requestStrMax ∧ (0 : UInt8) ∉ resource)
    (hhash : isHexLcN 64 planHash = true) :
    rabParseRequest J body = .ok (redeemRequest token uid operation resource planHash) := by
  obtain ⟨root, effect, hload, hroot, heffect⟩ := h
  have hkeys : onlyKeys root ["type", "effect_receipt", "principal_uid", "effect"] = true := by
    rw [onlyKeys, hroot.all_eq]
    simp
  have hmember := member?_of_perm hroot (by simp)
  have hdepth : ¬maxDepth < (Json.obj root).depth := by
    rw [Json.depth, depthMembers_of_perm hroot]
    simp [depthMembers, Json.depth, depthMembers_of_perm heffect]
  have hvalid := redeemEffectValid_of_perm heffect hop hres hhash
  have hshape : parseShape root = .ok (redeemRequest token uid operation resource planHash) := by
    have htype : str? (member? root "type") = some (lit "redeem_receipt") := by
      rw [hmember, member?_cons, if_pos rfl]
      decide
    rw [parseShape, htype]
    simp [parseRedeem, hkeys, hmember, str?, int?, Json.string?, Json.int?, cstr_of_isHexLcN htoken,
      hvalid, htoken, castUid_toNat, redeemRequest]
  simp only [rabParseRequest, hload, if_neg hdepth, hshape]

/-! ## The handler -/

section Handler

variable {S : Site} {C : Ctx} {s : St} {cid : Buf cidMax} {a : ℕ} {r : Receipt}

/-- The request is entitled to the receipt `r`: every check of the handler but the quotas passes. -/
structure Entitled (S : Site) (C : Ctx) (r : Receipt) : Prop where
  superuser : C.peer.uid = 0
  digest : C.env.digestOk 0 = true ∧ C.env.digestOk 1 = true
  token : r.verifier = verifierOf S C.req.effectReceipt.bytes
  principal : C.req.redeemPrincipalUid = r.actorUid
  bound : C.req.redeemPlanSchema = r.planSchema ∧ C.req.redeemVerb.bytes = r.verb.bytes ∧
    C.req.redeemResource.bytes = r.resource.bytes ∧ C.req.redeemPlanHash.bytes = r.planHash.bytes
  issued : r.state = .issued
  boot : ∃ nowUs, C.env.boottime = some nowUs ∧ C.env.bootid = some r.bootId ∧
    r.issueBoottimeUs ≤ nowUs ∧ nowUs - r.issueBoottimeUs ≤ r.ttlUs

/-- The size of the line that redeeming the receipt of an intent appends. -/
def redemptionSize (S : Site) (s : St) (cid : Buf cidMax) (now : UInt64) : Option UInt64 :=
  ((s.opens.view cid).bind OpenIntent.receipt).bind fun r =>
    (receiptLine S.codec cid false { r with state := .redeemed, acceptedTimeUs := now }).map
      fun line => UInt64.ofNat (line.length + 1)

/-- There is room for that line: free space, and in the quotas of the uid it is charged to and the
global one. -/
structure HasRoom (S : Site) (E : Env) (s : St) (cid : Buf cidMax) (uid : UInt32) (now : UInt64) :
    Prop where
  free : enoughFreeSpace s.cfg (E.free 0) = true
  rate : (s.rateAllowed uid now).1 = true
  bytes : ∀ n ∈ redemptionSize S s cid now,
    ((s.rateAllowed uid now).2.bytesAllowed uid now n).1 = true

theorem verifierMatches_of_eq {E : Env} {token : Bytes} {v : Buf hex64Max}
    (hdigest : E.digestOk 1 = true) (h : v = verifierOf S token) :
    verifierMatches S E token v.bytes = true := by
  simp [verifierMatches, hdigest, h, verifierOf_bytes]

/-- A line within the quotas is durable unless the broker is poisoned. -/
theorem commit_of_healthy {s' : St} {line : Bytes} {r : Receipt} {now : UInt64}
    {install : Tables → Tables} {res : Commit}
    (h : commit S C line (.receipt cid r) now install s = (res, s'))
    (hbytes : (s.bytesAllowed r.actorUid now (UInt64.ofNat (line.length + 1))).1 = true)
    (hp : s'.poisoned = false) : res = .durable := by
  unfold commit at h
  simp only [Entry.chargedUid, Entry.size] at h
  split at h
  · rename_i hover
    rw [hover] at hbytes
    cases hbytes
  · split at h
    · -- A failed append poisons the broker.
      rename_i s₂ hfailed
      cases h
      rw [appendLine_failed hfailed] at hp
      cases hp
    · cases h
      exact if_neg (by rw [hp]; simp)

/-- Only the state and the time of a receipt change with its redemption, so its line can be built
if that of the issued one could. -/
theorem receiptLine_isSome {J : JsonCodec} {line : Bytes} (state : RcptState) (now : UInt64)
    (h : receiptLine J cid false r = some line) :
    ∃ line', receiptLine J cid false { r with state, acceptedTimeUs := now } = some line' := by
  unfold receiptLine rabBuildReceipt at h ⊢
  simp only at h ⊢
  split at h
  · cases h
  · rename_i hargs
    rw [if_neg hargs]
    simp only [Option.bind_eq_some_iff, Option.map_eq_some_iff] at h
    obtain ⟨v₁, h₁, v₂, h₂, v₃, h₃, v₄, h₄, v₅, h₅, v₆, h₆, -⟩ := h
    rw [h₁, h₂, h₃, h₄, h₅, h₆]
    exact ⟨_, rfl⟩

/-- The size of a line that is charged to the bearer of a receipt. -/
theorem bytesAllowed_of_room (hroom : HasRoom S C.env s cid r.actorUid (C.env.clock s.ticks))
    (hview : (s.opens.view cid).bind OpenIntent.receipt = some r) {line : Bytes}
    (hline : receiptLine S.codec cid false
      { r with state := .redeemed, acceptedTimeUs := C.env.clock s.ticks } = some line) :
    ((s.rateAllowed r.actorUid (C.env.clock s.ticks)).2.bytesAllowed r.actorUid
      (C.env.clock s.ticks) (UInt64.ofNat (line.length + 1))).1 = true := by
  refine hroom.bytes _ ?_
  simp [redemptionSize, hview, hline]

/-- `rab_broker_redeem_receipt` succeeds for an entitled request with room. -/
theorem rabBrokerRedeemReceipt_ok (h : Entitled S C r) (hp : s.poisoned = false)
    (hfind : s.opens.openFindCid cid.bytes = some a) (hr : (s.opens.heap a).receipt = some r)
    {line : Bytes} (hline : receiptLine S.codec cid false r = some line)
    (hroom : HasRoom S C.env s cid r.actorUid (C.env.clock s.ticks))
    (hhealthy : (rabBrokerRedeemReceipt S C cid s).2.poisoned = false) :
    (rabBrokerRedeemReceipt S C cid s).1 = .ok := by
  obtain ⟨nowUs, htime, hboot, hle, httl⟩ := h.boot
  obtain ⟨line', hline'⟩ := receiptLine_isSome .redeemed (C.env.clock s.ticks) hline
  have hcid := OpenSet.cid_of_openFindCid hfind
  have hmatch := verifierMatches_of_eq (E := C.env) h.digest.2 h.token
  have hview : (s.opens.view cid).bind OpenIntent.receipt = some r := by
    simp [OpenSet.view, hfind, hr]
  have hbytes := bytesAllowed_of_room hroom hview hline'
  -- The states after the clock is read and after the ring is looked at.
  obtain ⟨s₁, hs₁⟩ : ∃ s₁, s₁ = (s.readClock C.env).2 := ⟨_, rfl⟩
  have hclock : s.readClock C.env = (C.env.clock s.ticks, s₁) := by
    rw [hs₁]
    rfl
  obtain ⟨s₂, hs₂⟩ : ∃ s₂, s₂ = (s₁.rateAllowed r.actorUid (C.env.clock s.ticks)).2 := ⟨_, rfl⟩
  have hrate : s₁.rateAllowed r.actorUid (C.env.clock s.ticks) = (true, s₂) := by
    rw [hs₂, ← hroom.rate, hs₁]
    rfl
  have hbytes₂ : (s₂.bytesAllowed r.actorUid (C.env.clock s.ticks)
      (UInt64.ofNat (line'.length + 1))).1 = true := by
    rw [hs₂, hs₁]
    simp only [St.bytesAllowed, St.rateAllowed, St.readClock] at hbytes ⊢
    exact hbytes
  have hopens₁ : s₁.opens = s.opens := by rw [hs₁]; rfl
  have hopens₂ : s₂.opens = s.opens := by rw [hs₂, ← hopens₁]; rfl
  unfold rabBrokerRedeemReceipt at hhealthy ⊢
  simp only [hp, h.superuser, hfind, hr, h.principal, hmatch, h.bound, h.issued, htime, hboot,
    hroom.free, UInt64.not_lt.mpr hle, UInt64.not_lt.mpr httl, ne_eq, not_true_eq_false, or_self, reduceCtorEq,
    if_false, Bool.false_eq_true, Bool.true_eq_false, hclock, hopens₁, hopens₂, hcid, hline',
    hrate] at hhealthy ⊢
  generalize hcommit : commit S C line' _ _ _ s₂ = c at hhealthy ⊢
  obtain ⟨res, s₃⟩ := c
  have hdurable := commit_of_healthy hcommit hbytes₂
  cases res with
  | durable => rfl
  | overQuota => cases hdurable hhealthy
  | failed => cases hdurable hhealthy
  | uncertain => cases hdurable hhealthy

/-- `handle_redeem` succeeds when the verifier leads to the intent. -/
theorem handleRedeem_ok (h : Entitled S C r) (hp : s.poisoned = false) (hwf : s.opens.Wf)
    {oi : OpenIntent} (hview : s.opens.view cid = some oi) (hr : oi.receipt = some r)
    (hinj : ∀ cid' oi' r', s.opens.view cid' = some oi' → oi'.receipt = some r' →
      r'.verifier = r.verifier → cid' = cid)
    {line : Bytes} (hline : receiptLine S.codec cid false r = some line)
    (hroom : HasRoom S C.env s cid r.actorUid (C.env.clock s.ticks))
    (hhealthy : (handleRedeem S C s).2.poisoned = false) :
    (handleRedeem S C s).1 = .redeemOk cid := by
  have hfound : s.opens.openFindVerifier (verifierOf S C.req.effectReceipt.bytes).bytes ≠ none := by
    rw [Ne, hwf.openFindVerifier_eq_none_iff (verifierOf_ne_nil S _)]
    intro hnone
    exact hnone cid oi r hview hr (by rw [h.token])
  obtain ⟨a, ha⟩ := Option.ne_none_iff_exists'.mp hfound
  obtain ⟨hopen, r', hr', hver⟩ := hwf.of_openFindVerifier ha
  have hcid : (s.opens.heap a).cid = cid := by
    refine hinj _ _ r' (hwf.view_of_open hopen) hr' (Buf.ext ?_)
    rw [hver, h.token]
  have hreceipt : (s.opens.heap a).receipt = some r := by
    have hview' := hwf.view_of_open hopen
    rw [hcid, hview] at hview'
    rw [← hr, Option.some.inj hview']
  have hfind : s.opens.openFindCid cid.bytes = some a :=
    hwf.openFindCid_eq_some_iff.mpr ⟨hopen, hcid⟩
  unfold handleRedeem at hhealthy ⊢
  simp only [h.superuser, h.digest.1, ha, hcid, ne_eq, not_true_eq_false, if_false,
    Bool.true_eq_false] at hhealthy ⊢
  rw [rabBrokerRedeemReceipt_ok h hp hfind hreceipt hline hroom hhealthy]
  rfl

end Handler

/-! ## Runs -/

section Runs

variable {S : Site} {fs : Fs} {evs : List Event} {s : St} {cid : Buf cidMax} {m : ℕ}
  {env₀ E : Env} {peer₀ peer : Actor} {body₀ body : Bytes} {req₀ : Request}
  {binding : Buf bindingMax} {token : Buf receiptMax}

/-- What the reply of an effect open stands for: the receipt `r` of the intent, bound to the values
of the request. -/
structure Bound (S : Site) (J : List Entry) (cid : Buf cidMax) (token : Buf receiptMax) (env₀ : Env)
    (peer₀ : Actor) (req₀ : Request) (ttl : ℕ) (r : Receipt) : Prop where
  issued : ∃ e ∈ J, e.act = .receipt cid r ∧ receiptLine S.codec cid false r = some e.line
  verifier : r.verifier = verifierOf S token.bytes
  token_hex : isHexLcN 32 token.bytes = true
  actorUid : r.actorUid = peer₀.uid
  verb : r.verb.bytes = domainStr req₀.record "operation"
  resource : r.resource.bytes = domainStr req₀.record "resource"
  planSchema : r.planSchema = planSchemaV1 ∧ r.planSchema = req₀.effectPlanSchema
  planHash : r.planHash = req₀.effectPlanHash
  boot : env₀.boottime = some r.issueBoottimeUs ∧ env₀.bootid = some r.bootId
  ttl : r.ttlUs.toNat = ttl

theorem isHexLcN_of_rabMakeReceipt {k : ℕ} (h : rabMakeReceipt E k = some token) :
    isHexLcN 32 token.bytes = true := by
  obtain ⟨rnd, -, hcopy⟩ := Option.bind_eq_some_iff.mp h
  have hbytes : token.bytes = toHex rnd.toList := by
    rw [bytes_of_copyBounded hcopy, cstr_eq_self (nul_notMem_toHex _)]
  rw [hbytes, isHexLcN, Bool.and_eq_true, List.all_eq_true]
  exact ⟨by simp, fun c hc => isHexLc_of_mem_toHex hc⟩

/-- The plan digest of a receipt that was written is hexadecimal. -/
theorem isHexLcN_planHash {J : JsonCodec} {r : Receipt} {line : Bytes}
    (h : receiptLine J cid false r = some line) : isHexLcN 64 r.planHash.bytes = true := by
  unfold receiptLine rabBuildReceipt at h
  split at h
  · cases h
  · rename_i hargs
    simp only [receiptArgsOk, Bool.not_eq_false, Bool.and_eq_true] at hargs
    have hhash : isHexLcN 64 (cstr r.planHash.bytes) = true := hargs.1.1.1.1.2
    rwa [cstr_eq_self r.planHash.nul_free] at hhash

theorem bound_of_openOk (hsink : EmptySink S fs) (hunlinks : UnlinksRun evs) (hids : FreshIds S evs)
    (hout : outAt S (St.initial fs) evs m = .reply (.openOk cid binding (some token)))
    (hev : evs[m]? = some (.request env₀ peer₀ body₀))
    (hreq : rabParseRequest S.codec body₀ = .ok req₀) :
    ∃ r, Bound S (run S (St.initial fs) evs).journal cid token env₀ peer₀ req₀
      (ttlAt S (St.initial fs) evs m) r := by
  obtain ⟨e, he, body, r, hseq, hev', hact, hstate, hver, -, k, hk⟩ :=
    issued_of_openOk hsink hunlinks hids hout
  have htraced := traced_run hsink hunlinks hids
  obtain ⟨henv, hpeer, hbody⟩ := Event.request.inj (Option.some.inj (hev'.symm.trans hev))
  -- The line is that of the request at `m`.
  obtain ⟨body', hcaused, hreq', hlives⟩ := htraced.caused e he
  rw [hseq, hev] at hcaused
  obtain ⟨-, -, rfl⟩ := Event.request.inj (Option.some.inj hcaused)
  have hreq₀ : e.req = req₀ := Except.ok.inj (hreq'.symm.trans hreq)
  obtain ⟨K, -, hJ, hK, hg⟩ := htraced.inv.guarded.exists_of_mem he
  have hissue : IssueGuard S K e cid r := by
    rcases hg.receipt hact with hissue | hredeem
    · exact hissue
    · obtain ⟨_, _, _, _, _, hr⟩ := hredeem.opened
      rw [hr] at hstate
      cases hstate
  obtain ⟨J₀, e₀, oi, hK₀, hact₀, -, -, hpeer₀, hreq₁, -, huid, hverb, hres⟩ := hissue.opened
  rw [hK₀] at hK
  have hopen := hK.of_snoc.2.intent hact₀
  have hfits := hopen.effect_fits (by rw [hreq₁]; exact hissue.effect)
  have hoi := hopen.oi_eq
  rw [hreq₁, hreq₀] at hfits
  rw [hreq₁, hreq₀, hpeer₀, hpeer] at hoi
  refine ⟨r, ⟨e, he, hact, hissue.line_eq⟩, hver, isHexLcN_of_rabMakeReceipt hk, ?_, ?_, ?_,
    hreq₀ ▸ hissue.planSchema, hreq₀ ▸ hissue.planHash, henv ▸ hissue.boot, ?_⟩
  · rw [huid, hoi]
  · rw [hverb, hoi, recStr_bytes hfits.1]
  · rw [hres, hoi, recStr_bytes hfits.2]
  · rw [hlives cid r hact hstate, toNat_ttl, hseq, ttlAt]

/-- A receipt that an effect open returned stays redeemable: while no line closes the intent or
redeems the receipt, the superuser's request with the token and the values of the open is accepted
and answered with the correlation id of the open. -/
theorem receipt_redeemable (S : Site) (hsink : EmptySink S fs) (hunlinks : UnlinksRun evs)
    (hids : FreshIds S evs)
    (hout : outAt S (St.initial fs) evs m = .reply (.openOk cid binding (some token)))
    (hev : evs[m]? = some (.request env₀ peer₀ body₀))
    (hreq : rabParseRequest S.codec body₀ = .ok req₀)
    (hs : s = run S (St.initial fs) evs) (halive : s.alive = true) (hp : s.poisoned = false)
    (hkept : ∀ e ∈ s.journal,
      ¬IsAudit S "outcome" cid e.line ∧ ¬IsTransition S .redeemed cid e.line)
    (hroot : peer.uid = 0)
    (hbody : Presents S.codec body token.bytes peer₀.uid (domainStr req₀.record "operation")
      (domainStr req₀.record "resource") req₀.effectPlanSchema req₀.effectPlanHash.bytes)
    (hdigest : E.digestOk 0 = true ∧ E.digestOk 1 = true) (hboot : E.bootid = env₀.bootid)
    {t t₀ : UInt64} (ht : E.boottime = some t) (ht₀ : env₀.boottime = some t₀)
    (helapsed : t₀.toNat ≤ t.toNat ∧ t.toNat - t₀.toNat ≤ ttlAt S (St.initial fs) evs m)
    (hroom : HasRoom S E s cid peer₀.uid (E.clock 0))
    (hhealthy : (connHandle S E peer body s.begin_).2.poisoned = false) :
    (∃ req, rabParseRequest S.codec body = .ok req ∧ req.type = .redeem) ∧
      (connHandle S E peer body s.begin_).1 = .redeemOk cid := by
  obtain ⟨r, hbound⟩ := bound_of_openOk hsink hunlinks hids hout hev hreq
  obtain ⟨e, he, hact, hline⟩ := hbound.issued
  rw [← hs] at he
  have htraced := traced_run hsink hunlinks hids
  rw [← hs] at htraced
  have hJ := htraced.inv.guarded
  have hlive := htraced.inv.live halive
  -- The receipt is still there, and issued.
  have hissued : ∀ e' ∈ s.journal, ∀ r', e'.act = .receipt cid r' → r'.state = .issued := by
    intro e' he' r' hact'
    obtain ⟨K, -, -, hK, hg⟩ := hJ.exists_of_mem he'
    cases hstate : r'.state with
    | issued => rfl
    | redeemed =>
      exact absurd ((isTransition_iff hK hg).mpr ⟨r', hact', hstate⟩) (hkept e' he').2
  have hclosed : ∀ e' ∈ s.journal, e'.act ≠ .outcome cid := by
    intro e' he' hact'
    obtain ⟨K, -, -, hK, hg⟩ := hJ.exists_of_mem he'
    exact (hkept e' he').1 ((isOutcome_iff hK hg).mpr hact')
  obtain ⟨oi, hoi, hr⟩ := ledger_of_issued hJ he hact hclosed hissued
  have hview := hlive.view_eq hp
  -- The request is accepted.
  have hhash := isHexLcN_planHash hline
  rw [hbound.planHash] at hhash
  rw [← hbound.planSchema.2, hbound.planSchema.1, ← hbound.verb, ← hbound.resource] at hbody
  have hreq' := hbody.accepted hbound.token_hex ⟨r.verb.length_lt, r.verb.nul_free⟩
    ⟨r.resource.length_lt, r.resource.nul_free⟩ hhash
  refine ⟨⟨_, hreq', rfl⟩, ?_⟩
  -- The request is entitled to the receipt.
  obtain rfl : t₀ = r.issueBoottimeUs := Option.some.inj (ht₀.symm.trans hbound.boot.1)
  have hle : r.issueBoottimeUs ≤ t := UInt64.le_iff_toNat_le.mpr helapsed.1
  have hentitled : Entitled S ⟨E, peer, redeemRequest token.bytes peer₀.uid r.verb.bytes
      r.resource.bytes req₀.effectPlanHash.bytes⟩ r := by
    refine ⟨hroot, hdigest, ?_, hbound.actorUid.symm, ⟨hbound.planSchema.1.symm, ?_, ?_, ?_⟩,
      hissued e he r hact, t, ht, hboot.trans hbound.boot.2, hle, ?_⟩
    · simp [redeemRequest, hbound.verifier]
    · simp [redeemRequest]
    · simp [redeemRequest]
    · simp [redeemRequest, hbound.planHash]
    · rw [UInt64.le_iff_toNat_le, UInt64.toNat_sub_of_le _ _ hle, hbound.ttl]
      exact helapsed.2
  have hroom' : HasRoom S E s.begin_ cid r.actorUid (E.clock s.begin_.ticks) := by
    rw [hbound.actorUid]
    exact ⟨hroom.free, hroom.rate, hroom.bytes⟩
  unfold connHandle at hhealthy ⊢
  rw [hreq'] at hhealthy ⊢
  simp only [rabBrokerHandle] at hhealthy ⊢
  have hp' : ¬s.begin_.poisoned = true := by simp [St.begin_, hp]
  rw [if_neg hp'] at hhealthy ⊢
  refine handleRedeem_ok hentitled (by simpa using hp') hlive.tables.opens
    (by rw [← hoi, ← hview]; rfl) hr ?_ hline hroom' hhealthy
  intro cid' oi' r' hoi' hr' hver
  have hoi'' : ledger s.journal cid' = some oi' := by
    rw [← hview]
    exact hoi'
  exact verifier_inj hJ hoi'' hr' hoi hr hver

end Runs

/-- An effect open, a record of another peer, and a restart. -/
def Sample.keptRun : List Event :=
  openRun ++ [.request (env 3000000 2) (actor 1001) (emitBody (lit "probe")),
    .start (env 4000000 0) config false]

/-- The redemption that follows. -/
def Sample.redemption : Response × St :=
  connHandle site (env 5000000 3) (actor 0) (redeemBody 1 1000 (lit "install"))
    (run site (St.initial Sample.fs) keptRun).begin_

theorem Sample.freshIds_keptRun : FreshIds site keptRun := by decide +kernel

theorem Sample.unlinksRun_keptRun : UnlinksRun keptRun := by
  refine unlinksRun ?_
  simp only [keptRun, openRun, List.cons_append, List.nil_append, List.forall_mem_cons]
  exact ⟨⟨_, _, rfl⟩, ⟨_, _, rfl⟩, ⟨_, _, rfl⟩, ⟨_, _, rfl⟩, by simp⟩

theorem Sample.presents_redeemBody :
    Presents site.codec (redeemBody 1 1000 (lit "install")) (receipt 1).bytes (actor 1000).uid
      (lit "install") [] planSchemaV1 planHash := by
  have htoken : (receipt 1).bytes = token 1 := by decide
  rw [htoken]
  exact ⟨_, _, jsonText.loadb_dumps _ (by decide +kernel) (by decide +kernel), .refl _, .refl _⟩

/-- The receipt of the sample open is redeemable after the record and the restart. -/
theorem receipt_redeemable_keptRun : Sample.redemption.1 = .redeemOk (Sample.cid 2000000 1) := by
  have hout : outAt Sample.site (St.initial Sample.fs) Sample.keptRun 1 =
      .reply (.openOk (Sample.cid 2000000 1) (Sample.binding 1) (some (Sample.receipt 1))) := by
    decide +kernel
  have hparse : ((rabParseRequest Sample.site.codec
      (Sample.effectBody (lit "install"))).toOption.any fun req =>
        decide (domainStr req.record "operation" = lit "install" ∧
          domainStr req.record "resource" = [] ∧ req.effectPlanSchema = planSchemaV1 ∧
          req.effectPlanHash.bytes = Sample.planHash)) = true := by
    decide +kernel
  -- What the theorem asks of the state, evaluated once.
  obtain ⟨halive, hpois, hkept, hfree, hrate, hbytes, helapsed, hhealthy⟩ :
      (run Sample.site (St.initial Sample.fs) Sample.keptRun).alive = true ∧
      (run Sample.site (St.initial Sample.fs) Sample.keptRun).poisoned = false ∧
      (∀ e ∈ (run Sample.site (St.initial Sample.fs) Sample.keptRun).journal,
        ¬IsAudit Sample.site "outcome" (Sample.cid 2000000 1) e.line ∧
          lineStr Sample.site e.line "state" ≠ some (lit RcptState.redeemed.text)) ∧
      enoughFreeSpace (run Sample.site (St.initial Sample.fs) Sample.keptRun).cfg
        ((Sample.env 5000000 3).free 0) = true ∧
      ((run Sample.site (St.initial Sample.fs) Sample.keptRun).rateAllowed 1000 5000000).1 = true ∧
      ((redemptionSize Sample.site (run Sample.site (St.initial Sample.fs) Sample.keptRun)
          (Sample.cid 2000000 1) 5000000).all fun n =>
        (((run Sample.site (St.initial Sample.fs) Sample.keptRun).rateAllowed
          1000 5000000).2.bytesAllowed 1000 5000000 n).1) = true ∧
      ((2000000 : UInt64).toNat ≤ (5000000 : UInt64).toNat ∧
        (5000000 : UInt64).toNat - (2000000 : UInt64).toNat ≤
          ttlAt Sample.site (St.initial Sample.fs) Sample.keptRun 1) ∧
      Sample.redemption.2.poisoned = false := by
    decide +kernel
  have hbytes' : ∀ n ∈ redemptionSize Sample.site
      (run Sample.site (St.initial Sample.fs) Sample.keptRun) (Sample.cid 2000000 1) 5000000,
      (((run Sample.site (St.initial Sample.fs) Sample.keptRun).rateAllowed
        1000 5000000).2.bytesAllowed 1000 5000000 n).1 = true := by
    exact fun n hn => Option.all_eq_true _ _ |>.mp hbytes n (Option.mem_def.mp hn)
  cases hreq : rabParseRequest Sample.site.codec (Sample.effectBody (lit "install")) with
  | error ec =>
    rw [hreq] at hparse
    cases hparse
  | ok req =>
    rw [hreq] at hparse
    obtain ⟨hop, hres, hschema, hhash⟩ := of_decide_eq_true hparse
    rw [Sample.redemption] at hhealthy ⊢
    refine (receipt_redeemable Sample.site Sample.emptySink Sample.unlinksRun_keptRun
      Sample.freshIds_keptRun hout rfl hreq rfl
      halive hpois (fun e he => ⟨(hkept e he).1, fun h => (hkept e he).2 h.state⟩) rfl ?_ ⟨rfl, rfl⟩
      rfl (E := Sample.env 5000000 3) rfl rfl helapsed ⟨hfree, hrate, hbytes'⟩ hhealthy).2
    rw [hop, hres, hschema, hhash]
    exact Sample.presents_redeemBody

/-- Where another open mints the correlation id of the intent, its receipt is not redeemable any more: the
open returned the receipt, nothing closes the intent or redeems the receipt, there is room for the
line and no call fails, and yet the token is answered like one that was never issued. -/
theorem receipt_unredeemable_collidingRun :
    let s := run Sample.site (St.initial Sample.fs) Sample.collidingRun
    outAt Sample.site (St.initial Sample.fs) Sample.collidingRun 1 =
        .reply (.openOk (Sample.cid 2000000 1) (Sample.binding 1) (some (Sample.receipt 1))) ∧
      s.alive = true ∧ s.poisoned = false ∧
      (∀ e ∈ s.journal, ¬IsAudit Sample.site "outcome" (Sample.cid 2000000 1) e.line ∧
        ¬IsTransition Sample.site .redeemed (Sample.cid 2000000 1) e.line) ∧
      HasRoom Sample.site (Sample.env 3000000 3) s (Sample.cid 2000000 1) 1000 3000000 ∧
      (connHandle Sample.site (Sample.env 3000000 3) (Sample.actor 0)
        (Sample.redeemBody 1 1000 (lit "install")) s.begin_).1 =
          .error .receiptInvalid "no such effect receipt" := by
  intro s
  obtain ⟨hout, halive, hpois, hkept, hfree, hrate, hsize, hreply⟩ :
      outAt Sample.site (St.initial Sample.fs) Sample.collidingRun 1 =
        .reply (.openOk (Sample.cid 2000000 1) (Sample.binding 1) (some (Sample.receipt 1))) ∧
      s.alive = true ∧ s.poisoned = false ∧
      (∀ e ∈ s.journal, ¬IsAudit Sample.site "outcome" (Sample.cid 2000000 1) e.line ∧
        lineStr Sample.site e.line "state" ≠ some (lit RcptState.redeemed.text)) ∧
      enoughFreeSpace s.cfg ((Sample.env 3000000 3).free 0) = true ∧
      (s.rateAllowed 1000 3000000).1 = true ∧
      redemptionSize Sample.site s (Sample.cid 2000000 1) 3000000 = none ∧
      (connHandle Sample.site (Sample.env 3000000 3) (Sample.actor 0)
        (Sample.redeemBody 1 1000 (lit "install")) s.begin_).1 =
          .error .receiptInvalid "no such effect receipt" := by
    decide +kernel
  refine ⟨hout, halive, hpois, fun e he => ⟨(hkept e he).1, fun h => (hkept e he).2 h.state⟩,
    ⟨hfree, hrate, ?_⟩, hreply⟩
  simp [hsize]

end AuditBroker
