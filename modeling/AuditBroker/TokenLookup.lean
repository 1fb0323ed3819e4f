import AuditBroker.Census
import AuditBroker.Redeemable

/-!
# Redemption by token

`handle_redeem` is given a token only.  It looks the receipt up by the hexadecimal digest of the
token, through a hash index over the open intents, and calls `rab_broker_redeem_receipt` with the
correlation id of what it found; that looks the intent up again by this id, decodes the stored digest
and compares raw bytes.  While no correlation id is open twice, the two lookups agree: the primitive
never misses the intent nor its token.
-/

namespace AuditBroker

open Foundation

variable {S : Site} {C : Ctx} {s s' : St} {a : ℕ}

/-- The open intent at an address carries the receipt of a token: the stored verifier is the
lowercase hexadecimal SHA-256 of the token. -/
def OpenSet.Carries (S : Site) (o : OpenSet) (token : Bytes) (a : ℕ) : Prop :=
  o.Open a ∧ ∃ r, (o.heap a).receipt = some r ∧
    r.verifier.bytes = toHex (S.sha256 token).toList

instance (S : Site) (o : OpenSet) (token : Bytes) (a : ℕ) : Decidable (o.Carries S token a) :=
  decidable_of_iff (a ∈ o.bktCid (bucket o.nbkt (o.heap a).cid.bytes) ∧
      ((o.heap a).receipt.any fun r => decide (r.verifier.bytes = toHex (S.sha256 token).toList)) =
        true) (by
    simp only [OpenSet.Carries, OpenSet.Open, Option.any_eq_true_iff_get, Option.isSome_iff_exists,
      decide_eq_true_eq]
    constructor
    · rintro ⟨ha, h⟩
      cases hr : (o.heap a).receipt with
      | none => simp [hr] at h
      | some r => exact ⟨ha, r, rfl, by simpa [hr] using h⟩
    · rintro ⟨ha, r, hr, hv⟩
      exact ⟨ha, by simp [hr, hv]⟩)

theorem toHex_sha256_ne_nil (S : Site) (token : Bytes) : toHex (S.sha256 token).toList ≠ [] := by
  intro h
  have hlen := congrArg List.length h
  simp at hlen

/-- The index finds an intent that carries the receipt, if there is one. -/
theorem OpenSet.Wf.openFindVerifier_none_iff {o : OpenSet} (h : o.Wf) (token : Bytes) :
    o.openFindVerifier (verifierOf S token).bytes = none ↔ ∀ a, ¬o.Carries S token a := by
  rw [verifierOf_bytes, h.openFindVerifier_eq_none_iff (toHex_sha256_ne_nil S token)]
  constructor
  · rintro hnone a ⟨ha, r, hr, hv⟩
    exact hnone _ _ r (h.view_of_open ha) hr hv
  · intro hnone cid oi r hoi hr hv
    obtain ⟨a, ha, -, rfl⟩ := h.view_eq_some_iff.mp hoi
    exact hnone a ⟨ha, r, hr, hv⟩

theorem OpenSet.Wf.carries_of_openFindVerifier {o : OpenSet} (h : o.Wf) {token : Bytes}
    (hf : o.openFindVerifier (verifierOf S token).bytes = some a) : o.Carries S token a := by
  obtain ⟨ha, r, hr, hv⟩ := h.of_openFindVerifier hf
  exact ⟨ha, r, hr, by rw [hv, verifierOf_bytes]⟩

/-- At most one open intent carries the receipt of a token. -/
theorem Tables.Coherent.carries_unique {t : Tables} (h : t.Coherent) {token : Bytes} {b : ℕ}
    (ha : t.opens.Carries S token a) (hb : t.opens.Carries S token b) : b = a := by
  obtain ⟨hopen, r, hr, hv⟩ := ha
  obtain ⟨hopen', r', hr', hv'⟩ := hb
  exact h.verifiers b a r' r hopen' hopen hr' hr (Buf.ext (hv'.trans hv.symm))

/-- A commit that is over a quota keeps the open set. -/
theorem opens_of_overQuota (hok : s.uids.Ok s.cfg) {line : Bytes} {act : Act}
    {install : Tables → Tables}
    (h : commit S C line act s.lastClock install s = (.overQuota, s')) : s'.opens = s.opens := by
  obtain ⟨t, -, hcases⟩ := commit_cases (S := S) (C := C) hok line act install
  rcases hcases with hover | ⟨-, ⟨s₂, -, hfailed⟩ | ⟨s₂, -, hdone⟩⟩
  · rw [hover] at h
    cases h
    rfl
  · rw [hfailed] at h
    cases h
  · rw [hdone] at h
    split at h <;> cases h

/-- The results that the primitive may have on an intent that carries the receipt: it is never
missed, and a refusal leaves the open set as it was. -/
theorem rabBrokerRedeemReceipt_of_carries (hok : s.toTables.Ok) (hp : s.poisoned = false)
    (hroot : C.peer.uid = 0) (hdigest : C.env.digestOk 1 = true)
    (h : s.opens.Carries S C.req.effectReceipt.bytes a) {res : RedeemResult}
    (heq : rabBrokerRedeemReceipt S C (s.opens.heap a).cid s = (res, s')) :
    (res ≠ .unknown ∧ res ≠ .token ∧ res ≠ .notRedeemer) ∧
      (res ≠ .ok → res ≠ .persist → s'.opens = s.opens) := by
  obtain ⟨ha, r, hr, hv⟩ := h
  have hfind : s.opens.openFindCid (s.opens.heap a).cid.bytes = some a :=
    hok.opens.openFindCid_eq_some_iff.mpr ⟨ha, rfl⟩
  have hmatch : verifierMatches S C.env C.req.effectReceipt.bytes r.verifier.bytes = true :=
    verifierMatches_of_eq hdigest (Buf.ext (by rw [hv, verifierOf_bytes]))
  unfold rabBrokerRedeemReceipt at heq
  simp only [hp, Bool.false_eq_true, if_false, hroot, ne_eq, not_true_eq_false, hfind, hr, hmatch,
    Bool.true_eq_false] at heq
  split at heq
  · cases heq
    simp
  split at heq
  · cases heq
    simp
  split at heq
  · cases heq
    simp
  split at heq
  · split at heq
    · cases heq
      simp
    split at heq
    · cases heq
      simp
    split at heq
    · cases heq
      simp
    split at heq
    · rename_i s₁ hrate
      obtain ⟨t, rfl, -⟩ := rateAllowed_eq (s := (s.readClock C.env).2) hok.uids hrate
      cases heq
      exact ⟨by simp, fun _ _ => rfl⟩
    rename_i s₁ hrate
    obtain ⟨t, rfl, hev, -⟩ := rateAllowed_eq (s := (s.readClock C.env).2) hok.uids hrate
    split at heq
    · rename_i s₂ hcommit
      cases heq
      refine ⟨by simp, fun _ _ => ?_⟩
      exact opens_of_overQuota (s := { (s.readClock C.env).2 with uids := t }) hev.ok hcommit
    · cases heq
      simp
    · cases heq
      simp
  · cases heq
    simp

theorem RedeemResult.reply_ne_receiptInvalid {res : RedeemResult} {cid : Buf cidMax}
    (hunknown : res ≠ .unknown) (htoken : res ≠ .token) (m : String) :
    res.reply cid ≠ .error .receiptInvalid m := by
  cases res <;> simp_all [RedeemResult.reply]

/-- In every reachable state that is not poisoned, over any sink that a start accepted, as long as no
minted correlation id was used before: a `redeem_receipt` request of uid 0 is answered
`receipt_invalid` exactly when no open intent carries the receipt of its token.  Otherwise exactly
one does, the primitive called with its correlation id neither misses it nor refuses the token or the
redeemer, the reply is the image of its result and names that intent, and a result other than success
or a durability fault changes no receipt. -/
theorem wire_redemption_agrees {fs : Fs} {evs : List Event}
    (hs : s = (run S (St.initial fs) evs).begin_) (hfresh : FreshRun S (St.initial fs) evs)
    (halive : s.alive = true) (hp : s.poisoned = false) (htype : C.req.type = .redeem)
    (hroot : C.peer.uid = 0) (hdigest : ∀ n, C.env.digestOk n = true) :
    ((∃ m, (rabBrokerHandle S C s).1 = .error .receiptInvalid m) ↔
      ∀ a, ¬s.opens.Carries S C.req.effectReceipt.bytes a) ∧
    ∀ a, s.opens.Carries S C.req.effectReceipt.bytes a →
      (∀ b, s.opens.Carries S C.req.effectReceipt.bytes b → b = a) ∧
      ∃ res s', rabBrokerRedeemReceipt S C (s.opens.heap a).cid s = (res, s') ∧
        res ≠ .unknown ∧ res ≠ .token ∧ res ≠ .notRedeemer ∧
        rabBrokerHandle S C s = (res.reply (s.opens.heap a).cid, s') ∧
        (res ≠ .ok → res ≠ .persist → s'.opens = s.opens) := by
  have hc : s.toTables.Coherent := by
    subst hs
    exact coherent_run hfresh halive
  have hhandle : rabBrokerHandle S C s = handleRedeem S C s := by
    simp only [rabBrokerHandle, hp, Bool.false_eq_true, if_false, htype]
  have hfound : ∀ a, s.opens.Carries S C.req.effectReceipt.bytes a →
      s.opens.openFindVerifier (verifierOf S C.req.effectReceipt.bytes).bytes = some a := by
    intro a ha
    cases hf : s.opens.openFindVerifier (verifierOf S C.req.effectReceipt.bytes).bytes with
    | none => exact absurd ha ((hc.opens.openFindVerifier_none_iff _).mp hf a)
    | some b => rw [hc.carries_unique ha (hc.opens.carries_of_openFindVerifier hf)]
  have hcarried : ∀ a, s.opens.Carries S C.req.effectReceipt.bytes a →
      ∃ res s', rabBrokerRedeemReceipt S C (s.opens.heap a).cid s = (res, s') ∧
        res ≠ .unknown ∧ res ≠ .token ∧ res ≠ .notRedeemer ∧
        rabBrokerHandle S C s = (res.reply (s.opens.heap a).cid, s') ∧
        (res ≠ .ok → res ≠ .persist → s'.opens = s.opens) := by
    intro a ha
    cases hres : rabBrokerRedeemReceipt S C (s.opens.heap a).cid s with
    | mk res s' =>
      obtain ⟨⟨h₁, h₂, h₃⟩, hkept⟩ :=
        rabBrokerRedeemReceipt_of_carries hc.toOk hp hroot (hdigest 1) ha hres
      refine ⟨res, s', rfl, h₁, h₂, h₃, ?_, hkept⟩
      rw [hhandle]
      simp only [handleRedeem, hroot, ne_eq, not_true_eq_false, if_false, hdigest,
        Bool.true_eq_false, hfound a ha, hres]
  refine ⟨⟨?_, fun hnone => ?_⟩, fun a ha => ⟨fun b hb => hc.carries_unique ha hb, hcarried a ha⟩⟩
  · rintro ⟨m, hm⟩ a ha
    obtain ⟨res, s', -, h₁, h₂, -, hreply, -⟩ := hcarried a ha
    rw [hreply] at hm
    exact RedeemResult.reply_ne_receiptInvalid h₁ h₂ m hm
  · have hf := (hc.opens.openFindVerifier_none_iff (S := S) _).mpr hnone
    rw [hhandle]
    simp only [handleRedeem, hroot, ne_eq, not_true_eq_false, if_false, hdigest,
      Bool.true_eq_false, hf]
    exact ⟨_, rfl⟩

/-- The token of the sample open, presented by the root helper. -/
def Sample.presented (req : Request) : Ctx where
  env := env 3000000 3
  peer := actor 0
  req := req

/-- The sample open is redeemed through the wire. -/
theorem wire_redemption_agrees_openRun :
    ∃ req, rabParseRequest Sample.site.codec (Sample.redeemBody 1 1000 (lit "install")) = .ok req ∧
      ∃ res : RedeemResult, ∃ s', rabBrokerHandle Sample.site (Sample.presented req)
        (run Sample.site (St.initial Sample.fs) Sample.openRun).begin_ =
          (res.reply (Sample.cid 2000000 1), s') ∧
        res ≠ .unknown ∧ res ≠ .token ∧ res ≠ .notRedeemer := by
  obtain ⟨halive, hpois, hcid⟩ :
      (run Sample.site (St.initial Sample.fs) Sample.openRun).begin_.alive = true ∧
      (run Sample.site (St.initial Sample.fs) Sample.openRun).begin_.poisoned = false ∧
      ((run Sample.site (St.initial Sample.fs) Sample.openRun).begin_.opens.heap 0).cid =
        Sample.cid 2000000 1 := by
    decide +kernel
  have hparse : ((rabParseRequest Sample.site.codec
      (Sample.redeemBody 1 1000 (lit "install"))).toOption.any fun req =>
        decide (req.type = .redeem ∧
          (run Sample.site (St.initial Sample.fs) Sample.openRun).begin_.opens.Carries Sample.site
            req.effectReceipt.bytes 0)) = true := by
    decide +kernel
  cases hreq : rabParseRequest Sample.site.codec (Sample.redeemBody 1 1000 (lit "install")) with
  | error ec =>
    rw [hreq] at hparse
    cases hparse
  | ok req =>
    rw [hreq] at hparse
    obtain ⟨htype, hcarries⟩ := of_decide_eq_true hparse
    obtain ⟨-, res, s', -, h₁, h₂, h₃, hreply, -⟩ :=
      (wire_redemption_agrees (C := Sample.presented req) rfl
        (Sample.freshIds_openRun.freshRun Sample.unlinksRun_openRun Sample.emptySink) halive hpois
        htype rfl (fun _ => rfl)).2 0 hcarries
    refine ⟨req, rfl, res, s', ?_, h₁, h₂, h₃⟩
    rw [← hcid]
    exact hreply

/-- With a correlation id that is open twice, the redemption misses the receipt: the token finds the
older intent, and its correlation id the newer one, which has no receipt. -/
theorem wire_redemption_misses :
    let s := (run Sample.site (St.initial Sample.fs) Sample.collidingRun).begin_
    s.alive = true ∧ s.poisoned = false ∧
      s.opens.Carries Sample.site (Sample.token 1) 0 ∧
      (connHandle Sample.site (Sample.env 3000000 3) (Sample.actor 0)
        (Sample.redeemBody 1 1000 (lit "install")) s).1 =
          .error .receiptInvalid "no such effect receipt" := by
  decide +kernel

end AuditBroker
