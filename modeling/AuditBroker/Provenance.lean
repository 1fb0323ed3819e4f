import AuditBroker.Alike

/-!
# Where open intents come from

In a run of requests without faults every open intent was open when the run began, or one of its
requests opened it, under the correlation id, with the binding and the token that this request minted,
and for the peer that sent it.
-/

namespace AuditBroker

open Foundation

variable {S : Site} {C D : Ctx} {L : Ledger} {Cs Cs' : List Ctx} {cid : Buf cidMax} {oi : OpenIntent}
  {s s' s₁ : St} {l : List Entry}

/-! ## Requests without faults -/

/-- Without faults no step poisons the broker. -/
theorem Step.healthy (h : Step S C s s') (hE : C.env.Faultless) (hok : s.uids.Ok s.cfg)
    (hp : s.poisoned = false) : s'.poisoned = false := by
  cases h with
  | clock => exact hp
  | check => exact hp
  | @commit line act install healthy allowed clocked rate =>
    have hinstall : ∀ t : Tables, t.uids.Ok t.cfg → (install t).uids.Ok (install t).cfg := by
      intro t ht
      obtain ⟨hcfg, huids⟩ := allowed.install_uids ht
      rwa [hcfg]
    obtain ⟨hover, hfits⟩ := commit_of_faultless (S := S) hE hok hp allowed.isLine.newline_notMem
      hinstall rfl rfl rfl
    by_cases hquota : ((s.uids.uidBytesAllowed s.cfg (C.entry s line act).chargedUid s.lastClock
        (C.entry s line act).size).1 &&
        globalBytesAllowed s.cfg s.gwin s.lastClock (C.entry s line act).size) = true
    · obtain ⟨w, hcommit, hpois⟩ := hfits hquota
      rw [hcommit]
      exact hpois
    · rw [hover (Bool.eq_false_of_not_eq_true hquota)]
      exact hp

theorem Steps.healthy (h : Steps S C s s') (hE : C.env.Faultless) (hok : s.uids.Ok s.cfg)
    (hp : s.poisoned = false) : s'.poisoned = false := by
  have hboth : s'.uids.Ok s'.cfg ∧ s'.poisoned = false := by
    induction h with
    | refl => exact ⟨hok, hp⟩
    | tail _ hstep ih => exact ⟨(hstep.grows ih.1).2, hstep.healthy hE ih.1 ih.2⟩
  exact hboth.2

/-- A state within a request, after some lines. -/
theorem Durably.ok (h : Durably S C s l s₁) (hs : s.opens.Wf) (hu : Unopened C s) :
    (s₁.uids.Ok s₁.cfg → s₁.toTables.Ok) ∧ Unopened C s₁ := by
  induction h with
  | @idle s' hidle =>
    have hseq : s'.seq = s.seq := by rw [hidle.rest]
    refine ⟨fun huids => ⟨?_, huids⟩,
      hu.congr (hidle.journal_eq ▸ List.prefix_rfl) hseq hidle.opens_eq⟩
    rw [hidle.opens_eq]
    exact hs
  | @line l s₁ s' w line act install _ ok allowed _ _ after ih =>
    obtain ⟨hok, hu₁⟩ := ih
    have hrot := allowed.rotates_committed ok w
    have hopens : s'.opens = (install s₁.toTables).opens := after.opens_eq.trans hrot.opens_eq
    have hjournal : s'.journal = s₁.journal ++ [C.entry s₁ line act] :=
      after.journal_eq.trans hrot.journal_eq
    have hseq : s'.seq = s₁.seq := by
      rw [after.rest]
      exact hrot.seq_eq
    refine ⟨fun huids => ⟨?_, huids⟩, unopened_of_line hjournal hseq.symm⟩
    rw [hopens]
    exact (allowed.install_of_new (hok ok) (hu₁.new allowed)).1.opens

/-- What the lines of a request leave alone, and the clock after them. -/
theorem Durably.rest (h : Durably S C s l s₁) :
    s₁.alive = s.alive ∧ s₁.cfg = s.cfg ∧
      (s₁.lastClock = s.lastClock ∨ ∃ k, s₁.lastClock = C.env.clock k) := by
  have hread : ∀ {s s' : St}, Reading C.env s s' s'.lastClock →
      s'.lastClock = s.lastClock ∨ ∃ k, s'.lastClock = C.env.clock k := by
    rintro s s' (hlast | ⟨k, -, -, hk⟩)
    · exact .inl hlast
    · exact .inr ⟨k, hk⟩
  induction h with
  | idle hidle =>
    refine ⟨?_, hidle.cfg_eq, hread hidle.clock⟩
    rw [hidle.rest]
  | @line l s₁ s' w line act install _ ok allowed _ _ after ih =>
    obtain ⟨halive, hcfg, hclock⟩ := ih
    have hrot := allowed.rotates_committed ok w
    have hcfg₁ : (s₁.charged C w line act install).cfg = s₁.cfg :=
      (allowed.install_uids (t := s₁.toTables) ok).1
    refine ⟨?_, (after.cfg_eq.trans hrot.cfg_eq).trans (hcfg₁.trans hcfg), ?_⟩
    · rw [after.rest, hrot.rest]
      exact halive
    · rcases hread after.clock with hlast | hlast
      · rw [hlast]
        rcases hread hrot.reading with hlast | hlast
        · rw [hlast]
          exact hclock
        · exact .inr hlast
      · exact .inr hlast

/-! ## What requests mint -/

/-- Two requests mint different correlation ids, bindings and tokens.  Tokens count as different if
their verifiers are, since the broker knows a token by its verifier only. -/
structure Ctx.Apart (S : Site) (C D : Ctx) : Prop where
  cids : ∀ cid, rabMakeCorrelationId C.env = some cid → rabMakeCorrelationId D.env ≠ some cid
  bindings : ∀ b, rabMakeBinding C.env = some b → rabMakeBinding D.env ≠ some b
  tokens : ∀ j k t u, rabMakeReceipt C.env j = some t → rabMakeReceipt D.env k = some u →
    (verifierOf S t.bytes).bytes ≠ (verifierOf S u.bytes).bytes

theorem Ctx.Apart.symm (h : C.Apart S D) : D.Apart S C where
  cids cid hD hC := h.cids cid hC hD
  bindings b hD hC := h.bindings b hC hD
  tokens j k t u hD hC := (h.tokens k j u t hC hD).symm

instance : Std.Symm (Ctx.Apart S) := ⟨fun _ _ => Ctx.Apart.symm⟩

/-- What the request mints does not occur among these open intents. -/
structure Ctx.New (S : Site) (L : Ledger) (C : Ctx) : Prop where
  cid : ∀ cid, rabMakeCorrelationId C.env = some cid → L cid = none
  binding : ∀ b, rabMakeBinding C.env = some b → ∀ cid oi, L cid = some oi → oi.binding ≠ b
  tokens : ∀ k t, rabMakeReceipt C.env k = some t → VerifierFree S L t.bytes

/-- What the requests mint is pairwise different and new for these open intents, whose bindings are
pairwise different too. -/
structure Minting (S : Site) (L : Ledger) (Cs : List Ctx) : Prop where
  apart : Cs.Pairwise (Ctx.Apart S)
  new : ∀ C ∈ Cs, C.New S L
  old : ∀ cid cid' oi oi', L cid = some oi → L cid' = some oi' → oi.binding = oi'.binding → cid = cid'

theorem Minting.sublist (h : Minting S L Cs) (hsub : Cs'.Sublist Cs) : Minting S L Cs' :=
  ⟨h.apart.sublist hsub, fun C hC => h.new C (hsub.subset hC), h.old⟩

/-- Requests that mint something in common are the same. -/
theorem Minting.eq_of_not_apart (h : Minting S L Cs) (hC : C ∈ Cs) (hD : D ∈ Cs)
    (hCD : ¬C.Apart S D) : C = D := by
  by_contra hne
  exact hCD (h.apart.forall hC hD hne)

/-! ## Origins -/

/-- Where an open intent comes from: it was open at the beginning, or one of the requests opened
it. -/
inductive Provenance (S : Site) (L : Ledger) (Cs : List Ctx) (cid : Buf cidMax) (oi : OpenIntent) : Prop
  | old {oi₀ : OpenIntent} (view : L cid = some oi₀) (binding : oi.binding = oi₀.binding)
      (actor : oi.actor = oi₀.actor)
      (receipt : ∀ r, oi.receipt = some r → ∃ r₀, oi₀.receipt = some r₀ ∧ r.verifier = r₀.verifier)
  | opened {D : Ctx} (mem : D ∈ Cs) (cid_minted : rabMakeCorrelationId D.env = some cid)
      (binding_minted : rabMakeBinding D.env = some oi.binding) (actor : oi.actor = D.peer)
      (receipt : ∀ r, oi.receipt = some r →
        ∃ k token, rabMakeReceipt D.env k = some token ∧ r.verifier = verifierOf S token.bytes)

/-- An intent under a correlation id that a request minted is one that this request opened. -/
theorem Provenance.of_minted (h : Provenance S L Cs cid oi) (hm : Minting S L Cs) (hC : C ∈ Cs)
    (hcid : rabMakeCorrelationId C.env = some cid) :
    rabMakeBinding C.env = some oi.binding ∧ oi.actor = C.peer := by
  cases h with
  | old view => exact absurd ((hm.new C hC).cid cid hcid) (by simp [view])
  | @opened D mem cid_minted binding_minted actor receipt =>
    obtain rfl : C = D := hm.eq_of_not_apart hC mem fun hap => hap.cids cid hcid cid_minted
    exact ⟨binding_minted, actor⟩

/-- A redemption keeps the verifier. -/
theorem Provenance.of_verifier (h : Provenance S L Cs cid oi) {r r' : Receipt} (hr : oi.receipt = some r)
    (hv : r'.verifier = r.verifier) : Provenance S L Cs cid { oi with receipt := some r' } := by
  cases h with
  | old view binding actor receipt =>
    refine .old view binding actor fun r₁ hr₁ => ?_
    obtain rfl : r' = r₁ := Option.some.inj hr₁
    rw [hv]
    exact receipt r hr
  | opened mem cid_minted binding_minted actor receipt =>
    refine .opened mem cid_minted binding_minted actor fun r₁ hr₁ => ?_
    obtain rfl : r' = r₁ := Option.some.inj hr₁
    rw [hv]
    exact receipt r hr

/-- An open intent with its origin; its receipt is its opener's. -/
structure Known (S : Site) (L : Ledger) (Cs : List Ctx) (cid : Buf cidMax) (oi : OpenIntent) :
    Prop where
  origin : Provenance S L Cs cid oi
  bearer : ∀ r, oi.receipt = some r → r.actorUid = oi.actor.uid

theorem Known.mono (h : Known S L Cs cid oi) (hsub : Cs ⊆ Cs') : Known S L Cs' cid oi := by
  refine ⟨?_, h.bearer⟩
  rcases h.origin with ⟨view, binding, actor, receipt⟩ | ⟨mem, hcid, hbinding, actor, receipt⟩
  · exact .old view binding actor receipt
  · exact .opened (hsub mem) hcid hbinding actor receipt

/-- The open intents and the history of a broker, with their origins. -/
structure Origins (S : Site) (L : Ledger) (Cs : List Ctx) (s : St) : Prop where
  journal : ∀ e ∈ s.journal, ∀ cid oi, e.act = .intent cid oi →
    { env := e.env, peer := e.peer, req := e.req } ∈ Cs ∧ rabMakeCorrelationId e.env = some cid
  view : ∀ cid oi, s.opens.view cid = some oi → Known S L Cs cid oi

theorem Origins.mono (h : Origins S L Cs s) (hsub : Cs ⊆ Cs') : Origins S L Cs' s :=
  ⟨fun e he cid oi hact => ⟨hsub (h.journal e he cid oi hact).1, (h.journal e he cid oi hact).2⟩,
    fun cid oi hoi => (h.view cid oi hoi).mono hsub⟩

theorem Origins.congr (h : Origins S L Cs s) (hj : s'.journal = s.journal)
    (hopens : s'.opens = s.opens) : Origins S L Cs s' := by
  refine ⟨?_, ?_⟩
  · rw [hj]
    exact h.journal
  · rw [hopens]
    exact h.view

/-- What a request mints that is apart from all requests before it is new in the broker. -/
theorem Origins.fresh (h : Origins S L Cs s) (hnew : C.New S L) (hap : ∀ D ∈ Cs, D.Apart S C) :
    (∀ cid, rabMakeCorrelationId C.env = some cid → s.opens.view cid = none ∧
      ∀ e ∈ s.journal, ∀ oi, e.act ≠ .intent cid oi) ∧
    ∀ k token, rabMakeReceipt C.env k = some token → VerifierFree S s.opens.view token.bytes := by
  refine ⟨fun cid hcid => ⟨?_, fun e he oi hact => ?_⟩, fun k token htoken cid oi r hoi hr hv => ?_⟩
  · rw [Option.eq_none_iff_forall_ne_some]
    intro oi hoi
    rcases (h.view cid oi hoi).origin with ⟨view, -⟩ | ⟨mem, hD, -⟩
    · rw [hnew.cid cid hcid] at view
      cases view
    · exact (hap _ mem).cids cid hD hcid
  · obtain ⟨hmem, hD⟩ := h.journal e he cid oi hact
    exact (hap _ hmem).cids cid hD hcid
  · rcases (h.view cid oi hoi).origin with ⟨view, -, -, receipt⟩ | ⟨mem, -, -, -, receipt⟩
    · obtain ⟨r₀, hr₀, hv₀⟩ := receipt r hr
      exact hnew.tokens k token htoken cid _ r₀ view hr₀ (by rw [← hv₀, hv])
    · obtain ⟨j, t, ht, hv₀⟩ := receipt r hr
      exact (hap _ mem).tokens j k t token ht htoken (by rw [← hv₀, hv])

/-- The intent that the request has just opened, when it is issued a receipt. -/
theorem Origins.of_opened (h : Origins S L Cs s) (hm : Minting S L Cs)
    (ha : s.opens.view cid = some oi)
    (hopened : ∃ J₀ e₀ oi₀, s.journal = J₀ ++ [e₀] ∧ e₀.act = .intent cid oi₀ ∧
      e₀.seq = s.seq ∧ e₀.env = C.env ∧ e₀.peer = C.peer ∧ e₀.req = C.req) :
    C ∈ Cs ∧ rabMakeCorrelationId C.env = some cid ∧ rabMakeBinding C.env = some oi.binding ∧
      oi.actor = C.peer := by
  obtain ⟨J₀, e₀, oi₀, hj, hact, -, henv, hpeer, hreq⟩ := hopened
  obtain ⟨hmem, hcid⟩ := h.journal e₀ (by rw [hj]; simp) cid oi₀ hact
  rw [henv, hpeer, hreq] at hmem
  rw [henv] at hcid
  exact ⟨hmem, hcid, (h.view cid oi ha).origin.of_minted hm hmem hcid⟩

/-- What a line makes of the intent under a correlation id. -/
theorem Act.apply_eq_some {act : Act} {L : Ledger} (h : act.apply L cid = some oi) :
    L cid = some oi ∨ act = .intent cid oi ∨
      ∃ r oi₁, act = .receipt cid r ∧ L cid = some oi₁ ∧ oi = { oi₁ with receipt := some r } := by
  by_cases hcid : cid = act.cid
  · subst hcid
    cases act with
    | intent c oi' =>
      rw [Act.cid, Act.apply_intent, Option.some_inj] at h
      exact .inr (.inl (by rw [h]; rfl))
    | outcome c =>
      rw [Act.cid, Act.apply_outcome] at h
      cases h
    | emit c => exact .inl h
    | receipt c r =>
      rw [Act.cid, Act.apply_receipt, Option.map_eq_some_iff] at h
      obtain ⟨oi₁, hoi₁, heq⟩ := h
      exact .inr (.inr ⟨r, oi₁, rfl, hoi₁, heq.symm⟩)
  · rw [Act.apply_of_ne hcid] at h
    exact .inl h

/-- A line keeps the origins known. -/
theorem Origins.of_line (h : Origins S L Cs s) (hm : Minting S L Cs)
    (hC : C.req.type = .openIntent → C ∈ Cs) {line : Bytes} {act : Act}
    {install : Tables → Tables} (ha : Allowed S C s line act install) (hok : s.toTables.Ok)
    (hj : s'.journal = s.journal ++ [C.entry s line act])
    (hview : s'.opens.view = act.apply s.opens.view) : Origins S L Cs s' := by
  constructor
  · intro e he cid oi hact
    rw [hj, List.mem_append, List.mem_singleton] at he
    rcases he with he | rfl
    · exact h.journal e he cid oi hact
    · have hact : act = .intent cid oi := hact
      subst hact
      cases ha with
      | intent type fits hcid hbinding first caps hline => exact ⟨hC type, hcid⟩
  · intro cid oi hoi
    rw [hview] at hoi
    rcases Act.apply_eq_some hoi with hold | rfl | ⟨r, oi₁, rfl, hoi₁, rfl⟩
    · exact h.view cid oi hold
    · cases ha with
      | intent type fits hcid hbinding first caps hline =>
        exact ⟨.opened (hC type) hcid hbinding rfl (fun r hr => by cases hr), fun r hr => by cases hr⟩
    · have hknown := h.view cid oi₁ hoi₁
      cases ha with
      | @issue a _ token attempt effect find opened none r_eq schema boot minted unused hline =>
        have hopen := (hok.opens.openFindCid_eq_some_iff.mp find).1
        obtain rfl : (s.opens.heap a).toOpenIntent = oi₁ :=
          Option.some.inj ((hok.opens.view_of_open hopen).symm.trans hoi₁)
        obtain ⟨hmem, hcid, hbinding, hactor⟩ := h.of_opened hm hoi₁ opened
        have hver : r.verifier = verifierOf S token.bytes := by rw [r_eq]
        have huid : r.actorUid = (s.opens.heap a).actor.uid := by rw [r_eq]
        refine ⟨.opened hmem hcid hbinding hactor fun r' hr' => ?_, fun r' hr' => ?_⟩
        · obtain rfl : r = r' := Option.some.inj hr'
          exact ⟨attempt, token, minted, hver⟩
        · obtain rfl : r = r' := Option.some.inj hr'
          exact huid
      | @redeem a r₀ nowUs type superuser find receipt issued principal token bound boot ttl hline =>
        have hopen := (hok.opens.openFindCid_eq_some_iff.mp find).1
        obtain rfl : (s.opens.heap a).toOpenIntent = oi₁ :=
          Option.some.inj ((hok.opens.view_of_open hopen).symm.trans hoi₁)
        refine ⟨hknown.origin.of_verifier receipt rfl, fun r' hr' => ?_⟩
        obtain rfl := Option.some.inj hr'
        exact hknown.bearer r₀ receipt

/-- The origins within a request. -/
theorem Durably.origins (h : Durably S C s l s₁) (hs : s.opens.Wf) (hu : Unopened C s)
    (ho : Origins S L Cs s) (hm : Minting S L Cs) (hC : C.req.type = .openIntent → C ∈ Cs) :
    Origins S L Cs s₁ := by
  induction h with
  | idle hidle => exact ho.congr hidle.journal_eq hidle.opens_eq
  | @line l s₁ s' w line act install before ok allowed _ _ after ih =>
    obtain ⟨hok, hu₁⟩ := before.ok hs hu
    have hrot := allowed.rotates_committed ok w
    have hopens : s'.opens = (install s₁.toTables).opens := after.opens_eq.trans hrot.opens_eq
    refine ih.of_line hm hC allowed (hok ok) (after.journal_eq.trans hrot.journal_eq) ?_
    rw [hopens]
    exact (allowed.install_of_new (hok ok) (hu₁.new allowed)).2

end AuditBroker
