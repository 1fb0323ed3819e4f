import AuditBroker.Handlers
import AuditBroker.Foundation.History

/-!
# The ledger

What the broker is for, said over the history of the lines that it has appended.  The `ledger` of a
history is the map from correlation ids to open intents that the lines determine.  `EntryGuard` says
when a line may be appended: an intent under a new correlation id, an outcome by the opener of an
open intent with its binding, a receipt for the intent just opened, a redemption of an issued receipt
by the superuser that presents its token and the bound values.

The results are about every guarded history, whatever the broker that wrote it does in memory: an
intent is opened once and closed at most once, after it was opened (`closed_once`), a receipt is
redeemed at most once (`redeemed_once`), and it is the one issued with the intent
(`issued_of_ledger`).
-/

namespace AuditBroker

open Foundation

/-! ## The map -/

/-- A map from correlation ids to open intents. -/
abbrev Ledger : Type := Buf cidMax → Option OpenIntent

/-- The effect of a line on the open intents. -/
def Act.apply (act : Act) (L : Ledger) : Ledger :=
  match act with
  | .intent cid oi => Function.update L cid (some oi)
  | .outcome cid => Function.update L cid none
  | .emit _ => L
  | .receipt cid r =>
    Function.update L cid ((L cid).map fun oi => { oi with receipt := some r })

/-- The correlation id that a line is about. -/
def Act.cid : Act → Buf cidMax
  | .intent cid _ => cid
  | .outcome cid => cid
  | .emit cid => cid
  | .receipt cid _ => cid

/-- A line changes nothing but the intent that it is about. -/
theorem Act.apply_of_ne {act : Act} {L : Ledger} {cid : Buf cidMax} (h : cid ≠ act.cid) :
    act.apply L cid = L cid := by
  cases act with
  | intent c oi => exact Function.update_of_ne h _ _
  | outcome c => exact Function.update_of_ne h _ _
  | emit c => rfl
  | receipt c r => exact Function.update_of_ne h _ _

@[simp] theorem Act.apply_intent (L : Ledger) (cid : Buf cidMax) (oi : OpenIntent) :
    (Act.intent cid oi).apply L cid = some oi := Function.update_self _ _ _

@[simp] theorem Act.apply_outcome (L : Ledger) (cid : Buf cidMax) :
    (Act.outcome cid).apply L cid = none := Function.update_self _ _ _

@[simp] theorem Act.apply_emit (L : Ledger) (cid : Buf cidMax) : (Act.emit cid).apply L = L := rfl

@[simp] theorem Act.apply_receipt (L : Ledger) (cid : Buf cidMax) (r : Receipt) :
    (Act.receipt cid r).apply L cid = (L cid).map fun oi => { oi with receipt := some r } :=
  Function.update_self _ _ _

/-- The open intents after a history. -/
def ledger (J : List Entry) : Ledger := J.foldl (fun L e => e.act.apply L) fun _ => none

@[simp] theorem ledger_nil (cid : Buf cidMax) : ledger [] cid = none := rfl

theorem ledger_snoc (J : List Entry) (e : Entry) : ledger (J ++ [e]) = e.act.apply (ledger J) := by
  simp [ledger]

/-! ## When a line may be appended -/

/-- The line of an opened intent. -/
structure OpenGuard (S : Site) (J : List Entry) (e : Entry) (cid : Buf cidMax) (oi : OpenIntent) :
    Prop where
  type : e.req.type = .openIntent
  record : RecordOk e.req.record
  cid_minted : rabMakeCorrelationId e.env = some cid
  binding_minted : rabMakeBinding e.env = some oi.binding
  /-- No intent was ever opened under this correlation id. -/
  fresh : ∀ e' ∈ J, ∀ oi', e'.act ≠ .intent cid oi'
  /-- The intent is the peer's, with the metadata of the record. -/
  oi_eq : oi =
    { binding := oi.binding, actor := e.peer
      operation := recStr metaMax e.req.record "operation"
      resource := recStr metaMax e.req.record "resource"
      scope := recStr scopeMax e.req.record "scope", receipt := none }
  /-- The metadata that an effect open binds is not cut. -/
  effect_fits : e.req.effectPresent = true →
    (domainStr e.req.record "operation").length < metaMax ∧
      (domainStr e.req.record "resource").length < metaMax
  line_eq : ∃ host : Buf 256, rabBuildAudit S.codec phaseIntent.bytes cid.bytes
    (some oi.binding.bytes) e.peer host.bytes e.now e.req.record = some e.line

/-- The line of an outcome. -/
structure OutcomeGuard (S : Site) (J : List Entry) (e : Entry) (cid : Buf cidMax) : Prop where
  type : e.req.type = .writeOutcome
  record : RecordOk e.req.record
  /-- The intent is open, the request carries its binding and comes from its opener, and it does not
  claim an effect that an unredeemed receipt guards. -/
  opened : ∃ oi, ledger J cid = some oi ∧ oi.actor = e.peer ∧
    oi.binding.bytes = e.req.binding.bytes ∧
    ∀ r, oi.receipt = some r → (member? e.req.record "effect_issued").any Json.isTrue = true →
      r.state = .redeemed
  line_eq : ∃ host : Buf 256, rabBuildAudit S.codec phaseOutcome.bytes cid.bytes none e.peer
    host.bytes e.now e.req.record = some e.line

/-- The line of an emitted record. -/
structure EmitGuard (S : Site) (e : Entry) (cid : Buf cidMax) : Prop where
  type : e.req.type = .emit
  record : RecordOk e.req.record
  cid_minted : rabMakeCorrelationId e.env = some cid
  phase : e.req.phase.bytes = lit "preview" ∨ e.req.phase.bytes = lit "noop"
  line_eq : ∃ host : Buf 256, rabBuildAudit S.codec e.req.phase.bytes cid.bytes none e.peer
    host.bytes e.now e.req.record = some e.line

/-- The line of an issued receipt. -/
structure IssueGuard (S : Site) (J : List Entry) (e : Entry) (cid : Buf cidMax) (r : Receipt) :
    Prop where
  effect : e.req.effectPresent = true
  state : r.state = .issued
  /-- The line before is the intent that the same request opened, and the receipt is bound to it. -/
  opened : ∃ J₀ e₀ oi, J = J₀ ++ [e₀] ∧ e₀.act = .intent cid oi ∧ e₀.seq = e.seq ∧
    e₀.env = e.env ∧ e₀.peer = e.peer ∧ e₀.req = e.req ∧ oi.receipt = none ∧
    r.actorUid = oi.actor.uid ∧ r.verb = oi.operation ∧ r.resource = oi.resource
  planSchema : r.planSchema = planSchemaV1 ∧ r.planSchema = e.req.effectPlanSchema
  planHash : r.planHash = e.req.effectPlanHash
  boot : e.env.boottime = some r.issueBoottimeUs ∧ e.env.bootid = some r.bootId
  accepted : r.acceptedTimeUs = e.now
  /-- The verifier is that of a token minted for this request. -/
  minted : ∃ token attempt, rabMakeReceipt e.env attempt = some token ∧
    r.verifier = verifierOf S token.bytes
  /-- No open intent has a receipt with this verifier. -/
  fresh : ∀ c oi r', ledger J c = some oi → oi.receipt = some r' → r'.verifier ≠ r.verifier
  line_eq : receiptLine S.codec cid false r = some e.line

/-- The line of a redeemed receipt. -/
structure RedeemGuard (S : Site) (J : List Entry) (e : Entry) (cid : Buf cidMax) (r : Receipt) :
    Prop where
  type : e.req.type = .redeem
  /-- The intent is open and its receipt issued; only the state and the accepted time change. -/
  opened : ∃ oi r₀, ledger J cid = some oi ∧ oi.receipt = some r₀ ∧ r₀.state = .issued ∧
    r = { r₀ with state := .redeemed, acceptedTimeUs := e.now }
  superuser : e.peer.uid = 0
  principal : e.req.redeemPrincipalUid = r.actorUid
  token : r.verifier.bytes = (verifierOf S e.req.effectReceipt.bytes).bytes
  planSchema : e.req.redeemPlanSchema = r.planSchema
  verb : e.req.redeemVerb.bytes = r.verb.bytes
  resource : e.req.redeemResource.bytes = r.resource.bytes
  planHash : e.req.redeemPlanHash.bytes = r.planHash.bytes
  /-- Same boot, and no later than the time to live allows. -/
  boot : e.env.bootid = some r.bootId ∧ ∃ nowUs, e.env.boottime = some nowUs ∧
    r.issueBoottimeUs ≤ nowUs ∧ nowUs - r.issueBoottimeUs ≤ r.ttlUs
  line_eq : receiptLine S.codec cid false r = some e.line

/-- When a line may be appended. -/
def EntryGuard (S : Site) (J : List Entry) (e : Entry) : Prop :=
  match e.act with
  | .intent cid oi => OpenGuard S J e cid oi
  | .outcome cid => OutcomeGuard S J e cid
  | .emit cid => EmitGuard S e cid
  | .receipt cid r => IssueGuard S J e cid r ∨ RedeemGuard S J e cid r

/-! ## Guarded histories -/

variable {S : Site} {J J₁ J₂ : List Entry} {e e' : Entry} {cid : Buf cidMax} {oi : OpenIntent}
  {r : Receipt}

theorem EntryGuard.intent (h : EntryGuard S J e) (ha : e.act = .intent cid oi) :
    OpenGuard S J e cid oi := by
  rwa [EntryGuard, ha] at h

theorem EntryGuard.outcome (h : EntryGuard S J e) (ha : e.act = .outcome cid) :
    OutcomeGuard S J e cid := by
  rwa [EntryGuard, ha] at h

theorem EntryGuard.emit (h : EntryGuard S J e) (ha : e.act = .emit cid) : EmitGuard S e cid := by
  rwa [EntryGuard, ha] at h

theorem EntryGuard.receipt (h : EntryGuard S J e) (ha : e.act = .receipt cid r) :
    IssueGuard S J e cid r ∨ RedeemGuard S J e cid r := by
  rwa [EntryGuard, ha] at h

/-- An intent has no receipt when it is opened. -/
theorem OpenGuard.receipt_eq_none (h : OpenGuard S J e cid oi) : oi.receipt = none := by
  rw [h.oi_eq]

theorem OpenGuard.actor_eq (h : OpenGuard S J e cid oi) : oi.actor = e.peer := by
  rw [h.oi_eq]

/-- The intent of an issued receipt is open and has none. -/
theorem IssueGuard.ledger_eq (h : IssueGuard S J e cid r) :
    ∃ oi, ledger J cid = some oi ∧ oi.receipt = none ∧ r.actorUid = oi.actor.uid ∧
      r.verb = oi.operation ∧ r.resource = oi.resource := by
  obtain ⟨J₀, e₀, oi, rfl, hact, -, -, -, -, hnone, hbound⟩ := h.opened
  refine ⟨oi, ?_, hnone, hbound⟩
  rw [ledger_snoc, hact, Act.apply_intent]

/-- A receipt line is about an open intent. -/
theorem EntryGuard.ledger_receipt (h : EntryGuard S J e) (ha : e.act = .receipt cid r) :
    ∃ oi, ledger J cid = some oi := by
  rcases h.receipt ha with h | h
  · obtain ⟨oi, hoi, -⟩ := h.ledger_eq
    exact ⟨oi, hoi⟩
  · obtain ⟨oi, r₀, hoi, -⟩ := h.opened
    exact ⟨oi, hoi⟩

/-- An open intent was opened, and only its receipt may have changed since. -/
theorem opened_of_ledger (h : Guarded (EntryGuard S) J) (hoi : ledger J cid = some oi) :
    ∃ e ∈ J, e.act = .intent cid { oi with receipt := none } := by
  induction h generalizing oi with
  | nil => simp at hoi
  | @snoc J e h hg ih =>
    have old : ∀ {oi'}, ledger J cid = some oi' →
        { oi' with receipt := none } = { oi with receipt := none } →
        ∃ e' ∈ J ++ [e], e'.act = .intent cid { oi with receipt := none } := by
      intro oi' hoi' heq
      obtain ⟨e', he', hact⟩ := ih hoi'
      exact ⟨e', List.mem_append_left _ he', by rw [hact, heq]⟩
    rw [ledger_snoc] at hoi
    by_cases hc : cid = e.act.cid
    · subst hc
      cases hact : e.act with
      | intent c oi₀ =>
        rw [hact, Act.cid, Act.apply_intent, Option.some_inj] at hoi
        refine ⟨e, by simp, ?_⟩
        rw [hact, ← hoi, ← (hg.intent hact).receipt_eq_none]
        rfl
      | outcome c =>
        rw [hact, Act.cid, Act.apply_outcome] at hoi
        exact absurd hoi (by simp)
      | emit c =>
        rw [hact, Act.apply_emit, ← hact] at hoi
        rw [← hact]
        exact old hoi rfl
      | receipt c r =>
        rw [hact, Act.cid, Act.apply_receipt, Option.map_eq_some_iff] at hoi
        obtain ⟨oi', hoi', rfl⟩ := hoi
        rw [hact, Act.cid] at old
        exact old hoi' rfl
    · rw [Act.apply_of_ne hc] at hoi
      exact old hoi rfl

/-- A correlation id of an outcome or a receipt line was opened before. -/
theorem opened_before (h : Guarded (EntryGuard S) J) (hJ : J = J₁ ++ e :: J₂)
    (ha : e.act = .outcome cid ∨ ∃ r, e.act = .receipt cid r) :
    ∃ e' ∈ J₁, ∃ oi, e'.act = .intent cid oi := by
  obtain ⟨h₁, hg⟩ := h.guard_of_eq hJ
  have hopen : ∃ oi, ledger J₁ cid = some oi := by
    rcases ha with ha | ⟨r, ha⟩
    · obtain ⟨oi, hoi, -⟩ := (hg.outcome ha).opened
      exact ⟨oi, hoi⟩
    · exact hg.ledger_receipt ha
  obtain ⟨oi, hoi⟩ := hopen
  obtain ⟨e', he', hact⟩ := opened_of_ledger h₁ hoi
  exact ⟨e', he', _, hact⟩

/-- The last line does not open a correlation id that has an outcome or a receipt line. -/
theorem intent_ne_of_mem (h : Guarded (EntryGuard S) J) (hg : EntryGuard S J e)
    (he' : e' ∈ J) (ha' : e'.act = .outcome cid ∨ ∃ r, e'.act = .receipt cid r) :
    ∀ oi, e.act ≠ .intent cid oi := by
  intro oi ha
  obtain ⟨J₁, J₂, rfl⟩ := List.append_of_mem he'
  obtain ⟨e₀, he₀, oi₀, hact₀⟩ := opened_before h rfl ha'
  exact (hg.intent ha).fresh e₀ (List.mem_append_left _ he₀) oi₀ hact₀

/-- A correlation id is opened by one line only. -/
theorem opened_once (h : Guarded (EntryGuard S) J) {oi oi' : OpenIntent} (he : e ∈ J)
    (he' : e' ∈ J) (ha : e.act = .intent cid oi) (ha' : e'.act = .intent cid oi') : e = e' := by
  refine Guarded.eq_of_mem (p := fun e => ∃ oi, e.act = .intent cid oi) ?_ h he he' ⟨oi, ha⟩
    ⟨oi', ha'⟩
  rintro J e - hg ⟨oi, ha⟩ e' he' ⟨oi', ha'⟩
  exact (hg.intent ha).fresh e' he' oi' ha'

/-- A closed correlation id stays closed. -/
theorem ledger_eq_none_of_outcome (h : Guarded (EntryGuard S) J) (he : e ∈ J)
    (ha : e.act = .outcome cid) : ledger J cid = none := by
  induction h with
  | nil => simp at he
  | @snoc J e' h hg ih =>
    rw [ledger_snoc]
    rw [List.mem_append, List.mem_singleton] at he
    rcases he with he | rfl
    · have hnone := ih he
      by_cases hc : cid = e'.act.cid
      · cases hact : e'.act with
        | intent c oi =>
          rw [hact] at hc
          exact absurd (hc ▸ hact) (intent_ne_of_mem h hg he (Or.inl ha) oi)
        | outcome c =>
          rw [hc, hact, Act.cid, Act.apply_outcome]
        | emit c => rw [Act.apply_emit, hnone]
        | receipt c r =>
          rw [hact, Act.cid] at hc
          rw [← hc, Act.apply_receipt, hnone, Option.map_none]
      · rw [Act.apply_of_ne hc, hnone]
    · rw [ha, Act.apply_outcome]

/-- A correlation id is closed at most once. -/
theorem closed_once (h : Guarded (EntryGuard S) J) (hJ : J = J₁ ++ e :: J₂)
    (ha : e.act = .outcome cid) : ∀ e' ∈ J₁, e'.act ≠ .outcome cid := by
  intro e' he' ha'
  obtain ⟨h₁, hg⟩ := h.guard_of_eq hJ
  obtain ⟨oi, hoi, -⟩ := (hg.outcome ha).opened
  rw [ledger_eq_none_of_outcome h₁ he' ha'] at hoi
  exact absurd hoi (by simp)

/-! ## Receipts -/

/-- A receipt of an open intent was there before the last line, or the last line issued or redeemed
it. -/
theorem receipt_snoc (hg : EntryGuard S J e) (hoi : ledger (J ++ [e]) cid = some oi)
    (hr : oi.receipt = some r) :
    ledger J cid = some oi ∨ (e.act = .receipt cid r ∧ IssueGuard S J e cid r) ∨
      (e.act = .receipt cid r ∧ RedeemGuard S J e cid r) := by
  rw [ledger_snoc] at hoi
  by_cases hc : cid = e.act.cid
  · cases hact : e.act with
    | intent c oi₀ =>
      rw [hact, Act.cid] at hc
      rw [hact, hc, Act.apply_intent, Option.some_inj] at hoi
      rw [← hoi, (hg.intent hact).receipt_eq_none] at hr
      exact absurd hr (by simp)
    | outcome c =>
      rw [hact, Act.cid] at hc
      rw [hact, hc, Act.apply_outcome] at hoi
      exact absurd hoi (by simp)
    | emit c =>
      rw [hact, Act.apply_emit] at hoi
      exact Or.inl hoi
    | receipt c r' =>
      rw [hact, Act.cid] at hc
      subst hc
      rw [hact, Act.apply_receipt, Option.map_eq_some_iff] at hoi
      obtain ⟨oi', -, rfl⟩ := hoi
      rw [Option.some_inj] at hr
      subst hr
      rcases hg.receipt hact with hi | hrd
      · exact Or.inr (Or.inl ⟨rfl, hi⟩)
      · exact Or.inr (Or.inr ⟨rfl, hrd⟩)
  · rw [Act.apply_of_ne hc] at hoi
    exact Or.inl hoi

/-- The receipt of an open intent was issued when the intent was opened; only its state and its
accepted time may have changed since, and the line that did so is in the history. -/
theorem issued_of_ledger (h : Guarded (EntryGuard S) J) (hoi : ledger J cid = some oi)
    (hr : oi.receipt = some r) :
    (∃ e ∈ J, e.act = .receipt cid r) ∧
      ∃ J₁ e J₂ r₀, J = J₁ ++ e :: J₂ ∧ e.act = .receipt cid r₀ ∧ IssueGuard S J₁ e cid r₀ ∧
        r = { r₀ with state := r.state, acceptedTimeUs := r.acceptedTimeUs } := by
  induction h generalizing oi r with
  | nil => simp at hoi
  | @snoc J e h hg ih =>
    rcases receipt_snoc hg hoi hr with hoi | ⟨hact, hi⟩ | ⟨hact, hrd⟩
    · obtain ⟨⟨e', he', hact⟩, J₁, e₀, J₂, r₀, rfl, hact₀, hi, heq⟩ := ih hoi hr
      exact ⟨⟨e', List.mem_append_left _ he', hact⟩, J₁, e₀, J₂ ++ [e], r₀, by simp, hact₀, hi,
        heq⟩
    · exact ⟨⟨e, by simp, hact⟩, J, e, [], r, rfl, hact, hi, rfl⟩
    · obtain ⟨oi₁, r₁, hoi₁, hr₁, -, heq⟩ := hrd.opened
      obtain ⟨-, J₁, e₀, J₂, r₀, rfl, hact₀, hi, heq₀⟩ := ih hoi₁ hr₁
      refine ⟨⟨e, by simp, hact⟩, J₁, e₀, J₂ ++ [e], r₀, by simp, hact₀, hi, ?_⟩
      rw [heq, heq₀]

/-- While an intent is open it keeps its receipt, and a redeemed one stays redeemed. -/
theorem receipt_stays (h : Guarded (EntryGuard S) J) (he : e ∈ J) (ha : e.act = .receipt cid r)
    (hoi : ledger J cid = some oi) :
    ∃ r', oi.receipt = some r' ∧ (r.state = .redeemed → r'.state = .redeemed) := by
  induction h generalizing oi with
  | nil => simp at he
  | @snoc J e' h hg ih =>
    rw [ledger_snoc] at hoi
    rw [List.mem_append, List.mem_singleton] at he
    rcases he with he | rfl
    · by_cases hc : cid = e'.act.cid
      · cases hact : e'.act with
        | intent c oi₀ =>
          rw [hact] at hc
          exact absurd (hc ▸ hact) (intent_ne_of_mem h hg he (Or.inr ⟨r, ha⟩) oi₀)
        | outcome c =>
          rw [hact, Act.cid] at hc
          rw [hact, hc, Act.apply_outcome] at hoi
          exact absurd hoi (by simp)
        | emit c =>
          rw [hact, Act.apply_emit] at hoi
          exact ih he hoi
        | receipt c r₂ =>
          rw [hact, Act.cid] at hc
          subst hc
          rw [hact, Act.apply_receipt, Option.map_eq_some_iff] at hoi
          obtain ⟨oi', hoi', rfl⟩ := hoi
          obtain ⟨r', hr', -⟩ := ih he hoi'
          refine ⟨r₂, rfl, fun _ => ?_⟩
          rcases hg.receipt hact with hi | hrd
          · obtain ⟨oi₁, hoi₁, hnone, -⟩ := hi.ledger_eq
            rw [hoi', Option.some_inj] at hoi₁
            rw [← hoi₁, hr'] at hnone
            exact absurd hnone (by simp)
          · obtain ⟨oi₁, r₁, -, -, -, heq⟩ := hrd.opened
            rw [heq]
      · rw [Act.apply_of_ne hc] at hoi
        exact ih he hoi
    · rw [ha, Act.apply_receipt, Option.map_eq_some_iff] at hoi
      obtain ⟨oi', -, rfl⟩ := hoi
      exact ⟨r, rfl, id⟩

/-- A redeemed receipt line was guarded as a redemption. -/
theorem EntryGuard.redeem (h : EntryGuard S J e) (ha : e.act = .receipt cid r)
    (hs : r.state = .redeemed) : RedeemGuard S J e cid r := by
  rcases h.receipt ha with h | h
  · exact absurd (h.state.symm.trans hs) (by simp)
  · exact h

/-- A receipt is redeemed at most once. -/
theorem redeemed_once (h : Guarded (EntryGuard S) J) (hJ : J = J₁ ++ e :: J₂)
    (ha : e.act = .receipt cid r) (hs : r.state = .redeemed) :
    ∀ e' ∈ J₁, ∀ r', e'.act = .receipt cid r' → r'.state ≠ .redeemed := by
  intro e' he' r' ha' hs'
  obtain ⟨h₁, hg⟩ := h.guard_of_eq hJ
  obtain ⟨oi, r₀, hoi, hr₀, hissued, -⟩ := (hg.redeem ha hs).opened
  obtain ⟨r₁, hr₁, hred⟩ := receipt_stays h₁ he' ha' hoi
  rw [hr₀, Option.some_inj] at hr₁
  rw [← hr₁, hissued] at hred
  exact absurd (hred hs') (by simp)

theorem redeemed_unique (h : Guarded (EntryGuard S) J) {r r' : Receipt} (he : e ∈ J) (he' : e' ∈ J)
    (ha : e.act = .receipt cid r) (ha' : e'.act = .receipt cid r') (hs : r.state = .redeemed)
    (hs' : r'.state = .redeemed) : e = e' := by
  refine Guarded.eq_of_mem (p := fun e => ∃ r, e.act = .receipt cid r ∧ r.state = .redeemed) ?_ h
    he he' ⟨r, ha, hs⟩ ⟨r', ha', hs'⟩
  rintro J e hJ hg ⟨r, ha, hs⟩ e' he' ⟨r', ha', hs'⟩
  exact redeemed_once (hJ.snoc hg) rfl ha hs e' he' r' ha' hs'

/-- An intent gets at most one receipt. -/
theorem issued_unique (h : Guarded (EntryGuard S) J) {r r' : Receipt} (he : e ∈ J) (he' : e' ∈ J)
    (ha : e.act = .receipt cid r) (ha' : e'.act = .receipt cid r') (hs : r.state = .issued)
    (hs' : r'.state = .issued) : e = e' := by
  refine Guarded.eq_of_mem (p := fun e => ∃ r, e.act = .receipt cid r ∧ r.state = .issued) ?_ h
    he he' ⟨r, ha, hs⟩ ⟨r', ha', hs'⟩
  rintro J e hJ hg ⟨r, ha, hs⟩ e' he' ⟨r', ha', -⟩
  rcases hg.receipt ha with hissue | hredeem
  · -- An intent that is given a receipt has none yet.
    obtain ⟨oi, hoi, hnone, -⟩ := hissue.ledger_eq
    obtain ⟨r₁, hr₁, -⟩ := receipt_stays hJ he' ha' hoi
    rw [hnone] at hr₁
    simp at hr₁
  · obtain ⟨oi, r₀, -, -, -, rfl⟩ := hredeem.opened
    simp at hs

/-- A receipt that was issued and neither redeemed nor closed away is still that of its intent. -/
theorem ledger_of_issued (h : Guarded (EntryGuard S) J) {r : Receipt} (he : e ∈ J)
    (ha : e.act = .receipt cid r) (hclosed : ∀ e' ∈ J, e'.act ≠ .outcome cid)
    (hissued : ∀ e' ∈ J, ∀ r', e'.act = .receipt cid r' → r'.state = .issued) :
    ∃ oi, ledger J cid = some oi ∧ oi.receipt = some r := by
  induction J using List.reverseRecOn with
  | nil => simp at he
  | append_singleton J e' ih =>
    have hsnoc := h
    obtain ⟨h, hg⟩ := h.of_snoc
    rw [ledger_snoc]
    by_cases heq : e = e'
    · subst heq
      obtain ⟨oi, hoi⟩ := hg.ledger_receipt ha
      exact ⟨{ oi with receipt := some r }, by simp [ha, hoi], rfl⟩
    have hmem : e ∈ J := by simpa [heq] using he
    obtain ⟨oi, hoi, hr⟩ := ih h hmem (fun e' he' => hclosed e' (by simp [he']))
      (fun e' he' => hissued e' (by simp [he']))
    by_cases hcid : cid = e'.act.cid
    · -- No later line of this intent changes it.
      cases hact : e'.act with
      | intent c oi' =>
        rw [hact] at hcid
        subst hcid
        exact absurd hact (intent_ne_of_mem h hg hmem (Or.inr ⟨r, ha⟩) oi')
      | outcome c =>
        rw [hact] at hcid
        subst hcid
        exact absurd hact (hclosed e' (by simp))
      | emit c => exact ⟨oi, hoi, hr⟩
      | receipt c r' =>
        rw [hact] at hcid
        subst hcid
        exact absurd (issued_unique hsnoc he (by simp) ha hact (hissued e he r ha)
          (hissued e' (by simp) r' hact)) heq
    · exact ⟨oi, by rw [Act.apply_of_ne hcid, hoi], hr⟩

/-- Every receipt is for the only plan schema there is. -/
theorem planSchema_of_ledger (h : Guarded (EntryGuard S) J) (hoi : ledger J cid = some oi)
    (hr : oi.receipt = some r) : r.planSchema = planSchemaV1 := by
  obtain ⟨-, J₁, e, J₂, r₀, -, -, hi, heq⟩ := issued_of_ledger h hoi hr
  rw [heq]
  exact hi.planSchema.1

/-- The receipt of an open intent is bound to it. -/
theorem bound_of_ledger (h : Guarded (EntryGuard S) J) (hoi : ledger J cid = some oi)
    (hr : oi.receipt = some r) :
    r.actorUid = oi.actor.uid ∧ r.verb = oi.operation ∧ r.resource = oi.resource := by
  obtain ⟨-, J₁, e, J₂, r₀, rfl, hact, hi, heq⟩ := issued_of_ledger h hoi hr
  obtain ⟨J₀, e₀, oi₀, rfl, hact₀, -, -, -, -, -, hbound⟩ := hi.opened
  obtain ⟨e₁, he₁, hact₁⟩ := opened_of_ledger h hoi
  -- The intent of the receipt and the open intent are the same line.
  have hsame : e₁ = e₀ := opened_once h he₁ (by simp) hact₁ hact₀
  rw [hsame, hact₀, Act.intent.injEq] at hact₁
  rw [hact₁.2] at hbound
  rw [heq]
  exact hbound

/-- Receipts of different open intents have different verifiers. -/
theorem verifier_inj (h : Guarded (EntryGuard S) J) {cid' : Buf cidMax} {oi' : OpenIntent}
    {r' : Receipt} (hoi : ledger J cid = some oi) (hr : oi.receipt = some r)
    (hoi' : ledger J cid' = some oi') (hr' : oi'.receipt = some r')
    (hv : r.verifier = r'.verifier) : cid = cid' := by
  induction h generalizing cid cid' oi oi' r r' with
  | nil => simp at hoi
  | @snoc J e h hg ih =>
    -- A receipt is one of the old map with the same verifier, or the last line issued it.
    have old_or_new : ∀ {c o x}, ledger (J ++ [e]) c = some o → o.receipt = some x →
        (∃ o₀ x₀, ledger J c = some o₀ ∧ o₀.receipt = some x₀ ∧ x₀.verifier = x.verifier) ∨
        (e.act = .receipt c x ∧ IssueGuard S J e c x) := by
      intro c o x ho hx
      rcases receipt_snoc hg ho hx with ho | hi | ⟨-, hrd⟩
      · exact Or.inl ⟨o, x, ho, hx, rfl⟩
      · exact Or.inr hi
      · obtain ⟨o₁, x₁, ho₁, hx₁, -, heq⟩ := hrd.opened
        exact Or.inl ⟨o₁, x₁, ho₁, hx₁, by rw [heq]⟩
    rcases old_or_new hoi hr with ⟨o₀, x₀, ho₀, hx₀, hv₀⟩ | ⟨hact, hi⟩ <;>
      rcases old_or_new hoi' hr' with ⟨o₁, x₁, ho₁, hx₁, hv₁⟩ | ⟨hact', hi'⟩
    · exact ih ho₀ hx₀ ho₁ hx₁ (by rw [hv₀, hv₁, hv])
    · exact absurd (hv₀.trans hv) (hi'.fresh _ _ _ ho₀ hx₀)
    · exact absurd (hv₁.trans hv.symm) (hi.fresh _ _ _ ho₁ hx₁)
    · rw [hact, Act.receipt.injEq] at hact'
      exact hact'.1

end AuditBroker
