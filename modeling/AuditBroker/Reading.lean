import AuditBroker.Traces

/-!
# Reading the history back

What a JSON reader sees on the lines of the history: the record type, the phase, the correlation id,
the state of a receipt.  `isAudit_iff` and `isTransition_iff` say that the text of a guarded line tells
its act; claims about lines then follow from the ledger.
-/

namespace AuditBroker

open Foundation

/-! ## Fields of a line -/

/-- The members of the object on a line. -/
def lineMembers (S : Site) (line : Bytes) : Members :=
  ((S.codec.loadb line).bind Json.members?).getD []

/-- A string member of the object on a line. -/
def lineStr (S : Site) (line : Bytes) (key : String) : Option Bytes :=
  str? (member? (lineMembers S line) key)

/-- An audit line of a phase. -/
structure IsAudit (S : Site) (phase : String) (cid : Buf cidMax) (line : Bytes) : Prop where
  record_type : lineStr S line "record_type" = some (lit "audit")
  phase : lineStr S line "phase" = some (lit phase)
  correlation_id : lineStr S line "correlation_id" = some cid.bytes

/-- A receipt transition line. -/
structure IsTransition (S : Site) (state : RcptState) (cid : Buf cidMax) (line : Bytes) :
    Prop where
  record_type : lineStr S line "record_type" = some (lit "broker_receipt")
  checkpoint : member? (lineMembers S line) "checkpoint" = some (.bool false)
  state : lineStr S line "state" = some (lit state.text)
  correlation_id : lineStr S line "correlation_id" = some cid.bytes

/-- The line says that an effect was issued. -/
def ClaimsEffect (S : Site) (line : Bytes) : Prop :=
  member? (lineMembers S line) "effect_issued" = some (.bool true)

/-- The binding in the broker extension of a line. -/
def lineBinding (S : Site) (line : Bytes) : Option Bytes :=
  ((member? (lineMembers S line) "broker").bind Json.members?).bind fun broker =>
    str? (member? broker "binding")

instance (S : Site) (phase : String) (cid : Buf cidMax) (line : Bytes) :
    Decidable (IsAudit S phase cid line) :=
  decidable_of_iff (lineStr S line "record_type" = some (lit "audit") ∧
    lineStr S line "phase" = some (lit phase) ∧
    lineStr S line "correlation_id" = some cid.bytes)
    ⟨fun h => ⟨h.1, h.2.1, h.2.2⟩, fun h => ⟨h.record_type, h.phase, h.correlation_id⟩⟩

theorem claimsEffect_iff {S : Site} {line : Bytes} :
    ClaimsEffect S line ↔
      (member? (lineMembers S line) "effect_issued").any Json.isTrue = true := by
  unfold ClaimsEffect
  cases h : member? (lineMembers S line) "effect_issued" with
  | none => simp
  | some v => cases v <;> simp [Json.isTrue]

instance (S : Site) (line : Bytes) : Decidable (ClaimsEffect S line) :=
  decidable_of_iff _ claimsEffect_iff.symm

/-! ## Guarded lines -/

/-- The phase of an audit entry. -/
def Entry.phase? (e : Entry) : Option (Buf 16) :=
  match e.act with
  | .intent _ _ => some phaseIntent
  | .outcome _ => some phaseOutcome
  | .emit _ => some e.req.phase
  | .receipt _ _ => none

/-- The binding of an audit entry. -/
def Entry.binding? (e : Entry) : Option (Buf bindingMax) :=
  match e.act with
  | .intent _ oi => some oi.binding
  | _ => none

variable {S : Site} {J : List Entry} {e : Entry} {cid : Buf cidMax} {phase : Buf 16}

theorem str?_buf {cap : ℕ} (b : Buf cap) : str? (some (.str b.bytes)) = some b.bytes :=
  string?_buf b

/-- The object on an audit line. -/
theorem lineMembers_audit (hg : EntryGuard S J e) (hphase : e.phase? = some phase) :
    RecordOk e.req.record ∧ ∃ (host : Buf 256) (brk : Members),
      lineMembers S e.line = auditMembers phase e.act.cid e.peer host e.now e.req.record brk ∧
        member? brk "binding" = e.binding?.map (fun b => .str b.bytes) := by
  have key : ∀ (b : Option (Buf bindingMax)), RecordOk e.req.record →
      (∃ host : Buf 256, rabBuildAudit S.codec phase.bytes e.act.cid.bytes (b.map Buf.bytes) e.peer
        host.bytes e.now e.req.record = some e.line) → e.binding? = b →
      RecordOk e.req.record ∧ ∃ (host : Buf 256) (brk : Members),
        lineMembers S e.line = auditMembers phase e.act.cid e.peer host e.now e.req.record brk ∧
          member? brk "binding" = e.binding?.map (fun b => .str b.bytes) := by
    rintro b hrec ⟨host, hline⟩ hb
    obtain ⟨brk, hbrk, hload⟩ := loadb_rabBuildAudit hrec hline
    refine ⟨hrec, host, brk, ?_, ?_⟩
    · rw [lineMembers, hload]
      rfl
    · rw [hb]
      exact (member?_auditBroker hbrk).2.2.2.1
  cases hact : e.act with
  | intent cid oi =>
    have hg := hg.intent hact
    obtain rfl : phase = phaseIntent := by simpa [Entry.phase?, hact] using hphase.symm
    have hcid : e.act.cid = cid := by rw [hact]; rfl
    rw [← hact]
    exact key (some oi.binding) hg.record (hcid ▸ hg.line_eq) (by rw [Entry.binding?, hact])
  | outcome cid =>
    have hg := hg.outcome hact
    obtain rfl : phase = phaseOutcome := by simpa [Entry.phase?, hact] using hphase.symm
    have hcid : e.act.cid = cid := by rw [hact]; rfl
    rw [← hact]
    exact key none hg.record (hcid ▸ hg.line_eq) (by rw [Entry.binding?, hact])
  | emit cid =>
    have hg := hg.emit hact
    obtain rfl : phase = e.req.phase := by simpa [Entry.phase?, hact] using hphase.symm
    have hcid : e.act.cid = cid := by rw [hact]; rfl
    rw [← hact]
    exact key none hg.record (hcid ▸ hg.line_eq) (by rw [Entry.binding?, hact])
  | receipt cid r => simp [Entry.phase?, hact] at hphase

/-- The object on a receipt line. -/
theorem lineMembers_receipt (hJ : Guarded (EntryGuard S) J) (hg : EntryGuard S J e) {r : Receipt}
    (hact : e.act = .receipt cid r) :
    lineMembers S e.line = receiptMembers cid.bytes r.state false r.verifier.bytes r.actorUid
      r.verb.bytes r.resource.bytes r.planSchema r.planHash.bytes r.issueBoottimeUs r.ttlUs
      r.bootId.bytes r.acceptedTimeUs := by
  obtain ⟨hschema, hline⟩ := planSchema_of_guard hJ hg hact
  obtain ⟨-, hload⟩ := loadb_rabBuildReceipt (by rw [hschema]; decide) hline
  rw [lineMembers, hload]
  rfl

/-- The fields of an audit line. -/
theorem lineStr_audit (hg : EntryGuard S J e) (phase : Buf 16) (hphase : e.phase? = some phase) :
    lineStr S e.line "record_type" = some (lit "audit") ∧
      lineStr S e.line "phase" = some phase.bytes ∧
      lineStr S e.line "correlation_id" = some e.act.cid.bytes ∧
      member? (lineMembers S e.line) "effect_issued" =
        member? e.req.record "effect_issued" ∧
      lineBinding S e.line = e.binding?.map Buf.bytes := by
  obtain ⟨hrec, host, brk, hms, hbinding⟩ := lineMembers_audit hg hphase
  have hbroker : member? e.req.record "broker" = none := hrec.member?_eq_none (by decide)
  simp only [lineStr, lineBinding, hms]
  refine ⟨rfl, ?_, ?_, ?_, ?_⟩
  · exact str?_buf phase
  · exact str?_buf e.act.cid
  · simp only [auditMembers, member?_append]
    cases member? e.req.record "effect_issued" <;> rfl
  · simp only [auditMembers, member?_append, hbroker]
    change (member? brk "binding").bind Json.string? = _
    rw [hbinding]
    cases e.binding? with
    | none => rfl
    | some b => exact string?_buf b

theorem lineStr_receipt (hJ : Guarded (EntryGuard S) J) (hg : EntryGuard S J e) {r : Receipt}
    (hact : e.act = .receipt cid r) :
    lineStr S e.line "record_type" = some (lit "broker_receipt") ∧
      member? (lineMembers S e.line) "checkpoint" = some (.bool false) ∧
      lineStr S e.line "state" = some (lit r.state.text) ∧
      lineStr S e.line "correlation_id" = some cid.bytes := by
  simp only [lineStr, lineMembers_receipt hJ hg hact]
  refine ⟨rfl, rfl, ?_, ?_⟩
  · cases r.state <;> rfl
  · change str? (some (.str (cstr cid.bytes))) = _
    rw [cstr_eq_self cid.nul_free]
    exact str?_buf cid

theorem phaseIntent_ne_phaseOutcome : phaseIntent.bytes ≠ phaseOutcome.bytes := by decide

/-- The text of an audit line of a phase that only one kind of act writes. -/
theorem isAudit_iff (hJ : Guarded (EntryGuard S) J) (hg : EntryGuard S J e) (phase : Buf 16)
    {name : String}
    (hname : phase.bytes = lit name) :
    IsAudit S name cid e.line ↔ e.phase? = some phase ∧ e.act.cid = cid := by
  constructor
  · intro h
    cases hp : e.phase? with
    | none =>
      -- Only a receipt has no phase, and its record type tells.
      cases hact : e.act with
      | receipt c r =>
        have htype := h.record_type
        rw [(lineStr_receipt hJ hg hact).1] at htype
        exact absurd htype (by decide)
      | intent c oi => simp [Entry.phase?, hact] at hp
      | outcome c => simp [Entry.phase?, hact] at hp
      | emit c => simp [Entry.phase?, hact] at hp
    | some p =>
      obtain ⟨-, hphase, hcid, -⟩ := lineStr_audit hg _ hp
      rw [h.phase, Option.some_inj, ← hname] at hphase
      rw [h.correlation_id, Option.some_inj] at hcid
      exact ⟨by rw [Buf.ext hphase], (Buf.ext hcid).symm⟩
  · rintro ⟨hp, hcid⟩
    obtain ⟨htype, hphase, hc, -⟩ := lineStr_audit hg _ hp
    exact ⟨htype, hname ▸ hphase, hcid ▸ hc⟩

theorem isOutcome_iff (hJ : Guarded (EntryGuard S) J) (hg : EntryGuard S J e) :
    IsAudit S "outcome" cid e.line ↔ e.act = .outcome cid := by
  rw [isAudit_iff hJ hg phaseOutcome rfl]
  cases hact : e.act with
  | outcome c => simp [Entry.phase?, hact, Act.cid]
  | intent c oi =>
    have hne := phaseIntent_ne_phaseOutcome
    simp [Entry.phase?, hact, Buf.ext_iff, hne]
  | emit c =>
    have hne := (hg.emit hact).phase_ne
    simp [Entry.phase?, hact, hne]
  | receipt c r => simp [Entry.phase?, hact]

theorem isIntent_iff (hJ : Guarded (EntryGuard S) J) (hg : EntryGuard S J e) :
    IsAudit S "intent" cid e.line ↔ ∃ oi, e.act = .intent cid oi := by
  rw [isAudit_iff hJ hg phaseIntent rfl]
  cases hact : e.act with
  | intent c oi => simp [Entry.phase?, hact, Act.cid]
  | outcome c =>
    have hne := phaseIntent_ne_phaseOutcome.symm
    simp [Entry.phase?, hact, Buf.ext_iff, hne]
  | emit c =>
    have hne := (hg.emit hact).phase_ne
    simp [Entry.phase?, hact, hne]
  | receipt c r => simp [Entry.phase?, hact]

/-- The text of a receipt transition. -/
theorem isTransition_iff (hJ : Guarded (EntryGuard S) J) (hg : EntryGuard S J e)
    {state : RcptState} :
    IsTransition S state cid e.line ↔ ∃ r, e.act = .receipt cid r ∧ r.state = state := by
  constructor
  · intro h
    cases hact : e.act with
    | receipt c r =>
      obtain ⟨-, -, hstate, hcid⟩ := lineStr_receipt hJ hg hact
      rw [h.state, Option.some_inj] at hstate
      rw [h.correlation_id, Option.some_inj] at hcid
      refine ⟨r, by rw [Buf.ext hcid], ?_⟩
      cases hs : r.state <;> cases state <;> rw [hs] at hstate <;>
        first | rfl | exact absurd hstate (by decide)
    | intent c oi =>
      have htype := h.record_type
      rw [(lineStr_audit hg phaseIntent (by rw [Entry.phase?, hact])).1] at htype
      exact absurd htype (by decide)
    | outcome c =>
      have htype := h.record_type
      rw [(lineStr_audit hg phaseOutcome (by rw [Entry.phase?, hact])).1] at htype
      exact absurd htype (by decide)
    | emit c =>
      have htype := h.record_type
      rw [(lineStr_audit hg e.req.phase (by rw [Entry.phase?, hact])).1] at htype
      exact absurd htype (by decide)
  · rintro ⟨r, hact, rfl⟩
    obtain ⟨htype, hckpt, hstate, hcid⟩ := lineStr_receipt hJ hg hact
    exact ⟨htype, hckpt, hstate, hcid⟩

end AuditBroker
