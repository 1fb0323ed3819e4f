import AuditBroker.Ledger
import AuditBroker.RoundTrip

/-!
# What the lines of a history say

A line that was appended under its guard parses back to the record that it was built from
(`rabParseStored_entry`), provided that the peer is one that `rab_peer_identity` can produce and that
the reader has room for the operation, the resource and the scope of the client's record: the writer
copies them whole, the reader into buffers.
-/

namespace AuditBroker

open Foundation

/-! ## Minted strings -/

theorem nul_notMem_padDecimal (width n : ℕ) : (0 : UInt8) ∉ padDecimal width n := by
  have hrep : (0 : UInt8) ∉ List.replicate (width - (decimal n).length) (48 : UInt8) := by
    intro h
    exact absurd (List.eq_of_mem_replicate h) (by decide)
  rw [padDecimal, List.mem_append, not_or]
  exact ⟨hrep, nul_notMem_decimal n⟩

theorem nul_notMem_toHex (s : Bytes) : (0 : UInt8) ∉ toHex s := fun h =>
  (lt_of_isHexLc (isHexLc_of_mem_toHex h)).2 rfl

theorem rabMakeCorrelationId_ne_nil {E : Env} {cid : Buf cidMax}
    (h : rabMakeCorrelationId E = some cid) : cid.bytes ≠ [] := by
  simp only [rabMakeCorrelationId, Option.bind_eq_some_iff] at h
  obtain ⟨micros, -, rnd, -, h⟩ := h
  have hnul : (0 : UInt8) ∉ padDecimal 20 micros.toNat ++ lit "-" ++ toHex rnd.toList := by
    simp only [List.mem_append, not_or]
    exact ⟨⟨nul_notMem_padDecimal _ _, by decide⟩, nul_notMem_toHex _⟩
  rw [bytes_of_copyBounded h, cstr_eq_self hnul]
  exact List.append_ne_nil_of_left_ne_nil
    (List.append_ne_nil_of_right_ne_nil _ (by decide)) _

theorem rabMakeBinding_ne_nil {E : Env} {binding : Buf bindingMax}
    (h : rabMakeBinding E = some binding) : binding.bytes ≠ [] := by
  simp only [rabMakeBinding, Option.bind_eq_some_iff] at h
  obtain ⟨rnd, -, h⟩ := h
  have hlen : binding.bytes.length = 32 := by
    rw [bytes_of_copyBounded h, cstr_eq_self (nul_notMem_toHex _), length_toHex]
    simp
  intro hnil
  rw [hnil] at hlen
  exact absurd hlen (by decide)

/-- A verifier is the hexadecimal text of the digest. -/
theorem verifierOf_bytes (S : Site) (token : Bytes) :
    (verifierOf S token).bytes = toHex (S.sha256 token).toList := by
  rw [verifierOf, Buf.snprintf_bytes, cstr_eq_self (nul_notMem_toHex _), List.take_of_length_le]
  rw [length_toHex]
  simp

theorem verifierOf_ne_nil (S : Site) (token : Bytes) : (verifierOf S token).bytes ≠ [] := by
  intro hnil
  have hlen := congrArg List.length (verifierOf_bytes S token)
  rw [hnil, length_toHex] at hlen
  simp at hlen

/-! ## Domain fields -/

section Domain

variable {cap : ℕ} [NeZero cap] {record : Members} {key : String}

/-- A string field of a client record is null or a string. -/
theorem RecordOk.string_field (h : RecordOk record)
    (hk : ∃ required, findField key = some ⟨key, .string, required⟩) {v : Json}
    (hm : member? record key = some v) : v = .null ∨ ∃ s, v = .str s ∧ (0 : UInt8) ∉ s := by
  obtain ⟨required, hk⟩ := hk
  have hfield := h.fields _ (mem_of_member? hm)
  have hwf : v.wf = true := wf_of_member? (wf_obj_iff.mp h.wf).2 hm
  rw [fieldOk, hk] at hfield
  cases v with
  | null => exact Or.inl rfl
  | str s => exact Or.inr ⟨s, rfl, (textOk_iff.mp hwf).2⟩
  | bool b => simp [typeOk, Json.isNull] at hfield
  | int n => simp [typeOk, Json.isNull] at hfield
  | real b => simp [typeOk, Json.isNull] at hfield
  | arr xs => simp [typeOk, Json.isNull] at hfield
  | obj ms => simp [typeOk, Json.isNull] at hfield

/-- The reader takes a string field exactly when it has room for it, and then has what the broker
kept of it. -/
theorem loadOptStr_eq_some_iff (h : RecordOk record)
    (hk : ∃ required, findField key = some ⟨key, .string, required⟩) {b : Buf cap} :
    loadOptStr cap record key = some b ↔
      (domainStr record key).length < cap ∧ b = recStr cap record key := by
  have hpos : 0 < cap := Nat.pos_of_neZero cap
  cases hm : member? record key with
  | none => simp [loadOptStr, recStr, domainStr, str?, hm, hpos, eq_comm]
  | some v =>
    rcases h.string_field hk hm with rfl | ⟨s, rfl, hs⟩
    · simp [loadOptStr, recStr, domainStr, str?, hm, hpos, eq_comm, Json.isNull, Json.string?]
    · have hload : loadOptStr cap record key = copyBounded cap s := by
        simp [loadOptStr, hm, Json.isNull, Json.string?, cstr_eq_self hs]
      have hrec : recStr cap record key = Buf.snprintf cap s := by
        simp [recStr, str?, hm, Json.string?, cstr_eq_self hs]
      have hdom : domainStr record key = s := by
        simp [domainStr, str?, hm, Json.string?, cstr_eq_self hs]
      rw [hload, hrec, hdom]
      by_cases hlen : s.length < cap
      · rw [copyBounded_eq_snprintf (by rwa [cstr_eq_self hs]), Option.some_inj]
        simp [hlen, eq_comm]
      · rw [copyBounded_eq_none (by rw [cstr_eq_self hs]; omega)]
        simp [hlen]

/-- A domain string that fits its buffer is not cut. -/
theorem recStr_bytes (h : (domainStr record key).length < cap) :
    (recStr cap record key).bytes = domainStr record key := by
  unfold recStr domainStr at *
  cases hs : str? (member? record key) with
  | none => rfl
  | some s =>
    have hc : cstr s = s := by
      obtain ⟨v, -, hv⟩ := Option.bind_eq_some_iff.mp hs
      cases v <;> simp only [Json.string?, reduceCtorEq, Option.some.injEq] at hv
      rw [← hv, cstr_cstr]
    rw [hs, Option.getD_some] at h
    simp only [Buf.snprintf_bytes, hc, Option.getD_some]
    exact List.take_of_length_le (by omega)

end Domain

/-! ## Parsing a line back -/

/-- The metadata of a client record that the broker keeps. -/
def metadata (e : Entry) (cid : Buf cidMax) (binding : Buf bindingMax) : StoredIntent where
  cid := cid
  binding := binding
  actor := e.peer
  timeUs := e.now
  operation := recStr metaMax e.req.record "operation"
  resource := recStr metaMax e.req.record "resource"
  scope := recStr scopeMax e.req.record "scope"

/-- The record that a line was built from. -/
def Entry.stored (e : Entry) : Stored :=
  match e.act with
  | .intent cid oi => .audit (metadata e cid oi.binding) phaseIntent
  | .outcome cid => .audit (metadata e cid (Buf.empty _)) phaseOutcome
  | .emit cid => .audit (metadata e cid (Buf.empty _)) e.req.phase
  | .receipt cid r => .receipt cid false r

/-- The reader has room for the metadata of a client record. -/
structure MetadataFits (record : Members) : Prop where
  operation : (domainStr record "operation").length < metaMax
  resource : (domainStr record "resource").length < metaMax
  scope : (domainStr record "scope").length < scopeMax

/-- The reader accepts the line. -/
def Entry.Readable (e : Entry) : Prop :=
  match e.act with
  | .receipt _ _ => True
  | _ => e.peer.FromPeer ∧ MetadataFits e.req.record

variable {S : Site} {J : List Entry} {e : Entry}

/-- An audit line parses back to its record when it is readable, and not at all otherwise. -/
theorem rabParseStored_auditEntry {phase : Buf 16} {cid : Buf cidMax}
    (binding : Option (Buf bindingMax)) {host : Buf 256} (hrec : RecordOk e.req.record)
    (hcid : cid.bytes ≠ []) (hphase : phase.bytes ≠ []) (hb : ∀ b ∈ binding, b.bytes ≠ [])
    (hib : phase = phaseIntent ↔ binding.isSome = true)
    (h : rabBuildAudit S.codec phase.bytes cid.bytes (binding.map Buf.bytes) e.peer host.bytes
      e.now e.req.record = some e.line) {st : Stored} :
    rabParseStored S.codec e.line = some st ↔
      (e.peer.FromPeer ∧ MetadataFits e.req.record) ∧
        st = .audit (metadata e cid (binding.getD (Buf.empty _))) phase := by
  have hop : ∀ {b}, loadOptStr metaMax e.req.record "operation" = some b ↔ _ :=
    loadOptStr_eq_some_iff hrec ⟨true, rfl⟩
  have hres : ∀ {b}, loadOptStr metaMax e.req.record "resource" = some b ↔ _ :=
    loadOptStr_eq_some_iff hrec ⟨false, rfl⟩
  have hsc : ∀ {b}, loadOptStr scopeMax e.req.record "scope" = some b ↔ _ :=
    loadOptStr_eq_some_iff hrec ⟨false, rfl⟩
  rw [rabParseStored_audit hrec hcid hphase hb hib h]
  simp only [hop, hres, hsc]
  constructor
  · rintro ⟨hpeer, op, res, sc, ⟨hop, rfl⟩, ⟨hres, rfl⟩, ⟨hsc, rfl⟩, rfl⟩
    exact ⟨⟨hpeer, hop, hres, hsc⟩, rfl⟩
  · rintro ⟨⟨hpeer, hop, hres, hsc⟩, rfl⟩
    exact ⟨hpeer, _, _, _, ⟨hop, rfl⟩, ⟨hres, rfl⟩, ⟨hsc, rfl⟩, rfl⟩

/-- The phase of an emitted record. -/
theorem EmitGuard.phase_ne {cid : Buf cidMax} (h : EmitGuard S e cid) :
    e.req.phase ≠ phaseIntent ∧ e.req.phase ≠ phaseOutcome ∧ e.req.phase.bytes ≠ [] := by
  simp only [Ne, Buf.ext_iff']
  rcases h.phase with hp | hp <;> rw [hp] <;> decide

/-- The plan schema of a receipt that a line carries. -/
theorem planSchema_of_guard (hJ : Guarded (EntryGuard S) J) (hg : EntryGuard S J e)
    {cid : Buf cidMax} {r : Receipt} (hact : e.act = .receipt cid r) :
    r.planSchema = planSchemaV1 ∧ receiptLine S.codec cid false r = some e.line := by
  rcases hg.receipt hact with h | h
  · exact ⟨h.planSchema.1, h.line_eq⟩
  · obtain ⟨oi, r₀, hoi, hr₀, -, heq⟩ := h.opened
    have hps : r₀.planSchema = planSchemaV1 := planSchema_of_ledger hJ hoi hr₀
    exact ⟨by rw [heq, hps], h.line_eq⟩

/-- The correlation id of an open intent is not empty, nor is its binding. -/
theorem ne_nil_of_ledger (hJ : Guarded (EntryGuard S) J) {cid : Buf cidMax} {oi : OpenIntent}
    (hoi : ledger J cid = some oi) : cid.bytes ≠ [] ∧ oi.binding.bytes ≠ [] := by
  obtain ⟨e', he', hact⟩ := opened_of_ledger hJ hoi
  obtain ⟨J₁, J₂, -, -, hg⟩ := hJ.exists_of_mem he'
  have h := hg.intent hact
  exact ⟨rabMakeCorrelationId_ne_nil h.cid_minted, rabMakeBinding_ne_nil h.binding_minted⟩

/-- A line appended under its guard parses back to the record that it was built from exactly when it
is readable. -/
theorem rabParseStored_entry (hJ : Guarded (EntryGuard S) J) (hg : EntryGuard S J e)
    {st : Stored} :
    rabParseStored S.codec e.line = some st ↔ e.Readable ∧ st = e.stored := by
  unfold Entry.stored Entry.Readable
  cases hact : e.act with
  | intent cid oi =>
    have h := hg.intent hact
    obtain ⟨host, hline⟩ := h.line_eq
    have hb : ∀ b ∈ some oi.binding, b.bytes ≠ [] := by
      rintro b ⟨⟩
      exact rabMakeBinding_ne_nil h.binding_minted
    exact rabParseStored_auditEntry (some oi.binding) h.record
      (rabMakeCorrelationId_ne_nil h.cid_minted) (by decide) hb (by simp) hline
  | outcome cid =>
    have h := hg.outcome hact
    obtain ⟨host, hline⟩ := h.line_eq
    obtain ⟨oi, hoi, -⟩ := h.opened
    exact rabParseStored_auditEntry none h.record (ne_nil_of_ledger hJ hoi).1
      (by decide) (by simp) (by decide) hline
  | emit cid =>
    have h := hg.emit hact
    obtain ⟨host, hline⟩ := h.line_eq
    obtain ⟨hni, -, hne⟩ := h.phase_ne
    exact rabParseStored_auditEntry none h.record
      (rabMakeCorrelationId_ne_nil h.cid_minted) hne (by simp) (by simp [hni]) hline
  | receipt cid r =>
    obtain ⟨hps, hline⟩ := planSchema_of_guard hJ hg hact
    rw [rabParseStored_receiptLine (by rw [hps]; decide) hline, Option.some_inj]
    simp [eq_comm]

/-- A line appended under its guard is a line: not empty, and without a newline. -/
theorem isLine_of_guard (hJ : Guarded (EntryGuard S) J) (hg : EntryGuard S J e) :
    IsLine S.codec e.line := by
  cases hact : e.act with
  | intent cid oi =>
    obtain ⟨host, hline⟩ := (hg.intent hact).line_eq
    exact isLine_rabBuildAudit hline
  | outcome cid =>
    obtain ⟨host, hline⟩ := (hg.outcome hact).line_eq
    exact isLine_rabBuildAudit hline
  | emit cid =>
    obtain ⟨host, hline⟩ := (hg.emit hact).line_eq
    exact isLine_rabBuildAudit hline
  | receipt cid r => exact isLine_receiptLine (planSchema_of_guard hJ hg hact).2

end AuditBroker
