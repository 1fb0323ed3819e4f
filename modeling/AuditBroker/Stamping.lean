import AuditBroker.Sample

/-!
# Broker-owned facts

`rab_build_audit` merges a client record between two groups of members of its own, by insertions
that would overwrite a member of the same name.  The schema of a client record has none of the
broker's names, so the merged object is the broker's members as stamped and the client's as sent
(`rabBuildAudit_stamped`), and what `rab_parse_stored` recovers from the line does not depend on the
client's record.

The second half puts together that the records which the broker writes for itself come back from the
reader as they were written.
-/

namespace AuditBroker

open Foundation

/-! ## Audit records -/

/-- A body that is accepted as a request with the client record `record`. -/
structure Submits (J : JsonCodec) (body : Bytes) (record : Members) : Prop where
  accepted : ∃ req, rabParseRequest J body = .ok req ∧ req.record = record ∧
    (req.type = .openIntent ∨ req.type = .writeOutcome ∨ req.type = .emit)

section Audit

variable {J : JsonCodec} {body : Bytes} {phase cid host : Bytes} {binding : Option Bytes}
  {actor : Actor} {timeUs : UInt64} {record : Members} {line : Bytes} {st : Stored}

theorem Submits.recordOk (h : Submits J body record) : RecordOk record := by
  obtain ⟨req, hparse, rfl, -⟩ := h.accepted
  exact recordOk_of_rabParseRequest hparse

/-- The client record is the `record` member of the body. -/
theorem Submits.loadb (h : Submits J body record) :
    ∃ root : Members, J.loadb body = some (.obj root) ∧ member? root "record" = some (.obj record) := by
  obtain ⟨req, hparse, rfl, htype⟩ := h.accepted
  obtain ⟨root, hroot, -, hshape⟩ := shape_of_rabParseRequest hparse
  refine ⟨root, hroot, ?_⟩
  rcases record_of_parseShape hshape with hr | ⟨-, hr⟩
  · obtain ⟨v, hv, hobj⟩ := Option.bind_eq_some_iff.mp hr
    have hmem := (Option.filter_eq_some_iff.mp hv).1
    cases v <;> simp only [Json.members?, reduceCtorEq, Option.some.injEq] at hobj
    rw [hmem, hobj]
  · rcases htype with ht | ht | ht <;> simp [ht] at hr

/-- Whatever the client record is, the reader recovers from an audit line what the broker stamped
on it. -/
theorem stored_of_stamped (hrec : RecordOk record)
    (h : rabBuildAudit J phase cid binding actor host timeUs record = some line)
    (hst : rabParseStored J line = some st) :
    ∃ s ph, st = .audit s ph ∧ s.cid.bytes = cstr cid ∧ ph.bytes = cstr phase ∧
      s.binding.bytes = (binding.map cstr).getD [] ∧ s.actor = actor ∧ s.timeUs = timeUs := by
  obtain ⟨brk, hbrk, -, hload⟩ := rabBuildAudit_stamped hrec h
  obtain ⟨⟨peer, hpeer, hbrk⟩, -⟩ := brokerObject_eq_some hbrk
  have hread : rabParseStored J line =
      parseIntent (stampedMembers phase cid actor host timeUs record brk) true := by
    have htype : cstr (lit "audit") = lit "audit" := by decide
    rw [rabParseStored, hload]
    simp [stampedMembers, str?, int?, Json.string?, Json.int?, htype]
  rw [hread] at hst
  obtain ⟨s, brk', hbroker, hcid, hbinding, hactor, htime, hkind⟩ := parseIntent_eq_some hst
  obtain ⟨-, ⟨ph, rfl, hphase, -⟩, -⟩ | ⟨hfalse, -⟩ := hkind
  swap
  · cases hfalse
  have hbrk' : brk' = brk := by
    have hnone : member? record "broker" = none := hrec.member?_eq_none (by decide)
    rw [stampedMembers, member?_append, member?_append, hnone] at hbroker
    simpa using hbroker.symm
  subst hbrk'
  refine ⟨s, ph, rfl, bytes_of_loadStr (by simp [stampedMembers]) hcid,
    bytes_of_loadStr (by simp [stampedMembers]) hphase, ?_, ?_, ?_⟩
  · cases binding with
    | none =>
      have hm : member? brk' "binding" = none := by simp [hbrk, optText]
      rw [loadBinding, hm] at hbinding
      rw [← Option.some.inj hbinding]
      rfl
    | some b =>
      have hm : member? brk' "binding" = some (.str (cstr b)) := by simp [hbrk, optText]
      rw [loadBinding, hm] at hbinding
      exact bytes_of_loadStr hm hbinding
  · exact ((loadPeerStrict_eq_some_iff hpeer (by simp [hbrk])).mp hactor).2
  · rw [loadU64_item (n := timeUs) (by cases binding <;> simp [hbrk, optText])] at htime
    simpa using htime.symm

/-- Client records cannot forge broker-owned facts.  An audit line is the text of the broker's
members as stamped and the members of the client's record as sent, all of distinct names and no
others; and from the lines of any two client records with the same stamps the reader recovers the
same id, phase, binding, actor and time, those that were stamped. -/
theorem audit_unforgeable {body' line' : Bytes} {record' : Members} (hrec : Submits J body record)
    (hrec' : Submits J body' record')
    (h : rabBuildAudit J phase cid binding actor host timeUs record = some line)
    (h' : rabBuildAudit J phase cid binding actor host timeUs record' = some line') :
    (∃ root : Members, J.loadb body = some (.obj root) ∧
      member? root "record" = some (.obj record)) ∧
    (∃ brk ms, brokerObject actor binding timeUs none none none = some brk ∧
      line = J.dumps (.obj ms) ∧ (ms.map Prod.fst).Nodup ∧
      (∀ kv, kv ∈ ms ↔ kv ∈ record ∨
        kv ∈ [("schema_version", .int recordSchemaVersion), ("record_type", .str (lit "audit")),
          ("correlation_id", .str (cstr cid)), ("phase", .str (cstr phase)),
          ("host", .str (cstr host)), ("pid", .int actor.pid.toInt),
          ("actor", .str (actorText actor.uid)), ("time", .str (formatRfc3339 timeUs)),
          ("broker", .obj brk)])) ∧
    ∀ st st', rabParseStored J line = some st → rabParseStored J line' = some st' →
      ∃ s s' ph, st = .audit s ph ∧ st' = .audit s' ph ∧
        s.cid = s'.cid ∧ s.binding = s'.binding ∧ s.actor = s'.actor ∧ s.timeUs = s'.timeUs ∧
        s.cid.bytes = cstr cid ∧ ph.bytes = cstr phase ∧
        s.binding.bytes = (binding.map cstr).getD [] ∧ s.actor = actor ∧ s.timeUs = timeUs := by
  refine ⟨hrec.loadb, ?_, ?_⟩
  · obtain ⟨brk, hbrk, hline, -⟩ := rabBuildAudit_stamped hrec.recordOk h
    refine ⟨brk, _, hbrk, hline, hrec.recordOk.nodup_audit rfl _ _, ?_⟩
    intro kv
    simp only [stampedMembers, List.mem_append, List.mem_cons, List.not_mem_nil, or_false]
    tauto
  · intro st st' hst hst'
    obtain ⟨s, ph, rfl, hcid, hphase, hbinding, hactor, htime⟩ :=
      stored_of_stamped hrec.recordOk h hst
    obtain ⟨s', ph', rfl, hcid', hphase', hbinding', hactor', htime'⟩ :=
      stored_of_stamped hrec'.recordOk h' hst'
    have hph : ph' = ph := Buf.ext (hphase'.trans hphase.symm)
    subst hph
    exact ⟨s, s', ph', rfl, rfl, Buf.ext (hcid.trans hcid'.symm),
      Buf.ext (hbinding.trans hbinding'.symm), hactor.trans hactor'.symm,
      htime.trans htime'.symm, hcid, hphase, hbinding, hactor, htime⟩

end Audit

/-- A preview is accepted with its record. -/
theorem Sample.submits_emitBody {operation : Bytes} (h : textOk operation = true) :
    Submits jsonText (emitBody operation)
      [("operation", .str operation), ("outcome", .str (lit "preview"))] := by
  have hload : jsonText.loadb (emitBody operation) = some (.obj [("type", .str (lit "emit")),
      ("phase", .str (lit "preview")), ("record", record operation "preview")]) := by
    refine jsonText.loadb_dumps _ ?_ ?_
    · simp [record, Json.wf, wfMembers, h]
      decide
    · simp [record, Json.depth, depthMembers, maxLoadDepth]
  refine ⟨{ type := .emit, phase := Buf.snprintf _ (lit "preview"), record := _ }, ?_, rfl,
    Or.inr (Or.inr rfl)⟩
  rw [rabParseRequest, hload]
  rfl

/-- The lines of two previews with the same stamps. -/
theorem audit_unforgeable_emit :
    ∃ line line' s s' ph, rabBuildAudit jsonText (lit "preview") (Sample.cid 2000000 1).bytes none
        (Sample.actor 1000) (lit "host") 2000000
        [("operation", .str (lit "start")), ("outcome", .str (lit "preview"))] = some line ∧
      rabBuildAudit jsonText (lit "preview") (Sample.cid 2000000 1).bytes none
        (Sample.actor 1000) (lit "host") 2000000
        [("operation", .str (lit "stop")), ("outcome", .str (lit "preview"))] = some line' ∧
      rabParseStored jsonText line = some (.audit s ph) ∧
      rabParseStored jsonText line' = some (.audit s' ph) ∧ s.cid = s'.cid ∧
      s.actor = Sample.actor 1000 := by
  obtain ⟨st, hst⟩ := Option.isSome_iff_exists.mp (show ((rabBuildAudit jsonText (lit "preview")
    (Sample.cid 2000000 1).bytes none (Sample.actor 1000) (lit "host") 2000000
    [("operation", .str (lit "start")), ("outcome", .str (lit "preview"))]).bind
      (rabParseStored jsonText)).isSome = true by decide +kernel)
  obtain ⟨st', hst'⟩ := Option.isSome_iff_exists.mp (show ((rabBuildAudit jsonText (lit "preview")
    (Sample.cid 2000000 1).bytes none (Sample.actor 1000) (lit "host") 2000000
    [("operation", .str (lit "stop")), ("outcome", .str (lit "preview"))]).bind
      (rabParseStored jsonText)).isSome = true by decide +kernel)
  obtain ⟨line, hline, hst⟩ := Option.bind_eq_some_iff.mp hst
  obtain ⟨line', hline', hst'⟩ := Option.bind_eq_some_iff.mp hst'
  obtain ⟨-, -, hsame⟩ := audit_unforgeable (Sample.submits_emitBody (by decide))
    (Sample.submits_emitBody (by decide)) hline hline'
  obtain ⟨s, s', ph, rfl, rfl, hcid, -, -, -, -, -, -, hactor, -⟩ := hsame st st' hst hst'
  exact ⟨line, line', s, s', ph, hline, hline', hst, hst', hcid, hactor⟩

/-! ## The broker's own records -/

/-- A C string that fits is kept whole. -/
theorem snprintf_bytes_of_lt {cap : ℕ} [NeZero cap] {s : Bytes} (h : (cstr s).length < cap) :
    (Buf.snprintf cap s).bytes = cstr s := by
  rw [Buf.snprintf_bytes]
  exact List.take_of_length_le (by omega)

theorem length_of_isHex64Lc {s : Bytes} (h : isHex64Lc s = true) :
    (cstr s).length < hex64Max := by
  simp only [isHex64Lc, isHexLcN, Bool.and_eq_true, beq_iff_eq] at h
  rw [h.1]
  decide

theorem length_of_fitsNonempty {cap : ℕ} {s : Bytes} (h : fitsNonempty cap s = true) :
    (cstr s).length < cap := by
  simp only [fitsNonempty, Bool.and_eq_true, decide_eq_true_eq] at h
  exact h.2

/-- The arguments of a receipt record that was built come back from the reader. -/
theorem receipt_round_trip {J : JsonCodec} {cid verifier verb resource planHash bootId line : Bytes}
    {state : RcptState} {ckpt : Bool} {actorUid : UInt32} {planSchema : Int64}
    {issue ttl accepted : UInt64}
    (h : rabBuildReceipt J cid state ckpt verifier actorUid verb resource planSchema.toInt planHash
      issue ttl bootId accepted = some line) :
    ∃ c r, rabParseStored J line = some (.receipt c ckpt r) ∧ c.bytes = cstr cid ∧
      r.state = state ∧ r.verifier.bytes = cstr verifier ∧ r.actorUid = actorUid ∧
      r.verb.bytes = cstr verb ∧ r.resource.bytes = cstr resource ∧
      r.planSchema = planSchema.toInt ∧ r.planHash.bytes = cstr planHash ∧
      r.issueBoottimeUs = issue ∧ r.ttlUs = ttl ∧ r.bootId.bytes = cstr bootId ∧
      r.acceptedTimeUs = accepted := by
  have hps : planSchema.toInt < 2 ^ 63 := planSchema.toInt_lt
  have hargs := (loadb_rabBuildReceipt hps h).1
  simp only [receiptArgsOk, Bool.and_eq_true, decide_eq_true_eq] at hargs
  obtain ⟨⟨⟨⟨⟨⟨hcid, hver⟩, hhash⟩, hverb⟩, hres⟩, -⟩, hboot⟩ := hargs
  exact ⟨_, _, rabParseStored_receipt hps h, snprintf_bytes_of_lt (length_of_fitsNonempty hcid),
    rfl, snprintf_bytes_of_lt (length_of_isHex64Lc hver), rfl,
    snprintf_bytes_of_lt (length_of_fitsNonempty hverb), snprintf_bytes_of_lt hres, rfl,
    snprintf_bytes_of_lt (length_of_isHex64Lc hhash), rfl, rfl,
    snprintf_bytes_of_lt (length_of_fitsNonempty hboot), rfl⟩

/-- The records that the broker writes for itself round-trip: a checkpoint of a peer that the kernel
reports, a rate record of any two lists of one length, and a receipt of any arguments, in each case
whenever the builder returns a line. -/
theorem broker_records_round_trip (J : JsonCodec) :
    (∀ (cid : Buf cidMax) (binding : Buf bindingMax) (actor : Actor) (timeUs : UInt64)
      (op res : Buf metaMax) (sc : Buf scopeMax) (line : Bytes), actor.FromPeer →
      cid.bytes ≠ [] → binding.bytes ≠ [] →
      rabBuildCheckpoint J cid.bytes binding.bytes actor timeUs op.bytes res.bytes sc.bytes =
        some line →
      rabParseStored J line = some (.checkpoint ⟨cid, binding, actor, timeUs, op, res, sc⟩)) ∧
    (∀ (uid : UInt32) (times bytes : List UInt64), times.length = bytes.length →
      ∃ entries, rabParseStored J (rabBuildRate J uid (times.zip bytes)) =
          some (.rate uid entries) ∧
        entries.map Prod.fst = times ∧ entries.map Prod.snd = bytes) ∧
    ∀ (cid : Bytes) (state : RcptState) (ckpt : Bool) (verifier : Bytes) (actorUid : UInt32)
      (verb resource : Bytes) (planSchema : Int64) (planHash : Bytes) (issue ttl : UInt64)
      (bootId : Bytes) (accepted : UInt64) (line : Bytes),
      rabBuildReceipt J cid state ckpt verifier actorUid verb resource planSchema.toInt planHash
        issue ttl bootId accepted = some line →
      ∃ c r, rabParseStored J line = some (.receipt c ckpt r) ∧ c.bytes = cstr cid ∧
        r.state = state ∧ r.verifier.bytes = cstr verifier ∧ r.actorUid = actorUid ∧
        r.verb.bytes = cstr verb ∧ r.resource.bytes = cstr resource ∧
        r.planSchema = planSchema.toInt ∧ r.planHash.bytes = cstr planHash ∧
        r.issueBoottimeUs = issue ∧ r.ttlUs = ttl ∧ r.bootId.bytes = cstr bootId ∧
        r.acceptedTimeUs = accepted := by
  refine ⟨?_, ?_, ?_⟩
  · intro cid binding actor timeUs op res sc line hpeer hcid hb h
    exact (rabParseStored_checkpoint hcid hb h).mpr ⟨hpeer, rfl⟩
  · intro uid times bytes hlen
    exact ⟨times.zip bytes, rabParseStored_rate J uid _, List.map_fst_zip (by omega),
      List.map_snd_zip (by omega)⟩
  · intro cid state ckpt verifier actorUid verb resource planSchema planHash issue ttl bootId
      accepted line h
    exact receipt_round_trip h

/-- One record of each kind. -/
theorem broker_records_round_trip_sample :
    (∃ line s, rabBuildCheckpoint jsonText (Sample.cid 2000000 1).bytes (Sample.binding 1).bytes
        (Sample.actor 1000) 2000000 (lit "start") (lit "unit") [] = some line ∧
      rabParseStored jsonText line = some (.checkpoint s) ∧ s.actor = Sample.actor 1000) ∧
    (∃ entries, rabParseStored jsonText (rabBuildRate jsonText 1000 ([3, 5].zip [100, 200])) =
        some (.rate 1000 entries) ∧ entries.map Prod.fst = [3, 5]) ∧
    ∃ line c r, rabBuildReceipt jsonText (Sample.cid 2000000 1).bytes .issued false
        (List.replicate 64 98) 1000 (lit "start") [] 1 Sample.planHash 5 6 Sample.bootId.bytes 7 =
          some line ∧
      rabParseStored jsonText line = some (.receipt c false r) ∧ r.actorUid = 1000 := by
  obtain ⟨hcheckpoint, hrate, hreceipt⟩ := broker_records_round_trip jsonText
  refine ⟨?_, ?_, ?_⟩
  · obtain ⟨line, hline⟩ := Option.isSome_iff_exists.mp (show (rabBuildCheckpoint jsonText
      (Sample.cid 2000000 1).bytes (Sample.binding 1).bytes (Sample.actor 1000) 2000000
      (lit "start") (lit "unit") []).isSome = true by decide +kernel)
    exact ⟨line, _, hline, hcheckpoint _ _ _ _ ⟨lit "start", by decide, by decide⟩
      ⟨lit "unit", by decide, by decide⟩ (Buf.empty _) line (Sample.fromPeer 1000)
      (by decide +kernel) (by decide +kernel) hline, rfl⟩
  · obtain ⟨entries, hread, htimes, -⟩ := hrate 1000 [3, 5] [100, 200] rfl
    exact ⟨entries, hread, htimes⟩
  · obtain ⟨line, hline⟩ := Option.isSome_iff_exists.mp (show (rabBuildReceipt jsonText
      (Sample.cid 2000000 1).bytes .issued false (List.replicate 64 98) 1000 (lit "start") [] 1
      Sample.planHash 5 6 Sample.bootId.bytes 7).isSome = true by decide +kernel)
    obtain ⟨c, r, hread, -, -, -, huid, -⟩ :=
      hreceipt _ .issued false _ 1000 _ _ 1 _ 5 6 _ 7 line hline
    exact ⟨line, c, r, hline, hread, huid⟩

end AuditBroker
