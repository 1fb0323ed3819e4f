import AuditBroker.Record

/-!
# What the reader makes of the builders' lines

For each builder of `record.c`, the result of `rabParseStored` on the line it returns.  Receipts and
rate records always come back as they were written.  An audit record comes back when its peer is one
that the kernel can report and its three domain strings fit the buffers of the reader; a checkpoint
when its peer is one and its id and binding are not empty.
-/

namespace AuditBroker

open Foundation

/-! ## Members -/

@[simp] theorem castPid_toInt (p : Int32) : castPid p.toInt = p := Int32.ofInt_toInt p

/-- The string value of a buffer, when there is one. -/
theorem jsonString_buf_eq_some {cap : ℕ} {b : Buf cap} {v : Json}
    (h : jsonString b.bytes = some v) : v = .str b.bytes ∧ utf8Ok b.bytes = true := by
  have := jsonString_eq_some h
  rwa [cstr_eq_self b.nul_free] at this

theorem string?_buf {cap : ℕ} (b : Buf cap) : (Json.str b.bytes).string? = some b.bytes := by
  rw [Json.string?, cstr_eq_self b.nul_free]

/-- A buffer that was written as a string member is read back, unless it is empty. -/
theorem loadStr_buf {cap : ℕ} {ms : Members} {key : String} {b : Buf cap}
    (h : member? ms key = some (.str b.bytes)) :
    loadStr cap ms key = if b.bytes = [] then none else some b := by
  simp only [loadStr, str?, h, Option.bind_some, string?_buf, copyBounded_bytes]

theorem loadOptStr_buf {cap : ℕ} [NeZero cap] {ms : Members} {key : String} {b : Buf cap}
    (h : member? ms key = some (.str b.bytes)) : loadOptStr cap ms key = some b := by
  simp [loadOptStr, h, Json.isNull, string?_buf]

theorem loadU64_item {ms : Members} {key : String} {n : UInt64}
    (h : member? ms key = some (u64Item n)) : loadU64 ms key = some n := by
  simp [loadU64, str?, h, u64Item, Json.string?, cstr_eq_self]

/-- An object whose names are all allowed. -/
theorem onlyKeys_of_names {ms : Members} {allowed : List String}
    (h : ∀ k ∈ ms.map Prod.fst, k ∈ allowed) : onlyKeys ms allowed = true := by
  refine List.all_eq_true.mpr fun kv hkv => ?_
  simpa using h kv.1 (List.mem_map_of_mem hkv)

/-! ## The peer -/

/-- The reader accepts exactly the peers that the kernel can report, as they were written. -/
theorem loadPeerStrict_eq_some_iff {a a' : Actor} {peer : Json} {ms : Members}
    (h : peerObject a = some peer) (hm : member? ms "peer" = some peer) :
    loadPeerStrict ms = some a' ↔ a.FromPeer ∧ a' = a := by
  obtain ⟨boot, hboot, h⟩ := Option.bind_eq_some_iff.mp h
  obtain ⟨start, hstart, rfl⟩ := Option.map_eq_some_iff.mp h
  obtain ⟨rfl, -⟩ := jsonString_buf_eq_some hboot
  obtain ⟨rfl, -⟩ := jsonString_buf_eq_some hstart
  have hkeys : onlyKeys [("uid", Json.int a.uid.toNat), ("gid", .int a.gid.toNat),
      ("pid", .int a.pid.toInt), ("boot_id", .str a.bootId.bytes),
      ("starttime", .str a.starttime.bytes)] ["uid", "gid", "pid", "boot_id", "starttime"] =
      true := by
    simp [onlyKeys]
  unfold loadPeerStrict
  simp only [hm, Option.bind_some, Json.members?, hkeys, Bool.true_eq_false, if_false]
  rw [loadStr_buf (b := a.bootId) (by simp), loadStr_buf (b := a.starttime) (by simp)]
  simp only [member?_cons, int?, Json.int?, String.reduceEq, if_false, if_true, Option.bind_some,
    castUid_toNat, castPid_toInt]
  constructor
  · intro hsome
    split at hsome
    · simp at hsome
    rename_i hboot'
    split at hsome
    · simp at hsome
    rename_i hstart'
    simp only [Option.bind_some] at hsome
    split at hsome
    · simp at hsome
    rename_i hpos
    split at hsome
    · simp at hsome
    rename_i hdig
    simp only [not_or, not_le] at hpos
    refine ⟨⟨hpos.2.2, hboot', hstart', by simpa using hdig⟩, ?_⟩
    simpa using hsome.symm
  · rintro ⟨hp, rfl⟩
    have hneg : ¬((a'.uid.toNat : ℤ) < 0 ∨ (a'.gid.toNat : ℤ) < 0 ∨ a'.pid.toInt ≤ 0) := by
      have := hp.pid_pos
      omega
    rw [if_neg hp.bootId_ne_nil, if_neg hp.starttime_ne_nil]
    simp only [Option.bind_some, if_neg hneg, hp.starttime_digits, Bool.true_eq_false, if_false]

/-- A peer object is well formed. -/
theorem wf_peerObject {a : Actor} {peer : Json} (h : peerObject a = some peer) :
    peer.wf = true ∧ peer.depth = 1 := by
  obtain ⟨boot, hboot, h⟩ := Option.bind_eq_some_iff.mp h
  obtain ⟨start, hstart, rfl⟩ := Option.map_eq_some_iff.mp h
  have hu := a.uid.toNat_lt
  have hg := a.gid.toNat_lt
  have hp := a.pid.toInt_lt
  have hp' := a.pid.le_toInt
  refine ⟨wf_obj_of_names ["uid", "gid", "pid", "boot_id", "starttime"] (.refl _)
    (by decide) ?_, ?_⟩
  · intro v hv
    simp only [List.map_cons, List.map_nil, List.mem_cons, List.not_mem_nil, or_false] at hv
    rcases hv with rfl | rfl | rfl | rfl | rfl
    · simp only [Json.wf, decide_eq_true_eq]
      omega
    · simp only [Json.wf, decide_eq_true_eq]
      omega
    · simp only [Json.wf, decide_eq_true_eq]
      omega
    · exact wf_of_jsonString hboot
    · exact wf_of_jsonString hstart
  · obtain ⟨rfl, -⟩ := jsonString_eq_some hboot
    obtain ⟨rfl, -⟩ := jsonString_eq_some hstart
    simp [Json.depth, depthMembers]

/-! ## The broker extension -/

/-- The member that `optString` writes for a C string. -/
def optText (key : String) : Option Bytes → Members
  | none => []
  | some s => [(key, .str (cstr s))]

theorem optString_eq_some {key : String} {o : Option Bytes} {ms : Members}
    (h : optString key o = some ms) :
    ms = optText key o ∧ ∀ s ∈ o, utf8Ok (cstr s) = true := by
  cases o with
  | none =>
    cases h
    exact ⟨rfl, by simp⟩
  | some s =>
    obtain ⟨v, hv, rfl⟩ := Option.map_eq_some_iff.mp h
    obtain ⟨rfl, hutf⟩ := jsonString_eq_some hv
    refine ⟨rfl, ?_⟩
    rintro s' ⟨⟩
    exact hutf

/-- An optional member has at most its own name. -/
theorem sublist_optText (key : String) (o : Option Bytes) :
    ((optText key o).map Prod.fst).Sublist [key] := by
  cases o <;> simp [optText]

/-- The values of optional members are well-formed scalars. -/
theorem wf_optText {key : String} {o : Option Bytes} (h : ∀ s ∈ o, utf8Ok (cstr s) = true) :
    (∀ v ∈ (optText key o).map Prod.snd, v.wf = true) ∧ depthMembers (optText key o) = 0 := by
  cases o with
  | none => exact ⟨by simp [optText], rfl⟩
  | some s =>
    refine ⟨?_, by simp [optText, depthMembers, Json.depth]⟩
    intro v hv
    rw [optText, List.map_singleton, List.mem_singleton] at hv
    subst hv
    exact textOk_iff.mpr ⟨h s rfl, nul_notMem_cstr s⟩

section Broker

variable {a : Actor} {binding op res sc : Option Bytes} {t : UInt64} {brk : Members}

/-- The broker extension, as its members. -/
theorem brokerObject_eq_some (h : brokerObject a binding t op res sc = some brk) :
    (∃ peer, peerObject a = some peer ∧
      brk = [("schema_version", .int 1), ("peer", peer)] ++ optText "binding" binding ++
        [("accepted_time_us", u64Item t)] ++ optText "operation" op ++
        optText "resource" res ++ optText "scope" sc) ∧
      (∀ s ∈ binding, utf8Ok (cstr s) = true) ∧ (∀ s ∈ op, utf8Ok (cstr s) = true) ∧
      (∀ s ∈ res, utf8Ok (cstr s) = true) ∧ ∀ s ∈ sc, utf8Ok (cstr s) = true := by
  obtain ⟨peer, hpeer, h⟩ := Option.bind_eq_some_iff.mp h
  obtain ⟨bind, hbind, h⟩ := Option.bind_eq_some_iff.mp h
  obtain ⟨o, ho, h⟩ := Option.bind_eq_some_iff.mp h
  obtain ⟨r, hr, h⟩ := Option.bind_eq_some_iff.mp h
  obtain ⟨s, hs, rfl⟩ := Option.map_eq_some_iff.mp h
  obtain ⟨rfl, hb⟩ := optString_eq_some hbind
  obtain ⟨rfl, ho'⟩ := optString_eq_some ho
  obtain ⟨rfl, hr'⟩ := optString_eq_some hr
  obtain ⟨rfl, hs'⟩ := optString_eq_some hs
  exact ⟨⟨peer, hpeer, rfl⟩, hb, ho', hr', hs'⟩

/-- A decimal string is well formed. -/
theorem wf_u64Item (n : UInt64) : (u64Item n).wf = true :=
  textOk_iff.mpr ⟨utf8Ok_decimal _, nul_notMem_decimal _⟩

/-- The broker extension is well formed and two levels deep. -/
theorem wf_brokerObject (h : brokerObject a binding t op res sc = some brk) :
    (Json.obj brk).wf = true ∧ (Json.obj brk).depth = 2 := by
  obtain ⟨⟨peer, hpeer, rfl⟩, hb, ho, hr, hs⟩ := brokerObject_eq_some h
  obtain ⟨hpwf, hpd⟩ := wf_peerObject hpeer
  constructor
  · refine wf_obj_of_names (["schema_version", "peer"] ++ ["binding"] ++ ["accepted_time_us"] ++
      ["operation"] ++ ["resource"] ++ ["scope"]) ?_ (by decide) ?_
    · simp only [List.map_append]
      exact (((((List.Sublist.refl _).append (sublist_optText _ _)).append (.refl _)).append
        (sublist_optText _ _)).append (sublist_optText _ _)).append (sublist_optText _ _)
    · simp only [List.map_append, List.forall_mem_append]
      refine ⟨⟨⟨⟨⟨?_, (wf_optText hb).1⟩, ?_⟩, (wf_optText ho).1⟩, (wf_optText hr).1⟩,
        (wf_optText hs).1⟩
      · simp [Json.wf, hpwf]
      · simp [wf_u64Item]
  · simp [Json.depth, depthMembers, hpd, (wf_optText hb).2, (wf_optText ho).2,
      (wf_optText hr).2, (wf_optText hs).2, u64Item]

end Broker

/-! ## Audit records -/

/-- A character of the canonical timestamp. -/
private theorem timeChar_ok (n : ℕ) :
    UInt8.ofNat (48 + n % 10) < 0x80 ∧ UInt8.ofNat (48 + n % 10) ≠ 0 := by
  have h : n % 10 < 10 := Nat.mod_lt _ (by norm_num)
  generalize n % 10 = d at h
  interval_cases d <;> decide

/-- The characters of a literal, checked one by one. -/
theorem ascii_of_all {s : Bytes} (h : (s.all fun c => decide (c < 0x80) && decide (c ≠ 0)) = true) :
    ∀ c ∈ s, c < 0x80 ∧ c ≠ 0 := by
  intro c hc
  have hchar := List.all_eq_true.mp h c hc
  rwa [Bool.and_eq_true, decide_eq_true_eq, decide_eq_true_eq] at hchar

/-- The canonical timestamp is text. -/
theorem textOk_formatRfc3339 (t : UInt64) : textOk (formatRfc3339 t) = true := by
  have hchar : ∀ c ∈ formatRfc3339 t, c < 0x80 ∧ c ≠ 0 := by
    have htwo : ∀ n, ∀ c ∈ twoDigits n, c < 0x80 ∧ c ≠ 0 := by
      intro n c hc
      rcases List.mem_pair.mp hc with rfl | rfl
      · exact timeChar_ok (n / 10)
      · exact timeChar_ok n
    have hdec : ∀ n, ∀ c ∈ decimal n, c < 0x80 ∧ c ≠ 0 := fun n c hc =>
      lt_of_isDigit (isDigit_of_mem_decimal hc)
    simp only [formatRfc3339, List.forall_mem_append]
    exact ⟨⟨⟨⟨⟨⟨⟨⟨⟨⟨⟨hdec _, ascii_of_all (by decide)⟩, htwo _⟩, ascii_of_all (by decide)⟩, htwo _⟩,
      ascii_of_all (by decide)⟩, htwo _⟩, ascii_of_all (by decide)⟩, htwo _⟩,
      ascii_of_all (by decide)⟩, htwo _⟩, ascii_of_all (by decide)⟩
  exact textOk_iff.mpr ⟨utf8Ok_of_ascii fun c hc => (hchar c hc).1, fun h => (hchar 0 h).2 rfl⟩

/-- The names that `rab_build_audit` stamps before the domain fields. -/
abbrev framingNames : List String :=
  ["schema_version", "record_type", "correlation_id", "phase", "host", "pid", "actor"]

/-- The names of the domain fields. -/
abbrev schemaNames : List String := recordSchema.map FieldSpec.key

/-- A client record has only names of the schema. -/
theorem RecordOk.names {record : Members} (h : RecordOk record) :
    ∀ k ∈ record.map Prod.fst, k ∈ schemaNames := by
  intro k hk
  obtain ⟨kv, hkv, rfl⟩ := List.mem_map.mp hk
  have hf := h.fields kv hkv
  unfold fieldOk at hf
  split at hf
  · rename_i f hfind
    have hmem : f ∈ recordSchema := List.mem_of_find?_eq_some hfind
    have hkey : f.key = kv.1 := by simpa using List.find?_some hfind
    exact List.mem_map.mpr ⟨f, hmem, hkey⟩
  · cases hf

/-- A name that is not in the schema is not in a client record. -/
theorem RecordOk.member?_eq_none {record : Members} (h : RecordOk record) {k : String}
    (hk : k ∉ schemaNames) : member? record k = none :=
  Foundation.member?_eq_none fun hmem => hk (h.names k hmem)

/-- The names of an audit record are distinct. -/
theorem RecordOk.nodup_audit {record framing : Members} (h : RecordOk record)
    (hf : framing.map Prod.fst = framingNames) (t b : Json) :
    ((framing ++ (record ++ [("time", t), ("broker", b)])).map Prod.fst).Nodup := by
  have hdisj : ∀ k ∈ schemaNames, k ∉ framingNames ∧ k ∉ ["time", "broker"] := by decide
  have hstamp : ∀ k ∈ framingNames, k ∉ ["time", "broker"] := by decide
  have htail : ([("time", t), ("broker", b)] : Members).map Prod.fst = ["time", "broker"] := rfl
  rw [List.map_append, List.map_append, hf, htail]
  refine List.nodup_append.mpr ⟨by decide, List.nodup_append.mpr ⟨(wf_obj_iff.mp h.wf).1,
    by decide, ?_⟩, ?_⟩
  · rintro k hk _ hk' rfl
    exact (hdisj k (h.names k hk)).2 hk'
  · rintro k hk _ hk' rfl
    rcases List.mem_append.mp hk' with hk' | hk'
    · exact (hdisj k (h.names k hk')).1 hk
    · exact hstamp k hk hk'

/-- The members of an audit record: framing, domain fields, time and broker extension. -/
theorem auditRoot_eq {record framing : Members} (h : RecordOk record)
    (hf : framing.map Prod.fst = framingNames) (t b : Json) :
    setMember (setMember (record.foldl (fun acc kv => setMember acc kv.1 kv.2) framing) "time" t)
      "broker" b = framing ++ (record ++ [("time", t), ("broker", b)]) := by
  rw [← foldl_setMember_eq_append (h.nodup_audit hf t b), List.foldl_append]
  rfl

/-- The canonical framing. -/
theorem auditFraming_eq_some {phase cid host : Bytes} {actor : Actor} {framing : Members}
    (h : auditFraming phase cid actor host = some framing) :
    framing = [("schema_version", .int recordSchemaVersion), ("record_type", .str (lit "audit")),
      ("correlation_id", .str (cstr cid)), ("phase", .str (cstr phase)),
      ("host", .str (cstr host)), ("pid", .int actor.pid.toInt),
      ("actor", .str (actorText actor.uid))] ∧
      utf8Ok (cstr cid) = true ∧ utf8Ok (cstr phase) = true ∧ utf8Ok (cstr host) = true := by
  obtain ⟨c, hc, h⟩ := Option.bind_eq_some_iff.mp h
  obtain ⟨p, hp, h⟩ := Option.bind_eq_some_iff.mp h
  obtain ⟨hst, hh, rfl⟩ := Option.map_eq_some_iff.mp h
  obtain ⟨rfl, hc'⟩ := jsonString_eq_some hc
  obtain ⟨rfl, hp'⟩ := jsonString_eq_some hp
  obtain ⟨rfl, hh'⟩ := jsonString_eq_some hh
  exact ⟨rfl, hc', hp', hh'⟩

/-- The actor field is text. -/
theorem textOk_actorText (u : UInt32) : textOk (actorText u) = true := by
  have hchar : ∀ c ∈ actorText u, c < 0x80 ∧ c ≠ 0 := by
    simp only [actorText, List.forall_mem_append]
    exact ⟨ascii_of_all (by decide), fun c hc => lt_of_isDigit (isDigit_of_mem_decimal hc)⟩
  exact textOk_iff.mpr ⟨utf8Ok_of_ascii fun c hc => (hchar c hc).1, fun h => (hchar 0 h).2 rfl⟩

/-- The members of an audit record whose strings are C strings of any length. -/
def stampedMembers (phase cid : Bytes) (actor : Actor) (host : Bytes) (timeUs : UInt64)
    (record brk : Members) : Members :=
  [("schema_version", .int recordSchemaVersion), ("record_type", .str (lit "audit")),
    ("correlation_id", .str (cstr cid)), ("phase", .str (cstr phase)), ("host", .str (cstr host)),
    ("pid", .int actor.pid.toInt), ("actor", .str (actorText actor.uid))] ++
  (record ++ [("time", .str (formatRfc3339 timeUs)), ("broker", .obj brk)])

section Stamped

variable {J : JsonCodec} {phase cid host : Bytes} {binding : Option Bytes} {actor : Actor}
  {timeUs : UInt64} {record brk : Members} {line : Bytes}

/-- The text of an audit record is that of its members, and the reader sees them. -/
theorem rabBuildAudit_stamped (hrec : RecordOk record)
    (h : rabBuildAudit J phase cid binding actor host timeUs record = some line) :
    ∃ brk, brokerObject actor binding timeUs none none none = some brk ∧
      line = J.dumps (.obj (stampedMembers phase cid actor host timeUs record brk)) ∧
      J.loadb line = some (.obj (stampedMembers phase cid actor host timeUs record brk)) := by
  obtain ⟨framing, hframing, h⟩ := Option.bind_eq_some_iff.mp h
  obtain ⟨brk, hbrk, rfl⟩ := Option.map_eq_some_iff.mp h
  obtain ⟨rfl, hcid, hphase, hhost⟩ := auditFraming_eq_some hframing
  obtain ⟨hbwf, hbd⟩ := wf_brokerObject hbrk
  have hpid := actor.pid.toInt_lt
  have hpid' := actor.pid.le_toInt
  dsimp only
  rw [auditRoot_eq hrec rfl]
  refine ⟨brk, hbrk, rfl, J.loadb_dumps _ ?_ ?_⟩
  · refine wf_obj_iff.mpr ⟨hrec.nodup_audit rfl _ _, ?_⟩
    rw [wfMembers_append, wfMembers_append, (wf_obj_iff.mp hrec.wf).2]
    have hframe : wfMembers [("schema_version", .int recordSchemaVersion),
        ("record_type", .str (lit "audit")), ("correlation_id", .str (cstr cid)),
        ("phase", .str (cstr phase)), ("host", .str (cstr host)), ("pid", .int actor.pid.toInt),
        ("actor", .str (actorText actor.uid))] = true := by
      refine (wf_obj_iff.mp (wf_obj_of_names framingNames (.refl _) (by decide) ?_)).2
      intro v hv
      simp only [List.map_cons, List.map_nil, List.mem_cons, List.not_mem_nil, or_false] at hv
      rcases hv with rfl | rfl | rfl | rfl | rfl | rfl | rfl
      · rfl
      · decide
      · exact textOk_iff.mpr ⟨hcid, nul_notMem_cstr _⟩
      · exact textOk_iff.mpr ⟨hphase, nul_notMem_cstr _⟩
      · exact textOk_iff.mpr ⟨hhost, nul_notMem_cstr _⟩
      · simp only [Json.wf, decide_eq_true_eq]
        omega
      · exact textOk_actorText _
    have htail : wfMembers [("time", .str (formatRfc3339 timeUs)), ("broker", .obj brk)] = true := by
      refine (wf_obj_iff.mp (wf_obj_of_names ["time", "broker"] (.refl _) (by decide) ?_)).2
      intro v hv
      simp only [List.map_cons, List.map_nil, List.mem_cons, List.not_mem_nil, or_false] at hv
      rcases hv with rfl | rfl
      · exact textOk_formatRfc3339 timeUs
      · exact hbwf
    rw [hframe, htail]
    rfl
  · have hd : depthMembers record ≤ 8 := hrec.depth_le
    simp only [Json.depth, depthMembers_append, depthMembers, maxLoadDepth] at hbd ⊢
    omega

end Stamped

/-- The members of an audit record. -/
def auditMembers (phase : Buf 16) (cid : Buf cidMax) (actor : Actor) (host : Buf 256)
    (timeUs : UInt64) (record brk : Members) : Members :=
  [("schema_version", .int recordSchemaVersion), ("record_type", .str (lit "audit")),
    ("correlation_id", .str cid.bytes), ("phase", .str phase.bytes), ("host", .str host.bytes),
    ("pid", .int actor.pid.toInt), ("actor", .str (actorText actor.uid))] ++
  (record ++ [("time", .str (formatRfc3339 timeUs)), ("broker", .obj brk)])

theorem stampedMembers_bytes (phase : Buf 16) (cid : Buf cidMax) (actor : Actor) (host : Buf 256)
    (timeUs : UInt64) (record brk : Members) :
    stampedMembers phase.bytes cid.bytes actor host.bytes timeUs record brk =
      auditMembers phase cid actor host timeUs record brk := by
  simp only [stampedMembers, auditMembers, cstr_eq_self phase.nul_free, cstr_eq_self cid.nul_free,
    cstr_eq_self host.nul_free]

section Audit

variable {J : JsonCodec} {phase : Buf 16} {cid : Buf cidMax} {binding : Option (Buf bindingMax)}
  {actor : Actor} {host : Buf 256} {timeUs : UInt64} {record : Members} {line : Bytes}

/-- The reader of an audit line sees its members. -/
theorem loadb_rabBuildAudit (hrec : RecordOk record)
    (h : rabBuildAudit J phase.bytes cid.bytes (binding.map Buf.bytes) actor host.bytes timeUs
      record = some line) :
    ∃ brk, brokerObject actor (binding.map Buf.bytes) timeUs none none none = some brk ∧
      J.loadb line = some (.obj (auditMembers phase cid actor host timeUs record brk)) := by
  obtain ⟨brk, hbrk, -, hload⟩ := rabBuildAudit_stamped hrec h
  exact ⟨brk, hbrk, by rw [hload, stampedMembers_bytes]⟩

/-- The broker extension of an audit record, member by member. -/
theorem member?_auditBroker {brk : Members}
    (h : brokerObject actor (binding.map Buf.bytes) timeUs none none none = some brk) :
    (∃ peer, peerObject actor = some peer ∧ member? brk "peer" = some peer) ∧
      member? brk "schema_version" = some (.int 1) ∧
      member? brk "accepted_time_us" = some (u64Item timeUs) ∧
      member? brk "binding" = binding.map (fun b => .str b.bytes) ∧
      onlyKeys brk ["schema_version", "peer", "accepted_time_us", "binding"] = true := by
  obtain ⟨⟨peer, hpeer, rfl⟩, -⟩ := brokerObject_eq_some h
  cases binding with
  | none => simp [optText, onlyKeys, hpeer]
  | some b => simp [optText, onlyKeys, hpeer, cstr_eq_self b.nul_free]

/-- The binding of a broker extension, empty when there is none. -/
theorem loadBinding_eq {brk : Members} (hm : member? brk "binding" = binding.map (fun b => .str b.bytes))
    (hb : ∀ b ∈ binding, b.bytes ≠ []) : loadBinding brk = some (binding.getD (Buf.empty _)) := by
  cases binding with
  | none => simp [loadBinding, hm]
  | some b =>
    have hne : b.bytes ≠ [] := hb b rfl
    simp only [Option.map_some] at hm
    simp [loadBinding, hm, loadStr_buf hm, hne]

/-- What the reader makes of an audit line: it is accepted exactly when the peer is one that the
kernel can report and the three domain strings fit, and then everything the broker stamped comes
back. -/
theorem rabParseStored_audit (hrec : RecordOk record) (hcid : cid.bytes ≠ [])
    (hphase : phase.bytes ≠ []) (hb : ∀ b ∈ binding, b.bytes ≠ [])
    (hib : phase = phaseIntent ↔ binding.isSome = true)
    (h : rabBuildAudit J phase.bytes cid.bytes (binding.map Buf.bytes) actor host.bytes timeUs
      record = some line) {st : Stored} :
    rabParseStored J line = some st ↔
      actor.FromPeer ∧ ∃ op res sc, loadOptStr metaMax record "operation" = some op ∧
        loadOptStr metaMax record "resource" = some res ∧
        loadOptStr scopeMax record "scope" = some sc ∧
        st = .audit ⟨cid, binding.getD (Buf.empty _), actor, timeUs, op, res, sc⟩ phase := by
  obtain ⟨brk, hbrk, hload⟩ := loadb_rabBuildAudit hrec h
  obtain ⟨⟨peer, hpeer, hmp⟩, hsv, hats, hbind, honly⟩ := member?_auditBroker hbrk
  set ms := auditMembers phase cid actor host timeUs record brk with hms
  have hstamp : ∀ k ∈ framingNames ++ ["time", "broker"], member? record k = none := by
    intro k hk
    have hdisj : ∀ k ∈ framingNames ++ ["time", "broker"], k ∉ schemaNames := by decide
    exact hrec.member?_eq_none (hdisj k hk)
  have hdomain : ∀ k ∈ schemaNames, member? ms k = member? record k := by
    intro k hk
    have hframe : ∀ k ∈ schemaNames, k ∉ framingNames ++ ["time", "broker"] := by decide
    have hk' := hframe k hk
    simp only [List.cons_append, List.nil_append, List.mem_cons, List.not_mem_nil, or_false,
      not_or] at hk'
    rw [hms, auditMembers, member?_append, member?_append]
    simp [member?_cons, Ne.symm hk'.1, Ne.symm hk'.2.1, Ne.symm hk'.2.2.1, Ne.symm hk'.2.2.2.1,
      Ne.symm hk'.2.2.2.2.1, Ne.symm hk'.2.2.2.2.2.1, Ne.symm hk'.2.2.2.2.2.2.1,
      Ne.symm hk'.2.2.2.2.2.2.2.1, Ne.symm hk'.2.2.2.2.2.2.2.2]
  have hbroker : member? ms "broker" = some (.obj brk) := by
    rw [hms, auditMembers, member?_append, member?_append, hstamp "broker" (by simp)]
    simp
  have hopt : ∀ (cap : ℕ) [NeZero cap], ∀ k ∈ schemaNames,
      loadOptStr cap ms k = loadOptStr cap record k := by
    intro cap _ k hk
    rw [loadOptStr, loadOptStr, hdomain k hk]
  have hmcid : member? ms "correlation_id" = some (.str cid.bytes) := by simp [hms, auditMembers]
  have hmphase : member? ms "phase" = some (.str phase.bytes) := by simp [hms, auditMembers]
  have hpid : int? (member? ms "pid") = some actor.pid.toInt := by
    simp [hms, auditMembers, int?, Json.int?]
  have hactor : str? (member? ms "actor") = some (actorText actor.uid) := by
    simp [hms, auditMembers, str?, Json.string?,
      cstr_eq_self (textOk_iff.mp (textOk_actorText actor.uid)).2]
  have hread : rabParseStored J line = parseIntent ms true := by
    have htype : str? (member? ms "record_type") = some (lit "audit") := by
      simp only [hms, auditMembers, List.cons_append, member?_cons, String.reduceEq, if_false,
        if_true, str?, Option.bind_some, Json.string?]
      decide
    have hver : int? (member? ms "schema_version") = some recordSchemaVersion := by
      simp [hms, auditMembers, int?, Json.int?]
    rw [rabParseStored, hload]
    simp [htype, hver]
  have hmatch : decide (phase = phaseIntent) = (member? brk "binding").isSome := by
    rw [hbind, Option.isSome_map, Bool.eq_iff_iff, decide_eq_true_eq]
    exact hib
  rw [hread, parseIntent, loadStr_buf hmcid, if_neg hcid, loadStr_buf hmphase, if_neg hphase]
  simp only [Option.bind_some, hbroker, Json.members?, hsv, int?, Json.int?, ne_eq,
    not_true_eq_false, if_false, loadU64_item hats, loadBinding_eq hbind hb, if_true, honly,
    Bool.true_eq_false, hmatch]
  by_cases hp : actor.FromPeer
  · have hload' : loadPeerStrict brk = some actor :=
      (loadPeerStrict_eq_some_iff hpeer hmp).mpr ⟨hp, rfl⟩
    simp only [int?] at hpid
    simp only [hload', Option.bind_some, hpid, Option.map_some, castPid_toInt, not_true_eq_false,
      if_false, hactor, hopt _ "operation" (by decide), hopt _ "resource" (by decide),
      hopt _ "scope" (by decide), Option.map_eq_some_iff, Option.bind_eq_some_iff, hp, true_and]
    constructor
    · rintro ⟨_, ⟨op, hop, res, hres, sc, hsc, rfl⟩, rfl⟩
      exact ⟨op, res, sc, hop, hres, hsc, rfl⟩
    · rintro ⟨op, res, sc, hop, hres, hsc, rfl⟩
      exact ⟨_, ⟨op, hop, res, hres, sc, hsc, rfl⟩, rfl⟩
  · have hload' : loadPeerStrict brk = none := by
      rw [Option.eq_none_iff_forall_ne_some]
      intro a' ha'
      exact hp ((loadPeerStrict_eq_some_iff hpeer hmp).mp ha').1
    simp [hload', hp]

end Audit

/-! ## Checkpoints -/

/-- What the reader makes of a checkpoint line. -/
theorem rabParseStored_checkpoint {J : JsonCodec} {cid : Buf cidMax} {binding : Buf bindingMax}
    {actor : Actor} {timeUs : UInt64} {op res : Buf metaMax} {sc : Buf scopeMax} {line : Bytes}
    (hcid : cid.bytes ≠ []) (hb : binding.bytes ≠ [])
    (h : rabBuildCheckpoint J cid.bytes binding.bytes actor timeUs op.bytes res.bytes sc.bytes =
      some line) {st : Stored} :
    rabParseStored J line = some st ↔
      actor.FromPeer ∧ st = .checkpoint ⟨cid, binding, actor, timeUs, op, res, sc⟩ := by
  obtain ⟨brk, hbrk, h⟩ := Option.bind_eq_some_iff.mp h
  obtain ⟨c, hc, rfl⟩ := Option.map_eq_some_iff.mp h
  obtain ⟨rfl, hutf⟩ := jsonString_buf_eq_some hc
  obtain ⟨hbwf, hbd⟩ := wf_brokerObject hbrk
  obtain ⟨⟨peer, hpeer, rfl⟩, -⟩ := brokerObject_eq_some hbrk
  simp only [optText, List.cons_append, List.nil_append, cstr_eq_self binding.nul_free,
    cstr_eq_self op.nul_free, cstr_eq_self res.nul_free, cstr_eq_self sc.nul_free] at hbwf hbd ⊢
  set brk := [("schema_version", Json.int 1), ("peer", peer), ("binding", .str binding.bytes),
    ("accepted_time_us", u64Item timeUs), ("operation", .str op.bytes),
    ("resource", .str res.bytes), ("scope", .str sc.bytes)] with hbrkdef
  set ms := [("schema_version", Json.int recordSchemaVersion),
    ("record_type", .str (lit "broker_checkpoint")), ("correlation_id", .str cid.bytes),
    ("broker", .obj brk)] with hms
  have hload : J.loadb (J.dumps (.obj ms)) = some (.obj ms) := by
    refine J.loadb_dumps ms ?_ ?_
    · refine wf_obj_of_names ["schema_version", "record_type", "correlation_id", "broker"] (.refl _)
        (by decide) ?_
      intro v hv
      simp only [hms, List.map_cons, List.map_nil, List.mem_cons, List.not_mem_nil, or_false] at hv
      rcases hv with rfl | rfl | rfl | rfl
      · rfl
      · decide
      · exact textOk_iff.mpr ⟨hutf, cid.nul_free⟩
      · exact hbwf
    · rw [hms, Json.depth]
      simp only [depthMembers, hbd, maxLoadDepth]
      simp [Json.depth]
  have hread : rabParseStored J (J.dumps (.obj ms)) = parseIntent ms false := by
    have htype : str? (member? ms "record_type") = some (lit "broker_checkpoint") := by
      simp only [hms, member?_cons, String.reduceEq, if_false, if_true, str?, Option.bind_some,
        Json.string?]
      decide
    have hver : int? (member? ms "schema_version") = some recordSchemaVersion := by
      simp [hms, int?, Json.int?]
    rw [rabParseStored, hload]
    simp [htype, hver]
  have hmbind : member? brk "binding" = (some binding).map (fun b => .str b.bytes) := by
    simp [hbrkdef]
  have hbroker : member? ms "broker" = some (.obj brk) := by simp [hms]
  have honly : onlyKeys ms ["schema_version", "record_type", "correlation_id", "broker"] = true ∧
      onlyKeys brk ["schema_version", "peer", "accepted_time_us", "binding", "operation",
        "resource", "scope"] = true := by
    simp [hms, hbrkdef, onlyKeys]
  have hsv : int? (member? brk "schema_version") = some 1 := by simp [hbrkdef, int?, Json.int?]
  have hats : loadU64 brk "accepted_time_us" = some timeUs := loadU64_item (by simp [hbrkdef])
  have hop : loadOptStr metaMax brk "operation" = some op := loadOptStr_buf (by simp [hbrkdef])
  have hres : loadOptStr metaMax brk "resource" = some res := loadOptStr_buf (by simp [hbrkdef])
  have hsc : loadOptStr scopeMax brk "scope" = some sc := loadOptStr_buf (by simp [hbrkdef])
  rw [hread, parseIntent, loadStr_buf (b := cid) (by simp [hms]), if_neg hcid]
  simp only [Option.bind_some, hbroker, Json.members?, hsv, ne_eq, not_true_eq_false, if_false,
    hats, loadBinding_eq hmbind (by simpa using hb), honly.1, honly.2, Bool.true_eq_false, hmbind,
    Option.map_some, Option.isSome_some, Bool.false_eq_true, hop, hres, hsc]
  rw [Option.bind_eq_some_iff]
  constructor
  · rintro ⟨a', ha', hst⟩
    obtain ⟨hp, rfl⟩ := (loadPeerStrict_eq_some_iff hpeer (by simp [hbrkdef])).mp ha'
    exact ⟨hp, by simpa using hst.symm⟩
  · rintro ⟨hp, rfl⟩
    exact ⟨actor, (loadPeerStrict_eq_some_iff hpeer (by simp [hbrkdef])).mpr ⟨hp, rfl⟩, by simp⟩

/-! ## Rate records -/

@[simp] theorem itemU64_u64Item (n : UInt64) : itemU64 (u64Item n) = some n := by
  simp [itemU64, u64Item, Json.string?, cstr_eq_self]

/-- An array of decimal strings is read back. -/
theorem mapM_itemU64 {α : Type} (f : α → UInt64) (xs : List α) :
    (xs.map fun x => u64Item (f x)).mapM itemU64 = some (xs.map f) := by
  induction xs with
  | nil => rfl
  | cons x xs ih => simp [ih]

/-- Decimal strings are scalars. -/
theorem depthItems_u64Item {α : Type} (f : α → UInt64) (xs : List α) :
    depthItems (xs.map fun x => u64Item (f x)) = 0 := by
  induction xs with
  | nil => rfl
  | cons x xs ih =>
    rw [List.map_cons, depthItems, ih]
    simp [u64Item, Json.depth]

/-- A rate record is read back as it was written. -/
theorem rabParseStored_rate (J : JsonCodec) (uid : UInt32) (entries : List (UInt64 × UInt64)) :
    rabParseStored J (rabBuildRate J uid entries) = some (.rate uid entries) := by
  set ms := [("schema_version", Json.int recordSchemaVersion),
    ("record_type", .str (lit "broker_rate")), ("uid", .int uid.toNat),
    ("times_us", .arr (entries.map fun e => u64Item e.1)),
    ("bytes", .arr (entries.map fun e => u64Item e.2))] with hms
  have hu := uid.toNat_lt
  have hitems : ∀ f : UInt64 × UInt64 → UInt64,
      (Json.arr (entries.map fun e => u64Item (f e))).wf = true := by
    intro f
    rw [Json.wf, wfItems_iff]
    intro v hv
    obtain ⟨e, -, rfl⟩ := List.mem_map.mp hv
    exact wf_u64Item _
  have hload : J.loadb (rabBuildRate J uid entries) = some (.obj ms) := by
    refine J.loadb_dumps ms ?_ ?_
    · refine wf_obj_of_names ["schema_version", "record_type", "uid", "times_us", "bytes"]
        (.refl _) (by decide) ?_
      intro v hv
      simp only [hms, List.map_cons, List.map_nil, List.mem_cons, List.not_mem_nil, or_false] at hv
      rcases hv with rfl | rfl | rfl | rfl | rfl
      · rfl
      · decide
      · simp only [Json.wf, decide_eq_true_eq]
        omega
      · exact hitems Prod.fst
      · exact hitems Prod.snd
    · simp [hms, Json.depth, depthMembers, depthItems_u64Item, maxLoadDepth]
  have htype : str? (member? ms "record_type") = some (lit "broker_rate") := by
    simp only [hms, member?_cons, String.reduceEq, if_false, if_true, str?, Option.bind_some,
      Json.string?]
    decide
  have hkeys : onlyKeys ms ["schema_version", "record_type", "uid", "times_us", "bytes"] = true := by
    simp [hms, onlyKeys]
  have hzip : (entries.map Prod.fst).zip (entries.map Prod.snd) = entries := by
    rw [List.zip_map', List.map_id'']
    simp
  have hver : int? (member? ms "schema_version") = some recordSchemaVersion := by
    simp [hms, int?, Json.int?]
  have huid : int? (member? ms "uid") = some (uid.toNat : ℤ) := by simp [hms, int?, Json.int?]
  have htimes : (member? ms "times_us").bind Json.items? =
      some (entries.map fun e => u64Item e.1) := by simp [hms, Json.items?]
  have hbytes : (member? ms "bytes").bind Json.items? =
      some (entries.map fun e => u64Item e.2) := by simp [hms, Json.items?]
  have hread : rabParseStored J (rabBuildRate J uid entries) = parseRate ms := by
    rw [rabParseStored, hload]
    simp [htype, hver]
  have hpos : ¬((uid.toNat : ℤ) < 0 ∨
      (entries.map fun e => u64Item e.2).length ≠ (entries.map fun e => u64Item e.1).length) := by
    simp
  rw [hread, parseRate, hkeys, huid, htimes, hbytes]
  simp only [Bool.true_eq_false, if_false, Option.bind_some, if_neg hpos,
    mapM_itemU64 Prod.fst entries, mapM_itemU64 Prod.snd entries, Option.map_some, castUid_toNat,
    hzip]

/-! ## Receipts -/

/-- A C string that fits is read back from a string member. -/
theorem loadStr_cstr {cap : ℕ} [NeZero cap] {ms : Members} {key : String} {s : Bytes}
    (h : member? ms key = some (.str (cstr s))) (hs : fitsNonempty cap s = true) :
    loadStr cap ms key = some (Buf.snprintf cap s) := by
  simp only [fitsNonempty, Bool.and_eq_true, decide_eq_true_eq] at hs
  have hcopy : copyBounded cap (cstr s) = some (Buf.snprintf cap (cstr s)) :=
    copyBounded_eq_snprintf (by simpa using hs.2)
  simp [loadStr, str?, h, Json.string?, hs.1, hcopy]

/-- A digest is read back from a string member. -/
theorem loadHex64_cstr {ms : Members} {key : String} {s : Bytes}
    (h : member? ms key = some (.str (cstr s))) (hs : isHex64Lc s = true) :
    loadHex64 ms key = some (Buf.snprintf hex64Max s) := by
  have hlen : (cstr s).length = 64 := by
    simp only [isHex64Lc, isHexLcN, Bool.and_eq_true, beq_iff_eq] at hs
    exact hs.1
  have hcopy : copyBounded hex64Max (cstr s) = some (Buf.snprintf hex64Max (cstr s)) :=
    copyBounded_eq_snprintf (by rw [cstr_cstr, hlen]; decide)
  have hhex : isHexLcN 64 (cstr s) = true := hs
  simp [loadHex64, str?, h, Json.string?, Option.filter_some, hhex, hcopy]

/-- The members of a receipt record. -/
def receiptMembers (cid : Bytes) (state : RcptState) (ckpt : Bool) (verifier : Bytes)
    (actorUid : UInt32) (verb resource : Bytes) (planSchema : ℤ) (planHash : Bytes)
    (issue ttl : UInt64) (bootId : Bytes) (accepted : UInt64) : Members :=
  [("schema_version", .int recordSchemaVersion), ("record_type", .str (lit "broker_receipt")),
    ("state_schema_version", .int brokerStateSchemaVersion), ("correlation_id", .str (cstr cid)),
    ("checkpoint", .bool ckpt), ("state", .str (lit state.text)),
    ("verifier", .str (cstr verifier)), ("actor_uid", .int actorUid.toNat),
    ("verb", .str (cstr verb)), ("resource", .str (cstr resource)),
    ("plan_schema", .int planSchema), ("plan_hash", .str (cstr planHash)),
    ("issue_boottime_us", u64Item issue), ("ttl_us", u64Item ttl),
    ("boot_id", .str (cstr bootId)), ("accepted_time_us", u64Item accepted)]

/-- The names of a receipt record. -/
abbrev receiptNames : List String :=
  ["schema_version", "record_type", "state_schema_version", "correlation_id", "checkpoint",
    "state", "verifier", "actor_uid", "verb", "resource", "plan_schema", "plan_hash",
    "issue_boottime_us", "ttl_us", "boot_id", "accepted_time_us"]

section Receipt

variable {J : JsonCodec} {cid : Bytes} {state : RcptState} {ckpt : Bool} {verifier : Bytes}
  {actorUid : UInt32} {verb resource : Bytes} {planSchema : ℤ} {planHash : Bytes}
  {issue ttl : UInt64} {bootId : Bytes} {accepted : UInt64} {line : Bytes}

/-- The text of a receipt record is that of its members, which the reader sees. -/
theorem loadb_rabBuildReceipt (hps : planSchema < 2 ^ 63)
    (h : rabBuildReceipt J cid state ckpt verifier actorUid verb resource planSchema planHash issue
      ttl bootId accepted = some line) :
    receiptArgsOk cid verifier verb resource planSchema planHash bootId = true ∧
      J.loadb line = some (.obj (receiptMembers cid state ckpt verifier actorUid verb resource
        planSchema planHash issue ttl bootId accepted)) := by
  unfold rabBuildReceipt at h
  split at h
  · cases h
  rename_i hargs
  rw [Bool.not_eq_false] at hargs
  obtain ⟨c, hc, h⟩ := Option.bind_eq_some_iff.mp h
  obtain ⟨v, hv, h⟩ := Option.bind_eq_some_iff.mp h
  obtain ⟨vb, hvb, h⟩ := Option.bind_eq_some_iff.mp h
  obtain ⟨rs, hrs, h⟩ := Option.bind_eq_some_iff.mp h
  obtain ⟨ph, hph, h⟩ := Option.bind_eq_some_iff.mp h
  obtain ⟨bt, hbt, rfl⟩ := Option.map_eq_some_iff.mp h
  obtain ⟨rfl, -⟩ := jsonString_eq_some hc
  obtain ⟨rfl, -⟩ := jsonString_eq_some hv
  obtain ⟨rfl, -⟩ := jsonString_eq_some hvb
  obtain ⟨rfl, -⟩ := jsonString_eq_some hrs
  obtain ⟨rfl, -⟩ := jsonString_eq_some hph
  obtain ⟨rfl, -⟩ := jsonString_eq_some hbt
  refine ⟨hargs, J.loadb_dumps _ (wf_obj_of_names receiptNames (.refl _) (by decide) ?_) ?_⟩
  · have hu := actorUid.toNat_lt
    have hschema : 1 ≤ planSchema := by
      simp only [receiptArgsOk, Bool.and_eq_true, decide_eq_true_eq] at hargs
      exact hargs.1.2
    have hint : ∀ n : ℤ, 0 ≤ n → n < 2 ^ 63 → (Json.int n).wf = true := by
      intro n h0 h1
      simp only [Json.wf, decide_eq_true_eq]
      omega
    have hstate : (Json.str (lit state.text)).wf = true := by cases state <;> decide
    simp only [List.map_cons, List.map_nil, List.forall_mem_cons]
    refine ⟨rfl, by decide, rfl, wf_of_jsonString hc, rfl, hstate, wf_of_jsonString hv,
      hint _ (by omega) (by omega), wf_of_jsonString hvb, wf_of_jsonString hrs,
      hint _ (by omega) hps, wf_of_jsonString hph, wf_u64Item _, wf_u64Item _,
      wf_of_jsonString hbt, wf_u64Item _, by simp⟩
  · simp [Json.depth, depthMembers, u64Item, maxLoadDepth]

/-- The shape check of a receipt record accepts the members that the builder wrote. -/
theorem parseReceipt_receiptMembers
    (hargs : receiptArgsOk cid verifier verb resource planSchema planHash bootId = true) :
    parseReceipt (receiptMembers cid state ckpt verifier actorUid verb resource planSchema planHash
      issue ttl bootId accepted) = some (.receipt (Buf.snprintf _ cid) ckpt
      { state, verifier := Buf.snprintf _ verifier, actorUid, verb := Buf.snprintf _ verb,
        resource := Buf.snprintf _ resource, planSchema, planHash := Buf.snprintf _ planHash,
        issueBoottimeUs := issue, ttlUs := ttl, bootId := Buf.snprintf _ bootId,
        acceptedTimeUs := accepted }) := by
  simp only [receiptArgsOk, Bool.and_eq_true, decide_eq_true_eq] at hargs
  obtain ⟨⟨⟨⟨⟨⟨hcid, hver⟩, hplan⟩, hverb⟩, hres⟩, hschema⟩, hboot⟩ := hargs
  set ms := receiptMembers cid state ckpt verifier actorUid verb resource planSchema planHash
    issue ttl bootId accepted with hms
  have hnames : ms.map Prod.fst = receiptNames := rfl
  have hnodup : (ms.map Prod.fst).Nodup := hnames ▸ (by decide : receiptNames.Nodup)
  have hkeys : onlyKeys ms receiptNames = true :=
    onlyKeys_of_names fun k hk => hnames ▸ hk
  have m1 := member?_of_getElem? (i := 2) hnodup rfl
  have m2 := member?_of_getElem? (i := 3) hnodup rfl
  have m3 := member?_of_getElem? (i := 4) hnodup rfl
  have m4 := member?_of_getElem? (i := 5) hnodup rfl
  have m5 := member?_of_getElem? (i := 6) hnodup rfl
  have m6 := member?_of_getElem? (i := 7) hnodup rfl
  have m7 := member?_of_getElem? (i := 8) hnodup rfl
  have m8 := member?_of_getElem? (i := 9) hnodup rfl
  have m9 := member?_of_getElem? (i := 10) hnodup rfl
  have m10 := member?_of_getElem? (i := 11) hnodup rfl
  have m11 := member?_of_getElem? (i := 12) hnodup rfl
  have m12 := member?_of_getElem? (i := 13) hnodup rfl
  have m13 := member?_of_getElem? (i := 14) hnodup rfl
  have m14 := member?_of_getElem? (i := 15) hnodup rfl
  clear_value ms
  have hstate : (str? (member? ms "state")).bind rcptState? = some state := by
    rw [m4]
    cases state <;> decide
  have hresource : (str? (member? ms "resource")).bind (copyBounded metaMax) =
      some (Buf.snprintf metaMax resource) := by
    rw [m8, str?, Option.bind_some, Json.string?, Option.bind_some, cstr_cstr,
      copyBounded_eq_snprintf (by rwa [cstr_cstr]), Buf.snprintf_cstr]
  have hrange : ¬((actorUid.toNat : ℤ) < 0 ∨
      ((castUid actorUid.toNat).toNat : ℤ) ≠ actorUid.toNat ∨ planSchema < 1) := by
    rw [castUid_toNat]
    omega
  rw [parseReceipt, hkeys, m1, loadStr_cstr m2 hcid, m3, hstate, loadHex64_cstr m5 hver, m6,
    loadStr_cstr m7 hverb, hresource, m9, loadHex64_cstr m10 hplan, loadU64_item m11,
    loadU64_item m12, loadStr_cstr m13 hboot, loadU64_item m14]
  simp only [Bool.true_eq_false, if_false, ne_eq, not_true_eq_false, Option.bind_some, int?,
    Json.int?, bool?]
  rw [if_neg hrange, castUid_toNat]

/-- A receipt record is read back as it was written, whatever the arguments were. -/
theorem rabParseStored_receipt (hps : planSchema < 2 ^ 63)
    (h : rabBuildReceipt J cid state ckpt verifier actorUid verb resource planSchema planHash issue
      ttl bootId accepted = some line) :
    rabParseStored J line = some (.receipt (Buf.snprintf _ cid) ckpt
      { state, verifier := Buf.snprintf _ verifier, actorUid, verb := Buf.snprintf _ verb,
        resource := Buf.snprintf _ resource, planSchema, planHash := Buf.snprintf _ planHash,
        issueBoottimeUs := issue, ttlUs := ttl, bootId := Buf.snprintf _ bootId,
        acceptedTimeUs := accepted }) := by
  obtain ⟨hargs, hload⟩ := loadb_rabBuildReceipt hps h
  rw [← parseReceipt_receiptMembers hargs, rabParseStored, hload]
  rfl

end Receipt

/-- The receipt line of an intent is read back as the receipt it holds. -/
theorem rabParseStored_receiptLine {J : JsonCodec} {cid : Buf cidMax} {ckpt : Bool} {r : Receipt}
    {line : Bytes} (hps : r.planSchema < 2 ^ 63) (h : receiptLine J cid ckpt r = some line) :
    rabParseStored J line = some (.receipt cid ckpt r) := by
  rw [rabParseStored_receipt hps h]
  simp only [Buf.snprintf_bytes_self]

/-! ## What the reader guarantees -/

/-- What a buffer is filled with is the whole C string. -/
theorem bytes_of_copyBounded {cap : ℕ} {s : Bytes} {b : Buf cap} (h : copyBounded cap s = some b) :
    b.bytes = cstr s := by
  unfold copyBounded at h
  split at h
  · cases h
    rfl
  · cases h

section Reader

variable {ms : Members} {st : Stored}

/-- A string member that was read is the C string that was written. -/
theorem bytes_of_loadStr {cap : ℕ} {key : String} {s : Bytes} {b : Buf cap}
    (hm : member? ms key = some (.str (cstr s))) (h : loadStr cap ms key = some b) :
    b.bytes = cstr s := by
  rw [loadStr, hm] at h
  simp only [str?, Option.bind_some, Json.string?, cstr_cstr] at h
  split at h
  · cases h
  · simpa using bytes_of_copyBounded h

/-- A required string member is not empty. -/
theorem ne_nil_of_loadStr {cap : ℕ} {key : String} {b : Buf cap}
    (h : loadStr cap ms key = some b) : b.bytes ≠ [] := by
  obtain ⟨s, hs, h⟩ := Option.bind_eq_some_iff.mp h
  obtain ⟨v, -, hv⟩ := Option.bind_eq_some_iff.mp hs
  cases v <;> simp only [Json.string?, reduceCtorEq, Option.some.injEq] at hv
  subst hv
  split at h
  · cases h
  · rw [bytes_of_copyBounded h, cstr_cstr]
    assumption

/-- A digest is not empty. -/
theorem ne_nil_of_loadHex64 {key : String} {b : Buf hex64Max} (h : loadHex64 ms key = some b) :
    b.bytes ≠ [] := by
  obtain ⟨s, hs, h⟩ := Option.bind_eq_some_iff.mp h
  obtain ⟨hs, hhex⟩ := Option.filter_eq_some_iff.mp hs
  obtain ⟨v, -, hv⟩ := Option.bind_eq_some_iff.mp hs
  cases v <;> simp only [Json.string?, reduceCtorEq, Option.some.injEq] at hv
  subst hv
  rw [bytes_of_copyBounded h, cstr_cstr]
  intro hnil
  rw [hnil] at hhex
  exact absurd hhex (by decide)

/-- What the reader takes from the members of an audit or a checkpoint record. -/
theorem parseIntent_eq_some {isAudit : Bool} (h : parseIntent ms isAudit = some st) :
    ∃ s brk, member? ms "broker" = some (.obj brk) ∧
      loadStr cidMax ms "correlation_id" = some s.cid ∧ loadBinding brk = some s.binding ∧
      loadPeerStrict brk = some s.actor ∧ loadU64 brk "accepted_time_us" = some s.timeUs ∧
      ((isAudit = true ∧ (∃ phase, st = .audit s phase ∧ loadStr 16 ms "phase" = some phase ∧
          decide (phase = phaseIntent) = (member? brk "binding").isSome) ∧
          (int? (member? ms "pid")).map castPid = some s.actor.pid ∧
          str? (member? ms "actor") = some (actorText s.actor.uid)) ∨
        (isAudit = false ∧ st = .checkpoint s ∧ (member? brk "binding").isSome = true)) := by
  unfold parseIntent at h
  obtain ⟨cid, hcid, h⟩ := Option.bind_eq_some_iff.mp h
  obtain ⟨brk, hbrk, h⟩ := Option.bind_eq_some_iff.mp h
  obtain ⟨v, hv, hobj⟩ := Option.bind_eq_some_iff.mp hbrk
  cases v <;> simp only [Json.members?, reduceCtorEq, Option.some.injEq] at hobj
  subst hobj
  split at h
  · cases h
  obtain ⟨actor, hactor, h⟩ := Option.bind_eq_some_iff.mp h
  obtain ⟨timeUs, htime, h⟩ := Option.bind_eq_some_iff.mp h
  obtain ⟨binding, hbinding, h⟩ := Option.bind_eq_some_iff.mp h
  cases isAudit with
  | true =>
    simp only [if_true] at h
    split at h
    · cases h
    obtain ⟨phase, hphase, h⟩ := Option.bind_eq_some_iff.mp h
    split at h
    · cases h
    rename_i hmatch
    split at h
    · cases h
    rename_i hpid
    split at h
    · cases h
    rename_i htext
    obtain ⟨s, hs, rfl⟩ := Option.map_eq_some_iff.mp h
    obtain ⟨op, -, hs⟩ := Option.bind_eq_some_iff.mp hs
    obtain ⟨res, -, hs⟩ := Option.bind_eq_some_iff.mp hs
    obtain ⟨sc, -, rfl⟩ := Option.map_eq_some_iff.mp hs
    exact ⟨_, _, hv, hcid, hbinding, hactor, htime,
      Or.inl ⟨rfl, ⟨phase, rfl, hphase, not_not.mp hmatch⟩, not_not.mp hpid, not_not.mp htext⟩⟩
  | false =>
    simp only [Bool.false_eq_true, if_false] at h
    split at h
    · cases h
    split at h
    · cases h
    split at h
    · cases h
    rename_i hhas
    obtain ⟨s, hs, rfl⟩ := Option.map_eq_some_iff.mp h
    obtain ⟨op, -, hs⟩ := Option.bind_eq_some_iff.mp hs
    obtain ⟨res, -, hs⟩ := Option.bind_eq_some_iff.mp hs
    obtain ⟨sc, -, rfl⟩ := Option.map_eq_some_iff.mp hs
    exact ⟨_, _, hv, hcid, hbinding, hactor, htime,
      Or.inr ⟨rfl, rfl, by simpa [Option.isSome_iff_ne_none] using hhas⟩⟩

/-- A record that opens an intent has a binding, and a receipt a verifier. -/
def Stored.Ok : Stored → Prop
  | .audit s phase => phase = phaseIntent → s.binding.bytes ≠ []
  | .checkpoint s => s.binding.bytes ≠ []
  | .receipt _ _ r => r.verifier.bytes ≠ []
  | .rate _ _ => True

theorem ne_nil_of_loadBinding {brk : Members} {b : Buf bindingMax}
    (hsome : (member? brk "binding").isSome = true) (h : loadBinding brk = some b) :
    b.bytes ≠ [] := by
  obtain ⟨v, hv⟩ := Option.isSome_iff_exists.mp hsome
  rw [loadBinding, hv] at h
  exact ne_nil_of_loadStr h

/-- The reader returns nothing else. -/
theorem ok_of_rabParseStored {J : JsonCodec} {line : Bytes} (h : rabParseStored J line = some st) :
    st.Ok := by
  unfold rabParseStored at h
  split at h
  swap
  · cases h
  split at h
  · cases h
  obtain ⟨recordType, -, h⟩ := Option.bind_eq_some_iff.mp h
  split at h
  · obtain ⟨s, brk, -, -, hbinding, -, -, ⟨-, ⟨phase, rfl, -, hmatch⟩, -⟩ | ⟨hfalse, -⟩⟩ :=
      parseIntent_eq_some h
    · intro hphase
      exact ne_nil_of_loadBinding (by rw [← hmatch, hphase]; simp) hbinding
    · cases hfalse
  split at h
  · obtain ⟨s, brk, -, -, hbinding, -, -, ⟨hfalse, -⟩ | ⟨-, rfl, hsome⟩⟩ := parseIntent_eq_some h
    · cases hfalse
    · exact ne_nil_of_loadBinding hsome hbinding
  split at h
  · unfold parseRate at h
    split at h
    · cases h
    obtain ⟨uid, -, h⟩ := Option.bind_eq_some_iff.mp h
    obtain ⟨tarr, -, h⟩ := Option.bind_eq_some_iff.mp h
    obtain ⟨barr, -, h⟩ := Option.bind_eq_some_iff.mp h
    split at h
    · cases h
    obtain ⟨times, -, h⟩ := Option.bind_eq_some_iff.mp h
    obtain ⟨bytes, -, rfl⟩ := Option.map_eq_some_iff.mp h
    trivial
  split at h
  · unfold parseReceipt at h
    obtain ⟨-, h⟩ := Option.ite_none_left_eq_some.mp h
    obtain ⟨-, h⟩ := Option.ite_none_left_eq_some.mp h
    obtain ⟨cid, -, h⟩ := Option.bind_eq_some_iff.mp h
    obtain ⟨ck, -, h⟩ := Option.bind_eq_some_iff.mp h
    obtain ⟨state, -, h⟩ := Option.bind_eq_some_iff.mp h
    obtain ⟨verifier, hver, h⟩ := Option.bind_eq_some_iff.mp h
    obtain ⟨auid, -, h⟩ := Option.bind_eq_some_iff.mp h
    obtain ⟨verb, -, h⟩ := Option.bind_eq_some_iff.mp h
    obtain ⟨resource, -, h⟩ := Option.bind_eq_some_iff.mp h
    obtain ⟨planSchema, -, h⟩ := Option.bind_eq_some_iff.mp h
    obtain ⟨planHash, -, h⟩ := Option.bind_eq_some_iff.mp h
    obtain ⟨issued, -, h⟩ := Option.bind_eq_some_iff.mp h
    obtain ⟨ttl, -, h⟩ := Option.bind_eq_some_iff.mp h
    obtain ⟨bootId, -, h⟩ := Option.bind_eq_some_iff.mp h
    obtain ⟨accepted, -, h⟩ := Option.bind_eq_some_iff.mp h
    obtain ⟨-, h⟩ := Option.ite_none_left_eq_some.mp h
    obtain rfl := Option.some.inj h
    exact ne_nil_of_loadHex64 hver
  · cases h

end Reader

/-! ## Lines -/

/-- The compact text of an object. -/
def IsLine (J : JsonCodec) (line : Bytes) : Prop := ∃ ms : Members, line = J.dumps (.obj ms)

section IsLine

variable {J : JsonCodec} {line : Bytes}

theorem IsLine.ne_nil (h : IsLine J line) : line ≠ [] := by
  obtain ⟨ms, rfl⟩ := h
  exact J.dumps_ne_nil ms

theorem IsLine.newline_notMem (h : IsLine J line) : (10 : UInt8) ∉ line := by
  obtain ⟨ms, rfl⟩ := h
  exact J.newline_notMem_dumps _

theorem isLine_rabBuildAudit {phase cid : Bytes} {binding : Option Bytes} {actor : Actor}
    {host : Bytes} {timeUs : UInt64} {record : Members}
    (h : rabBuildAudit J phase cid binding actor host timeUs record = some line) :
    IsLine J line := by
  simp only [rabBuildAudit, Option.bind_eq_some_iff, Option.map_eq_some_iff] at h
  obtain ⟨framing, -, brk, -, rfl⟩ := h
  exact ⟨_, rfl⟩

theorem isLine_rabBuildCheckpoint {cid binding : Bytes} {actor : Actor} {timeUs : UInt64}
    {operation resource scope : Bytes}
    (h : rabBuildCheckpoint J cid binding actor timeUs operation resource scope = some line) :
    IsLine J line := by
  simp only [rabBuildCheckpoint, Option.bind_eq_some_iff, Option.map_eq_some_iff] at h
  obtain ⟨brk, -, v, -, rfl⟩ := h
  exact ⟨_, rfl⟩

theorem isLine_rabBuildRate (uid : UInt32) (entries : List (UInt64 × UInt64)) :
    IsLine J (rabBuildRate J uid entries) := ⟨_, rfl⟩

theorem isLine_receiptLine {cid : Buf cidMax} {checkpoint : Bool} {r : Receipt}
    (h : receiptLine J cid checkpoint r = some line) : IsLine J line := by
  rw [receiptLine, rabBuildReceipt] at h
  split at h
  · exact absurd h (by simp)
  · simp only [Option.bind_eq_some_iff, Option.map_eq_some_iff] at h
    obtain ⟨_, -, _, -, _, -, _, -, _, -, _, -, rfl⟩ := h
    exact ⟨_, rfl⟩

end IsLine

end AuditBroker
