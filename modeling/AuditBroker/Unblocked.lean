import AuditBroker.Accounting
import AuditBroker.FailedRotation
import AuditBroker.Nodes
import AuditBroker.Repair

/-!
# What can stop a rotation

A rotation writes a checkpoint for every open intent, a receipt for every intent that holds one and a
rate record for every window.  The receipts and the rate records can always be written, and so can the
strings of a checkpoint that the broker minted or that come from the kernel.  The operation, the
resource and the scope are a client's strings, cut to their buffers by `snprintf`, which may cut inside
a character: then no checkpoint can be built, and every rotation fails while the intent is open.
-/

namespace AuditBroker

open Foundation

/-! ## Intents that can be written -/

section Intents

variable {J : JsonCodec} {it : Intent}

/-- Everything in an intent but the client's strings can be written. -/
structure Intent.Writable (J : JsonCodec) (it : Intent) : Prop where
  cid : utf8Ok it.cid.bytes = true
  binding : utf8Ok it.binding.bytes = true
  bootId : utf8Ok it.actor.bootId.bytes = true
  starttime : utf8Ok it.actor.starttime.bytes = true
  receipt : ∀ r, it.receipt = some r → (receiptLine J it.cid true r).isSome = true

/-- The client's strings, as the broker holds them, are UTF-8. -/
def Intent.Legible (it : Intent) : Prop :=
  utf8Ok it.operation.bytes = true ∧ utf8Ok it.resource.bytes = true ∧ utf8Ok it.scope.bytes = true

instance (it : Intent) : Decidable it.Legible := inferInstanceAs (Decidable (_ ∧ _ ∧ _))

/-- The strings that a checkpoint needs. -/
theorem checkpoint_isSome_iff (h : it.Writable J) (now : UInt64) :
    (it.checkpoint J now).isSome = true ↔ it.Legible := by
  simp only [Intent.checkpoint, rabBuildCheckpoint, brokerObject, peerObject, optString,
    Option.isSome_bind, jsonString_buf, h.cid, h.binding, h.bootId, h.starttime, if_true,
    Option.bind_some, Option.map_some, Intent.Legible]
  cases utf8Ok it.operation.bytes
  · simp
  cases utf8Ok it.resource.bytes
  · simp
  cases utf8Ok it.scope.bytes
  · simp
  · simp

/-- The state, the accepted time and the checkpoint mark do not matter for a receipt line. -/
theorem receiptLine_isSome_congr {cid : Buf cidMax} {r : Receipt} {ck : Bool} {line : Bytes}
    (h : receiptLine J cid ck r = some line) (ck' : Bool) (state : RcptState) (now : UInt64) :
    (receiptLine J cid ck' { r with state, acceptedTimeUs := now }).isSome = true := by
  unfold receiptLine rabBuildReceipt at h ⊢
  split at h
  · cases h
  · rename_i hargs
    rw [if_neg hargs]
    simp only [Option.bind_eq_some_iff, Option.map_eq_some_iff] at h
    obtain ⟨v₁, h₁, v₂, h₂, v₃, h₃, v₄, h₄, v₅, h₅, v₆, h₆, -⟩ := h
    rw [h₁, h₂, h₃, h₄, h₅, h₆]
    rfl

theorem utf8Ok_of_jsonString {cap : ℕ} {b : Buf cap} {v : Json} (h : jsonString b.bytes = some v) :
    utf8Ok b.bytes = true := by
  have hcstr := (jsonString_eq_some h).2
  rwa [cstr_eq_self b.nul_free] at hcstr

/-- An intent whose audit record could be written can be carried. -/
theorem writable_of_rabBuildAudit {phase host line : Bytes} {cid : Buf cidMax}
    {binding : Buf bindingMax} {actor : Actor} {now : UInt64} {record : Members}
    (h : rabBuildAudit J phase cid.bytes (some binding.bytes) actor host now record = some line)
    (op res : Buf metaMax) (scope : Buf scopeMax) (mark : Bool) :
    Intent.Writable J
      { binding, actor, operation := op, resource := res, scope, receipt := none, cid,
        fromCheckpoint := mark } := by
  simp only [rabBuildAudit, auditFraming, brokerObject, peerObject, optString,
    Option.bind_eq_some_iff, Option.map_eq_some_iff] at h
  obtain ⟨-, ⟨vc, hc, -⟩, -, ⟨-, ⟨vb, hb, vs, hs, -⟩, -, ⟨vbi, hbi, -⟩, -⟩, -⟩ := h
  exact ⟨utf8Ok_of_jsonString hc, utf8Ok_of_jsonString hbi, utf8Ok_of_jsonString hb,
    utf8Ok_of_jsonString hs, by simp⟩

theorem Intent.Writable.withReceipt {r : Receipt} (h : it.Writable J)
    (hr : (receiptLine J it.cid true r).isSome = true) :
    Intent.Writable J { it with receipt := some r } := by
  refine ⟨h.cid, h.binding, h.bootId, h.starttime, fun r' hr' => ?_⟩
  obtain rfl := Option.some.inj hr'
  exact hr

end Intents

/-! ## Open sets -/

section OpenSets

variable {J : JsonCodec} {o : OpenSet} {a : ℕ} {r : Receipt}

/-- Every linked node is allocated and can be written. -/
def OpenSet.Writable (J : JsonCodec) (o : OpenSet) : Prop :=
  ∀ i, ∀ a ∈ o.bktCid i, a < o.next ∧ (o.heap a).Writable J

namespace OpenSet.Writable

theorem of_mem_walk (h : o.Writable J) (ha : a ∈ o.walk) : (o.heap a).Writable J := by
  obtain ⟨i, -, hi⟩ := List.mem_flatMap.mp ha
  exact (h i a hi).2

theorem openAdd {cid : Buf cidMax} {binding : Buf bindingMax} {actor : Actor}
    {op res : Buf metaMax} {scope : Buf scopeMax} (h : o.Writable J)
    (hnew : Intent.Writable J
      { binding, actor, operation := op, resource := res, scope, receipt := none, cid,
        fromCheckpoint := false }) :
    (o.openAdd cid binding actor op res scope).Writable J :=
  OpenSet.Each.openAdd h hnew

theorem openRemove (h : o.Writable J) (a : ℕ) : (o.openRemove a).Writable J :=
  OpenSet.Each.openRemove h a

/-- A node is given a receipt that can be written. -/
theorem setReceipt (h : o.Writable J)
    (hr : (receiptLine J (o.heap a).cid true r).isSome = true) : (o.setReceipt a r).Writable J :=
  OpenSet.Each.setReceipt h fun hw => hw.withReceipt hr

theorem installReceipt (h : o.Writable J)
    (hr : (receiptLine J (o.heap a).cid true r).isSome = true) :
    (o.installReceipt a r).Writable J :=
  h.setReceipt hr

end OpenSet.Writable

end OpenSets

/-! ## Replay -/

section Replay

variable {S : Site} {J : JsonCodec} {R R' : Replay} {ms : Members}

/-- The strings of a record, as the reader returns them, can be written again. -/
def Stored.Writable (J : JsonCodec) : Stored → Prop
  | .audit s _ | .checkpoint s =>
    utf8Ok s.cid.bytes = true ∧ utf8Ok s.binding.bytes = true ∧
      utf8Ok s.actor.bootId.bytes = true ∧ utf8Ok s.actor.starttime.bytes = true
  | .receipt cid _ r => (receiptLine J cid true r).isSome = true
  | .rate _ _ => True

theorem utf8Ok_of_str? {key : String} {s : Bytes} (hwf : wfMembers ms = true)
    (h : str? (member? ms key) = some s) : utf8Ok (cstr s) = true := by
  obtain ⟨v, hv, hs⟩ := Option.bind_eq_some_iff.mp h
  obtain ⟨hutf, rfl⟩ := utf8Ok_of_string? (wf_of_member? hwf hv) hs
  have hnul := (textOk_iff.mp (wf_of_member? hwf hv)).2
  rwa [cstr_eq_self hnul]

theorem utf8Ok_of_loadStr {cap : ℕ} {key : String} {b : Buf cap} (hwf : wfMembers ms = true)
    (h : loadStr cap ms key = some b) : utf8Ok b.bytes = true := by
  obtain ⟨s, hs, h⟩ := Option.bind_eq_some_iff.mp h
  rw [Option.ite_none_left_eq_some] at h
  rw [bytes_of_copyBounded h.2]
  exact utf8Ok_of_str? hwf hs

theorem isHexLcN_of_loadHex64 {key : String} {b : Buf hex64Max} (hwf : wfMembers ms = true)
    (h : loadHex64 ms key = some b) : isHexLcN 64 b.bytes = true := by
  obtain ⟨s, hs, h⟩ := Option.bind_eq_some_iff.mp h
  obtain ⟨hs, hhex⟩ := Option.filter_eq_some_iff.mp hs
  obtain ⟨v, hv, hs⟩ := Option.bind_eq_some_iff.mp hs
  obtain ⟨-, rfl⟩ := utf8Ok_of_string? (wf_of_member? hwf hv) hs
  have hnul := (textOk_iff.mp (wf_of_member? hwf hv)).2
  rw [bytes_of_copyBounded h, cstr_eq_self hnul]
  exact hhex

/-- A receipt with fields of the right shape can be written. -/
theorem receiptLine_isSome_of {cid : Buf cidMax} {r : Receipt} (ck : Bool)
    (hcid : cid.bytes ≠ [] ∧ utf8Ok cid.bytes = true) (hver : isHexLcN 64 r.verifier.bytes = true)
    (hhash : isHexLcN 64 r.planHash.bytes = true)
    (hverb : r.verb.bytes ≠ [] ∧ utf8Ok r.verb.bytes = true)
    (hres : utf8Ok r.resource.bytes = true) (hschema : 1 ≤ r.planSchema)
    (hboot : r.bootId.bytes ≠ [] ∧ utf8Ok r.bootId.bytes = true) :
    (receiptLine J cid ck r).isSome = true := by
  have hex : ∀ b : Buf hex64Max, isHexLcN 64 b.bytes = true → utf8Ok b.bytes = true := by
    intro b hb
    rw [isHexLcN, Bool.and_eq_true] at hb
    exact utf8Ok_of_isHexLc hb.2
  have hargs : receiptArgsOk cid.bytes r.verifier.bytes r.verb.bytes r.resource.bytes r.planSchema
      r.planHash.bytes r.bootId.bytes = true := by
    simp [receiptArgsOk, fitsNonempty, isHex64Lc, cstr_eq_self cid.nul_free,
      cstr_eq_self r.verifier.nul_free, cstr_eq_self r.planHash.nul_free,
      cstr_eq_self r.verb.nul_free, cstr_eq_self r.resource.nul_free,
      cstr_eq_self r.bootId.nul_free, hcid.1, hver, hhash, hverb.1, hschema, hboot.1, cid.length_lt,
      r.verb.length_lt, r.resource.length_lt, r.bootId.length_lt]
  simp only [receiptLine, rabBuildReceipt, hargs, Bool.true_eq_false, if_false, jsonString_buf,
    hcid.2, hex _ hver, hex _ hhash, hverb.2, hres, hboot.2, if_true, Option.bind_some,
    Option.map_some, Option.isSome_some]

theorem utf8Ok_of_loadPeerStrict {brk : Members} {a : Actor} (hwf : wfMembers brk = true)
    (h : loadPeerStrict brk = some a) :
    utf8Ok a.bootId.bytes = true ∧ utf8Ok a.starttime.bytes = true := by
  unfold loadPeerStrict at h
  obtain ⟨peer, hpeer, h⟩ := Option.bind_eq_some_iff.mp h
  obtain ⟨v, hv, hobj⟩ := Option.bind_eq_some_iff.mp hpeer
  cases v <;> simp only [Json.members?, reduceCtorEq, Option.some.injEq] at hobj
  subst hobj
  have hpeerwf := (wf_obj_iff.mp (wf_of_member? hwf hv)).2
  obtain ⟨-, h⟩ := Option.ite_none_left_eq_some.mp h
  obtain ⟨u, -, h⟩ := Option.bind_eq_some_iff.mp h
  obtain ⟨g, -, h⟩ := Option.bind_eq_some_iff.mp h
  obtain ⟨p, -, h⟩ := Option.bind_eq_some_iff.mp h
  obtain ⟨bootId, hboot, h⟩ := Option.bind_eq_some_iff.mp h
  obtain ⟨starttime, hstart, h⟩ := Option.bind_eq_some_iff.mp h
  obtain ⟨-, h⟩ := Option.ite_none_left_eq_some.mp h
  obtain ⟨-, h⟩ := Option.ite_none_left_eq_some.mp h
  obtain rfl := Option.some.inj h
  exact ⟨utf8Ok_of_loadStr hpeerwf hboot, utf8Ok_of_loadStr hpeerwf hstart⟩

theorem utf8Ok_of_loadBinding {brk : Members} {b : Buf bindingMax} (hwf : wfMembers brk = true)
    (h : loadBinding brk = some b) : utf8Ok b.bytes = true := by
  unfold loadBinding at h
  split at h
  · obtain rfl := Option.some.inj h
    rfl
  · exact utf8Ok_of_loadStr hwf h

theorem writable_of_parseIntent {isAudit : Bool} {st : Stored} (hwf : wfMembers ms = true)
    (h : parseIntent ms isAudit = some st) : st.Writable J := by
  obtain ⟨s, brk, hbrk, hcid, hbinding, hactor, -, hst⟩ := parseIntent_eq_some h
  have hbrkwf := (wf_obj_iff.mp (wf_of_member? hwf hbrk)).2
  have hs := utf8Ok_of_loadPeerStrict hbrkwf hactor
  have hall : utf8Ok s.cid.bytes = true ∧ utf8Ok s.binding.bytes = true ∧
      utf8Ok s.actor.bootId.bytes = true ∧ utf8Ok s.actor.starttime.bytes = true :=
    ⟨utf8Ok_of_loadStr hwf hcid, utf8Ok_of_loadBinding hbrkwf hbinding, hs⟩
  rcases hst with ⟨-, ⟨phase, rfl, -⟩, -⟩ | ⟨-, rfl, -⟩
  · exact hall
  · exact hall

theorem writable_of_parseReceipt {st : Stored} (hwf : wfMembers ms = true)
    (h : parseReceipt ms = some st) : st.Writable J := by
  unfold parseReceipt at h
  obtain ⟨-, h⟩ := Option.ite_none_left_eq_some.mp h
  obtain ⟨-, h⟩ := Option.ite_none_left_eq_some.mp h
  obtain ⟨cid, hcid, h⟩ := Option.bind_eq_some_iff.mp h
  obtain ⟨ck, -, h⟩ := Option.bind_eq_some_iff.mp h
  obtain ⟨state, -, h⟩ := Option.bind_eq_some_iff.mp h
  obtain ⟨verifier, hver, h⟩ := Option.bind_eq_some_iff.mp h
  obtain ⟨auid, -, h⟩ := Option.bind_eq_some_iff.mp h
  obtain ⟨verb, hverb, h⟩ := Option.bind_eq_some_iff.mp h
  obtain ⟨resource, hres, h⟩ := Option.bind_eq_some_iff.mp h
  obtain ⟨planSchema, -, h⟩ := Option.bind_eq_some_iff.mp h
  obtain ⟨planHash, hhash, h⟩ := Option.bind_eq_some_iff.mp h
  obtain ⟨issued, -, h⟩ := Option.bind_eq_some_iff.mp h
  obtain ⟨ttl, -, h⟩ := Option.bind_eq_some_iff.mp h
  obtain ⟨bootId, hboot, h⟩ := Option.bind_eq_some_iff.mp h
  obtain ⟨accepted, -, h⟩ := Option.bind_eq_some_iff.mp h
  obtain ⟨hrange, h⟩ := Option.ite_none_left_eq_some.mp h
  obtain rfl := Option.some.inj h
  obtain ⟨res, hres', hcopy⟩ := Option.bind_eq_some_iff.mp hres
  have hresource : utf8Ok resource.bytes = true := by
    rw [bytes_of_copyBounded hcopy]
    exact utf8Ok_of_str? hwf hres'
  have hschema : 1 ≤ planSchema := by
    by_contra hlt
    exact hrange (Or.inr (Or.inr (not_le.mp hlt)))
  exact receiptLine_isSome_of true ⟨ne_nil_of_loadStr hcid, utf8Ok_of_loadStr hwf hcid⟩
    (isHexLcN_of_loadHex64 hwf hver) (isHexLcN_of_loadHex64 hwf hhash)
    ⟨ne_nil_of_loadStr hverb, utf8Ok_of_loadStr hwf hverb⟩ hresource hschema
    ⟨ne_nil_of_loadStr hboot, utf8Ok_of_loadStr hwf hboot⟩

/-- Whatever the reader accepts can be written again. -/
theorem writable_of_rabParseStored {line : Bytes} {st : Stored}
    (h : rabParseStored J line = some st) : st.Writable J := by
  unfold rabParseStored at h
  split at h
  swap
  · cases h
  rename_i ms hload
  have hwf := (wf_obj_iff.mp (J.loadb_wf _ _ hload)).2
  obtain ⟨-, h⟩ := Option.ite_none_left_eq_some.mp h
  obtain ⟨recordType, -, h⟩ := Option.bind_eq_some_iff.mp h
  split at h
  · exact writable_of_parseIntent hwf h
  split at h
  · exact writable_of_parseIntent hwf h
  split at h
  · unfold parseRate at h
    obtain ⟨-, h⟩ := Option.ite_none_left_eq_some.mp h
    obtain ⟨uid, -, h⟩ := Option.bind_eq_some_iff.mp h
    obtain ⟨tarr, -, h⟩ := Option.bind_eq_some_iff.mp h
    obtain ⟨barr, -, h⟩ := Option.bind_eq_some_iff.mp h
    obtain ⟨-, h⟩ := Option.ite_none_left_eq_some.mp h
    obtain ⟨times, -, h⟩ := Option.bind_eq_some_iff.mp h
    obtain ⟨bytes, -, rfl⟩ := Option.map_eq_some_iff.mp h
    trivial
  split at h
  · exact writable_of_parseReceipt hwf h
  · cases h

/-- A record that can be written keeps the open set writable. -/
theorem Stored.Writable.keeps {st : Stored} (h : st.Writable J) : st.Keeps (Intent.Writable J) where
  mark it hit := ⟨hit.cid, hit.binding, hit.bootId, hit.starttime, hit.receipt⟩
  opening s hs := by
    have hstrings : Stored.Writable J (.checkpoint s) := by
      rcases hs with rfl | ⟨phase, rfl⟩
      · exact h
      · exact h
    obtain ⟨hcid, hbinding, hboot, hstart⟩ := hstrings
    exact ⟨hcid, hbinding, hboot, hstart, by simp⟩
  issue cid ck r it hst hcid _ hit := by
    subst hst hcid
    exact hit.withReceipt h
  redeem r₀ now it hr₀ hit := by
    obtain ⟨line, hline⟩ := Option.isSome_iff_exists.mp (hit.receipt r₀ hr₀)
    exact hit.withReceipt (receiptLine_isSome_congr hline true _ _)

end Replay

/-! ## States -/

section States

variable {S : Site} {E : Env} {C : Ctx} {s s' : St} {pfd : ℕ}

/-- The open set can be written, and the sink is there. -/
structure Fit (S : Site) (s : St) : Prop where
  opens : s.opens.Writable S.codec
  sink : s.fs.lookup S.base ≠ none

theorem rotateInto_keeps (hlook : s.fs.lookup S.pendingName = some pfd)
    (hsink : s.fs.lookup S.base ≠ none) :
    (rotateInto S E pfd s).2.opens = s.opens ∧ (rotateInto S E pfd s).2.fs.lookup S.base ≠ none := by
  obtain ⟨b, hfill, -⟩ := exists_fills_fillPending S E pfd s
  have hbase : ¬S.pendingName = S.base := S.pendingName_ne_base
  have hunlink : ∀ w : World, (World.unlink E S.pendingName w).2.fs.lookup S.base =
      w.fs.lookup S.base := by
    intro w
    have hframe : Fs.Frame (· = S.base) (fun _ => False) w.fs
        (World.unlink E S.pendingName w).2.fs := World.frame_unlink E w hbase
    exact hframe.lookup _ rfl
  have hlookup : ∀ name, (fillPending S E pfd s).2.fs.lookup name = s.fs.lookup name := by
    intro name
    rw [hfill.fs]
    rfl
  unfold rotateInto
  split
  · rename_i s₁ heq
    rw [heq] at hfill hlookup
    refine ⟨hfill.opens_eq, ?_⟩
    rw [unlinkPending, hunlink, hlookup]
    exact hsink
  rename_i s₁ heq
  rw [heq] at hfill hlookup
  simp only
  split
  · refine ⟨hfill.opens_eq, ?_⟩
    rw [unlinkPending, hunlink]
    exact (hlookup S.base).trans_ne hsink
  split
  · rename_i w hlock
    have hfs : w.fs = s₁.fs := World.fs_of_plain hlock
    refine ⟨hfill.opens_eq, ?_⟩
    rw [unlinkPending, hunlink]
    exact (congrArg (Fs.lookup · S.base) hfs).trans_ne ((hlookup S.base).trans_ne hsink)
  · rename_i w hlock
    have hfs : w.fs = s₁.fs := World.fs_of_plain hlock
    have hlook₁ : w.fs.lookup S.pendingName = some pfd := by
      rw [hfs, hlookup, hlook]
    rcases swapSegment_cases (· = S.base) (fun _ => False) (E := E)
      (s := { (s₁.readClock E).2 with toWorld := w }) hbase (S.archName_ne_base _) hlook₁ with
      ⟨-, w', hw', hframe⟩ | ⟨w₁, w', -, -, -, -, -, hmove, hadopt⟩
    · rw [hw']
      refine ⟨hfill.opens_eq, ?_⟩
      exact (hframe.lookup S.base rfl).trans_ne
        ((congrArg (Fs.lookup · S.base) hfs).trans_ne ((hlookup S.base).trans_ne hsink))
    · obtain ⟨hrest, hframe, -⟩ := adoptSegment_spec (· = S.base) S E pfd
        { (s₁.readClock E).2 with toWorld := w' } (by rintro _ rfl; exact archSuffixValue_base S)
      rw [hadopt]
      refine ⟨by rw [hrest]; exact hfill.opens_eq, ?_⟩
      rw [hframe.lookup S.base rfl]
      change w'.fs.lookup S.base ≠ none
      rw [hmove, Fs.lookup_move_dst]
      simp

/-- A rotation keeps the open set, and the sink does not go away. -/
theorem Fit.maybeRotate (h : Fit S s) : Fit S (maybeRotate S E s) := by
  unfold AuditBroker.maybeRotate
  split
  · exact h
  cases hopen : pendingOpened S E s with
  | none =>
    obtain ⟨hquiet, hframe⟩ := rotate_of_not_opened hopen
    refine ⟨by rw [hquiet.opens_eq]; exact h.opens, ?_⟩
    exact (hframe.lookup S.base S.pendingName_ne_base.symm).trans_ne h.sink
  | some x =>
    obtain ⟨pfd, s₀⟩ := x
    obtain ⟨⟨w, hw⟩, hlook, hnames, -, heq⟩ := pendingOpened_spec hopen
    have hsink : s₀.fs.lookup S.base ≠ none :=
      (hnames S.base S.pendingName_ne_base.symm).trans_ne h.sink
    obtain ⟨hopens, hsink'⟩ := rotateInto_keeps (E := E) hlook hsink
    rw [heq]
    exact ⟨by rw [hopens, hw]; exact h.opens, hsink'⟩

theorem Fit.congr (h : Fit S s) (hopens : s'.opens = s.opens) (hfs : s'.fs = s.fs) : Fit S s' :=
  ⟨hopens ▸ h.opens, hfs ▸ h.sink⟩

theorem lookup_rabSinkAppend (E : Env) (i : ℕ) (line : Bytes) (w : World) (name : Bytes) :
    (World.rabSinkAppend E i line w).2.fs.lookup name = w.fs.lookup name := by
  by_cases hline : 10 ∈ line
  · have hcont : line.contains 10 = true := by simpa using hline
    rw [World.rabSinkAppend, if_pos hcont]
  · obtain ⟨b, hb, -⟩ := World.rabSinkAppend_spec E i w hline
    rw [hb]
    rfl

theorem Fit.appendLine {e : Entry} {b : Bool} (h : Fit S s) (heq : s.appendLine E e = (b, s')) :
    Fit S s' ∧ s'.opens = s.opens := by
  have hsame := appendLine_same E e s
  have hworld : (s.appendLine E e).2.toWorld = (World.rabSinkAppend E s.fd e.line s.toWorld).2 := by
    unfold St.appendLine
    split <;> rename_i happ <;> rw [happ]
  rw [heq] at hsame hworld
  have hopens : s'.opens = s.opens := congrArg Tables.opens hsame.tables
  refine ⟨⟨hopens ▸ h.opens, ?_⟩, hopens⟩
  rw [hworld, lookup_rabSinkAppend]
  exact h.sink

/-- A commit whose change in memory keeps the open set writable. -/
theorem Fit.commit {line : Bytes} {act : Act} {now : UInt64} {install : Tables → Tables}
    (h : Fit S s) (hinstall : ∀ t : Tables, t.opens = s.opens → (install t).opens.Writable S.codec)
    {res : Commit} (heq : AuditBroker.commit S C line act now install s = (res, s')) : Fit S s' := by
  unfold AuditBroker.commit at heq
  simp only at heq
  split at heq
  · rename_i s₁ hbytes
    have hs₁ := congrArg Prod.snd hbytes
    obtain ⟨-, rfl⟩ := Prod.mk.inj heq
    exact h.congr (congrArg (fun x : St => x.opens) hs₁).symm (congrArg (fun x : St => x.fs) hs₁).symm
  rename_i s₁ hbytes
  have hs₁ : Fit S s₁ ∧ s₁.opens = s.opens := by
    have hs₁ := congrArg Prod.snd hbytes
    have hopens : s₁.opens = s.opens := (congrArg (fun x : St => x.opens) hs₁).symm
    exact ⟨h.congr hopens (congrArg (fun x : St => x.fs) hs₁).symm, hopens⟩
  split at heq
  · rename_i s₂ happ
    obtain ⟨-, rfl⟩ := Prod.mk.inj heq
    exact (hs₁.1.appendLine happ).1
  · rename_i s₂ happ
    obtain ⟨-, rfl⟩ := Prod.mk.inj heq
    obtain ⟨h₂, hopens⟩ := hs₁.1.appendLine happ
    exact Fit.maybeRotate ⟨hinstall _ (hopens.trans hs₁.2), h₂.sink⟩

/-- A receipt that was written as a transition can be carried. -/
theorem receiptLine_carried {J : JsonCodec} {cid : Buf cidMax} {r : Receipt} {line : Bytes}
    (h : receiptLine J cid false r = some line) : (receiptLine J cid true r).isSome = true :=
  receiptLine_isSome_congr h true r.state r.acceptedTimeUs

/-- The change in memory that goes with a line keeps the open set writable. -/
theorem Allowed.writable {line : Bytes} {act : Act} {install : Tables → Tables}
    (h : Allowed S C s line act install) (hw : s.opens.Writable S.codec) {t : Tables}
    (ht : t.opens = s.opens) : (install t).opens.Writable S.codec := by
  have hw' : t.opens.Writable S.codec := ht ▸ hw
  cases h with
  | intent _ _ _ _ _ _ hline => exact hw'.openAdd (writable_of_rabBuildAudit hline _ _ _ _)
  | outcome => exact hw'.openRemove _
  | emit => exact hw'
  | issue _ _ _ _ _ _ _ _ _ hline =>
    apply hw'.installReceipt
    rw [ht]
    exact receiptLine_carried hline
  | redeem _ _ _ _ _ _ _ _ _ _ hline =>
    apply hw'.setReceipt
    rw [ht]
    exact receiptLine_carried hline

/-- Every small step of a handler. -/
theorem Step.fit (h : Step S C s s') (hfit : Fit S s) : Fit S s' := by
  cases h with
  | clock => exact hfit.congr rfl rfl
  | check => exact hfit.congr rfl rfl
  | commit _ allowed =>
    exact hfit.commit (fun _ ht => allowed.writable hfit.opens ht) Prod.mk.eta.symm

theorem Steps.fit (h : Steps S C s s') (hfit : Fit S s) : Fit S s' := by
  induction h with
  | refl => exact hfit
  | tail _ hstep ih => exact hstep.fit ih

/-- One request. -/
theorem Fit.connHandle (h : Fit S s) (hok : s.uids.Ok s.cfg) (hnew : s.Unwritten) (E : Env)
    (peer : Actor) (body : Bytes) : Fit S (connHandle S E peer body s).2 := by
  unfold AuditBroker.connHandle
  split
  · exact h
  · rename_i req _
    have hhandled := rabBrokerHandle_handled (S := S) (C := { env := E, peer, req }) hok hnew
    exact Steps.fit hhandled.steps h

/-! ## Runs -/

theorem fit_of_rabBrokerOpen {cfg : Config} (h : rabBrokerOpen S E cfg s = (none, s')) :
    Fit S s' := by
  obtain ⟨-, -, ⟨total, R, hreplay, htables⟩, n, hn, -⟩ := rabBrokerOpen_eq_none h
  refine ⟨?_, fun hnone => ?_⟩
  · rw [htables]
    exact (OpenSet.Each.init _ _).replayLines
      (fun line st hst => (writable_of_rabParseStored hst).keeps) hreplay
  · rw [sinkFile, hnone] at hn
    cases hn

/-- Every process that a run reaches is fit. -/
theorem fit_run {fs : Fs} {evs : List Event} (halive : (run S (St.initial fs) evs).alive = true) :
    Fit S (run S (St.initial fs) evs) := by
  induction evs using List.reverseRecOn with
  | nil => cases halive
  | append_singleton evs ev ih =>
    rw [run_concat] at halive ⊢
    cases ev with
    | request env peer body =>
      simp only [step] at halive ⊢
      split at halive
      · rename_i hs
        rw [if_pos hs]
        have h₀ : Fit S (run S (St.initial fs) evs).begin_ := (ih hs).congr rfl rfl
        have hdated := dated_run S fs evs
        exact (h₀.connHandle (hdated.uids hs) hdated.unwritten env peer body).congr rfl rfl
      · rename_i hs
        exact absurd halive hs
    | start env cfg rollback =>
      rw [step_start] at halive ⊢
      cases hopen : rabBrokerOpen S env cfg ((run S (St.initial fs) evs).found rollback) with
      | mk err s' =>
        cases err with
        | none => exact (fit_of_rabBrokerOpen hopen).congr rfl rfl
        | some e =>
          rw [hopen] at halive
          have hdead : s'.alive = false := alive_of_refused hopen
          simp [St.finish, hdead] at halive

end States

/-! ## Rotation without faults -/

section Faultless

variable {S : Site} {E : Env} {s : St} {pfd : ℕ}

theorem Env.Faultless.outcomeAt (hE : E.Faultless) (c : Call) (n : ℕ) :
    E.outcomeAt c n = .ok := by
  rw [Env.outcomeAt, Env.dead, hE.alive, hE.io]
  rfl

theorem Env.Faultless.serves (hE : E.Faultless) (cs : List Call) (n : ℕ) : E.Serves cs n := by
  induction cs generalizing n with
  | nil => trivial
  | cons c cs ih => exact ⟨hE.outcomeAt c n, ih (n + 1)⟩

/-- The lines that carry an intent can be built if and only if the client's strings are UTF-8. -/
theorem buildable_iff {it : Intent} (h : it.Writable S.codec) (now : UInt64) :
    it.Buildable S now ↔ it.Legible := by
  have hreceipt : (receiptCarry S it).isSome = true := by
    unfold receiptCarry
    cases hr : it.receipt with
    | none => rfl
    | some r =>
      obtain ⟨line, hline⟩ := Option.isSome_iff_exists.mp (h.receipt r hr)
      simp [hline]
  rw [Intent.Buildable, checkpoint_isSome_iff h]
  exact and_iff_left hreceipt

theorem allBuildable_iff {heap : ℕ → Intent} {as : List ℕ} (n : ℕ)
    (h : ∀ a ∈ as, (heap a).Writable S.codec) :
    AllBuildable S E heap as n ↔ ∀ a ∈ as, (heap a).Legible := by
  induction as generalizing n with
  | nil => simp [AllBuildable]
  | cons a as ih =>
    rw [AllBuildable, List.forall_mem_cons, buildable_iff (h a (by simp)),
      ih (n + 1) fun b hb => h b (by simp [hb])]

/-- Without faults, the new segment is written if and only if every checkpoint can be built. -/
theorem fillPending_of_faultless (hE : E.Faultless) (pfd : ℕ) (h : s.opens.Writable S.codec) :
    (fillPending S E pfd s).1 = true ↔ ∀ a ∈ s.opens.walk, (s.opens.heap a).Legible := by
  rw [(fillPending_iff S E pfd s).1, allBuildable_iff _ fun a ha => h.of_mem_walk ha]
  exact and_iff_left (hE.serves _ _)

/-- Without faults and with a free archive name, the swap succeeds. -/
theorem swapSegment_of_faultless (hE : E.Faultless) {ts : UInt64} (hp : s.poisoned = false)
    (hlook : s.fs.lookup S.pendingName = some pfd) (hsink : s.fs.lookup S.base ≠ none)
    (hfree : s.fs.lookup (S.archName ts) = none) : (swapSegment S E pfd ts s).1 = true := by
  obtain ⟨i, hi⟩ := Option.ne_none_iff_exists'.mp hsink
  have hlook' : (s.fs.addName (S.archName ts) i).lookup S.pendingName = some pfd := by
    rw [Fs.lookup_addName_of_ne (S.archName_ne_pendingName ts).symm, hlook]
  have hlook'' : (s.fs.addName (S.archName ts) i).synced.lookup S.pendingName = some pfd :=
    hlook'
  simp [swapSegment, World.link, World.rabFsyncParentDir, World.rename, World.tickFs, hE.outcome,
    hi, hfree, hlook'', adoptSegment, hp]

/-- Without faults and with a free archive name, a rotation succeeds if and only if the names fit their
buffers and every checkpoint can be built. -/
theorem rotate_of_faultless (hE : E.Faultless) (h : Fit S s) (hok : s.uids.Ok s.cfg)
    (hp : s.poisoned = false) (hfree : s.fs.lookup (S.archName (E.clock (archTick s))) = none) :
    (rotate S E s).1 = true ↔ S.pendingTooLong = false ∧
      S.archTooLong (E.clock (archTick s)) = false ∧
        ∀ a ∈ s.opens.walk, (s.opens.heap a).Legible := by
  by_cases hpending : S.pendingTooLong = true
  · simp [rotate, hpending]
  rw [Bool.not_eq_true] at hpending
  have hleft : pendingLeft S E s = none := if_pos (hE.outcomeAt .unlink s.calls)
  have hopens : OpensPending S E s := ⟨hpending, by rw [hleft]; trivial, hE.serves _ _⟩
  obtain ⟨pfd, s₀, hopen⟩ : ∃ pfd s₀, pendingOpened S E s = some (pfd, s₀) :=
    ⟨_, exists_pendingOpened_iff.mpr ⟨hopens, rfl⟩⟩
  obtain ⟨⟨w, hw⟩, hlook, hnames, -, heq⟩ := pendingOpened_spec hopen
  have hopens : s₀.opens = s.opens := by rw [hw]
  have hok₀ : s₀.uids.Ok s₀.cfg := by
    rw [hw]
    exact hok
  have hfill := fillPending_of_faultless (S := S) (s := s₀) hE pfd (by rw [hopens]; exact h.opens)
  obtain ⟨b, hfills, -, hspec⟩ := fillPending_spec S E pfd hok₀
  rw [heq, ← hopens, ← hfill]
  unfold rotateInto
  split
  · rename_i s₁ hs₁
    simp [hs₁]
  rename_i s₁ hs₁
  rw [hs₁] at hfills hspec
  have hts : (s₁.readClock E).1 = E.clock (archTick s) := by
    have hticks : s₁.ticks = archTick s₀ := (hspec rfl).1
    rw [hw] at hticks
    exact congrArg E.clock hticks
  have hlookup : ∀ name, s₁.fs.lookup name = s₀.fs.lookup name := by
    intro name
    rw [hfills.fs]
    rfl
  by_cases hlong : S.archTooLong (E.clock (archTick s)) = true
  · simp [hts, hlong]
  rw [Bool.not_eq_true] at hlong
  simp only [hts, hlong, hpending, Bool.false_eq_true, if_false, hE.plain, hs₁, true_and, iff_true]
  refine swapSegment_of_faultless hE ?_ ?_ ?_ ?_
  · change s₁.poisoned = false
    rw [hfills.poisoned_eq, hw]
    exact hp
  · exact (hlookup S.pendingName).trans hlook
  · exact (hlookup S.base).trans_ne
      ((hnames S.base S.pendingName_ne_base.symm).trans_ne h.sink)
  · exact (hlookup _).trans ((hnames _ (S.archName_ne_pendingName _)).trans hfree)

end Faultless

/-- In every reachable state whose broker is not poisoned, over any files and after any run of
requests and starts with any faults: a checkpoint can be built for every open intent, at every time,
if and only if the client's strings that the broker holds are UTF-8; a receipt line can be built for
every open intent that has a receipt; and where no call fails and the archive name is free, a rotation
succeeds if and only if those strings are UTF-8 and the names of the pending segment and of the archive
fit their buffers. -/
theorem rotation_blocked_iff {S : Site} {fs : Fs} {evs : List Event} {s : St}
    (hs : s = (run S (St.initial fs) evs).begin_) (halive : s.alive = true)
    (hp : s.poisoned = false) :
    (∀ a ∈ s.opens.walk, ∀ now, ((s.opens.heap a).checkpoint S.codec now).isSome = true ↔
      (s.opens.heap a).Legible) ∧
    (∀ a ∈ s.opens.walk, ∀ r, (s.opens.heap a).receipt = some r →
      (receiptLine S.codec (s.opens.heap a).cid true r).isSome = true) ∧
    ∀ E : Env, E.Faultless → s.fs.lookup (S.archName (E.clock (archTick s))) = none →
      ((rotate S E s).1 = true ↔ S.pendingTooLong = false ∧
        S.archTooLong (E.clock (archTick s)) = false ∧
          ∀ a ∈ s.opens.walk, (s.opens.heap a).Legible) := by
  have hfit : Fit S s := by
    subst hs
    exact (fit_run halive).congr rfl rfl
  have hok : s.uids.Ok s.cfg := by
    subst hs
    exact (fits_run halive).toOk
  refine ⟨fun a ha => checkpoint_isSome_iff (hfit.opens.of_mem_walk ha),
    fun a ha => (hfit.opens.of_mem_walk ha).receipt, ?_⟩
  intro E hE hfree
  exact rotate_of_faultless hE hfit hok hp hfree

/-- The sample open can be carried, and a rotation after it succeeds. -/
theorem rotation_blocked_iff_openRun :
    (rotate Sample.site (Sample.env 3000000 2)
      (run Sample.site (St.initial Sample.fs) Sample.openRun).begin_).1 = true := by
  obtain ⟨halive, hp, hlong, hfree, hlegible⟩ :
      (run Sample.site (St.initial Sample.fs) Sample.openRun).begin_.alive = true ∧
      (run Sample.site (St.initial Sample.fs) Sample.openRun).begin_.poisoned = false ∧
      Sample.site.archTooLong ((Sample.env 3000000 2).clock
        (archTick (run Sample.site (St.initial Sample.fs) Sample.openRun).begin_)) = false ∧
      (run Sample.site (St.initial Sample.fs) Sample.openRun).begin_.fs.lookup
        (Sample.site.archName ((Sample.env 3000000 2).clock
          (archTick (run Sample.site (St.initial Sample.fs) Sample.openRun).begin_))) = none ∧
      ∀ a ∈ (run Sample.site (St.initial Sample.fs) Sample.openRun).begin_.opens.walk,
        ((run Sample.site (St.initial Sample.fs) Sample.openRun).begin_.opens.heap a).Legible := by
    decide +kernel
  exact ((rotation_blocked_iff rfl halive hp).2.2 (Sample.env 3000000 2) (Sample.faultless _ _)
    hfree).mpr ⟨by decide, hlong, hlegible⟩

/-- An operation of 128 octets whose last character has two of them: the buffer holds one. -/
def Sample.accented : Bytes := List.replicate 126 97 ++ [195, 169]

/-- An open with that operation. -/
def Sample.accentedRun : List Event :=
  [.start (env 1000000 0) config false,
    .request (env 2000000 1) (actor 1000) (openBody accented)]

/-- The open is accepted, and then no checkpoint can be built and no rotation succeeds. -/
theorem rotation_blocked :
    outAt Sample.site (St.initial Sample.fs) Sample.accentedRun 1 =
        .reply (.openOk (Sample.cid 2000000 1) (Sample.binding 1) none) ∧
      (run Sample.site (St.initial Sample.fs) Sample.accentedRun).begin_.opens.walk = [0] ∧
      (((run Sample.site (St.initial Sample.fs) Sample.accentedRun).begin_.opens.heap 0).checkpoint
        Sample.site.codec 3000000).isSome = false ∧
      (rotate Sample.site (Sample.env 3000000 2)
        (run Sample.site (St.initial Sample.fs) Sample.accentedRun).begin_).1 = false := by
  decide +kernel

end AuditBroker
