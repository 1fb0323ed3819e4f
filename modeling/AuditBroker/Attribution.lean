import AuditBroker.Reading
import AuditBroker.Sample

/-!
# Outcomes

Over the whole history of complete lines, archived and current, an intent gets at most one outcome
line.  It comes after the intent's own line, from the process that opened the intent and with the
binding that was issued for it; and it claims an effect only if the intent's receipt, if it has one,
was redeemed before.
-/

namespace AuditBroker

open Foundation

variable {S : Site} {fs : Fs} {evs : List Event} {J J₁ J₂ : List Entry} {e : Entry}
  {cid : Buf cidMax}

/-! ## On guarded histories -/

/-- An outcome is the only one of its correlation id. -/
theorem outcome_unique (h : Guarded (EntryGuard S) J) (hJ : J = J₁ ++ e :: J₂)
    (ha : e.act = .outcome cid) : ∀ e' ∈ J₁ ++ J₂, e'.act ≠ .outcome cid := by
  intro e' he' ha'
  rcases List.mem_append.mp he' with he' | he'
  · exact closed_once h hJ ha e' he' ha'
  · obtain ⟨K₁, K₂, rfl⟩ := List.append_of_mem he'
    have hJ' : J = (J₁ ++ e :: K₁) ++ e' :: K₂ := by rw [hJ]; simp
    exact closed_once h hJ' ha' e (by simp) ha

/-- A receipt line of an intent stands before its outcome. -/
theorem receipt_before_outcome (h : Guarded (EntryGuard S) J) (hJ : J = J₁ ++ e :: J₂)
    (ha : e.act = .outcome cid) {e' : Entry} {r : Receipt} (he' : e' ∈ J)
    (ha' : e'.act = .receipt cid r) : e' ∈ J₁ := by
  rw [hJ, List.mem_append, List.mem_cons] at he'
  rcases he' with he' | rfl | he'
  · exact he'
  · rw [ha] at ha'
    simp at ha'
  · -- After the outcome the intent is closed, and a receipt needs an open one.
    obtain ⟨K₁, K₂, rfl⟩ := List.append_of_mem he'
    have hJ' : J = (J₁ ++ e :: K₁) ++ e' :: K₂ := by rw [hJ]; simp
    obtain ⟨hK, hg⟩ := h.guard_of_eq hJ'
    obtain ⟨oi, hoi⟩ := hg.ledger_receipt ha'
    rw [ledger_eq_none_of_outcome hK (List.mem_append_right _ (List.mem_cons_self ..)) ha] at hoi
    simp at hoi

/-- An outcome that claims an effect on an intent with a receipt follows its redemption. -/
theorem redeemed_before_outcome (h : Guarded (EntryGuard S) J) (hJ : J = J₁ ++ e :: J₂)
    (ha : e.act = .outcome cid)
    (hclaim : (member? e.req.record "effect_issued").any Json.isTrue = true) {e' : Entry}
    {r : Receipt} (he' : e' ∈ J) (ha' : e'.act = .receipt cid r) :
    ∃ e'' ∈ J₁, ∃ r'', e''.act = .receipt cid r'' ∧ r''.state = .redeemed := by
  obtain ⟨hJ₁, hg⟩ := h.guard_of_eq hJ
  obtain ⟨oi, hoi, -, -, hgate⟩ := (hg.outcome ha).opened
  obtain ⟨r', hr', -⟩ := receipt_stays hJ₁ (receipt_before_outcome h hJ ha he' ha') ha' hoi
  obtain ⟨⟨e'', he'', ha''⟩, -⟩ := issued_of_ledger hJ₁ hoi hr'
  exact ⟨e'', he'', r', ha'', hgate r' hr' hclaim⟩

/-! ## On runs -/

/-- Outcomes are single-use and correctly attributed: an outcome line is the only one of its
correlation id, it comes after the intent's line, and the request that appended it carried the binding
minted for the intent and came from the actor that opened it. -/
theorem outcome_line_attributed (hsink : EmptySink S fs) (hunlinks : UnlinksRun evs)
    (hids : FreshIds S evs)
    (hJ : (run S (St.initial fs) evs).journal = J₁ ++ e :: J₂)
    (hline : IsAudit S "outcome" cid e.line) :
    (∀ e' ∈ J₁ ++ J₂, ¬IsAudit S "outcome" cid e'.line) ∧
      ∃ e₀ ∈ J₁, IsAudit S "intent" cid e₀.line ∧
        ∃ body₀ body req binding,
          evs[e₀.seq]? = some (.request e₀.env e₀.peer body₀) ∧
          evs[e.seq]? = some (.request e.env e.peer body) ∧
          rabParseRequest S.codec body = .ok req ∧ req.type = .writeOutcome ∧
          rabMakeCorrelationId e₀.env = some cid ∧ rabMakeBinding e₀.env = some binding ∧
          lineBinding S e₀.line = some binding.bytes ∧ req.binding.bytes = binding.bytes ∧
          e.peer = e₀.peer := by
  have htraced := traced_run hsink hunlinks hids
  have hguarded := htraced.inv.guarded
  obtain ⟨hJ₁, hg⟩ := hguarded.guard_of_eq hJ
  have hact := (isOutcome_iff hJ₁ hg).mp hline
  have houtcome := hg.outcome hact
  have hmem : ∀ e', e' ∈ J₁ ++ J₂ ∨ e' = e → e' ∈ (run S (St.initial fs) evs).journal := by
    intro e' he'
    rw [hJ]
    simp only [List.mem_append, List.mem_cons] at he' ⊢
    tauto
  refine ⟨fun e' he' hline' => ?_, ?_⟩
  · obtain ⟨K, -, -, hK, hg'⟩ := hguarded.exists_of_mem (hmem e' (Or.inl he'))
    exact outcome_unique hguarded hJ hact e' he' ((isOutcome_iff hK hg').mp hline')
  obtain ⟨oi, hoi, hactor, hbinding, -⟩ := houtcome.opened
  obtain ⟨e₀, he₀, hact₀⟩ := opened_of_ledger hJ₁ hoi
  obtain ⟨K₁, K₂, -, hK₁, hg₀⟩ := hJ₁.exists_of_mem he₀
  have hopen := hg₀.intent hact₀
  obtain ⟨body₀, hev₀, -⟩ := htraced.caused e₀ (hmem e₀ (Or.inl (List.mem_append_left _ he₀)))
  obtain ⟨body, hev, hparse, -⟩ := htraced.caused e (hmem e (Or.inr rfl))
  refine ⟨e₀, he₀, (isIntent_iff hK₁ hg₀).mpr ⟨_, hact₀⟩, body₀, body, e.req, oi.binding, hev₀, hev,
    hparse, houtcome.type, hopen.cid_minted, hopen.binding_minted, ?_, hbinding.symm,
    hactor.symm.trans hopen.actor_eq⟩
  have hbind := (lineStr_audit hg₀ phaseIntent (by rw [Entry.phase?, hact₀])).2.2.2.2
  rw [hbind, Entry.binding?, hact₀]
  rfl

/-- An effect open, its redemption by the superuser, and the outcome from the opener. -/
def Sample.effectRun : List Event :=
  [.start (env 1000000 0) config false,
    .request (env 2000000 1) (actor 1000) (effectBody (lit "install")),
    .request (env 3000000 2) (actor 0) (redeemBody 1 1000 (lit "install")),
    .request (env 4000000 3) (actor 1000) (outcomeBody 1 (lit "install"))]

theorem Sample.freshIds_effectRun : FreshIds site effectRun := by decide +kernel

theorem Sample.unlinksRun_effectRun : UnlinksRun effectRun := by
  refine unlinksRun ?_
  simp only [effectRun, List.forall_mem_cons]
  exact ⟨⟨_, _, rfl⟩, ⟨_, _, rfl⟩, ⟨_, _, rfl⟩, ⟨_, _, rfl⟩, by simp⟩

/-- The outcome line of that run. -/
theorem Sample.outcome_effectRun :
    ∃ J₁ e, (run site (St.initial Sample.fs) effectRun).journal = J₁ ++ [e] ∧
      IsAudit site "outcome" (Sample.cid 2000000 1) e.line ∧ ClaimsEffect site e.line :=
  exists_last (by decide +kernel)

/-- The theorem at the outcome line of that run. -/
theorem outcome_line_attributed_effectRun :
    ∃ J₁ e, (run Sample.site (St.initial Sample.fs) Sample.effectRun).journal = J₁ ++ [e] ∧
      IsAudit Sample.site "outcome" (Sample.cid 2000000 1) e.line ∧
      ∃ e₀ ∈ J₁, IsAudit Sample.site "intent" (Sample.cid 2000000 1) e₀.line ∧
        e.peer = e₀.peer := by
  obtain ⟨J₁, e, hJ, hline, -⟩ := Sample.outcome_effectRun
  obtain ⟨-, e₀, he₀, hintent, body₀, body, req, binding, -, -, -, -, -, -, -, -, hpeer⟩ :=
    outcome_line_attributed Sample.emptySink Sample.unlinksRun_effectRun Sample.freshIds_effectRun
      hJ hline
  exact ⟨J₁, e, hJ, hline, e₀, he₀, hintent, hpeer⟩

/-- No effect claim without a redeemed receipt: if an outcome line claims an effect for an intent
whose open response carried an effect receipt, the redeemed transition was appended before. -/
theorem effect_claim_redeemed (hsink : EmptySink S fs) (hunlinks : UnlinksRun evs)
    (hids : FreshIds S evs) {n : ℕ}
    {binding : Buf bindingMax} {token : Buf receiptMax}
    (hopen : outAt S (St.initial fs) evs n = .reply (.openOk cid binding (some token)))
    (hJ : (run S (St.initial fs) evs).journal = J₁ ++ e :: J₂)
    (hline : IsAudit S "outcome" cid e.line) (hclaim : ClaimsEffect S e.line) :
    ∃ e' ∈ J₁, IsTransition S .redeemed cid e'.line := by
  have hguarded := (traced_run hsink hunlinks hids).inv.guarded
  obtain ⟨hJ₁, hg⟩ := hguarded.guard_of_eq hJ
  have hact := (isOutcome_iff hJ₁ hg).mp hline
  -- The reply is backed by the line of the issued receipt, which is still in the history.
  obtain ⟨env, peer, body, req, -, -, ⟨-, -, htoken⟩, hrun⟩ :=
    answers_of_outAt hsink hunlinks hids hopen (by simp)
  obtain ⟨-, e', he', -, r, hact', -⟩ := htoken token rfl
  have he' : e' ∈ (run S (St.initial fs) evs).journal :=
    (prefix_journal_take hsink hunlinks hids (n + 1)).subset (by rw [← hrun]; exact he')
  have hrecord : (member? e.req.record "effect_issued").any Json.isTrue = true := by
    have hmember := (lineStr_audit hg phaseOutcome (by rw [Entry.phase?, hact])).2.2.2.1
    rw [← hmember, show member? (lineMembers S e.line) "effect_issued" = _ from hclaim]
    rfl
  obtain ⟨e'', he'', r'', hact'', hstate⟩ :=
    redeemed_before_outcome hguarded hJ hact hrecord he' hact'
  obtain ⟨K₁, K₂, -, hK, hg''⟩ := hJ₁.exists_of_mem he''
  exact ⟨e'', he'', (isTransition_iff hK hg'').mpr ⟨r'', hact'', hstate⟩⟩

/-- The theorem at the same run: the open reply carried a receipt, and the outcome claims the
effect. -/
theorem effect_claim_redeemed_effectRun :
    outAt Sample.site (St.initial Sample.fs) Sample.effectRun 1 =
        .reply (.openOk (Sample.cid 2000000 1) (Sample.binding 1) (some (Sample.receipt 1))) ∧
      ∃ J₁ e, (run Sample.site (St.initial Sample.fs) Sample.effectRun).journal = J₁ ++ [e] ∧
        ClaimsEffect Sample.site e.line ∧
        ∃ e' ∈ J₁, IsTransition Sample.site .redeemed (Sample.cid 2000000 1) e'.line := by
  have hopen : outAt Sample.site (St.initial Sample.fs) Sample.effectRun 1 =
      .reply (.openOk (Sample.cid 2000000 1) (Sample.binding 1) (some (Sample.receipt 1))) := by
    decide +kernel
  obtain ⟨J₁, e, hJ, hline, hclaim⟩ := Sample.outcome_effectRun
  exact ⟨hopen, J₁, e, hJ, hclaim,
    effect_claim_redeemed Sample.emptySink Sample.unlinksRun_effectRun Sample.freshIds_effectRun
      hopen hJ hline hclaim⟩

namespace Sample

/-- The sample environment, in which no file can be removed. -/
def sticky (t : UInt64) (k : UInt8) : Env :=
  { env t k with io := fun c _ => if c = .unlink then .fail 0 else .ok }

/-- The sample configuration with a rotation after every line. -/
def rotating : Config := { config with rotateBytes := 1 }

/-- An effect open, and an emit whose rotation is killed between the checkpoint of the intent and that
of its receipt.  The restart cannot remove the pending segment, nor can the rotation after the outcome
of the intent, which therefore completes that segment and puts it at the sink's path.  The next restart
finds the intent open, without a receipt. -/
def revivedRun : List Event :=
  [.start (env 1000000 0) rotating false,
    .request (env 2000000 1) (actor 1000) (effectBody (lit "install")),
    .request { env 3000000 2 with killAt := some 13 } (actor 1000) (emitBody (lit "probe")),
    .start (sticky 4000000 0) rotating false,
    .request (sticky 5000000 3) (actor 1000) (failureBody 1 (lit "install")),
    .start (env 6000000 0) rotating false,
    .request (env 7000000 4) (actor 1000) (outcomeBody 1 (lit "install"))]

end Sample

/-- An effect is claimed without a redeemed receipt: the open response of that run carried a receipt,
its last line is an outcome of the intent that claims the effect, and no line of the history redeems a
receipt. -/
theorem effect_claimed_unredeemed :
    EmptySink Sample.site Sample.fs ∧
    FreshIds Sample.site Sample.revivedRun ∧
    outAt Sample.site (St.initial Sample.fs) Sample.revivedRun 1 =
        .reply (.openOk (Sample.cid 2000000 1) (Sample.binding 1) (some (Sample.receipt 1))) ∧
    (∃ J₁ e, (run Sample.site (St.initial Sample.fs) Sample.revivedRun).journal = J₁ ++ [e] ∧
      IsAudit Sample.site "outcome" (Sample.cid 2000000 1) e.line ∧
      ClaimsEffect Sample.site e.line) ∧
    ∀ e ∈ (run Sample.site (St.initial Sample.fs) Sample.revivedRun).journal,
      ¬IsTransition Sample.site .redeemed (Sample.cid 2000000 1) e.line := by
  obtain ⟨hfresh, hopen, hlast, hstate⟩ :
      FreshIds Sample.site Sample.revivedRun ∧
      outAt Sample.site (St.initial Sample.fs) Sample.revivedRun 1 =
        .reply (.openOk (Sample.cid 2000000 1) (Sample.binding 1) (some (Sample.receipt 1))) ∧
      ((run Sample.site (St.initial Sample.fs) Sample.revivedRun).journal.getLast?.any fun e =>
        decide (IsAudit Sample.site "outcome" (Sample.cid 2000000 1) e.line ∧
          ClaimsEffect Sample.site e.line)) = true ∧
      ∀ e ∈ (run Sample.site (St.initial Sample.fs) Sample.revivedRun).journal,
        lineStr Sample.site e.line "state" ≠ some (lit RcptState.redeemed.text) := by
    decide +kernel
  exact ⟨Sample.emptySink, hfresh, hopen, Sample.exists_last hlast,
    fun e he h => hstate e he h.state⟩

end AuditBroker
