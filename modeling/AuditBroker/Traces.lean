import AuditBroker.Invariant

/-!
# Whole runs

From an empty sink, in every run whose unlinks work and whose minted correlation ids never collide,
the invariant holds in every state, every line of the history was caused by the request of its event
(`traced_run`), and the history only grows.  Faults, crashes, rotations and restarts may happen
anywhere.
-/

namespace AuditBroker

open Foundation

variable {S : Site} {C : Ctx} {s s' s₀ : St} {evs evs' : List Event} {ev : Event} {e : Entry}

/-! ## Assumptions on a run -/

/-- The correlation id that a request to open an intent mints. -/
def Event.minted? (S : Site) : Event → Option (Buf cidMax)
  | .request env _ body =>
    match rabParseRequest S.codec body with
    | .ok req => if req.type = .openIntent then rabMakeCorrelationId env else none
    | .error _ => none
  | .start _ _ _ => none

/-- Unlinks fail only on a missing name or by a crash. -/
def UnlinksRun (evs : List Event) : Prop := ∀ ev ∈ evs, ev.env.UnlinksWork

/-- The correlation ids that the requests of a run mint do not collide. -/
def FreshIds (S : Site) (evs : List Event) : Prop := (evs.filterMap (Event.minted? S)).Nodup

instance (S : Site) (evs : List Event) : Decidable (FreshIds S evs) :=
  inferInstanceAs (Decidable (List.Nodup _))

/-- The sink is missing or empty. -/
structure EmptySink (S : Site) (fs : Fs) : Prop where
  ok : fs.Ok
  undo : fs.undo = none
  empty : ∀ n, sinkFile S fs = some n →
    n.kind = .regular ∧ n.worldWritable = false ∧ n.bytes = []

theorem UnlinksRun.of_append (h : UnlinksRun (evs ++ evs')) : UnlinksRun evs :=
  fun ev hev => h ev (List.mem_append_left _ hev)

theorem UnlinksRun.take (h : UnlinksRun evs) (n : ℕ) : UnlinksRun (evs.take n) :=
  fun ev hev => h ev (List.mem_of_mem_take hev)

theorem UnlinksRun.last (h : UnlinksRun (evs ++ [ev])) : ev.env.UnlinksWork := h ev (by simp)

theorem FreshIds.of_append (h : FreshIds S (evs ++ evs')) : FreshIds S evs := by
  rw [FreshIds, List.filterMap_append] at h
  exact (List.nodup_append.mp h).1

theorem FreshIds.take (h : FreshIds S evs) (n : ℕ) : FreshIds S (evs.take n) := by
  rw [← List.take_append_drop n evs] at h
  exact h.of_append

/-- The line was appended while the request of its event was handled. -/
def Entry.CausedBy (S : Site) (s₀ : St) (evs : List Event) (e : Entry) : Prop :=
  ∃ body, evs[e.seq]? = some (.request e.env e.peer body) ∧
    rabParseRequest S.codec body = .ok e.req ∧ e.Lives (run S s₀ (evs.take e.seq)).cfg

theorem Entry.CausedBy.append (h : e.CausedBy S s₀ evs) (evs' : List Event) :
    e.CausedBy S s₀ (evs ++ evs') := by
  obtain ⟨body, hev, hparse, hlives⟩ := h
  have hlt : e.seq < evs.length := (List.getElem?_eq_some_iff.mp hev).1
  refine ⟨body, ?_, hparse, ?_⟩
  · rw [List.getElem?_append_left hlt, hev]
  · rw [List.take_append_of_le_length hlt.le]
    exact hlives

/-- The invariant of a run: that of its state, and the causes of its history. -/
structure Traced (S : Site) (s₀ : St) (evs : List Event) (s : St) : Prop where
  inv : Inv S s
  seq : s.seq = evs.length
  caused : ∀ e ∈ s.journal, e.CausedBy S s₀ evs

/-! ## One event -/

/-- A correlation id that was not minted before is not in the history. -/
theorem Traced.freshCid (h : Traced S s₀ evs s) {env : Env} {peer : Actor} {body : Bytes}
    {req : Request} (hids : FreshIds S (evs ++ [.request env peer body]))
    (hreq : rabParseRequest S.codec body = .ok req) : FreshCid { env, peer, req } s := by
  intro _ htype cid hcid e he oi hact
  obtain ⟨body', hev, hparse, -⟩ := h.caused e he
  obtain ⟨J₁, J₂, -, -, hg⟩ := h.inv.guarded.exists_of_mem he
  have hg := hg.intent hact
  -- Both requests mint the correlation id, so it occurs twice among those of the run.
  have hold : cid ∈ evs.filterMap (Event.minted? S) := by
    refine List.mem_filterMap.mpr ⟨_, List.mem_of_getElem? hev, ?_⟩
    simp only [Event.minted?, hparse, hg.type, if_true]
    exact hg.cid_minted
  have hnew : cid ∈ [Event.request env peer body].filterMap (Event.minted? S) := by
    refine List.mem_filterMap.mpr ⟨_, List.mem_singleton_self _, ?_⟩
    have htype : req.type = .openIntent := htype
    simp only [Event.minted?, hreq, htype, if_true]
    exact hcid
  rw [FreshIds, List.filterMap_append] at hids
  exact (List.nodup_append.mp hids).2.2 cid hold cid hnew rfl

/-- Between events, no line of the next event is in the history. -/
theorem Traced.unwritten (h : Traced S s₀ evs s) : s.begin_.Unwritten := by
  intro e he hseq
  obtain ⟨body, hev, -⟩ := h.caused e he
  have hlt : e.seq < evs.length := (List.getElem?_eq_some_iff.mp hev).1
  have hseq : e.seq = s.seq := hseq
  rw [hseq, h.seq] at hlt
  exact lt_irrefl _ hlt

/-- A request leaves a process in order, and its lines in the history. -/
theorem Live.request (h : Live S s) (hE : C.env.UnlinksWork) (hC : C.Parsed S)
    (hnew : s.Unwritten) (hfresh : FreshCid C s) :
    Live S (rabBrokerHandle S C s).2 ∧ Grows C s (rabBrokerHandle S C s).2 ∧
      Answers S C s (rabBrokerHandle S C s).2 (rabBrokerHandle S C s).1 := by
  have hhandled := rabBrokerHandle_handled (S := S) (C := C) h.tables.uids hnew
  obtain ⟨hmoves, -⟩ := hhandled.steps.moves hE h.kept
  exact ⟨hmoves.live hC hfresh h, (hhandled.steps.grows h.tables.uids).1, hhandled.answers⟩

theorem Live.begin_ (h : Live S s) : Live S s.begin_ :=
  h.congr rfl rfl rfl h.tables.uids rfl rfl rfl

/-- The moves of a request of a run, to a living process. -/
theorem Traced.moves (h : Traced S s₀ evs s) {env : Env} (peer : Actor) (req : Request)
    (hE : env.UnlinksWork) (halive : s.alive = true) :
    Moves S { env, peer, req } s.begin_ (rabBrokerHandle S { env, peer, req } s.begin_).2 := by
  have hlive := (h.inv.live halive).begin_
  exact ((rabBrokerHandle_handled hlive.tables.uids h.unwritten).steps.moves hE hlive.kept).1

/-- A request of a run, to a living process. -/
theorem Traced.handle (h : Traced S s₀ evs s) {env : Env} {peer : Actor} {body : Bytes}
    {req : Request} (hE : env.UnlinksWork) (hids : FreshIds S (evs ++ [.request env peer body]))
    (halive : s.alive = true) (hreq : rabParseRequest S.codec body = .ok req) :
    Live S (rabBrokerHandle S { env, peer, req } s.begin_).2 ∧
      Grows { env, peer, req } s.begin_ (rabBrokerHandle S { env, peer, req } s.begin_).2 ∧
      Answers S { env, peer, req } s.begin_ (rabBrokerHandle S { env, peer, req } s.begin_).2
        (rabBrokerHandle S { env, peer, req } s.begin_).1 := by
  have hfresh : FreshCid { env, peer, req } s.begin_ := h.freshCid hids hreq
  exact (h.inv.live halive).begin_.request hE ⟨body, hreq⟩ h.unwritten hfresh

/-- The state in which a start finds the files. -/
def St.found (s : St) (rollback : Bool) : St :=
  { (s.begin_.settle rollback) with alive := false, landed := none }

theorem step_start (S : Site) (s : St) (env : Env) (cfg : Config) (rollback : Bool) :
    (step S s (.start env cfg rollback)).2 =
      (rabBrokerOpen S env cfg (s.found rollback)).2.finish env := by
  simp only [step]
  split <;> rename_i heq <;> rw [St.found, heq]

/-- A start adds nothing to the history, and leaves a process in order or none. -/
theorem Inv.start (h : Inv S s) (env : Env) (cfg : Config) (rollback : Bool) :
    Inv S (step S s (.start env cfg rollback)).2 ∧
      (step S s (.start env cfg rollback)).2.journal = s.journal ∧
      (step S s (.start env cfg rollback)).2.seq = s.seq + 1 := by
  obtain ⟨hsound, hundo⟩ := h.toSound.settle rollback
  have hsound₁ : Sound S (s.found rollback) := hsound.congr rfl rfl
  have hundo₁ : (s.found rollback).fs.undo = none := hundo
  obtain ⟨⟨hfs, -, hdisk⟩, hopen⟩ := rabBrokerOpen_spec S env cfg hundo₁ hsound₁.fs_ok
  replace hdisk := hdisk _ hsound₁.disk
  rw [step_start]
  rcases hopen with ⟨-, hrest⟩ | ⟨-, hstarted⟩
  · have hj : (rabBrokerOpen S env cfg (s.found rollback)).2.journal = s.journal := by
      rw [hrest]
      rfl
    have hdead : (rabBrokerOpen S env cfg (s.found rollback)).2.alive = false := by
      rw [hrest]
      rfl
    refine ⟨⟨⟨hj ▸ h.guarded, hfs, hj ▸ hdisk⟩, fun halive => ?_⟩, hj, ?_⟩
    · simp [St.finish, hdead] at halive
    · change (rabBrokerOpen S env cfg (s.found rollback)).2.seq + 1 = _
      rw [hrest]
      rfl
  · refine ⟨(hstarted.live hsound₁ hfs hdisk).finish env, ?_, ?_⟩
    · change (rabBrokerOpen S env cfg (s.found rollback)).2.journal = _
      rw [hstarted.rest]
      rfl
    · change (rabBrokerOpen S env cfg (s.found rollback)).2.seq + 1 = _
      rw [hstarted.rest]
      rfl

/-- One event keeps the invariant of a run, and the history only grows. -/
theorem Traced.step (h : Traced S s₀ evs s) (hs : s = run S s₀ evs)
    (hE : ev.env.UnlinksWork) (hids : FreshIds S (evs ++ [ev])) :
    Traced S s₀ (evs ++ [ev]) (step S s ev).2 ∧ s.journal <+: (step S s ev).2.journal := by
  have hold : ∀ e ∈ s.journal, e.CausedBy S s₀ (evs ++ [ev]) := fun e he =>
    (h.caused e he).append [ev]
  have hlen : s.seq + 1 = (evs ++ [ev]).length := by simp [h.seq]
  cases ev with
  | request env peer body =>
    simp only [AuditBroker.step]
    split
    · rename_i halive
      have hlive := h.inv.live halive
      unfold connHandle
      split
      · have hfinish : Inv S (s.begin_.finish env) := hlive.begin_.finish env
        exact ⟨⟨hfinish, hlen, hold⟩, List.prefix_rfl⟩
      · rename_i req hreq
        have hE : env.UnlinksWork := hE
        obtain ⟨hlive', hgrows, -⟩ := h.handle hE hids halive hreq
        obtain ⟨l, hl, hfrom⟩ := hgrows.journal
        refine ⟨⟨hlive'.finish env, ?_, fun e he => ?_⟩, l, hl.symm⟩
        · rw [← hlen]
          exact congrArg (· + 1) hgrows.seq
        · have he : e ∈ s.journal ++ l := by
            rw [← show _ = s.journal ++ l from hl]
            exact he
          rcases List.mem_append.mp he with he | he
          · exact hold e he
          · obtain ⟨⟨hseq, henv, hpeer, hreq'⟩, hlives⟩ := hfrom e he
            have hseq : e.seq = evs.length := hseq.trans h.seq
            refine ⟨body, ?_, ?_, ?_⟩
            · rw [hseq, henv, hpeer]
              simp
            · rw [hreq', hreq]
            · rw [hseq, List.take_left, ← hs]
              exact hlives
    · exact ⟨⟨⟨h.inv.toSound.congr rfl rfl, fun halive => absurd halive ‹_›⟩, hlen, hold⟩,
        List.prefix_rfl⟩
  | start env cfg rollback =>
    obtain ⟨hinv, hj, hseq⟩ := h.inv.start env cfg rollback
    exact ⟨⟨hinv, hseq.trans hlen, fun e he => hold e (hj ▸ he)⟩, hj ▸ List.prefix_rfl⟩

/-! ## Runs -/

theorem traced_initial {fs : Fs} (h : EmptySink S fs) :
    Traced S (St.initial fs) [] (St.initial fs) := by
  refine ⟨⟨⟨.nil, h.ok, ?_⟩, by simp [St.initial]⟩, rfl, by simp [St.initial]⟩
  have hundo : (St.initial fs).fs.undo = none := h.undo
  rw [onDisk_iff_of_undo hundo]
  refine ⟨fun n hn => ⟨(h.empty n hn).1, (h.empty n hn).2.1⟩, ?_⟩
  have hlines : sinkLines (sinkFile S (St.initial fs).fs) = [] := by
    cases hf : sinkFile S (St.initial fs).fs with
    | none => rfl
    | some n => simp [sinkLines, (h.empty n hf).2.2, splitLines]
  rw [hlines]
  exact segment_nil S

/-- The invariant holds after every run from an empty sink. -/
theorem traced_run {fs : Fs} (h : EmptySink S fs) (hunlinks : UnlinksRun evs)
    (hids : FreshIds S evs) :
    Traced S (St.initial fs) evs (run S (St.initial fs) evs) := by
  induction evs using List.reverseRecOn with
  | nil => exact traced_initial h
  | append_singleton evs ev ih =>
    rw [run_concat]
    exact ((ih hunlinks.of_append hids.of_append).step rfl hunlinks.last hids).1

/-- The history of a run starts with that of each of its beginnings. -/
theorem prefix_journal {fs : Fs} (h : EmptySink S fs) (hunlinks : UnlinksRun (evs ++ evs'))
    (hids : FreshIds S (evs ++ evs')) :
    (run S (St.initial fs) evs).journal <+: (run S (St.initial fs) (evs ++ evs')).journal := by
  induction evs' using List.reverseRecOn with
  | nil => simp
  | append_singleton evs' ev ih =>
    rw [← List.append_assoc] at hunlinks hids ⊢
    rw [run_concat]
    have ht := traced_run h hunlinks.of_append hids.of_append
    exact (ih hunlinks.of_append hids.of_append).trans (ht.step rfl hunlinks.last hids).2

theorem prefix_journal_take {fs : Fs} (h : EmptySink S fs) (hunlinks : UnlinksRun evs)
    (hids : FreshIds S evs) (n : ℕ) :
    (run S (St.initial fs) (evs.take n)).journal <+: (run S (St.initial fs) evs).journal := by
  rw [← List.take_append_drop n evs] at hunlinks hids
  have hprefix := prefix_journal h hunlinks hids
  rwa [List.take_append_drop] at hprefix

/-! ## Replies -/

/-- What a reply in a run says: the process was alive, and the request was handled to the end. -/
theorem outAt_eq_reply {n : ℕ} {r : Response} (h : outAt S s₀ evs n = .reply r) :
    ∃ env peer body, evs[n]? = some (.request env peer body) ∧
      (run S s₀ (evs.take n)).alive = true ∧
      r = (connHandle S env peer body (run S s₀ (evs.take n)).begin_).1 ∧
      run S s₀ (evs.take (n + 1)) =
        (connHandle S env peer body (run S s₀ (evs.take n)).begin_).2.finish env := by
  unfold outAt at h
  cases hev : evs[n]? with
  | none => simp [hev] at h
  | some ev =>
    rw [hev] at h
    have htake : evs.take (n + 1) = evs.take n ++ [ev] := by
      rw [List.take_add_one, hev]
      rfl
    rw [htake, run_concat]
    cases ev with
    | start env cfg rollback =>
      simp only [step] at h
      split at h <;> split at h <;> simp at h
    | request env peer body =>
      simp only [step] at h
      split at h
      · rename_i halive
        split at h
        · simp at h
        · refine ⟨env, peer, body, rfl, halive, (Out.reply.inj h).symm, ?_⟩
          simp [step, halive]
      · simp at h

/-- A reply of a run that is not an error is backed by the history. -/
theorem answers_of_outAt {fs : Fs} (h : EmptySink S fs) (hunlinks : UnlinksRun evs)
    (hids : FreshIds S evs) {n : ℕ} {r : Response}
    (hout : outAt S (St.initial fs) evs n = .reply r) (hr : ∀ ec msg, r ≠ .error ec msg) :
    ∃ env peer body req, evs[n]? = some (.request env peer body) ∧
      rabParseRequest S.codec body = .ok req ∧
      Answers S { env, peer, req } (run S (St.initial fs) (evs.take n)).begin_
        (rabBrokerHandle S { env, peer, req } (run S (St.initial fs) (evs.take n)).begin_).2 r ∧
      (rabBrokerHandle S { env, peer, req }
          (run S (St.initial fs) (evs.take n)).begin_).2.finish env =
        run S (St.initial fs) (evs.take (n + 1)) := by
  obtain ⟨env, peer, body, hev, halive, hres, hrun⟩ := outAt_eq_reply hout
  have htake : evs.take (n + 1) = evs.take n ++ [Event.request env peer body] := by
    rw [List.take_add_one, hev]
    rfl
  have hE : env.UnlinksWork := hunlinks _ (List.mem_of_getElem? hev)
  have ht := traced_run h (hunlinks.take n) (hids.take n)
  unfold connHandle at hres hrun
  cases hreq : rabParseRequest S.codec body with
  | error ec =>
    rw [hreq] at hres
    exact absurd hres (hr _ _)
  | ok req =>
    rw [hreq] at hres hrun
    obtain ⟨-, -, hans⟩ := ht.handle hE (htake ▸ hids.take (n + 1)) halive hreq
    exact ⟨env, peer, body, req, hev, hreq, hres ▸ hans, hrun.symm⟩

end AuditBroker
