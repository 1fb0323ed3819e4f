import AuditBroker.Reading
import AuditBroker.Sample

/-!
# Restart

A restart that accepts the sink rebuilds the open set that the process had; only a line that landed
although its append failed may be ahead of it.  The sink is accepted whenever the metadata of every
record fits the buffers of the reader.
-/

namespace AuditBroker

open Foundation

variable {S : Site} {fs : Fs} {s s₀ : St} {evs : List Event} {E : Env} {cfg : Config}

/-! ## What a start rebuilds -/

/-- A process serves at the end of the run, or was killed while it handled the last request. -/
def Served (S : Site) (s₀ : St) (evs : List Event) : Prop :=
  (run S s₀ evs).alive = true ∨
    ∃ evs' env peer body, evs = evs' ++ [.request env peer body] ∧ (run S s₀ evs').alive = true

/-- The tables of a served run stand for the history, whether or not the process was killed. -/
theorem Served.live (h : Served S (St.initial fs) evs) (hsink : EmptySink S fs)
    (hunlinks : UnlinksRun evs) (hids : FreshIds S evs) : Live S (run S (St.initial fs) evs) := by
  rcases h with halive | ⟨evs', env, peer, body, rfl, halive⟩
  · exact (traced_run hsink hunlinks hids).inv.live halive
  · have htraced := traced_run hsink hunlinks.of_append hids.of_append
    have hlive := htraced.inv.live halive
    rw [run_concat]
    simp only [step, halive, if_true]
    unfold connHandle
    split
    · exact hlive.congr rfl rfl rfl hlive.tables.uids rfl rfl rfl
    · rename_i req hreq
      obtain ⟨hlive', -⟩ := htraced.handle hunlinks.last hids halive hreq
      exact hlive'.congr rfl rfl rfl hlive'.tables.uids rfl rfl rfl

/-- The open set that an accepted start rebuilds is the ledger of the whole history. -/
theorem view_of_open (h : Sound S s) (hundo : s.fs.undo = none)
    (hopen : (rabBrokerOpen S E cfg s).1 = none) :
    (rabBrokerOpen S E cfg s).2.opens.view = ledger s.journal := by
  obtain ⟨-, ⟨hne, -⟩ | ⟨-, hstarted⟩⟩ := rabBrokerOpen_spec S E cfg hundo h.fs_ok
  · exact absurd hopen hne
  · obtain ⟨total, R, hR, htables⟩ := hstarted.replay
    have htracks := h.disk.sinkFile.lines.tracks cfg total R hR
    rw [htables]
    exact htracks.view

theorem view_of_start (h : Sound S s) {rollback : Bool}
    (hopen : (rabBrokerOpen S E cfg (s.found rollback)).1 = none) :
    (rabBrokerOpen S E cfg (s.found rollback)).2.opens.view = ledger s.journal := by
  obtain ⟨hsound, hundo⟩ := h.settle rollback
  have hfound : Sound S (s.found rollback) := hsound.congr rfl rfl
  exact view_of_open hfound hundo hopen

/-- Restart is faithful to the live broker: after any run, with faults, crashes, rotations and earlier
restarts anywhere, an accepted start rebuilds the open set of the process, with the effect of the line
that landed although its append failed, if there is one. -/
theorem restart_faithful (hsink : EmptySink S fs) (hunlinks : UnlinksRun evs)
    (hids : FreshIds S evs)
    (hserved : Served S (St.initial fs) evs) (E : Env) (cfg : Config) (rollback : Bool)
    (hopen : (rabBrokerOpen S E cfg ((run S (St.initial fs) evs).found rollback)).1 = none) :
    (rabBrokerOpen S E cfg ((run S (St.initial fs) evs).found rollback)).2.opens.view =
      match (run S (St.initial fs) evs).landed with
      | none => (run S (St.initial fs) evs).opens.view
      | some e => e.act.apply (run S (St.initial fs) evs).opens.view := by
  have hlive := hserved.live hsink hunlinks hids
  obtain ⟨J, hJ, hview⟩ := hlive.log
  rw [view_of_start hlive.toSound hopen, hJ, hview]
  cases (run S (St.initial fs) evs).landed with
  | none => simp
  | some e => exact ledger_snoc J e

/-- The theorem after that run: a start finds the intent and its receipt as the process had them. -/
theorem restart_faithful_openRun :
    (rabBrokerOpen Sample.site (Sample.env 3000000 0) Sample.config
        ((run Sample.site (St.initial Sample.fs) Sample.openRun).found false)).2.opens.view =
      (run Sample.site (St.initial Sample.fs) Sample.openRun).opens.view ∧
    (((run Sample.site (St.initial Sample.fs) Sample.openRun).opens.view
      (Sample.cid 2000000 1)).bind OpenIntent.receipt).isSome = true := by
  have hlanded : (run Sample.site (St.initial Sample.fs) Sample.openRun).landed.isSome = false := by
    decide +kernel
  have hview := restart_faithful Sample.emptySink Sample.unlinksRun_openRun Sample.freshIds_openRun
    (Or.inl (by decide +kernel)) (Sample.env 3000000 0) Sample.config false (by decide +kernel)
  refine ⟨?_, by decide +kernel⟩
  rw [hview]
  cases h : (run Sample.site (St.initial Sample.fs) Sample.openRun).landed with
  | none => rfl
  | some e => simp [h] at hlanded

/-! ## What a start accepts -/

/-- No call fails, and the process is not killed. -/
structure Env.Faultless (E : Env) : Prop where
  alive : E.killAt = none
  io : ∀ c n, E.io c n = .ok

theorem Env.Faultless.outcome (h : E.Faultless) (c : Call) (w : World) : E.outcome c w = .ok := by
  rw [Env.outcome, Env.dead, h.alive]
  exact h.io c w.calls

theorem Env.Faultless.plain (h : E.Faultless) (c : Call) (w : World) :
    World.plain E c w = (true, w.tick) := by
  rw [World.plain, h.outcome]
  rfl

/-- Without faults the sink is read. -/
theorem slurpSegment_of_faultless (hE : E.Faultless) {w : World}
    (hreg : ∀ n, sinkFile S w.fs = some n → n.kind = .regular)
    (hsize : ∀ n, sinkFile S w.fs = some n → n.bytes.length ≤ maxSegmentBytes) :
    ∃ w', slurpSegment S E w = (.ok ((sinkFile S w.fs).elim [] Inode.bytes), w') := by
  unfold slurpSegment
  rw [hE.outcome]
  cases hl : w.fs.lookup S.base with
  | none => exact ⟨w.tick, by simp [sinkFile, hl]⟩
  | some i =>
    have hfile : sinkFile S w.fs = some (w.fs.node i) := by rw [sinkFile, hl, Option.map_some]
    have hkind : (w.tick.fs.node i).kind = .regular := hreg _ hfile
    have hlen : ¬maxSegmentBytes < (w.tick.tick.fs.node i).bytes.length :=
      not_lt.mpr (hsize _ hfile)
    simp only [hkind, hE.plain, if_neg hlen, hfile, Option.elim_some]
    split
    · rename_i hempty
      have hempty : (w.fs.node i).bytes = [] := hempty
      exact ⟨_, by rw [hempty]⟩
    · exact ⟨_, rfl⟩

/-- Without faults a torn tail is removed. -/
theorem truncateTo_of_faultless (hE : E.Faultless) {w : World} {i : ℕ}
    (hl : w.fs.lookup S.base = some i) (len : ℕ) : (truncateTo S E len w).1 = true := by
  unfold truncateTo
  rw [hE.plain, hl]
  simp only [hE.outcome, hE.plain]

/-- Without faults a regular file that nobody else may write is opened. -/
theorem rabSinkOpen_of_faultless (hE : E.Faultless) (euid : UInt32) (name : Bytes) (w : World)
    (hreg : ∀ i, w.fs.lookup name = some i →
      (w.fs.node i).kind = .regular ∧ (w.fs.node i).worldWritable = false) :
    (World.rabSinkOpen E euid name w).1.isSome = true := by
  unfold World.rabSinkOpen
  rw [hE.outcome]
  cases hl : w.fs.lookup name with
  | none => simp [hE.plain, World.rabFsyncParentDir, hE.outcome]
  | some i =>
    obtain ⟨hkind, hww⟩ := hreg i hl
    simp [hE.plain, World.tick, hkind, hww]

/-- Without faults reconstruction accepts a sink whose lines can be replayed. -/
theorem reconstruct_of_faultless (hE : E.Faultless) {w : World}
    (hreg : ∀ n, sinkFile S w.fs = some n → n.kind = .regular)
    (hsize : ∀ n, sinkFile S w.fs = some n → n.bytes.length ≤ maxSegmentBytes)
    (hreplay : ∀ total, ∃ R,
      replayLines S (Replay.init cfg total) (sinkLines (sinkFile S w.fs)) = .ok R) :
    ∃ t w', reconstruct S E cfg w = (.ok t, w') := by
  obtain ⟨w₁, hslurp⟩ := slurpSegment_of_faultless hE hreg hsize
  have hw₁ : w₁.fs = w.fs := by
    have hfs := (slurpSegment_spec S E w).1
    rwa [hslurp] at hfs
  have hlines : (splitLines ((sinkFile S w.fs).elim [] Inode.bytes)).1 =
      sinkLines (sinkFile S w.fs) := by
    cases sinkFile S w.fs <;> rfl
  obtain ⟨R, hR⟩ := hreplay ((sinkFile S w.fs).elim [] Inode.bytes).length
  unfold reconstruct
  rw [hslurp]
  simp only [hlines, hR]
  split
  · exact ⟨_, _, rfl⟩
  -- There is a torn tail, so there is a file to truncate.
  rename_i htail
  cases hl : w.fs.lookup S.base with
  | none => simp [sinkFile, hl, splitLines] at htail
  | some i =>
    have htrunc := truncateTo_of_faultless (S := S) (w := w₁) hE (by rw [hw₁, hl])
      (((sinkFile S w.fs).elim [] Inode.bytes).length -
        (splitLines ((sinkFile S w.fs).elim [] Inode.bytes)).2.length)
    split
    · rename_i w' heq
      rw [heq] at htrunc
      simp at htrunc
    · exact ⟨_, _, rfl⟩

/-- Removing a stale pending segment does not touch the sink. -/
theorem sinkFile_withoutPending (S : Site) (E : Env) (s : St) :
    sinkFile S (if S.pendingTooLong then s else unlinkPending S E s).fs = sinkFile S s.fs := by
  split
  · rfl
  have hframe : Fs.Frame (· = S.base) (fun _ => False) s.fs (unlinkPending S E s).fs :=
    frame_unlinkPending S E s fun h => S.pendingName_ne_base h
  rw [sinkFile, sinkFile, hframe.lookup S.base rfl]
  cases s.fs.lookup S.base with
  | none => rfl
  | some i => rw [Option.map_some, Option.map_some, hframe.node i not_false]

/-- Without faults a start accepts a sink whose lines can be replayed. -/
theorem rabBrokerOpen_of_faultless (hE : E.Faultless) (hcfg : cfg.check = none)
    (hreg : ∀ n, sinkFile S s.fs = some n → n.kind = .regular ∧ n.worldWritable = false)
    (hsize : ∀ n, sinkFile S s.fs = some n → n.bytes.length ≤ maxSegmentBytes)
    (hreplay : ∀ total, ∃ R,
      replayLines S (Replay.init cfg total) (sinkLines (sinkFile S s.fs)) = .ok R) :
    (rabBrokerOpen S E cfg s).1 = none := by
  unfold rabBrokerOpen
  rw [hcfg]
  set s₁ := if S.pendingTooLong then s else unlinkPending S E s with hs₁
  have hsink : sinkFile S s₁.toWorld.fs = sinkFile S s.fs := sinkFile_withoutPending S E s
  obtain ⟨t, w, hrec⟩ := reconstruct_of_faultless (S := S) (w := s₁.toWorld) hE
    (fun n hn => (hreg n (hsink ▸ hn)).1) (fun n hn => hsize n (hsink ▸ hn)) (hsink ▸ hreplay)
  obtain ⟨-, htrim, -⟩ := reconstruct_spec S E cfg s₁.toWorld
  rw [hsink, hrec] at htrim
  have hopen := rabSinkOpen_of_faultless hE S.euid S.base w fun i hi => by
    have hok : SinkOk (fun _ => True) (sinkFile S s.fs) := ⟨hreg, trivial⟩
    exact (htrim.sinkOk hok).regular (w.fs.node i) (by simp only [sinkFile, hi, Option.map_some])
  simp only [hrec]
  cases ho : World.rabSinkOpen E S.euid S.base w with
  | mk fd w' =>
    rw [ho] at hopen
    cases fd with
    | none => simp at hopen
    | some fd => rfl

/-- A run whose requests come from peers and whose records have metadata that fits the reader. -/
structure Fitting (S : Site) (evs : List Event) : Prop where
  peers : ∀ env peer body, Event.request env peer body ∈ evs → peer.FromPeer
  records : ∀ env peer body req, Event.request env peer body ∈ evs →
    rabParseRequest S.codec body = .ok req → MetadataFits req.record

/-- Every line of the history of such a run can be parsed back. -/
theorem Fitting.readable (h : Fitting S evs) (htraced : Traced S s₀ evs s) :
    ∀ e ∈ s.journal, e.Readable := by
  intro e he
  obtain ⟨body, hev, hparse, -⟩ := htraced.caused e he
  have hmem := List.mem_of_getElem? hev
  have hread : e.peer.FromPeer ∧ MetadataFits e.req.record :=
    ⟨h.peers _ _ _ hmem, h.records _ _ _ _ hmem hparse⟩
  unfold Entry.Readable
  split
  · trivial
  · exact hread

/-- The broker writes no log that it would refuse at restart, as long as the metadata of every
record fits the buffers of the reader: whatever a crash leaves at the sink's path, every line of it is
accepted by `rab_parse_stored`, reconstruction accepts the whole segment, and `rab_broker_open`
succeeds on it. -/
theorem sink_reopens_of_fitting (hsink : EmptySink S fs) (hunlinks : UnlinksRun evs)
    (hids : FreshIds S evs) (hfit : Fitting S evs)
    (rollback : Bool) :
    (∀ line ∈ sinkLines (sinkFile S ((run S (St.initial fs) evs).found rollback).fs),
      (rabParseStored S.codec line).isSome = true) ∧
    ∀ E cfg, E.Faultless → cfg.check = none →
      (∀ n, sinkFile S ((run S (St.initial fs) evs).found rollback).fs = some n →
        n.bytes.length ≤ maxSegmentBytes) →
      (∃ t w, reconstruct S E cfg ((run S (St.initial fs) evs).found rollback).toWorld =
        (.ok t, w)) ∧
      (rabBrokerOpen S E cfg ((run S (St.initial fs) evs).found rollback)).1 = none := by
  have htraced := traced_run hsink hunlinks hids
  obtain ⟨hsound, -⟩ := htraced.inv.toSound.settle rollback
  have hsound : Sound S ((run S (St.initial fs) evs).found rollback) := hsound.congr rfl rfl
  have hread := hfit.readable htraced
  have hsegment := hsound.disk.sinkFile.lines
  have hreplay := hsegment.accepted hread
  refine ⟨?_, fun E cfg hE hcfg hsize => ⟨?_, ?_⟩⟩
  · obtain ⟨R, hR⟩ := hreplay rabConfigDefaults 0
    exact parsed_of_replayLines (fun line hline => (hsegment.isLine line hline).ne_nil) hR
  · exact reconstruct_of_faultless hE (fun n hn => (hsound.disk.sinkFile.regular n hn).1) hsize
      (hreplay cfg)
  · exact rabBrokerOpen_of_faultless hE hcfg hsound.disk.sinkFile.regular hsize (hreplay cfg)

instance (record : Members) : Decidable (MetadataFits record) :=
  decidable_of_iff ((domainStr record "operation").length < metaMax ∧
    (domainStr record "resource").length < metaMax ∧ (domainStr record "scope").length < scopeMax)
    ⟨fun h => ⟨h.1, h.2.1, h.2.2⟩, fun h => ⟨h.operation, h.resource, h.scope⟩⟩

/-- Does the record of a request fit, if the request is accepted? -/
def Sample.fits (body : Bytes) : Bool :=
  match rabParseRequest jsonText body with
  | .ok req => decide (MetadataFits req.record)
  | .error _ => true

theorem Sample.faultless (t : UInt64) (k : UInt8) : (env t k).Faultless := ⟨rfl, fun _ _ => rfl⟩

theorem Sample.fitting_openRun : Fitting site openRun where
  peers := by
    intro env peer body hmem
    simp only [openRun, List.mem_cons, Event.request.injEq, reduceCtorEq, false_or,
      List.not_mem_nil, or_false] at hmem
    obtain ⟨-, rfl, -⟩ := hmem
    exact fromPeer 1000
  records := by
    intro env peer body req hmem hreq
    simp only [openRun, List.mem_cons, Event.request.injEq, reduceCtorEq, false_or,
      List.not_mem_nil, or_false] at hmem
    obtain ⟨-, -, rfl⟩ := hmem
    have hfits : fits (effectBody (lit "install")) = true := by decide +kernel
    have hreq : rabParseRequest jsonText (effectBody (lit "install")) = .ok req := hreq
    rw [fits, hreq] at hfits
    exact of_decide_eq_true hfits

/-- The theorem after an effect open whose record fits. -/
theorem sink_reopens_of_fitting_openRun :
    (rabBrokerOpen Sample.site (Sample.env 3000000 0) Sample.config
      ((run Sample.site (St.initial Sample.fs) Sample.openRun).found false)).1 = none := by
  obtain ⟨-, hopen⟩ := sink_reopens_of_fitting Sample.emptySink Sample.unlinksRun_openRun
    Sample.freshIds_openRun
    Sample.fitting_openRun false
  refine (hopen _ _ (Sample.faultless 3000000 0) (by decide) ?_).2
  intro n hn
  have hsize : ((sinkFile Sample.site ((run Sample.site (St.initial Sample.fs)
      Sample.openRun).found false).fs).all fun n => n.bytes.length ≤ maxSegmentBytes) = true := by
    decide +kernel
  simpa [hn] using hsize

/-- A preview whose operation has 128 octets, one more than the reader's buffer holds. -/
def Sample.longRun : List Event :=
  [.start (env 1000000 0) config false,
    .request (env 2000000 1) (actor 1000) (emitBody (List.replicate 128 97))]

/-- The request schema puts no bound on `operation`, and `rab_build_audit` writes it whole, but
`load_opt_str` refuses it: an accepted preview makes every later start fail. -/
theorem sink_refused_longRun :
    UnlinksRun Sample.longRun ∧ FreshIds Sample.site Sample.longRun ∧
    (∀ env peer body, Event.request env peer body ∈ Sample.longRun → peer.FromPeer) ∧
    outAt Sample.site (St.initial Sample.fs) Sample.longRun 1 =
      .reply (.emitOk (Sample.cid 2000000 1)) ∧
    (sinkFile Sample.site (run Sample.site (St.initial Sample.fs) Sample.longRun).fs).all
      (fun n => n.bytes.length ≤ maxSegmentBytes) = true ∧
    (rabBrokerOpen Sample.site (Sample.env 3000000 0) Sample.config
        ((run Sample.site (St.initial Sample.fs) Sample.longRun).found false)).1 =
      some "corrupt audit record during reconstruction" := by
  refine ⟨Sample.unlinksRun ?_, by decide +kernel, ?_, by decide +kernel, by decide +kernel,
    by decide +kernel⟩
  · simp only [Sample.longRun, List.forall_mem_cons]
    exact ⟨⟨_, _, rfl⟩, ⟨_, _, rfl⟩, by simp⟩
  · intro env peer body hmem
    simp only [Sample.longRun, List.mem_cons, Event.request.injEq, reduceCtorEq, false_or,
      List.not_mem_nil, or_false] at hmem
    obtain ⟨-, rfl, -⟩ := hmem
    exact Sample.fromPeer 1000

end AuditBroker
