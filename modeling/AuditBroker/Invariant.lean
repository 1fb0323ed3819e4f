import AuditBroker.Moves
import AuditBroker.Run

/-!
# The invariant of a run

Three things stand for the same history: the ledger of the lines that landed, the tables of a living
process, and every file that a crash may leave at the sink's path.  `Sound` is what holds at all times,
`Live` what holds of a living process.  Every move keeps them (`Move.live`), so every request does, and
a start makes them true again (`Started.live`).
-/

namespace AuditBroker

open Foundation

/-- The history is guarded, and the files stand for it. -/
structure Sound (S : Site) (s : St) : Prop where
  guarded : Guarded (EntryGuard S) s.journal
  fs_ok : s.fs.Ok
  disk : OnDisk S (Segment S s.journal) s.fs

/-- The tables of a process stand for the history, too. -/
structure Live (S : Site) (s : St) : Prop extends Sound S s where
  tables : s.toTables.Ok
  /-- The open set is the ledger, without a line that landed although its append failed. -/
  log : ∃ J, s.journal = J ++ s.landed.toList ∧ s.opens.view = ledger J
  ready : s.poisoned = false → SinkReady S s ∧ s.landed = none

/-- The invariant between events. -/
structure Inv (S : Site) (s : St) : Prop extends Sound S s where
  live : s.alive = true → Live S s

variable {S : Site} {C : Ctx} {s s' : St} {line : Bytes} {act : Act} {install : Tables → Tables}

theorem Live.kept (h : Live S s) : Kept s := ⟨h.tables.uids, h.fs_ok⟩

/-- The open set of a healthy process is the ledger. -/
theorem Live.view_eq (h : Live S s) (hp : s.poisoned = false) :
    s.opens.view = ledger s.journal := by
  obtain ⟨J, hJ, hview⟩ := h.log
  rw [(h.ready hp).2] at hJ
  rw [hview, hJ]
  simp

/-- The state depends on few of its fields. -/
theorem Live.congr (h : Live S s) (hj : s'.journal = s.journal) (hfs : s'.fs = s.fs)
    (hopens : s'.opens = s.opens) (huids : s'.uids.Ok s'.cfg) (hfd : s'.fd = s.fd)
    (hl : s'.landed = s.landed) (hp : s'.poisoned = s.poisoned) : Live S s' where
  guarded := hj ▸ h.guarded
  fs_ok := hfs ▸ h.fs_ok
  disk := by
    rw [hj, hfs]
    exact h.disk
  tables := ⟨hopens ▸ h.tables.opens, huids⟩
  log := by
    rw [hj, hl, hopens]
    exact h.log
  ready hpois := by
    obtain ⟨hr, hnone⟩ := h.ready (hp ▸ hpois)
    exact ⟨hr.congr hfs hfd, hl.trans hnone⟩

/-! ## Allowed commits meet the guards -/

/-- The request was parsed from a frame. -/
def Ctx.Parsed (S : Site) (C : Ctx) : Prop := ∃ body, rabParseRequest S.codec body = .ok C.req

/-- As long as its event has written nothing, the correlation id that a request mints is new. -/
def FreshCid (C : Ctx) (s : St) : Prop :=
  s.Unwritten → C.req.type = .openIntent → ∀ cid, rabMakeCorrelationId C.env = some cid →
    ∀ e ∈ s.journal, ∀ oi, e.act ≠ .intent cid oi

theorem FreshCid.congr (h : FreshCid C s) (hj : s'.journal = s.journal) (hseq : s'.seq = s.seq) :
    FreshCid C s' := by
  unfold FreshCid St.Unwritten
  rw [hj, hseq]
  exact h

/-- A line of the event leaves nothing to show. -/
theorem freshCid_of_line {e : Entry} (hj : s'.journal = s.journal ++ [e]) (he : e.seq = s'.seq) :
    FreshCid C s' := by
  intro hnew
  exact absurd he (hnew e (by simp [hj]))

/-- A request that is not an open mints no id for an intent. -/
theorem freshCid_of_type (h : C.req.type ≠ .openIntent) : FreshCid C s := fun _ htype =>
  absurd htype h

theorem Move.freshCid (h : Move S C s s') (hf : FreshCid C s) : FreshCid C s' := by
  cases h with
  | clock => exact hf.congr rfl rfl
  | check => exact hf.congr rfl rfl
  | torn => exact hf.congr rfl rfl
  | landed => exact freshCid_of_line rfl rfl
  | append => exact freshCid_of_line rfl rfl
  | stay _ hst => exact hf.congr (by rw [hst.rest]) (by rw [hst.rest])
  | turn _ htu => exact hf.congr htu.journal_eq htu.seq_eq

/-- What the code checks on its tables implies the guard on the history. -/
theorem Allowed.guard (h : Allowed S C s line act install) (hC : C.Parsed S) (hf : FreshCid C s)
    (hwf : s.opens.Wf) (hview : s.opens.view = ledger s.journal) :
    EntryGuard S s.journal (C.entry s line act) := by
  obtain ⟨body, hbody⟩ := hC
  have hrec := recordOk_of_rabParseRequest hbody
  cases h with
  | intent type fits hcid hbinding first _ hline =>
    exact ⟨type, hrec, hcid, hbinding, hf first type _ hcid, rfl, fits, s.host, hline⟩
  | @outcome a type find actor gate hline =>
    obtain ⟨ha, hbinding⟩ := hwf.of_openFindBinding find
    refine ⟨type, hrec, ⟨(s.opens.heap a).toOpenIntent, ?_, rabActorEq_iff.mp actor, hbinding,
      fun r hr heffect => ?_⟩, s.host, hline⟩
    · rw [← hview]
      exact hwf.view_of_open ha
    · by_contra hstate
      have hr : (s.opens.heap a).receipt = some r := hr
      have hgate : effectGate (s.opens.heap a) C.req.record = true := by
        rw [effectGate, hr]
        exact Bool.and_eq_true_iff.mpr ⟨by simpa using hstate, heffect⟩
      rw [gate] at hgate
      simp at hgate
  | emit type hcid hline =>
    exact ⟨type, hrec, hcid, phase_of_rabParseRequest hbody type, s.host, hline⟩
  | @issue a r token attempt effect find opened none r_eq schema boot minted unused hline =>
    obtain ⟨ha, -⟩ := hwf.openFindCid_eq_some_iff.mp find
    obtain ⟨J₀, e₀, oi, hJ, hact, hseq, henv, hpeer, hreq⟩ := opened
    -- The intent that was just opened is the one that the code found.
    have hoi : oi = (s.opens.heap a).toOpenIntent := by
      have hled := hwf.view_of_open ha
      rw [hview, hJ, ledger_snoc, hact, Act.apply_intent] at hled
      exact Option.some.inj hled
    have hopen : r.actorUid = oi.actor.uid ∧ r.verb = oi.operation ∧ r.resource = oi.resource := by
      rw [hoi, r_eq]
      exact ⟨rfl, rfl, rfl⟩
    have hver : r.verifier = verifierOf S token.bytes := by rw [r_eq]
    refine Or.inl ⟨effect, by rw [r_eq], ⟨J₀, e₀, oi, hJ, hact, hseq, henv, hpeer, hreq, ?_, hopen⟩,
      schema, by rw [r_eq]; rfl, boot, by rw [r_eq]; rfl, ⟨token, attempt, minted, hver⟩, ?_, hline⟩
    · rw [hoi]
      exact none
    · intro c oi' r' hled hr' heq
      rw [← hview] at hled
      refine (hwf.openFindVerifier_eq_none_iff (verifierOf_ne_nil S token.bytes)).mp unused c oi' r'
        hled hr' ?_
      rw [heq, hver]
  | @redeem a r nowUs type superuser find receipt issued principal token bound boot ttl hline =>
    obtain ⟨ha, -⟩ := hwf.openFindCid_eq_some_iff.mp find
    obtain ⟨a₀, hfind₀, hcid₀⟩ := token
    obtain ⟨ha₀, r₀, hr₀, hver⟩ := hwf.of_openFindVerifier hfind₀
    -- The verifier index and the correlation id lead to the same intent.
    obtain rfl : a₀ = a := hwf.cid_inj a₀ a ha₀ ha hcid₀
    obtain rfl : r₀ = r := Option.some.inj (hr₀.symm.trans receipt)
    refine Or.inr ⟨type, ⟨(s.opens.heap a₀).toOpenIntent, r₀, ?_, receipt, issued, rfl⟩, superuser,
      principal, hver, bound.1, bound.2.1, bound.2.2.1, bound.2.2.2, ⟨boot.2, nowUs, boot.1, ttl⟩,
      hline⟩
    rw [← hview]
    exact hwf.view_of_open ha₀

/-- The change in memory is the change of the history, for an intent under a correlation id that is
not open. -/
theorem Allowed.install_of_new (h : Allowed S C s line act install) (hok : s.toTables.Ok)
    (hnew : ∀ cid oi, act = .intent cid oi → s.opens.view cid = none) :
    (install s.toTables).Ok ∧ (install s.toTables).opens.view = act.apply s.opens.view := by
  cases h with
  | @intent cid binding type fits hcid hbinding first caps hline =>
    have hnone : s.opens.view cid = none := hnew cid _ rfl
    exact ⟨(hok.openAdd hnone _ _ _ _ _).1, hok.opens.view_openAdd hnone⟩
  | @outcome a type find actor gate hline =>
    obtain ⟨ha, -⟩ := hok.opens.of_openFindBinding find
    exact ⟨(hok.openRemove a).1, hok.opens.view_openRemove ha⟩
  | emit => exact ⟨hok, rfl⟩
  | @issue a r token attempt effect find opened none r_eq schema boot minted unused hline =>
    obtain ⟨ha, -⟩ := hok.opens.openFindCid_eq_some_iff.mp find
    refine ⟨⟨hok.opens.installReceipt ha none, hok.uids⟩, ?_⟩
    refine (hok.opens.view_installReceipt ha none).trans ?_
    rw [Act.apply, hok.opens.view_of_open ha]
    rfl
  | @redeem a r nowUs type superuser find receipt issued principal token bound boot ttl hline =>
    obtain ⟨ha, -⟩ := hok.opens.openFindCid_eq_some_iff.mp find
    refine ⟨⟨hok.opens.setReceipt receipt rfl, hok.uids⟩, ?_⟩
    refine (OpenSet.Wf.view_setReceipt
      (r := { r with state := .redeemed, acceptedTimeUs := s.lastClock }) hok.opens ha receipt
      rfl).trans ?_
    rw [Act.apply, hok.opens.view_of_open ha]
    rfl

/-- An intent that is committed is new in the tables, since it is new in the history. -/
theorem Allowed.view_eq_none (h : Allowed S C s line act install) (hf : FreshCid C s)
    (hJ : Guarded (EntryGuard S) s.journal) (hview : s.opens.view = ledger s.journal) :
    ∀ cid oi, act = .intent cid oi → s.opens.view cid = none := by
  rintro cid oi rfl
  rw [hview]
  cases hled : ledger s.journal cid with
  | none => rfl
  | some oi =>
    obtain ⟨e, he, hact⟩ := opened_of_ledger hJ hled
    cases h with
    | intent type fits hcid hbinding first caps hline =>
      exact absurd hact (hf first type cid hcid e he _)

theorem Allowed.install_spec (h : Allowed S C s line act install) (hf : FreshCid C s)
    (hJ : Guarded (EntryGuard S) s.journal) (hok : s.toTables.Ok)
    (hview : s.opens.view = ledger s.journal) :
    (install s.toTables).Ok ∧ (install s.toTables).opens.view = act.apply s.opens.view :=
  h.install_of_new hok (h.view_eq_none hf hJ hview)

/-! ## Moves -/

/-- The history and the files after a complete line. -/
theorem Live.sound_line (h : Live S s) (hC : C.Parsed S) (hf : FreshCid C s)
    (ok : Appendable S C s line act install) :
    ∀ s' : St, s'.journal = s.journal ++ [C.entry s line act] →
      s'.fs = s.fs.extend s.fd (line ++ [newline]) → Sound S s' := by
  intro s' hj hfs
  have hguard := ok.allowed.guard hC hf h.tables.opens (h.view_eq ok.healthy)
  have hdisk := (h.ready ok.healthy).1.line h.disk ok.allowed.isLine.newline_notMem
    (fun ls hls => hls.snoc h.guarded hguard)
  refine ⟨?_, ?_, ?_⟩
  · rw [hj]
    exact h.guarded.snoc hguard
  · rw [hfs]
    exact h.fs_ok.extend _ _
  · rw [hj, hfs]
    exact hdisk

/-- A rotation that is given up keeps the invariant of a process. -/
theorem Stays.live {E : Env} (hst : Stays S E s s') (healthy : s.poisoned = false)
    (hl : Live S s) : Live S s' := by
  obtain ⟨now, hev, -⟩ := hst.evicts
  obtain ⟨hready, hnone⟩ := hl.ready healthy
  obtain ⟨hdisk, hok, hready'⟩ := hst.onDisk hready hl.fs_ok hl.disk
  have hj : s'.journal = s.journal := by rw [hst.rest]
  have hlanded : s'.landed = s.landed := by rw [hst.rest]
  refine ⟨⟨hj ▸ hl.guarded, hok, hj ▸ hdisk⟩, ⟨?_, ?_⟩, ?_, fun _ => ⟨hready', ?_⟩⟩
  · rw [hst.opens_eq]
    exact hl.tables.opens
  · rw [hst.cfg_eq]
    exact hev.ok
  · rw [hj, hlanded, hst.opens_eq]
    exact hl.log
  · rw [hlanded, hnone]

/-- A rotation that changes the sink keeps the invariant of a process. -/
theorem Turns.live {E : Env} (htu : Turns S E s s') (healthy : s.poisoned = false)
    (hl : Live S s) : Live S s' := by
  obtain ⟨now, hev, -⟩ := htu.evicts
  obtain ⟨hready, hnone⟩ := hl.ready healthy
  have hcarry : ∀ ls, CarryIntents S s.opens.heap s.opens.walk ls →
      Segment S s.journal (ls ++ rateLines S s'.uids (carriedUids s)) := fun ls hls =>
    segment_carry hl.guarded hl.tables.opens (hl.view_eq healthy) hls s'.uids
      (nodup_carriedUids hl.tables.uids)
  obtain ⟨hdisk, hready'⟩ := htu.onDisk hl.disk hcarry
  have hlanded : s'.landed = s.landed := by rw [htu.rest]
  refine ⟨⟨htu.journal_eq ▸ hl.guarded, htu.fs_ok, htu.journal_eq ▸ hdisk⟩, ⟨?_, ?_⟩, ?_,
    fun hp => ⟨hready' hp, ?_⟩⟩
  · rw [htu.opens_eq]
    exact hl.tables.opens
  · rw [htu.cfg_eq]
    exact hev.ok
  · rw [htu.journal_eq, hlanded, htu.opens_eq]
    exact hl.log
  · rw [hlanded, hnone]

/-- Every move keeps the invariant of a process. -/
theorem Move.live (h : Move S C s s') (hC : C.Parsed S) (hf : FreshCid C s) (hl : Live S s) :
    Live S s' := by
  cases h with
  | clock => exact hl.congr rfl rfl rfl hl.tables.uids rfl rfl rfl
  | check hev => exact hl.congr rfl rfl rfl hev.ok rfl rfl rfl
  | @torn w b healthy hb hfs =>
    have hdisk : OnDisk S (Segment S s.journal) w.fs :=
      hfs ▸ (hl.ready healthy).1.torn hl.disk hb
    have hok : w.fs.Ok := hfs ▸ hl.fs_ok.extend _ _
    exact ⟨⟨hl.guarded, hok, hdisk⟩, hl.tables, hl.log, by simp⟩
  | landed ok hfs =>
    exact ⟨hl.sound_line hC hf ok _ rfl hfs, hl.tables, ⟨s.journal, rfl, hl.view_eq ok.healthy⟩,
      by simp⟩
  | @append w n line act install ok hfs =>
    obtain ⟨hready, hnone⟩ := hl.ready ok.healthy
    have hview := hl.view_eq ok.healthy
    obtain ⟨hok, hinst⟩ := ok.allowed.install_spec hf hl.guarded hl.tables hview
    refine ⟨hl.sound_line hC hf ok _ rfl hfs, (hok.rateNote _ _ _).1,
      ⟨s.journal ++ [C.entry s line act], ?_, ?_⟩,
      fun _ => ⟨hready.ready_line ok.allowed.isLine.newline_notMem hfs rfl, hnone⟩⟩
    · exact (List.append_nil _).symm.trans (congrArg _ (congrArg Option.toList hnone).symm)
    · refine hinst.trans ?_
      rw [ledger_snoc, hview]
      rfl
  | stay healthy hst => exact hst.live healthy hl
  | turn healthy htu => exact htu.live healthy hl

theorem Moves.freshCid (h : Moves S C s s') (hf : FreshCid C s) : FreshCid C s' := by
  induction h with
  | refl => exact hf
  | tail _ hmove ih => exact hmove.freshCid ih

theorem Moves.live (h : Moves S C s s') (hC : C.Parsed S) (hf : FreshCid C s) (hl : Live S s) :
    Live S s' := by
  induction h with
  | refl => exact hl
  | tail hmoves hmove ih => exact hmove.live hC (Moves.freshCid hmoves hf) ih

/-! ## Events -/

/-- A start after which there is a process: its tables are those of the replayed sink. -/
theorem Started.live {cfg : Config} (h : Started S cfg s s') (hs : Sound S s) (hfs : s'.fs.Ok)
    (hdisk : OnDisk S (Segment S s.journal) s'.fs) : Live S s' := by
  obtain ⟨total, R, hR, htables⟩ := h.replay
  have htracks := hs.disk.sinkFile.lines.tracks cfg total R hR
  have hj : s'.journal = s.journal := by rw [h.rest]
  have hnone : s'.landed = none := by rw [h.rest]
  refine ⟨⟨hj ▸ hs.guarded, hfs, hj ▸ hdisk⟩, htables ▸ htracks.ok, ⟨s.journal, ?_, ?_⟩,
    fun _ => ⟨h.ready, hnone⟩⟩
  · rw [hj, hnone]
    simp
  · rw [htables]
    exact htracks.view

/-- The directory that a start finds is one of those a crash may leave. -/
theorem dir_settle_mem (s : St) (rollback : Bool) : (s.settle rollback).fs.dir ∈ s.fs.dirs := by
  unfold St.settle Fs.dirs
  cases rollback with
  | false => simp
  | true => cases s.fs.undo <;> simp

theorem Fs.Ok.of_mem_dirs {fs fs' : Fs} {d : List (Bytes × ℕ)} (h : fs.Ok) (hd : d ∈ fs.dirs)
    (hdir : fs'.dir = d) (hundo : fs'.undo = none) (hnext : fs'.next = fs.next) : fs'.Ok := by
  refine ⟨fun x hx => ?_, by simp [hundo]⟩
  rw [hnext]
  rw [hdir] at hx
  rcases List.mem_cons.mp hd with rfl | hmem
  · exact h.dir_lt x hx
  · exact h.undo_lt _ (Option.mem_toList.mp hmem) x hx

/-- A crash leaves what the files stand for. -/
theorem Sound.crashedTo (h : Sound S s) {d : List (Bytes × ℕ)} (hd : d ∈ s.fs.dirs) :
    Sound S (s.crashedTo d) :=
  ⟨h.guarded, h.fs_ok.of_mem_dirs hd rfl rfl rfl, h.disk.of_mem_dirs hd rfl rfl⟩

theorem Sound.settle (h : Sound S s) (rollback : Bool) :
    Sound S (s.settle rollback) ∧ (s.settle rollback).fs.undo = none := by
  have hmem := dir_settle_mem s rollback
  exact ⟨⟨h.guarded, h.fs_ok.of_mem_dirs hmem rfl rfl rfl, h.disk.of_mem_dirs hmem rfl rfl⟩, rfl⟩

theorem Sound.congr (h : Sound S s) (hj : s'.journal = s.journal) (hfs : s'.fs = s.fs) :
    Sound S s' := ⟨hj ▸ h.guarded, hfs ▸ h.fs_ok, by rw [hj, hfs]; exact h.disk⟩

/-- The end of an event. -/
theorem Live.finish (h : Live S s) (E : Env) : Inv S (s.finish E) :=
  ⟨h.toSound.congr rfl rfl, fun _ => h.congr rfl rfl rfl h.tables.uids rfl rfl rfl⟩

end AuditBroker
