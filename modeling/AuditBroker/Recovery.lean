import AuditBroker.Flood

/-!
# What a restart recovers of the rate windows

A restart reads the windows back from the rate records of the last rotation and the lines after it,
without evicting anything.  After eviction at any later time its rings are those of the process that it
replaces, so the quota checks go on as if nothing had happened.  A crash in the middle of a rotation is
no exception: the old segment and the new one stand for the same open set and the same windows.
-/

namespace AuditBroker

open Foundation

variable {S : Site} {fs : Fs} {cfg : Config} {evs : List Event} {E : Env} {s s' s₁ s₂ : St}

/-! ## Rings that agree -/

/-- Two rings that are recent parts of one stream agree after eviction. -/
theorem evicted_eq {u u' : UidState} {th th' : UInt64} {stream : List (UInt64 × UInt64)}
    (hu : u.Ring) (hu' : u'.Ring) (h : Recent Prod.fst th stream u.entries)
    (h' : Recent Prod.fst th stream u'.entries) (hth : th ≤ th') :
    (u'.uidEvict th').entries = (u.uidEvict th').entries ∧
      (u'.uidEvict th').bsum = (u.uidEvict th').bsum ∧ (u'.uidEvict th').n = (u.uidEvict th').n := by
  obtain ⟨hentries, hring⟩ := UidState.entries_uidEvict hu th'
  obtain ⟨hentries', hring'⟩ := UidState.entries_uidEvict hu' th'
  have heq : (u'.uidEvict th').entries = (u.uidEvict th').entries := by
    rw [hentries, hentries', evict_eq_of_recent (h.mono hth), evict_eq_of_recent (h'.mono hth)]
  refine ⟨heq, by rw [hring.bsum_eq, hring'.bsum_eq, heq], ?_⟩
  rw [← UInt32.toNat_inj, ← UidState.length_entries, ← UidState.length_entries, heq]

/-- The quota checks only look at the evicted ring. -/
theorem allowed_eq {t t' : UidTable} (hok : t.Ok cfg) (hok' : t'.Ok cfg) {v : UInt32} {now : UInt64}
    (hn : ((t'.node v).uidEvict (winTh cfg now)).n = ((t.node v).uidEvict (winTh cfg now)).n)
    (hb : ((t'.node v).uidEvict (winTh cfg now)).bsum =
      ((t.node v).uidEvict (winTh cfg now)).bsum) :
    (t'.rateAllowed cfg v now).1 = (t.rateAllowed cfg v now).1 ∧
      ∀ nbytes, (t'.uidBytesAllowed cfg v now nbytes).1 = (t.uidBytesAllowed cfg v now nbytes).1 := by
  constructor
  · by_cases hoff : cfg.rateMaxInWindow = 0
    · rw [UidTable.rateAllowed, UidTable.rateAllowed, if_pos hoff, if_pos hoff]
    · have h := ((hok.rateAllowed_spec v now).2 hoff).2
      have h' := ((hok'.rateAllowed_spec v now).2 hoff).2
      rw [hn, ← h] at h'
      exact Bool.eq_iff_iff.mpr h'
  · intro nbytes
    by_cases hoff : cfg.rateMaxBytesPerUid = 0
    · rw [UidTable.uidBytesAllowed, UidTable.uidBytesAllowed, if_pos hoff, if_pos hoff]
    · have h := ((hok.uidBytesAllowed_spec v now nbytes).2 hoff).2
      have h' := ((hok'.uidBytesAllowed_spec v now nbytes).2 hoff).2
      rw [hb, ← h] at h'
      exact Bool.eq_iff_iff.mpr h'

/-! ## Restart -/

/-- A restart neither forgets nor invents rate history, for rings of at most `2 ^ 31` cells: in every
run from an empty sink under one configuration, with a clock that does not go back, if a start accepts
what a healthy process has written, then at every time from the last clock reading on its rings hold
after eviction what those of the process hold, and the quota checks answer alike. -/
theorem restart_keeps_windows (hsink : EmptySink S fs) (hunlinks : UnlinksRun evs)
    (hids : FreshIds S evs) (hu : Under cfg evs)
    (hf : ForwardRun S (St.initial fs) evs) (hcap : cfg.rateMaxInWindow.toNat ≤ 2 ^ 31)
    (hs : s = run S (St.initial fs) evs) (halive : s.alive = true) (hp : s.poisoned = false)
    {rollback : Bool} (hopen : rabBrokerOpen S E cfg (s.found rollback) = (none, s')) (v : UInt32)
    (t : UInt64) (ht : s.lastClock ≤ t) :
    ((s'.uids.node v).uidEvict (winTh cfg t)).entries =
        ((s.uids.node v).uidEvict (winTh cfg t)).entries ∧
      ((s'.uids.node v).uidEvict (winTh cfg t)).bsum =
        ((s.uids.node v).uidEvict (winTh cfg t)).bsum ∧
      (s'.uids.rateAllowed cfg v t).1 = (s.uids.rateAllowed cfg v t).1 ∧
      ∀ nbytes, (s'.uids.uidBytesAllowed cfg v t nbytes).1 =
        (s.uids.uidBytesAllowed cfg v t nbytes).1 := by
  have htraced := traced_run hsink hunlinks hids
  have hrates := rateTraced_run hsink hunlinks hids hu hcap hf
  rw [← hs] at htraced hrates
  have hlive := htraced.inv.live halive
  have hwindows := hrates.live halive
  obtain ⟨⟨hring', -⟩, hrecent'⟩ :=
    windows_of_start hcap htraced.inv.toSound hrates.windowed hopen v
  obtain ⟨hentries, hbsum, hn⟩ := evicted_eq (hwindows.rings v).1 hring' (hwindows.recent hp v)
    hrecent' (winTh_mono cfg ht)
  have huids : s.uids.Ok cfg := hwindows.cfg_eq ▸ hlive.tables.uids
  obtain ⟨hcfg', hfits', -⟩ := fits_rabBrokerOpen hopen
  exact ⟨hentries, hbsum, allowed_eq huids (hcfg' ▸ hfits'.toOk) hn hbsum⟩

namespace Sample

/-- The sample broker with an intent and its receipt, and what a restart makes of it. -/
def restarted : Option String × St :=
  rabBrokerOpen site (env 3000000 0) config ((run site (St.initial Sample.fs) openRun).found false)

end Sample

/-- In the sample run the restart reads back the two lines of uid 1000. -/
theorem restart_keeps_windows_openRun :
    (((run Sample.site (St.initial Sample.fs) Sample.openRun).uids.node 1000).uidEvict
        (winTh Sample.config 3000000)).entries.length = 2 ∧
      ((Sample.restarted.2.uids.node 1000).uidEvict (winTh Sample.config 3000000)).entries =
        (((run Sample.site (St.initial Sample.fs) Sample.openRun).uids.node 1000).uidEvict
          (winTh Sample.config 3000000)).entries := by
  have hopen : Sample.restarted.1 = none := by decide +kernel
  have hclock : (run Sample.site (St.initial Sample.fs) Sample.openRun).lastClock ≤ 3000000 := by
    decide +kernel
  have heq : rabBrokerOpen Sample.site (Sample.env 3000000 0) Sample.config
      ((run Sample.site (St.initial Sample.fs) Sample.openRun).found false) =
        (none, Sample.restarted.2) := by
    rw [← hopen]
    exact Prod.mk.eta.symm
  have hkeeps := restart_keeps_windows Sample.emptySink Sample.unlinksRun_openRun
    Sample.freshIds_openRun Sample.under_openRun Sample.forwardRun_openRun (by decide) rfl
    (by decide +kernel) (by decide +kernel) heq 1000
    3000000 hclock
  exact ⟨by decide +kernel, hkeeps.1⟩

namespace Sample

/-- The largest capacity, and a segment that is full when the flood is over. -/
def fullConfig : Config := maxConfig 1722281884894 0

/-- The flood, and three lines after its window; the first of them rotates the segment. -/
def wrappedRun : List Event :=
  rotatingRun false fullConfig ++ [emitAt false 4000000 "x"] ++ [emitAt false 4000001 "x"]

theorem emitRun_wrapped : EmitRun fullConfig (Summary.wrapped fullConfig) wrappedRun := by
  have hQ : (0 : UInt64) = 0 ∨ floodLength * 401 ≤ (0 : UInt64).toNat := Or.inl rfl
  have hrotated : EmitRun fullConfig (Summary.rotated fullConfig) (rotatingRun false fullConfig) :=
    emitRun_rotated hQ (by decide) (by decide) (by decide)
  have hsize : ∀ n : UInt64, n ≤ 1000 → NotRotated fullConfig false n := fun n hn =>
    Or.inr (Or.inl (UInt64.le_trans hn (by decide)))
  have hring : (Summary.rotated fullConfig).ring = first := ring_rotated _ _
  have hring' : ((Summary.rotated fullConfig).post fullConfig 4000000 "x").ring = second :=
    ring_post_first _ _ hring
  obtain ⟨hsize₁, hsize₂⟩ := size_wrapped 1722281884894 0
  have hone := hrotated.concat emits_all.2.1 (UInt64.le_refl _)
    (hrotated.described.notRotated (floodConfig_maxConfig _ _) (takes_first hring hQ)
      (hsize _ (by rw [fullConfig, hsize₁]; decide))).1
  exact hone.concat emits_all.2.2.1 (by decide : (4000000 : UInt64) ≤ 4000001)
    (hone.described.notRotated (floodConfig_maxConfig _ _) (takes_second hring' hQ)
      (hsize (Summary.wrapped fullConfig).size (by rw [fullConfig, hsize₂]; decide))).1

theorem faultless_wrappedRun : ∀ ev ∈ wrappedRun, ev.env.Faultless := by
  intro ev hev
  simp only [wrappedRun, rotatingRun, startRun, List.mem_append, List.mem_singleton,
    List.mem_replicate] at hev
  rcases hev with (((rfl | ⟨-, rfl⟩) | rfl) | rfl) | rfl
  · exact faultless 1000000 0
  all_goals exact faultless_instantEnv _

end Sample

/-- With `rate_max_in_window = 2 ^ 32 - 1` a restart changes the window of a uid.  The first flood moves
the head of the ring to its last cell but one, and of the three lines that follow the third overwrites
the second.  When the window has moved past the first two, the process still counts two entries, one
of them a cell of the flood, and the restart reads the third line alone.  No call fails. -/
theorem restart_changes_window :
    EmptySink Sample.site Sample.fs ∧ UnlinksRun Sample.wrappedRun ∧
      FreshIds Sample.site Sample.wrappedRun ∧
      Under Sample.fullConfig Sample.wrappedRun ∧
      ForwardRun Sample.site (St.initial Sample.fs) Sample.wrappedRun ∧
      (∀ ev ∈ Sample.wrappedRun, ev.env.Faultless) ∧ Sample.fullConfig.rateMaxInWindow ≠ 0 ∧
      ∃ s s', s = run Sample.site (St.initial Sample.fs) Sample.wrappedRun ∧ s.alive = true ∧
        s.poisoned = false ∧ s.lastClock ≤ 5000001 ∧
        rabBrokerOpen Sample.site (Sample.env 5000000 0) Sample.fullConfig (s.found false) =
          (none, s') ∧
        ((s.uids.node 1000).uidEvict (winTh Sample.fullConfig 5000001)).entries =
          [(4000001, 400), (2000000, 401)] ∧
        ((s.uids.node 1000).uidEvict (winTh Sample.fullConfig 5000001)).bsum = 800 ∧
        ((s'.uids.node 1000).uidEvict (winTh Sample.fullConfig 5000001)).entries = [(4000001, 400)] ∧
        ((s'.uids.node 1000).uidEvict (winTh Sample.fullConfig 5000001)).bsum = 400 := by
  have hemits := Sample.emitRun_wrapped
  obtain ⟨s', hopen, hwindows⟩ := hemits.described.misread (Sample.faultless 5000000 0)
    Sample.wrappedLines_facts.2.2.2
  refine ⟨Sample.emptySink, hemits.unlinks, hemits.ids, hemits.under, hemits.forward,
    Sample.faultless_wrappedRun, (Sample.floodConfig_maxConfig _ _).on, _, s', rfl,
    hemits.described.alive, hemits.described.healthy, ?_,
    hopen, hwindows⟩
  rw [hemits.described.time]
  exact (by decide : (4000001 : UInt64) ≤ 5000001)

/-! ## A crash during rotation -/

/-- After a rotation only its own rename is uncertain, if no earlier one was before it. -/
theorem stale_rotate (hE : E.UnlinksWork) (hl : Live S s₁) (hstale : s₁.fs.stale = none)
    (hrot : (rotate S E s₁).2 = s₂) : s₂.fs.stale = none := by
  rcases rotate_stays_or_turns (S := S) hE hl.tables.uids hl.fs_ok with ⟨-, h⟩ | ⟨-, h⟩
  · rw [hrot] at h
    exact h.frame.stale hstale
  · rw [hrot] at h
    exact h.stale

/-- Whatever a rotation does or a crash in it leaves, there is a file at the sink's path. -/
theorem sinkFile_of_rotate (hE : E.UnlinksWork) (hl : Live S s₁) (hp : s₁.poisoned = false)
    (hrot : (rotate S E s₁).2 = s₂) {d : List (Bytes × ℕ)} (hmem : d ∈ s₂.fs.dirs) :
    sinkFile S (s₂.fs.settled d) ≠ none := by
  have hready := (hl.ready hp).1
  have hfile : sinkFile S s₁.fs ≠ none := by
    rw [hready.sinkFile_eq]
    exact Option.some_ne_none _
  rcases rotate_stays_or_turns (S := S) hE hl.tables.uids hl.fs_ok with ⟨-, h⟩ | ⟨-, h⟩
  · rw [hrot] at h
    obtain ⟨-, -, hready'⟩ := h.onDisk (Q := fun _ => True) hready hl.fs_ok
      (hl.disk.imp fun _ _ => trivial)
    have hdirs : s₂.fs.dirs = [s₂.fs.dir] := by rw [Fs.dirs, hready'.undo]; rfl
    rw [hdirs, List.mem_singleton] at hmem
    rw [hmem]
    change sinkFile S s₂.fs ≠ none
    rw [hready'.sinkFile_eq]
    exact Option.some_ne_none _
  · rw [hrot] at h
    have hnew : sinkFile S (s₂.fs.settled s₂.fs.dir) ≠ none := by
      change sinkFile S s₂.fs ≠ none
      rw [sinkFile, h.lookup]
      exact Option.some_ne_none _
    rcases List.mem_cons.mp hmem with heq | hmem
    · rw [heq]
      exact hnew
    · rcases h.undo with hundo | ⟨-, d, hundo, hold⟩
      · simp [hundo] at hmem
      · rw [hundo, Option.toList_some, List.mem_singleton] at hmem
        rw [hmem, hold]
        exact hfile

/-- What a rotation keeps, whether it changes the sink or gives up.  Its environment may be another one
than that of the request that it is part of. -/
theorem rotate_keeps (hE : E.UnlinksWork) (hlive : Live S s₁) (hp : s₁.poisoned = false)
    (hforward : E.Forward s₁) (hwindows : LiveWindows S cfg s₁) (hrot : (rotate S E s₁).2 = s₂) :
    Live S s₂ ∧ LiveWindows S cfg s₂ ∧ s₁.lastClock ≤ s₂.lastClock ∧
      s₂.journal = s₁.journal := by
  subst hrot
  rcases rotate_stays_or_turns (S := S) hE hlive.tables.uids hlive.fs_ok with ⟨-, h⟩ | ⟨-, h⟩
  · obtain ⟨-, hclock, -⟩ := h.toCarries.rotates.forward hforward
    exact ⟨h.live hp hlive, h.windows hp hlive hforward hwindows, hclock, by rw [h.rest]⟩
  · obtain ⟨-, hclock, -⟩ := h.toRotates.forward hforward
    exact ⟨h.live hp hlive, h.windows hp hlive hforward hwindows, hclock, h.journal_eq⟩

/-- Rotation is crash-safe, for rings of at most `2 ^ 31` cells.  Take any state that the broker passes
through while it handles a request of a run, as long as it is not poisoned, and let it rotate in any
environment: calls may fail, and the process may be killed before any of them.  If no
rename of an earlier process is still uncertain, then under every directory that the crash may leave
there is a file at the sink's path, and a start that accepts it finds the open intents with their
receipts and, at every time from the rotation on, the rate windows as they were before the rotation. -/
theorem rotation_crash_safe {env : Env} {peer : Actor} {body : Bytes} {req : Request}
    (hsink : EmptySink S fs) (hunlinks : UnlinksRun evs)
    (hids : FreshIds S (evs ++ [.request env peer body])) (hu : Under cfg evs)
    (hf : ForwardRun S (St.initial fs) (evs ++ [.request env peer body]))
    (hcap : cfg.rateMaxInWindow.toNat ≤ 2 ^ 31)
    (halive : (run S (St.initial fs) evs).alive = true)
    (hreq : rabParseRequest S.codec body = .ok req)
    (hm : Moves S { env, peer, req } (run S (St.initial fs) evs).begin_ s₁)
    (hp : s₁.poisoned = false) (hstale : s₁.fs.stale = none) (hE : E.UnlinksWork)
    (hforward : E.Forward s₁) (hrot : (rotate S E s₁).2 = s₂) {d : List (Bytes × ℕ)}
    (hd : d ∈ s₂.fs.crashDirs) :
    sinkFile S (s₂.crashedTo d).fs ≠ none ∧
      ∀ E' s', rabBrokerOpen S E' cfg (s₂.crashedTo d) = (none, s') →
        s'.opens.view = s₁.opens.view ∧
        ∀ v t, s₂.lastClock ≤ t →
          ((s'.uids.node v).uidEvict (winTh cfg t)).entries =
            ((s₁.uids.node v).uidEvict (winTh cfg t)).entries := by
  have htraced := traced_run hsink hunlinks hids.of_append
  have hrates := rateTraced_run hsink hunlinks hids.of_append hu hcap hf.of_append
  obtain ⟨hlive, -, hwindows⟩ := hrates.handle htraced hids halive hreq hf.forward hm
  rw [Fs.crashDirs_of_stale (stale_rotate hE hlive hstale hrot)] at hd
  refine ⟨sinkFile_of_rotate hE hlive hp hrot hd, fun E' s' hopen => ?_⟩
  obtain ⟨hlive', hwindows', hclock, hj⟩ := rotate_keeps hE hlive hp hforward hwindows hrot
  have hsound := hlive'.toSound.crashedTo hd
  refine ⟨?_, fun v t ht => ?_⟩
  · have hview := view_of_open hsound rfl (congrArg Prod.fst hopen)
    rw [hopen] at hview
    have hledger : ledger (s₂.crashedTo d).journal = ledger s₁.journal := congrArg ledger hj
    exact hview.trans (by rw [hledger, hlive.view_eq hp])
  · obtain ⟨⟨hring', -⟩, hrecent'⟩ := windows_of_open hcap hsound
      (hwindows'.toWindowed.of_mem_dirs rfl rfl hd rfl rfl) rfl hopen v
    change Recent Prod.fst (winTh cfg s₂.lastClock) (charges cfg v s₂.journal) _ at hrecent'
    rw [hj] at hrecent'
    have hrecent := (hwindows.recent hp v).mono (winTh_mono cfg hclock)
    exact (evicted_eq (hwindows.rings v).1 hring' hrecent hrecent' (winTh_mono cfg ht)).1

namespace Sample

/-- The sample broker while it answers the effect open, before the end of the event. -/
def opened : St :=
  (connHandle site (env 2000000 1) (actor 1000) (effectBody (lit "install"))
    (run site (St.initial Sample.fs) (startRun config)).begin_).2

/-- The process is killed in the middle of a rotation, while it writes the pending segment. -/
def cut : Env := { env 3000000 2 with killAt := some 14 }

/-- What a restart finds after it. -/
def salvaged : Option String × St :=
  rabBrokerOpen site (env 4000000 0) config
    ((rotate site cut opened).2.crashedTo (rotate site cut opened).2.fs.dir)

theorem opened_facts :
    opened.poisoned = false ∧ opened.fs.stale = none ∧ opened.lastClock ≤ 3000000 ∧
      (opened.uids.entries 1000).length = 2 ∧
      ((rotate site cut opened).2.fs.lookup site.pendingName).isSome = true ∧
      (rotate site cut opened).2.lastClock ≤ 4000000 ∧ salvaged.1 = none ∧
      (rabParseRequest site.codec (effectBody (lit "install"))).toOption.isSome = true := by
  decide +kernel

end Sample

/-- A crash of the sample broker with a half-written pending segment. -/
theorem rotation_crash_safe_cut :
    ((rotate Sample.site Sample.cut Sample.opened).2.fs.lookup Sample.site.pendingName).isSome = true ∧
      Sample.salvaged.2.opens.view = Sample.opened.opens.view ∧
      ((Sample.salvaged.2.uids.node 1000).uidEvict (winTh Sample.config 4000000)).entries =
        ((Sample.opened.uids.node 1000).uidEvict (winTh Sample.config 4000000)).entries := by
  obtain ⟨hhealthy, hstale, hclock, -, hpending, hclock', hopen, hparse⟩ := Sample.opened_facts
  obtain ⟨req, hreq⟩ : ∃ req, rabParseRequest Sample.site.codec
      (Sample.effectBody (lit "install")) = .ok req := by
    cases hp : rabParseRequest Sample.site.codec (Sample.effectBody (lit "install")) with
    | error e => simp [hp, Except.toOption] at hparse
    | ok req => exact ⟨req, rfl⟩
  obtain ⟨hstart, -⟩ := Sample.emitRun_startRun (by decide : Sample.config.check = none)
  have hmoves : Moves Sample.site { env := Sample.env 2000000 1, peer := Sample.actor 1000, req }
      (run Sample.site (St.initial Sample.fs) (Sample.startRun Sample.config)).begin_
      Sample.opened := by
    have h := (traced_run Sample.emptySink hstart.unlinks hstart.ids).moves (Sample.actor 1000) req
      (Sample.unlinksWork 2000000 1) hstart.described.alive
    have heq : Sample.opened = (rabBrokerHandle Sample.site
        { env := Sample.env 2000000 1, peer := Sample.actor 1000, req }
        (run Sample.site (St.initial Sample.fs) (Sample.startRun Sample.config)).begin_).2 := by
      rw [Sample.opened, connHandle, hreq]
    rw [heq]
    exact h
  have hforward : Sample.cut.Forward Sample.opened :=
    ⟨fun _ _ _ => UInt64.le_refl _, fun _ _ => hclock⟩
  have heq : rabBrokerOpen Sample.site (Sample.env 4000000 0) Sample.config
      ((rotate Sample.site Sample.cut Sample.opened).2.crashedTo
        (rotate Sample.site Sample.cut Sample.opened).2.fs.dir) =
        (none, Sample.salvaged.2) := by
    rw [← hopen]
    exact Prod.mk.eta.symm
  obtain ⟨-, hsafe⟩ := rotation_crash_safe Sample.emptySink hstart.unlinks
    Sample.freshIds_openRun hstart.under
    Sample.forwardRun_openRun (by decide) hstart.described.alive hreq hmoves hhealthy hstale
    (fun _ => rfl) hforward rfl (List.mem_cons_self ..)
  obtain ⟨hview, hwindows⟩ := hsafe _ _ heq
  exact ⟨hpending, hview, hwindows 1000 4000000 hclock'⟩

namespace Sample

/-- A rotation whose rename is not made durable, since the directory sync after it fails; then a restart,
which syncs no directory, and an open that is answered. -/
def staleRun : List Event :=
  [.start (env 1000000 0) { config with rotateBytes := 1 } false,
    .request { env 2000000 1 with
        io := fun c n => if c = .fsyncDir ∧ n = 17 then .fail 0 else .ok }
      (actor 1000) (emitBody (lit "probe")),
    .start (env 3000000 0) config false,
    .request (env 4000000 2) (actor 1000) (openBody (lit "install"))]

end Sample

/-- The rename of an earlier process has to be durable: a crash that undoes it after the restart takes
the intent away that was opened since. -/
example : (run Sample.site (St.initial Sample.fs) Sample.staleRun).opens.walk.length = 1 ∧
    ((run Sample.site (St.initial Sample.fs) Sample.staleRun).fs.stale.map fun d =>
      (rabBrokerOpen Sample.site (Sample.env 5000000 0) Sample.config
        ((run Sample.site (St.initial Sample.fs) Sample.staleRun).crashedTo d)).2.opens.walk.length) =
      some 0 := by
  decide +kernel

namespace Sample

/-- The largest capacity, and a rotation after every line. -/
def eagerConfig : Config := maxConfig 1 0

/-- The flood, during which no pending segment can be created; then one line, after which the segment is
rotated, and one more whose rotation fails again. -/
def jammedRun : List Event := rotatingRun true eagerConfig ++ [emitAt true 4000000 "x"]

theorem emitRun_jammed :
    EmitRun eagerConfig ((Summary.rotated eagerConfig).post eagerConfig 4000000 "x") jammedRun ∧
      EmitRun eagerConfig (Summary.wrapped eagerConfig) (jammedRun ++ [emitAt true 4000001 "x"]) := by
  have hQ : (0 : UInt64) = 0 ∨ floodLength * 401 ≤ (0 : UInt64).toNat := Or.inl rfl
  have hrotated : EmitRun eagerConfig (Summary.rotated eagerConfig) (rotatingRun true eagerConfig) :=
    emitRun_rotated hQ (Or.inr (Or.inr rfl)) (by decide) (by decide)
  have hkept : ∀ n : UInt64, NotRotated eagerConfig true n := fun _ => Or.inr (Or.inr rfl)
  have hring : (Summary.rotated eagerConfig).ring = first := ring_rotated _ _
  have hone := hrotated.concat emits_all.2.1 (UInt64.le_refl _)
    (hrotated.described.notRotated (floodConfig_maxConfig _ _) (takes_first hring hQ) (hkept _)).1
  refine ⟨hone, hone.concat emits_all.2.2.1 (by decide : (4000000 : UInt64) ≤ 4000001) ?_⟩
  exact (hone.described.notRotated (floodConfig_maxConfig _ _)
    (takes_second (ring_post_first _ _ hring) hQ) (hkept _)).1

end Sample

/-- With `rate_max_in_window = 2 ^ 32 - 1` a crash in a rotation changes the window of a uid.  After the
third line the segment is full; the process is killed between the unlink of a stale pending segment and
the creation of a new one, and the restart reads the third line where the process counted it and a cell
of the flood. -/
theorem rotation_changes_window :
    EmptySink Sample.site Sample.fs ∧
      UnlinksRun (Sample.jammedRun ++ [Sample.emitAt true 4000001 "x"]) ∧
      FreshIds Sample.site (Sample.jammedRun ++ [Sample.emitAt true 4000001 "x"]) ∧
      Under Sample.eagerConfig Sample.jammedRun ∧
      ForwardRun Sample.site (St.initial Sample.fs)
        (Sample.jammedRun ++ [Sample.emitAt true 4000001 "x"]) ∧
      (run Sample.site (St.initial Sample.fs) Sample.jammedRun).alive = true ∧
      rabParseRequest Sample.site.codec (Sample.emitBody (lit "x")) =
        .ok (Sample.emitRequest "x") ∧
      ∃ E s₁ s₂ s', Moves Sample.site (Sample.emitCtx true 4000001 "x")
          (run Sample.site (St.initial Sample.fs) Sample.jammedRun).begin_ s₁ ∧
        s₁.poisoned = false ∧ Sample.eagerConfig.rotateBytes ≠ 0 ∧
        Sample.eagerConfig.rotateBytes < s₁.segBytes ∧ E.UnlinksWork ∧ E.Forward s₁ ∧
        E.killAt = some (s₁.calls + 1) ∧ (rotate Sample.site E s₁).2 = s₂ ∧
        rabBrokerOpen Sample.site (Sample.env 5000000 0) Sample.eagerConfig (s₂.found false) =
          (none, s') ∧
        s₂.lastClock ≤ 5000001 ∧
        ((s₁.uids.node 1000).uidEvict (winTh Sample.eagerConfig 5000001)).entries =
          [(4000001, 400), (2000000, 401)] ∧
        ((s'.uids.node 1000).uidEvict (winTh Sample.eagerConfig 5000001)).entries =
          [(4000001, 400)] := by
  obtain ⟨hemits, hlast⟩ := Sample.emitRun_jammed
  have hring : ((Sample.Summary.rotated Sample.eagerConfig).post Sample.eagerConfig 4000000 "x").ring =
      Sample.second :=
    Sample.ring_post_first _ _ (Sample.ring_rotated _ _)
  obtain ⟨s₁, hmoves, hdescribed, -, -⟩ := hemits.described.posted (Sample.floodConfig_maxConfig _ _)
    (Sample.takes_second hring (Or.inl rfl)) true
  set E : Env := { Sample.instantEnv false 4000001 with killAt := some (s₁.calls + 1) } with hE
  -- the process is dead when it comes to create the pending segment
  have hfail : E.outcome .openExcl (unlinkPending Sample.site E s₁).toWorld = .fail 0 := by
    have hcalls : (unlinkPending Sample.site E s₁).calls = s₁.calls + 1 :=
      World.calls_unlink E s₁.toWorld
    rw [Env.outcome, Env.dead, hcalls]
    simp [hE]
  obtain ⟨w, hrot, hframe⟩ := rotate_of_openExcl_fails hfail
  have hdescribed' := hdescribed.stays (stays_of_frame E hdescribed.live.tables.uids hframe)
  obtain ⟨s', hopen, hlive, -, hread, -⟩ := hdescribed'.misread (Sample.faultless 5000000 0)
    Sample.wrappedLines_facts.2.2.1
  have hsize : Sample.eagerConfig.rotateBytes < s₁.segBytes := by
    have hwrapped : s₁.segBytes = 899 := hdescribed.size.trans (Sample.size_wrapped 1 0).2
    rw [hwrapped]
    decide
  refine ⟨Sample.emptySink, hlast.unlinks, hlast.ids, hemits.under, hlast.forward,
    hemits.described.alive, Sample.emits_all.2.2.1.parse, E, s₁, _, s', hmoves, hdescribed.healthy,
    by decide, hsize,
    Sample.unlinksWork_instantEnv false 4000001, ⟨fun _ _ _ => UInt64.le_refl _, fun _ _ => ?_⟩, rfl,
    by rw [hrot], hopen, ?_, hlive, hread⟩
  · rw [hdescribed.time]
    exact UInt64.le_refl _
  · rw [hdescribed'.time]
    exact (by decide : (4000001 : UInt64) ≤ 5000001)

end AuditBroker
