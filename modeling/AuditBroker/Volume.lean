import AuditBroker.Accounting
import AuditBroker.Foundation.Tumbling

/-!
# The global write-byte quota

`bytes_allowed` and `global_bytes_note` keep a tumbling window over everything the broker appends.
The check and the note compute the window separately, in unsigned 64-bit arithmetic; as long as the
quota and one line together stay below `2 ^ 64`, they are the operations of `Tumble`, and the bounds
of a tumbling window hold along every run without faults in which the clock does not go back.

At the other end, with a quota of `2 ^ 64 - 1` the check never refuses: the sum wraps.
-/

namespace AuditBroker

open Foundation

variable {S : Site} {C : Ctx} {cfg : Config} {s s' : St} {l J : List Entry}

/-! ## The window as a tumbling window -/

/-- The size of a line in the sink, with its newline. -/
def Entry.length (e : Entry) : ℕ := e.line.length + 1

/-- The length of the rate window in microseconds. -/
def Config.window (cfg : Config) : ℕ := cfg.rateWindowSec.toNat * 1000000

/-- The global window over natural numbers. -/
def GlobalWindow.tumble (g : GlobalWindow) : Tumble := ⟨g.start.toNat, g.bytes.toNat⟩

theorem toNat_window (cfg : Config) :
    (cfg.rateWindowSec.toUInt64 * 1000000).toNat = cfg.window := by
  have hlt := cfg.rateWindowSec.toNat_lt
  rw [UInt64.toNat_mul, UInt32.toNat_toUInt64, Config.window]
  change cfg.rateWindowSec.toNat * 1000000 % 2 ^ 64 = _
  omega

theorem window_le_sub_iff {start now : UInt64} (h : start ≤ now) :
    cfg.rateWindowSec.toUInt64 * 1000000 ≤ now - start ↔
      start.toNat + cfg.window ≤ now.toNat := by
  have hle := UInt64.le_iff_toNat_le.mp h
  rw [UInt64.le_iff_toNat_le, toNat_window, UInt64.toNat_sub_of_le _ _ h]
  omega

/-- Without a wrap an accepted line fits what is left of the window. -/
theorem used_add_le_of_allowed {g : GlobalWindow} {now n : UInt64}
    (hon : cfg.rateMaxBytesGlobal ≠ 0) (hstart : g.start ≤ now)
    (hbytes : g.bytes.toNat ≤ cfg.rateMaxBytesGlobal.toNat)
    (hroom : cfg.rateMaxBytesGlobal.toNat + n.toNat < 2 ^ 64)
    (h : globalBytesAllowed cfg g now n = true) :
    g.tumble.used cfg.window now.toNat + n.toNat ≤ cfg.rateMaxBytesGlobal.toNat := by
  rw [globalBytesAllowed, if_neg hon] at h
  simp only [window_le_sub_iff hstart, decide_eq_true_eq] at h
  rw [Tumble.used]
  change (if g.start.toNat + cfg.window ≤ now.toNat then 0 else g.bytes.toNat) + _ ≤ _
  split
  · rename_i hlate
    rw [if_pos hlate, UInt64.le_iff_toNat_le, UInt64.toNat_add] at h
    change (0 + n.toNat) % 2 ^ 64 ≤ _ at h
    omega
  · rename_i hin
    rw [if_neg hin, UInt64.le_iff_toNat_le, UInt64.toNat_add] at h
    omega

/-- Without a wrap the note is that of a tumbling window. -/
theorem tumble_globalBytesNote {g : GlobalWindow} {now n : UInt64}
    (hon : cfg.rateMaxBytesGlobal ≠ 0) (hstart : g.start ≤ now)
    (hbytes : g.bytes.toNat ≤ cfg.rateMaxBytesGlobal.toNat)
    (hroom : cfg.rateMaxBytesGlobal.toNat + n.toNat < 2 ^ 64) :
    (globalBytesNote cfg g now n).tumble = g.tumble.note cfg.window now.toNat n.toNat := by
  have hzero : g.start = 0 ↔ g.start.toNat = 0 := by
    rw [← UInt64.toNat_inj]
    rfl
  rw [globalBytesNote, if_neg hon]
  simp only [window_le_sub_iff hstart, hzero]
  rw [Tumble.note]
  change _ = if g.start.toNat = 0 ∨ g.start.toNat + cfg.window ≤ now.toNat then _ else _
  split
  · rw [GlobalWindow.tumble, UInt64.toNat_add]
    change (⟨now.toNat, (0 + n.toNat) % 2 ^ 64⟩ : Tumble) = _
    rw [Nat.zero_add, Nat.mod_eq_of_lt (by omega)]
  · rw [GlobalWindow.tumble, UInt64.toNat_add, Nat.mod_eq_of_lt (by omega)]
    rfl

/-! ## One request -/

/-- The lines since the start of the process, and the window after them. -/
abbrev Volume (cfg : Config) (J : List Entry) (g : GlobalWindow) : Prop :=
  Tumbled (fun e : Entry => e.now.toNat) Entry.length cfg.window cfg.rateMaxBytesGlobal.toNat J
    g.tumble

/-- The quota and the line together do not wrap. -/
def Roomy (cfg : Config) (l : List Entry) : Prop :=
  ∀ e ∈ l, cfg.rateMaxBytesGlobal.toNat + e.length < 2 ^ 64

theorem toNat_size {e : Entry} (h : e.length < 2 ^ 64) : e.size.toNat = e.length :=
  UInt64.toNat_ofNat_of_lt' h

/-- The window of a volume starts at the time of one of its lines. -/
theorem start_le_of_volume {g : GlobalWindow} (h : Volume cfg J g) {now : UInt64}
    (hJ : ∀ e ∈ J, e.now ≤ now) : g.start ≤ now := by
  by_cases hzero : g.start.toNat = 0
  · rw [UInt64.le_iff_toNat_le, hzero]
    exact Nat.zero_le _
  · obtain ⟨e, he, heq⟩ := h.start_mem hzero
    rw [UInt64.le_iff_toNat_le]
    change g.tumble.start ≤ now.toNat
    rw [← heq]
    exact UInt64.le_iff_toNat_le.mp (hJ e he)

/-- The times within a request do not go back, and its further readings come after them. -/
theorem Charged.now_le (h : Charged S C s l s') (hE : C.env.Faultless)
    (hmono : ∀ j k, j ≤ k → C.env.clock j ≤ C.env.clock k) :
    ∀ e ∈ l, (∃ k, e.now = C.env.clock k) ∧ e.now ≤ s'.lastClock ∧
      ∀ k, s'.ticks ≤ k → s'.lastClock ≤ C.env.clock k := by
  induction h with
  | refl => simp
  | clock _ ih =>
    intro e he
    obtain ⟨hread, hle, hnext⟩ := ih e he
    exact ⟨hread, UInt64.le_trans hle (hnext _ le_rfl),
      fun k hk => hmono _ _ (Nat.le_of_succ_le hk)⟩
  | check _ _ ih => exact ih
  | @append l s' w n line act install _ _ hclock _ _ _ ih =>
    obtain ⟨k, hk, hlast⟩ := hclock
    have hnext : ∀ j, s'.ticks ≤ j → s'.lastClock ≤ C.env.clock j := by
      intro j hj
      rw [hlast]
      exact hmono _ _ (hk.le.trans hj)
    intro e he
    rcases List.mem_append.mp he with he | he
    · exact ⟨(ih e he).1, (ih e he).2.1, hnext⟩
    · rw [List.mem_singleton.mp he]
      exact ⟨⟨k, hlast⟩, UInt64.le_refl _, hnext⟩
  | failed _ hfaulty => exact absurd hE hfaulty
  | @rotate l s' s'' _ _ hrot ih =>
    intro e he
    obtain ⟨hread, hle, hnext⟩ := ih e he
    refine ⟨hread, ?_⟩
    rcases hrot.clock with ⟨hticks, hlast⟩ | ⟨hticks, hlast⟩
    · rw [hticks, hlast]
      exact ⟨hle, hnext⟩
    · rw [hlast]
      exact ⟨UInt64.le_trans hle (hnext (s''.ticks - 1) (by omega)),
        fun k hk => hmono _ _ (by omega)⟩

theorem Charged.journal_of_faultless (h : Charged S C s l s') (hE : C.env.Faultless) :
    s'.journal = s.journal ++ l := by
  induction h with
  | refl => rw [List.append_nil]
  | clock _ ih => exact ih
  | check _ _ ih => exact ih
  | @append l s' w n line act install _ _ _ _ _ _ ih =>
    rw [← List.append_assoc, ← ih]
    rfl
  | failed _ hfaulty => exact absurd hE hfaulty
  | rotate _ _ hrot ih => exact hrot.journal_eq.trans ih

/-- A request without faults adds its lines to the volume. -/
theorem Charged.volume (h : Charged S C s l s') (hE : C.env.Faultless)
    (hmono : ∀ j k, j ≤ k → C.env.clock j ≤ C.env.clock k) (hpos : ∀ k, 0 < C.env.clock k)
    (hfits : s.uids.Fits s.cfg) (hon : s.cfg.rateMaxBytesGlobal ≠ 0)
    (hwindow : s.cfg.rateWindowSec ≠ 0) (hJ : ∀ e ∈ J, ∀ k, e.now ≤ C.env.clock k)
    (hvolume : Volume s.cfg J s.gwin) (hroom : Roomy s.cfg l) :
    Volume s.cfg (J ++ l) s'.gwin := by
  induction h with
  | refl =>
    rw [List.append_nil]
    exact hvolume
  | clock _ ih => exact ih hroom
  | check _ _ ih => exact ih hroom
  | @append l s' w n line act install h _ hclock _ hbytes _ ih =>
    set e := C.entry s' line act with he
    have hvol := ih fun e he => hroom e (by simp [he])
    have hcfg : s'.cfg = s.cfg := (h.fits hfits).1
    have hsize : s.cfg.rateMaxBytesGlobal.toNat + e.length < 2 ^ 64 := hroom e (by simp)
    have hnat : e.size.toNat = e.length := toNat_size (by omega)
    obtain ⟨k, -, hlast⟩ := hclock
    -- the line comes after all others
    have hle : ∀ e' ∈ J ++ l, e'.now ≤ e.now := by
      intro e' he'
      rcases List.mem_append.mp he' with he' | he'
      · have hk := hJ e' he' k
        rwa [← hlast] at hk
      · exact (h.now_le hE hmono e' he').2.1
    have hstart : s'.gwin.start ≤ e.now := start_le_of_volume hvol hle
    have hnote := tumble_globalBytesNote (n := e.size) hon hstart hvol.sum_le (by rwa [hnat])
    have hused := used_add_le_of_allowed hon hstart hvol.sum_le (by rwa [hnat])
      (hcfg ▸ hbytes)
    rw [hnat] at hnote hused
    rw [← List.append_assoc]
    change Tumbled _ _ _ _ _ (globalBytesNote s'.cfg s'.gwin e.now e.size).tumble
    rw [hcfg, hnote]
    refine hvol.concat ?_ ?_ (fun e' he' => UInt64.le_iff_toNat_le.mp (hle e' he')) hused
    · have hne : s.cfg.rateWindowSec.toNat ≠ 0 := fun h0 =>
        hwindow (UInt32.toNat_inj.mp h0)
      rw [Config.window]
      omega
    · have hk := UInt64.lt_iff_toNat_lt.mp (hpos k)
      rw [← hlast] at hk
      exact hk
  | failed _ hfaulty => exact absurd hE hfaulty
  | @rotate l s' s'' _ _ hrot ih =>
    have hgwin : s''.gwin = s'.gwin := by rw [hrot.rest]
    rw [hgwin]
    exact ih hroom

/-! ## Runs -/

/-- A request in whose environment no call fails. -/
def Event.IsFaultlessRequest (ev : Event) : Prop :=
  ∃ env peer body, ev = .request env peer body ∧ env.Faultless

/-- The clock of a sequence of events is positive and does not go back, within an event and from one
event to the next. -/
structure Ticking (evs : List Event) : Prop where
  mono : ∀ ev ∈ evs, ∀ j k, j ≤ k → ev.env.clock j ≤ ev.env.clock k
  pos : ∀ ev ∈ evs, ∀ k, 0 < ev.env.clock k
  ordered : evs.Pairwise fun a b => ∀ j k, a.env.clock j ≤ b.env.clock k

theorem Charged.alive (h : Charged S C s l s') : s'.alive = s.alive := by
  induction h with
  | refl => rfl
  | clock _ ih => exact ih
  | check _ _ ih => exact ih
  | append _ _ _ _ _ _ ih => exact ih
  | failed _ _ hsame _ ih => exact hsame.alive.trans ih
  | rotate _ _ hrot ih =>
    rw [hrot.rest]
    exact ih

/-- A run of requests after a start: the lines it appended, and the window after them. -/
structure Filled (s₀ s : St) (evs : List Event) (l : List Entry) : Prop where
  journal : s.journal = s₀.journal ++ l
  alive : s.alive = true
  cfg_eq : s.cfg = s₀.cfg
  fits : s.uids.Fits s.cfg
  dated : Dated s
  times : ∀ e ∈ l, ∃ ev ∈ evs, ∃ k, e.now = ev.env.clock k
  volume : Roomy s₀.cfg l → Volume s₀.cfg l s.gwin

theorem Filled.request {s₀ : St} {evs : List Event} (h : Filled s₀ s evs l)
    (hon : s₀.cfg.rateMaxBytesGlobal ≠ 0) (hwindow : s₀.cfg.rateWindowSec ≠ 0) {ev : Event}
    (hev : ev.IsFaultlessRequest) (hclock : Ticking (evs ++ [ev])) :
    ∃ l', Filled s₀ (step S s ev).2 (evs ++ [ev]) (l ++ l') := by
  obtain ⟨env, peer, body, rfl, hE⟩ := hev
  have hmem : Event.request env peer body ∈ evs ++ [.request env peer body] := by simp
  have hdead : ∀ n, env.dead n = false := fun n => by rw [Env.dead, hE.alive]
  have hstep : (step S s (.request env peer body)).2 =
      (connHandle S env peer body s.begin_).2.finish env := by
    simp only [step, h.alive, if_true]
  have hdated := h.dated.step (S := S) (.request env peer body)
  rw [hstep] at hdated ⊢
  rcases connHandle_charged S env peer body (s := s.begin_) h.fits.toOk h.dated.unwritten with
    hsame | ⟨req, l', hl⟩
  · refine ⟨[], ?_⟩
    rw [hsame] at hdated ⊢
    rw [List.append_nil]
    refine ⟨h.journal, ?_, h.cfg_eq, h.fits, hdated, fun e he => ?_, h.volume⟩
    · simp only [St.finish, St.begin_, h.alive, hdead, Bool.not_false, Bool.and_self]
    · obtain ⟨ev, hev, hk⟩ := h.times e he
      exact ⟨ev, by simp [hev], hk⟩
  · obtain ⟨hcfg, hfits⟩ := hl.fits (s := s.begin_) h.fits
    have hmono := hclock.mono _ hmem
    refine ⟨l', ?_, ?_, hcfg.trans h.cfg_eq, hfits, hdated, ?_, ?_⟩
    · rw [← List.append_assoc, ← h.journal]
      exact hl.journal_of_faultless hE
    · have hsame : (connHandle S env peer body s.begin_).2.alive = true := hl.alive.trans h.alive
      simp only [St.finish, hsame, hdead, Bool.not_false, Bool.and_self]
    · intro e he
      rcases List.mem_append.mp he with he | he
      · obtain ⟨ev, hev, hk⟩ := h.times e he
        exact ⟨ev, by simp [hev], hk⟩
      · exact ⟨_, hmem, (hl.now_le hE hmono e he).1⟩
    · intro hroom
      have hbefore : ∀ e ∈ l, ∀ k, e.now ≤ env.clock k := by
        intro e he k
        obtain ⟨ev, hev, j, hj⟩ := h.times e he
        rw [hj]
        exact (List.pairwise_append.mp hclock.ordered).2.2 ev hev (.request env peer body)
          (List.mem_singleton_self _) j k
      have hvol := h.volume fun e he => hroom e (by simp [he])
      rw [← h.cfg_eq] at hon hwindow hvol hroom ⊢
      exact hl.volume hE hmono (hclock.pos _ hmem) h.fits hon hwindow hbefore hvol
        fun e he => hroom e (by simp [he])

theorem Filled.run {s₀ : St} (hdated : Dated s₀) (hfits : s₀.uids.Fits s₀.cfg)
    (halive : s₀.alive = true) (hgwin : s₀.gwin = { start := 0, bytes := 0 })
    (hon : s₀.cfg.rateMaxBytesGlobal ≠ 0) (hwindow : s₀.cfg.rateWindowSec ≠ 0) {evs : List Event}
    (hreq : ∀ ev ∈ evs, ev.IsFaultlessRequest) (hclock : Ticking evs) :
    ∃ l, Filled s₀ (run S s₀ evs) evs l := by
  induction evs using List.reverseRecOn with
  | nil =>
    refine ⟨[], (List.append_nil _).symm, halive, rfl, hfits, hdated, by simp, fun _ => ?_⟩
    rw [run_nil, hgwin]
    exact tumbled_nil _ _
  | append_singleton evs ev ih =>
    have hclock' : Ticking evs := by
      refine ⟨fun e he => hclock.mono e (by simp [he]), fun e he => hclock.pos e (by simp [he]),
        (List.pairwise_append.mp hclock.ordered).1⟩
    obtain ⟨l, hl⟩ := ih (fun e he => hreq e (by simp [he])) hclock'
    rw [run_concat]
    obtain ⟨l', hl'⟩ := hl.request (S := S) hon hwindow (hreq ev (by simp)) hclock
    exact ⟨_, hl'⟩

/-- A process that has just started. -/
theorem fits_of_start {fs : Fs} {pre : List Event} {env : Env} {rollback : Bool}
    (hs : s = AuditBroker.run S (St.initial fs) (pre ++ [.start env cfg rollback]))
    (halive : s.alive = true) :
    s.cfg = cfg ∧ s.uids.Fits s.cfg ∧ s.gwin = { start := 0, bytes := 0 } := by
  rw [run_concat, step_start] at hs
  subst hs
  cases hopen : rabBrokerOpen S env cfg ((AuditBroker.run S (St.initial fs) pre).found rollback) with
  | mk err s' =>
    cases err with
    | none =>
      obtain ⟨hcfg, hfits, hgwin, -⟩ := fits_rabBrokerOpen hopen
      exact ⟨hcfg, hfits, hgwin⟩
    | some e =>
      rw [hopen] at halive
      have hdead : s'.alive = false := alive_of_refused hopen
      simp [St.finish, hdead] at halive

/-- In every run without faults after a start, with a positive clock that does not go back, as long
as the quota and each appended line together stay below `2 ^ 64`: the global counter is the exact
size of the lines since its window started, it does not exceed the quota, and the lines accepted in
an interval shorter than the window have at most twice the quota. -/
theorem global_quota_bounds_volume (S : Site) (fs : Fs) (pre evs : List Event) (env : Env)
    (cfg : Config) (rollback : Bool) {s₀ s : St}
    (hs₀ : s₀ = run S (St.initial fs) (pre ++ [.start env cfg rollback]))
    (halive : s₀.alive = true) (hon : cfg.rateMaxBytesGlobal ≠ 0) (hwindow : cfg.rateWindowSec ≠ 0)
    (hreq : ∀ ev ∈ evs, ev.IsFaultlessRequest) (hclock : Ticking evs) (hs : s = run S s₀ evs) :
    ∃ l, s.journal = s₀.journal ++ l ∧ (Roomy cfg l →
      s.gwin.bytes.toNat =
        totalOf (fun e : Entry => e.now.toNat) Entry.length (s.gwin.start.toNat ≤ ·) l ∧
      s.gwin.bytes.toNat ≤ cfg.rateMaxBytesGlobal.toNat ∧
      ∀ a b, b < a + cfg.window →
        totalOf (fun e : Entry => e.now.toNat) Entry.length (fun t => a ≤ t ∧ t ≤ b) l ≤
          2 * cfg.rateMaxBytesGlobal.toNat) := by
  obtain ⟨hcfg, hfits, hgwin⟩ := fits_of_start hs₀ halive
  rw [← hcfg] at hon hwindow
  obtain ⟨l, hl⟩ := Filled.run (S := S) (hs₀ ▸ dated_run S fs _) hfits halive hgwin hon hwindow
    hreq hclock
  rw [← hs] at hl
  refine ⟨l, hl.journal, fun hroom => ?_⟩
  rw [← hcfg] at hroom ⊢
  have hvol := hl.volume hroom
  exact ⟨hvol.sum_eq, hvol.sum_le, hvol.interval⟩

namespace Sample

/-- An emit at a fixed instant. -/
def drop : Event := .request (env 2000000 1) (actor 1000) (emitBody (lit "x"))

theorem ticking_drops (n : ℕ) : Ticking (List.replicate n drop) := by
  refine ⟨fun ev hev j k _ => ?_, fun ev hev k => ?_, ?_⟩
  · rw [List.eq_of_mem_replicate hev]
    exact UInt64.le_refl _
  · rw [List.eq_of_mem_replicate hev]
    change (0 : UInt64) < 2000000
    decide
  · refine List.pairwise_replicate.mpr (.inr fun j k => ?_)
    exact UInt64.le_refl _

/-- The broker after a start, and after one emit. -/
def calm : St := run site (St.initial fs) ([] ++ [.start (env 1000000 0) config false])

def calmNext : St := run site calm [drop]

theorem calm_facts : calm.alive = true ∧ calm.journal.length = 0 ∧
    (calmNext.journal.all fun e => decide (config.rateMaxBytesGlobal.toNat + e.length < 2 ^ 64)) =
      true ∧ calmNext.journal.length = 1 := by
  decide +kernel

end Sample

theorem global_quota_bounds_volume_emit :
    Sample.calmNext.journal.length = 1 ∧
      Sample.calmNext.gwin.bytes.toNat =
        totalOf (fun e : Entry => e.now.toNat) Entry.length
          (Sample.calmNext.gwin.start.toNat ≤ ·) Sample.calmNext.journal := by
  obtain ⟨halive, hempty, hroom, hone⟩ := Sample.calm_facts
  have hcalm : Sample.calm = run Sample.site (St.initial Sample.fs)
      ([] ++ [.start (Sample.env 1000000 0) Sample.config false]) := rfl
  have hnext : Sample.calmNext = run Sample.site Sample.calm [Sample.drop] := rfl
  obtain ⟨l, hl, hbounds⟩ := global_quota_bounds_volume Sample.site Sample.fs [] [Sample.drop]
    (Sample.env 1000000 0) Sample.config false hcalm halive (by decide) (by decide)
    (fun ev hev => by
      rw [List.mem_singleton.mp hev]
      exact ⟨_, _, _, rfl, Sample.faultless _ _⟩)
    (Sample.ticking_drops 1) hnext
  rw [List.length_eq_zero_iff.mp hempty, List.nil_append] at hl
  subst hl
  have hroom' : Roomy Sample.config Sample.calmNext.journal := by
    intro e he
    simpa using List.all_eq_true.mp hroom e he
  exact ⟨hone, (hbounds hroom').1⟩

/-! ## A quota that never refuses -/

/-- An emit that passes every check is appended, charged and followed by a rotation if one is due. -/
theorem handleEmit_eq {s₁ : St} (hs₁ : s₁ = (s.readClock C.env).2)
    {t t' : UidTable} (hrate : s₁.uids.rateAllowed s₁.cfg C.peer.uid s₁.lastClock = (true, t))
    (hfree : enoughFreeSpace s₁.cfg (C.env.free 0) = true) {cid : Buf cidMax} {line : Bytes}
    (hcid : rabMakeCorrelationId C.env = some cid)
    (hline : rabBuildAudit S.codec C.req.phase.bytes cid.bytes none C.peer s₁.host.bytes
      s₁.lastClock C.req.record = some line)
    {e : Entry} (he : e = C.entry s₁ line (.emit cid))
    (hbytes : t.uidBytesAllowed s₁.cfg e.chargedUid s₁.lastClock e.size = (true, t'))
    (hglobal : globalBytesAllowed s₁.cfg s₁.gwin s₁.lastClock e.size = true) {w : World}
    (hw : World.rabSinkAppend C.env s₁.fd line s₁.toWorld = (.durable, w)) :
    (handleEmit S C s).2 = maybeRotate S C.env
      (({ s₁ with uids := t', toWorld := w, segBytes := s₁.segBytes + e.size,
                  journal := s₁.journal ++ [e] } : St).charge id e) := by
  have happ : ({ s₁ with uids := t' } : St).appendLine C.env e =
      (true, { s₁ with uids := t', toWorld := w, segBytes := s₁.segBytes + e.size,
                       journal := s₁.journal ++ [e] }) := by
    rw [St.appendLine, he]
    simp only [Ctx.entry, hw]
  have hcommit := commit_eq S C line (.emit cid) id { s₁ with uids := t } he hbytes.symm
  simp only [hglobal, Bool.and_self, happ] at hcommit
  have hread : s.readClock C.env = (s₁.lastClock, s₁) := by
    rw [hs₁]
    rfl
  unfold handleEmit
  simp only [hread, St.rateAllowed, hrate, hfree, hcid, hline, Bool.true_eq_false, if_false,
    hcommit]
  -- a rotation may have poisoned the broker, which only changes the reply
  split <;> rename_i heq <;> exact (congrArg Prod.snd heq).symm

namespace Sample

/-- The largest global quota, and no other limit. -/
def flood : Config :=
  { config with
    rateMaxInWindow := 0, rateMaxBytesPerUid := 0, rateMaxBytesGlobal := 0xffffffffffffffff
    rotateBytes := 0 }

/-- The broker after a number of such emits. -/
def flooded (n : ℕ) : St :=
  run site (St.initial fs) (.start (env 1000000 0) flood false :: List.replicate n drop)

/-- The parsed request. -/
def dropRequest : Request :=
  ((rabParseRequest jsonText (emitBody (lit "x"))).toOption).getD { type := .capabilities }

/-- The line that it makes. -/
def dropLine : Bytes :=
  (rabBuildAudit jsonText dropRequest.phase.bytes (cid 2000000 1).bytes none (actor 1000)
    (lit "host") 2000000 dropRequest.record).getD []

theorem drop_facts :
    (rabParseRequest jsonText (emitBody (lit "x"))).toOption.isSome = true ∧
      dropRequest.type = .emit ∧ (rabMakeCorrelationId (env 2000000 1)).isSome = true ∧
      (rabBuildAudit jsonText dropRequest.phase.bytes (cid 2000000 1).bytes none (actor 1000)
        (lit "host") 2000000 dropRequest.record).isSome = true ∧ 2 ≤ dropLine.length ∧
      dropLine.length < 2 ^ 32 := by
  decide +kernel

/-- The state after `n` emits: the counter has wrapped around as often as the total. -/
structure Flooded (n : ℕ) (s : St) : Prop where
  alive : s.alive = true
  healthy : s.poisoned = false
  cfg_eq : s.cfg = flood
  host : s.host.bytes = lit "host"
  start : n = 0 ∧ s.gwin.start = 0 ∨ s.gwin.start = 2000000
  bytes : s.gwin.bytes = UInt64.ofNat (n * (dropLine.length + 1))
  journal : s.journal.length = n
  entries : ∀ e ∈ s.journal, e.now = 2000000 ∧ e.length = dropLine.length + 1

theorem flooded_zero : Flooded 0 (flooded 0) := by
  have h : (flooded 0).alive = true ∧ (flooded 0).poisoned = false ∧ (flooded 0).cfg = flood ∧
      (flooded 0).host.bytes = lit "host" ∧ (flooded 0).gwin.start = 0 ∧
      (flooded 0).gwin.bytes = 0 ∧ (flooded 0).journal.length = 0 := by
    decide +kernel
  obtain ⟨h₁, h₂, h₃, h₄, h₅, h₆, h₇⟩ := h
  refine ⟨h₁, h₂, h₃, h₄, .inl ⟨rfl, h₅⟩, ?_, h₇, ?_⟩
  · rw [h₆, Nat.zero_mul]
    rfl
  · rw [List.length_eq_zero_iff.mp h₇]
    simp

/-- The request of the flood, as it is handled. -/
def dropCtx : Ctx := { env := env 2000000 1, peer := actor 1000, req := dropRequest }

theorem connHandle_drop {s : St} (hp : s.poisoned = false) :
    connHandle site (env 2000000 1) (actor 1000) (emitBody (lit "x")) s =
      handleEmit site dropCtx s := by
  obtain ⟨hparse, htype, -⟩ := drop_facts
  have hok : rabParseRequest site.codec (emitBody (lit "x")) = .ok dropRequest := by
    change rabParseRequest jsonText _ = _
    cases h : rabParseRequest jsonText (emitBody (lit "x")) with
    | error e => simp [h, Except.toOption] at hparse
    | ok r => simp [dropRequest, h, Except.toOption]
  simp only [connHandle, hok, rabBrokerHandle, hp, Bool.false_eq_true, if_false]
  rw [htype]
  rfl

/-- The largest quota accepts every line. -/
theorem globalBytesAllowed_flood (g : GlobalWindow) (now n : UInt64) :
    globalBytesAllowed flood g now n = true := by
  have hle : ∀ x : UInt64, x ≤ 0xffffffffffffffff := by
    intro x
    rw [UInt64.le_iff_toNat_le]
    exact Nat.le_of_lt_succ x.toNat_lt
  rw [globalBytesAllowed, if_neg (by decide)]
  exact decide_eq_true (hle _)

/-- At the instant of the flood the window stays, and its counter grows by the size of the line. -/
theorem globalBytesNote_flood {g : GlobalWindow} {n : ℕ} {k : UInt64}
    (hstart : n = 0 ∧ g.start = 0 ∨ g.start = 2000000)
    (hbytes : g.bytes = UInt64.ofNat (n * k.toNat)) :
    (globalBytesNote flood g 2000000 k).start = 2000000 ∧
      (globalBytesNote flood g 2000000 k).bytes = UInt64.ofNat ((n + 1) * k.toNat) := by
  rw [globalBytesNote, if_neg (by decide)]
  rcases hstart with ⟨rfl, hzero⟩ | hstart
  · simp [hzero]
  · have hin : ¬(g.start = 0 ∨ flood.rateWindowSec.toUInt64 * 1000000 ≤ 2000000 - g.start) := by
      rw [hstart]
      decide
    simp only [if_neg hin]
    rw [hbytes, Nat.succ_mul, UInt64.ofNat_add, UInt64.ofNat_toNat]
    exact ⟨hstart, rfl⟩

theorem Flooded.step {n : ℕ} {s : St} (h : Flooded n s) :
    Flooded (n + 1) (AuditBroker.step site s drop).2 := by
  obtain ⟨-, -, hcid, hline, -, hlen⟩ := drop_facts
  have hcid' : rabMakeCorrelationId dropCtx.env = some (cid 2000000 1) := by
    obtain ⟨c, hc⟩ := Option.isSome_iff_exists.mp hcid
    change rabMakeCorrelationId (env 2000000 1) = _
    rw [Sample.cid, hc, Option.getD_some]
  have hline' : rabBuildAudit site.codec dropCtx.req.phase.bytes (cid 2000000 1).bytes none
      dropCtx.peer s.host.bytes 2000000 dropCtx.req.record = some dropLine := by
    obtain ⟨line, hl⟩ := Option.isSome_iff_exists.mp hline
    rw [h.host, dropLine, hl, Option.getD_some]
    exact hl
  have hrate : s.uids.rateAllowed s.cfg dropCtx.peer.uid 2000000 = (true, s.uids) := by
    rw [h.cfg_eq]
    rfl
  have hfree : enoughFreeSpace s.cfg (dropCtx.env.free 0) = true := by
    rw [h.cfg_eq]
    decide
  have hbytes : s.uids.uidBytesAllowed s.cfg dropCtx.peer.uid 2000000
      (UInt64.ofNat (dropLine.length + 1)) = (true, s.uids) := by
    rw [h.cfg_eq]
    rfl
  have hglobal : globalBytesAllowed s.cfg s.gwin 2000000 (UInt64.ofNat (dropLine.length + 1)) =
      true := by
    rw [h.cfg_eq]
    exact globalBytesAllowed_flood _ _ _
  obtain ⟨w, hw⟩ := rabSinkAppend_of_faultless (faultless 2000000 1) s.fd
    (isLine_rabBuildAudit hline').newline_notMem s.begin_.toWorld
  have hstay : ∀ s' : St, s'.cfg = s.cfg → maybeRotate site dropCtx.env s' = s' := by
    intro s' hs'
    rw [maybeRotate, if_pos (Or.inl (by rw [hs', h.cfg_eq]; rfl))]
  have hemit := (handleEmit_eq (S := site) (C := dropCtx) (s := s.begin_) rfl hrate hfree hcid'
    hline' rfl hbytes hglobal hw).trans (hstay _ rfl)
  have hsize : (UInt64.ofNat (dropLine.length + 1)).toNat = dropLine.length + 1 :=
    UInt64.toNat_ofNat_of_lt' (show dropLine.length + 1 < 2 ^ 64 by omega)
  have hstep : (AuditBroker.step site s drop).2 =
      ((handleEmit site dropCtx s.begin_).2).finish (env 2000000 1) := by
    rw [← connHandle_drop (s := s.begin_) h.healthy]
    simp only [AuditBroker.step, drop, h.alive, if_true]
  have hbytes₀ : s.gwin.bytes =
      UInt64.ofNat (n * (UInt64.ofNat (dropLine.length + 1)).toNat) := by
    rw [hsize, h.bytes]
  obtain ⟨hstart', hbytes'⟩ := globalBytesNote_flood h.start hbytes₀
  rw [hsize] at hbytes'
  rw [hstep, hemit]
  have hgwin : globalBytesNote s.cfg s.gwin 2000000 (UInt64.ofNat (dropLine.length + 1)) =
      globalBytesNote flood s.gwin 2000000 (UInt64.ofNat (dropLine.length + 1)) := by
    rw [h.cfg_eq]
  refine
    { alive := ?_, healthy := h.healthy, cfg_eq := h.cfg_eq, host := h.host
      start := .inr ((congrArg GlobalWindow.start hgwin).trans hstart')
      bytes := (congrArg GlobalWindow.bytes hgwin).trans hbytes'
      journal := ?_, entries := ?_ }
  · change (s.alive && true) = true
    rw [h.alive]
    rfl
  · change (s.journal ++ [_]).length = n + 1
    rw [List.length_append, h.journal]
    rfl
  · intro e he
    rcases List.mem_append.mp he with he | he
    · exact h.entries e he
    · rw [List.mem_singleton.mp he]
      exact ⟨rfl, rfl⟩

theorem flooded_of (n : ℕ) : Flooded n (flooded n) := by
  induction n with
  | zero => exact flooded_zero
  | succ n ih =>
    have hrun : flooded (n + 1) = (AuditBroker.step site (flooded n) drop).2 := by
      rw [flooded, List.replicate_succ', ← List.cons_append, run_concat]
      rfl
    rw [hrun]
    exact ih.step

/-- Items of one size at one instant. -/
theorem totalOf_flood {l : List Entry} {k : ℕ} (h : ∀ e ∈ l, e.now = 2000000 ∧ e.length = k) :
    totalOf (fun e : Entry => e.now.toNat) Entry.length
      (fun t => 2000000 ≤ t ∧ t ≤ 2000000) l = l.length * k := by
  induction l using List.reverseRecOn with
  | nil => simp
  | append_singleton l e ih =>
    obtain ⟨hnow, hlen⟩ := h e (by simp)
    have hin : 2000000 ≤ e.now.toNat ∧ e.now.toNat ≤ 2000000 := by
      rw [hnow]
      decide
    refine (totalOf_concat_of_pos hin).trans ?_
    rw [ih fun e he => h e (by simp [he]), hlen, List.length_append, List.length_singleton,
      Nat.succ_mul]

end Sample

/-- With a quota of `2 ^ 64 - 1` bytes nothing is ever refused: after `2 ^ 64` equal emits at one
instant the counter is back at zero, and that instant has seen more than twice the quota. -/
theorem global_quota_wraps :
    (Sample.flooded 0).alive = true ∧ Sample.flood.rateMaxBytesGlobal ≠ 0 ∧
      Sample.flood.rateWindowSec ≠ 0 ∧
      (∀ ev ∈ List.replicate (2 ^ 64) Sample.drop, ev.IsFaultlessRequest) ∧
      Ticking (List.replicate (2 ^ 64) Sample.drop) ∧
      (Sample.flooded (2 ^ 64)).gwin.start = 2000000 ∧
      (Sample.flooded (2 ^ 64)).gwin.bytes = 0 ∧
      ∃ l, (Sample.flooded (2 ^ 64)).journal = (Sample.flooded 0).journal ++ l ∧
        2 * Sample.flood.rateMaxBytesGlobal.toNat <
          totalOf (fun e : Entry => e.now.toNat) Entry.length
            (fun t => 2000000 ≤ t ∧ t ≤ 2000000) l := by
  have h₀ := Sample.flooded_of 0
  have h := Sample.flooded_of (2 ^ 64)
  have hlen := Sample.drop_facts.2.2.2.2.1
  refine ⟨h₀.alive, by decide, by decide, ?_, Sample.ticking_drops _, ?_, ?_, _,
    (by rw [List.length_eq_zero_iff.mp h₀.journal, List.nil_append]), ?_⟩
  · intro ev hev
    rw [List.eq_of_mem_replicate hev]
    exact ⟨_, _, _, rfl, Sample.faultless _ _⟩
  · exact h.start.resolve_left fun hzero => absurd hzero.1 (by norm_num)
  · rw [h.bytes, ← UInt64.toNat_inj, UInt64.toNat_ofNat', Nat.mul_mod_right]
    rfl
  · rw [Sample.totalOf_flood h.entries, h.journal]
    have hmax : Sample.flood.rateMaxBytesGlobal.toNat = 2 ^ 64 - 1 := by decide
    have hmul : 2 ^ 64 * 3 ≤ 2 ^ 64 * (Sample.dropLine.length + 1) :=
      Nat.mul_le_mul_left _ (by omega)
    omega

end AuditBroker
