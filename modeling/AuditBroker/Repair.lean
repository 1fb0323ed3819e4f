import AuditBroker.Restart

/-!
# Repairing a torn tail

A start leaves the complete lines of the sink in the file, and its tables are those of a replay of
these lines.  The replay does not depend on the length of the file: that only sizes a hash table.  So
starting again, with or without a new fragment behind the lines, ends in the same tables and the same
file.
-/

namespace AuditBroker

open Foundation

variable {S : Site} {E : Env} {cfg : Config} {s s' : St}

/-! ## Replays over different hash tables -/

/-- Equal up to the layout of the set of closed correlation ids. -/
structure Replay.Same (R R' : Replay) : Prop where
  tables : R'.tables = R.tables
  closed : ∀ cid, R'.closed.has cid = R.closed.has cid

theorem Replay.same_init (cfg : Config) (m n : ℕ) : (Replay.init cfg m).Same (Replay.init cfg n) :=
  ⟨rfl, fun _ => rfl⟩

section Same

variable {R R' R₁ : Replay}

theorem Replay.Same.update (h : R.Same R') (t : Tables) :
    ({ R with tables := t } : Replay).Same { R' with tables := t } :=
  ⟨rfl, h.closed⟩

theorem Replay.Same.add (h : R.Same R') (t : Tables) (cid : Buf cidMax) :
    Replay.Same ⟨t, R.closed.add cid⟩ ⟨t, R'.closed.add cid⟩ where
  tables := rfl
  closed c := by
    rw [Bool.eq_iff_iff, CidSet.has_add, CidSet.has_add, h.closed]

theorem Replay.Same.applyOpening (h : R.Same R') {st : StoredIntent} {isCheckpoint : Bool}
    (heq : applyOpening R st isCheckpoint = .ok R₁) :
    ∃ R₁', AuditBroker.applyOpening R' st isCheckpoint = .ok R₁' ∧ R₁.Same R₁' := by
  unfold AuditBroker.applyOpening at heq ⊢
  rw [h.tables, h.closed]
  split at heq
  · cases heq
  rename_i hb
  rw [if_neg hb]
  split at heq
  · simp only at heq ⊢
    split at heq
    · cases heq
    rename_i hc
    rw [if_neg hc]
    split at heq
    · cases heq
    rename_i hd
    rw [if_neg hd]
    cases heq
    exact ⟨R', rfl, h⟩
  · split at heq
    · cases heq
    rename_i hclosed
    rw [if_neg hclosed]
    simp only at heq ⊢
    split at heq
    · rename_i hcp
      rw [if_pos hcp]
      split at heq
      · cases heq
        exact ⟨_, rfl, h.update _⟩
      · cases heq
        exact ⟨_, rfl, h.update _⟩
    · rename_i hcp
      rw [if_neg hcp]
      cases heq
      exact ⟨_, rfl, h.update _⟩

theorem Replay.Same.applyStored (h : R.Same R') {st : Stored}
    (heq : applyStored R st = .ok R₁) :
    ∃ R₁', AuditBroker.applyStored R' st = .ok R₁' ∧ R₁.Same R₁' := by
  cases st with
  | checkpoint st => exact h.applyOpening heq
  | audit st phase =>
    unfold AuditBroker.applyStored at heq ⊢
    simp only at heq ⊢
    split at heq
    · rename_i hp
      rw [if_pos hp]
      exact h.applyOpening heq
    rename_i hp
    rw [if_neg hp]
    split at heq
    · rename_i ho
      rw [if_pos ho, h.tables]
      split at heq
      · cases heq
      · cases heq
        exact ⟨_, rfl, h.add _ _⟩
    · rename_i ho
      rw [if_neg ho]
      cases heq
      exact ⟨R', rfl, h⟩
  | receipt cid isCheckpoint r =>
    unfold AuditBroker.applyStored at heq ⊢
    simp only at heq ⊢
    rw [h.tables]
    split at heq
    · cases heq
    · rename_i a _
      cases hr : applyReceipt R.tables a isCheckpoint r with
      | error e =>
        rw [hr] at heq
        cases heq
      | ok t =>
        rw [hr] at heq
        cases heq
        exact ⟨_, rfl, h.update t⟩
  | rate uid entries =>
    cases heq
    exact ⟨R', rfl, h⟩

theorem Replay.Same.replayLine (h : R.Same R') {line : Bytes}
    (heq : replayLine S R line = .ok R₁) :
    ∃ R₁', AuditBroker.replayLine S R' line = .ok R₁' ∧ R₁.Same R₁' := by
  by_cases hline : line = []
  · rw [AuditBroker.replayLine, if_pos hline] at heq ⊢
    cases heq
    exact ⟨R', rfl, h⟩
  obtain ⟨st, R₂, hparse, happly, rfl⟩ := (replayLine_eq_ok hline).mp heq
  obtain ⟨R₂', happly', hsame⟩ := h.applyStored happly
  refine ⟨_, (replayLine_eq_ok hline).mpr ⟨st, R₂', hparse, happly', rfl⟩, ?_⟩
  rw [hsame.tables]
  exact hsame.update _

theorem Replay.Same.replayLines (h : R.Same R') {lines : List Bytes}
    (heq : replayLines S R lines = .ok R₁) :
    ∃ R₁', AuditBroker.replayLines S R' lines = .ok R₁' ∧ R₁.Same R₁' := by
  induction lines generalizing R R' with
  | nil =>
    cases heq
    exact ⟨R', rfl, h⟩
  | cons line lines ih =>
    obtain ⟨R₂, hline, hrest⟩ := replayLines_cons_eq_ok.mp heq
    obtain ⟨R₂', hline', hsame⟩ := h.replayLine hline
    obtain ⟨R₁', hrest', hsame'⟩ := ih hsame hrest
    exact ⟨R₁', replayLines_cons_eq_ok.mpr ⟨R₂', hline', hrest'⟩, hsame'⟩

end Same

/-! ## One start -/

/-- The content of the sink; a missing sink is empty. -/
def sinkBytes (S : Site) (fs : Fs) : Bytes := (sinkFile S fs).elim [] Inode.bytes

/-- The sink is a regular file with this content that nobody else may write. -/
def SinkHolds (S : Site) (fs : Fs) (b : Bytes) : Prop :=
  ∃ n, sinkFile S fs = some n ∧ n.kind = .regular ∧ n.worldWritable = false ∧ n.bytes = b

theorem SinkHolds.sinkBytes_eq {fs : Fs} {b : Bytes} (h : SinkHolds S fs b) :
    sinkBytes S fs = b := by
  obtain ⟨n, hn, -, -, hb⟩ := h
  rw [sinkBytes, hn, Option.elim_some, hb]

theorem splitLines_sinkBytes (S : Site) (fs : Fs) :
    (splitLines (sinkBytes S fs)).1 = sinkLines (sinkFile S fs) := by
  unfold sinkBytes
  cases sinkFile S fs <;> rfl

/-- A successful reconstruction replays the complete lines and leaves them. -/
theorem reconstruct_eq_ok {w w' : World} {t : Tables} (h : reconstruct S E cfg w = (.ok t, w')) :
    (∃ total R, replayLines S (Replay.init cfg total) (sinkLines (sinkFile S w.fs)) = .ok R ∧
      t = R.tables) ∧
    sinkFile S w'.fs =
      (sinkFile S w.fs).map fun n => { n with bytes := joinLines (splitLines n.bytes).1 } := by
  obtain ⟨-, htrim, hok⟩ := reconstruct_spec S E cfg w
  rw [h] at htrim hok
  obtain ⟨hreplay, hwhole⟩ := hok t rfl
  refine ⟨hreplay, ?_⟩
  rcases htrim with hsame | ⟨n, hn, hn'⟩
  · rw [hsame]
    cases hn : sinkFile S w.fs with
    | none => rfl
    | some n =>
      have hjoin := (joinLines_splitLines n.bytes).1
      rw [hwhole n (hsame.trans hn), List.append_nil] at hjoin
      rw [Option.map_some, hjoin]
  · rw [hn', hn, Option.map_some]

theorem length_le_of_reconstruct {w w' : World} {t : Tables}
    (h : reconstruct S E cfg w = (.ok t, w')) : (sinkBytes S w.fs).length ≤ maxSegmentBytes := by
  unfold reconstruct at h
  split at h
  · cases h
  rename_i buf w₁ hslurp
  have hbuf := (slurpSegment_spec S E w).2
  rw [hslurp] at hbuf
  have hlen := length_le_of_slurpSegment hslurp
  rwa [hbuf buf rfl] at hlen

/-- A sink that was opened is a regular file with the content it had; a new one is empty. -/
theorem sinkHolds_of_rabSinkOpen {w w' : World} {fd : ℕ}
    (h : World.rabSinkOpen E S.euid S.base w = (some fd, w')) :
    SinkHolds S w'.fs (sinkBytes S w.fs) := by
  rcases World.rabSinkOpen_eq_some h with ⟨hnone, -, hfs⟩ | ⟨hl, hfs, hkind, hww⟩
  · have hl' : w'.fs.lookup S.base = some w.fs.next := by
      rw [hfs]
      exact Fs.lookup_create_self S.euid hnone
    refine ⟨w'.fs.node w.fs.next, by rw [sinkFile, hl', Option.map_some], ?_⟩
    rw [hfs, sinkBytes, sinkFile, hnone]
    simp [Fs.create, Fs.synced]
  · have hfile : sinkFile S w.fs = some (w.fs.node fd) := by rw [sinkFile, hl, Option.map_some]
    rw [hfs, sinkBytes, hfile]
    exact ⟨_, hfile, hkind, hww, rfl⟩

/-- What a start that succeeds has done. -/
theorem rabBrokerOpen_eq_none (h : rabBrokerOpen S E cfg s = (none, s')) :
    cfg.check = none ∧ (sinkBytes S s.fs).length ≤ maxSegmentBytes ∧
      (∃ total R, replayLines S (Replay.init cfg total) (sinkLines (sinkFile S s.fs)) = .ok R ∧
        s'.toTables = R.tables) ∧
      SinkHolds S s'.fs (joinLines (splitLines (sinkBytes S s.fs)).1) := by
  unfold rabBrokerOpen at h
  split at h
  · cases h
  rename_i hcfg
  simp only at h
  split at h
  · cases h
  rename_i t w hrec
  split at h
  · cases h
  rename_i fd w₁ hopen
  cases h
  have hsink := sinkFile_withoutPending S E s
  have hlen := length_le_of_reconstruct hrec
  obtain ⟨hreplay, hfile⟩ := reconstruct_eq_ok hrec
  have hholds := sinkHolds_of_rabSinkOpen hopen
  rw [sinkBytes, hfile] at hholds
  rw [sinkBytes] at hlen
  rw [hsink] at hlen hreplay hholds
  refine ⟨hcfg, hlen, hreplay, ?_⟩
  change SinkHolds S w₁.fs _
  cases hn : sinkFile S s.fs with
  | none =>
    rw [hn] at hholds
    rw [sinkBytes, hn]
    exact hholds
  | some n =>
    rw [hn] at hholds
    rw [sinkBytes, hn]
    exact hholds

/-! ## Starting again -/

/-- `p` is the longest start of `b` that is empty or ends in a newline. -/
structure LongestWhole (b p : Bytes) : Prop where
  start : p <+: b
  whole : Whole p
  longest : ∀ q, q <+: b → Whole q → q <+: p

theorem longestWhole_joinLines (b : Bytes) : LongestWhole b (joinLines (splitLines b).1) where
  start := ⟨_, (joinLines_splitLines b).1⟩
  whole := whole_joinLines _
  longest _ hq hw := isPrefix_joinLines_splitLines hq hw

/-- Without faults a sink with these lines and any fragment behind them gives the same tables, and
the fragment is removed. -/
theorem rabBrokerOpen_append_fragment (hE : E.Faultless) (hcfg : cfg.check = none)
    {lines : List Bytes} {t : Bytes} (hlines : ∀ l ∈ lines, newline ∉ l) (ht : newline ∉ t)
    (hholds : SinkHolds S s.fs (joinLines lines ++ t))
    (hlen : (joinLines lines ++ t).length ≤ maxSegmentBytes) {total : ℕ} {R : Replay}
    (hreplay : replayLines S (Replay.init cfg total) lines = .ok R) :
    ∃ s', rabBrokerOpen S E cfg s = (none, s') ∧ s'.toTables = R.tables ∧
      SinkHolds S s'.fs (joinLines lines) := by
  have hsplit : splitLines (sinkBytes S s.fs) = (lines, t) := by
    rw [hholds.sinkBytes_eq, splitLines_joinLines hlines ht]
  have hsinkLines : sinkLines (sinkFile S s.fs) = lines := by
    rw [← splitLines_sinkBytes, hsplit]
  obtain ⟨n, hn, hkind, hww, hbytes⟩ := hholds
  have hopen : (rabBrokerOpen S E cfg s).1 = none := by
    refine rabBrokerOpen_of_faultless hE hcfg ?_ ?_ ?_
    · intro m hm
      rw [hn, Option.some_inj] at hm
      exact hm ▸ ⟨hkind, hww⟩
    · intro m hm
      rw [hn, Option.some_inj] at hm
      rw [← hm, hbytes]
      exact hlen
    · intro total'
      rw [hsinkLines]
      obtain ⟨R', hR', -⟩ := (Replay.same_init cfg total total').replayLines hreplay
      exact ⟨R', hR'⟩
  obtain ⟨-, -, ⟨total', R', hR', htables⟩, hafter⟩ :=
    rabBrokerOpen_eq_none (Prod.ext hopen rfl : rabBrokerOpen S E cfg s = (none, _))
  rw [hsinkLines] at hR'
  obtain ⟨R'', hR'', hsame⟩ := (Replay.same_init cfg total total').replayLines hreplay
  rw [hR', Except.ok.injEq] at hR''
  refine ⟨_, Prod.ext hopen rfl, ?_, ?_⟩
  · rw [htables, hR'', hsame.tables]
  · rw [hsplit] at hafter
    exact hafter

/-- A start that succeeds leaves the longest start of the sink that is empty or ends in a newline.
Starting again, and starting from that content with any newline-free bytes behind it, succeeds and
gives the same tables and the same file. -/
theorem torn_tail_repaired (h : rabBrokerOpen S E cfg s = (none, s')) :
    LongestWhole (sinkBytes S s.fs) (sinkBytes S s'.fs) ∧
    (∀ E₁ : Env, E₁.Faultless → ∃ s₁, rabBrokerOpen S E₁ cfg s' = (none, s₁) ∧
      s₁.toTables = s'.toTables ∧ sinkBytes S s₁.fs = sinkBytes S s'.fs) ∧
    ∀ (E₁ : Env) (s₀ : St) (t : Bytes), E₁.Faultless → newline ∉ t →
      SinkHolds S s₀.fs (sinkBytes S s'.fs ++ t) →
      (sinkBytes S s'.fs ++ t).length ≤ maxSegmentBytes →
      ∃ s₁, rabBrokerOpen S E₁ cfg s₀ = (none, s₁) ∧ s₁.toTables = s'.toTables ∧
        sinkBytes S s₁.fs = sinkBytes S s'.fs := by
  obtain ⟨hcfg, hlen, ⟨total, R, hreplay, htables⟩, hholds⟩ := rabBrokerOpen_eq_none h
  have hlines : ∀ l ∈ (splitLines (sinkBytes S s.fs)).1, newline ∉ l :=
    fun l hl => newline_notMem_of_mem_splitLines hl
  rw [← splitLines_sinkBytes] at hreplay
  have hbytes := hholds.sinkBytes_eq
  have again : ∀ (E₁ : Env) (s₀ : St) (t : Bytes), E₁.Faultless → newline ∉ t →
      SinkHolds S s₀.fs (sinkBytes S s'.fs ++ t) →
      (sinkBytes S s'.fs ++ t).length ≤ maxSegmentBytes →
      ∃ s₁, rabBrokerOpen S E₁ cfg s₀ = (none, s₁) ∧ s₁.toTables = s'.toTables ∧
        sinkBytes S s₁.fs = sinkBytes S s'.fs := by
    intro E₁ s₀ t hE₁ ht hs₀ hlen₀
    rw [hbytes] at hs₀ hlen₀
    obtain ⟨s₁, hopen, htab, hafter⟩ :=
      rabBrokerOpen_append_fragment hE₁ hcfg hlines ht hs₀ hlen₀ hreplay
    exact ⟨s₁, hopen, htab.trans htables.symm, hafter.sinkBytes_eq.trans hbytes.symm⟩
  refine ⟨hbytes ▸ longestWhole_joinLines _, fun E₁ hE₁ => ?_, again⟩
  refine again E₁ s' [] hE₁ (by simp) ?_ ?_
  · rw [List.append_nil, hbytes]
    exact hholds
  · rw [List.append_nil, hbytes]
    exact (longestWhole_joinLines _).start.length_le.trans hlen

namespace Sample

/-- A sink with one rate record and a fragment behind it. -/
def tornFs : Fs :=
  { fs with
    dir := [(site.base, 0)]
    node := fun _ =>
      { bytes := rabBuildRate jsonText 7 [(5, 10)] ++ [newline] ++ lit "fragment"
        kind := .regular, owner := 0, worldWritable := false }
    next := 1 }

/-- The process that starts on it. -/
def repaired : St := (rabBrokerOpen site (env 1 0) config (St.initial tornFs)).2

end Sample

theorem torn_tail_repaired_rate :
    LongestWhole (sinkBytes Sample.site Sample.tornFs) (sinkBytes Sample.site Sample.repaired.fs) ∧
    sinkBytes Sample.site Sample.repaired.fs = rabBuildRate jsonText 7 [(5, 10)] ++ [newline] ∧
    ∃ s₁, rabBrokerOpen Sample.site (Sample.env 2 0) Sample.config Sample.repaired = (none, s₁) ∧
      s₁.toTables = Sample.repaired.toTables ∧
      sinkBytes Sample.site s₁.fs = sinkBytes Sample.site Sample.repaired.fs := by
  have hopen : (rabBrokerOpen Sample.site (Sample.env 1 0) Sample.config
      (St.initial Sample.tornFs)).1 = none := by
    decide +kernel
  have hstart : rabBrokerOpen Sample.site (Sample.env 1 0) Sample.config
      (St.initial Sample.tornFs) = (none, Sample.repaired) := by
    rw [Sample.repaired, ← hopen]
  obtain ⟨hlongest, hagain, -⟩ := torn_tail_repaired hstart
  exact ⟨hlongest, by decide +kernel, hagain _ (Sample.faultless 2 0)⟩

end AuditBroker
