import AuditBroker.Frame
import AuditBroker.Carry

/-!
# Writing the new segment

`fillPending` writes the open intents and the rate windows to the pending segment.  Whether it
succeeds or not, it only extends that file, evicts rings and reads the clock (`Fills`); if it
succeeds, the file has exactly the carried records (`fillPending_spec`).
-/

namespace AuditBroker

open Foundation

/-! ## Steps that leave the process alone -/

/-- From `s` to `s'` files changed, rings were evicted and the clock was read; nothing else of the
process changed. -/
structure Quiet (E : Env) (s s' : St) : Prop where
  rest : s' = { s with toWorld := s'.toWorld, uids := s'.uids, ticks := s'.ticks,
                       lastClock := s'.lastClock }
  ticks_le : s.ticks ≤ s'.ticks
  /-- The last clock reading is the last one taken. -/
  clock : s'.ticks = s.ticks ∧ s'.lastClock = s.lastClock ∨
    s.ticks < s'.ticks ∧ s'.lastClock = E.clock (s'.ticks - 1)

namespace Quiet

variable {E : Env} {s s' s'' : St}

theorem refl (E : Env) (s : St) : Quiet E s s := ⟨rfl, le_rfl, Or.inl ⟨rfl, rfl⟩⟩

theorem trans (h : Quiet E s s') (h' : Quiet E s' s'') : Quiet E s s'' where
  rest := by rw [h'.rest, h.rest]
  ticks_le := h.ticks_le.trans h'.ticks_le
  clock := by
    rcases h.clock with ⟨ht, hc⟩ | ⟨ht, hc⟩ <;> rcases h'.clock with ⟨ht', hc'⟩ | ⟨ht', hc'⟩
    · exact Or.inl ⟨ht'.trans ht, hc'.trans hc⟩
    · exact Or.inr ⟨by omega, hc'⟩
    · exact Or.inr ⟨by omega, by rw [hc', hc, ht']⟩
    · exact Or.inr ⟨by omega, hc'⟩

theorem readClock (E : Env) (s : St) : Quiet E s (s.readClock E).2 :=
  ⟨rfl, Nat.le_succ _, Or.inr ⟨Nat.lt_succ_self _, rfl⟩⟩

theorem world (E : Env) (s : St) (w : World) : Quiet E s { s with toWorld := w } :=
  ⟨rfl, le_rfl, Or.inl ⟨rfl, rfl⟩⟩

theorem uids (E : Env) (s : St) (t : UidTable) : Quiet E s { s with uids := t } :=
  ⟨rfl, le_rfl, Or.inl ⟨rfl, rfl⟩⟩

theorem opens_eq (h : Quiet E s s') : s'.opens = s.opens := by
  rw [h.rest]

theorem cfg_eq (h : Quiet E s s') : s'.cfg = s.cfg := by
  rw [h.rest]

theorem fd_eq (h : Quiet E s s') : s'.fd = s.fd := by
  rw [h.rest]

theorem poisoned_eq (h : Quiet E s s') : s'.poisoned = s.poisoned := by
  rw [h.rest]

end Quiet

/-- A quiet step that wrote `b` to one inode and changed no other file. -/
structure Fills (E : Env) (pfd : ℕ) (b : Bytes) (s s' : St) : Prop extends Quiet E s s' where
  fs : s'.fs = s.fs.extend pfd b

namespace Fills

variable {E : Env} {pfd : ℕ} {b b' : Bytes} {s s' s'' : St}

theorem refl (E : Env) (pfd : ℕ) (s : St) : Fills E pfd [] s s :=
  ⟨.refl E s, (Fs.extend_nil _ _).symm⟩

theorem trans (h : Fills E pfd b s s') (h' : Fills E pfd b' s' s'') :
    Fills E pfd (b ++ b') s s'' :=
  ⟨h.toQuiet.trans h'.toQuiet, by rw [h'.fs, h.fs, Fs.extend_extend]⟩

theorem readClock (E : Env) (pfd : ℕ) (s : St) : Fills E pfd [] s (s.readClock E).2 :=
  ⟨.readClock E s, (Fs.extend_nil _ _).symm⟩

theorem uids (E : Env) (pfd : ℕ) (s : St) (t : UidTable) : Fills E pfd [] s { s with uids := t } :=
  ⟨.uids E s t, (Fs.extend_nil _ _).symm⟩

theorem frame {keep : Bytes → Prop} {own : ℕ → Prop} (h : Fills E pfd b s s') (hp : own pfd) :
    Fs.Frame keep own s.fs s'.fs := by
  rw [h.fs]
  exact Fs.frame_extend b hp

end Fills

variable {S : Site} {E : Env} {pfd : ℕ}

/-- Appending a line to the pending segment. -/
theorem appendPending_spec (E : Env) (pfd : ℕ) {line : Bytes} (hline : 10 ∉ line) (s : St) :
    ∃ b, Fills E pfd b s (appendPending E pfd line s).2 ∧
      (appendPending E pfd line s).2.uids = s.uids ∧
      (appendPending E pfd line s).2.ticks = s.ticks ∧
      ((appendPending E pfd line s).1 = true → b = joinLines [line]) := by
  obtain ⟨b, hb, hres⟩ := World.rabSinkAppend_spec E pfd s.toWorld hline
  refine ⟨b, ⟨.world E s _, hb⟩, rfl, rfl, fun hok => ?_⟩
  rcases hres with ⟨htorn, -⟩ | ⟨-, hb⟩
  · simp [appendPending, htorn] at hok
  · rw [hb, joinLines_singleton]

/-! ## The intents -/

/-- Writing the checkpoints of one intent. -/
theorem writeIntent_spec (S : Site) (E : Env) (pfd : ℕ) (it : Intent) (s : St) :
    ∃ b, Fills E pfd b s (writeIntent S E pfd it s).2 ∧
      (writeIntent S E pfd it s).2.uids = s.uids ∧
      (writeIntent S E pfd it s).2.ticks = s.ticks + 1 ∧
      ((writeIntent S E pfd it s).1 = true → ∃ now line rls,
        rabBuildCheckpoint S.codec it.cid.bytes it.binding.bytes it.actor now it.operation.bytes
          it.resource.bytes it.scope.bytes = some line ∧
        receiptCarry S it = some rls ∧ b = joinLines (line :: rls)) := by
  have hclock := Fills.readClock E pfd s
  unfold writeIntent
  simp only
  split
  · exact ⟨[], hclock, rfl, rfl, by simp⟩
  rename_i line hline
  obtain ⟨b, hfill, huids, hticks, hb⟩ := appendPending_spec E pfd
    (isLine_rabBuildCheckpoint hline).newline_notMem (s.readClock E).2
  split
  · rename_i s₁ heq
    rw [heq] at hfill huids hticks
    exact ⟨b, hclock.trans hfill, huids, hticks, by simp⟩
  rename_i s₁ heq
  rw [heq] at hfill huids hticks hb
  split
  · rename_i hr
    refine ⟨b, hclock.trans hfill, huids, hticks, fun _ => ⟨_, line, [], hline, ?_, hb rfl⟩⟩
    rw [receiptCarry, hr]
  rename_i r hr
  split
  · exact ⟨b, hclock.trans hfill, huids, hticks, by simp⟩
  rename_i rl hrl
  obtain ⟨b', hfill', huids', hticks', hb'⟩ := appendPending_spec E pfd
    (isLine_receiptLine hrl).newline_notMem s₁
  refine ⟨b ++ b', (hclock.trans hfill).trans hfill', huids'.trans huids, hticks'.trans hticks,
    fun hok => ⟨_, line, [rl], hline, ?_, ?_⟩⟩
  · rw [receiptCarry, hr]
    simp [hrl]
  · rw [hb rfl, hb' hok, ← joinLines_append, List.singleton_append]

/-- Writing the checkpoints of the open intents. -/
theorem writeIntents_spec (S : Site) (E : Env) (pfd : ℕ) (as : List ℕ) (s : St) :
    ∃ b, Fills E pfd b s (writeIntents S E pfd as s).2 ∧
      (writeIntents S E pfd as s).2.uids = s.uids ∧
      ((writeIntents S E pfd as s).1 = true →
        (writeIntents S E pfd as s).2.ticks = s.ticks + as.length ∧
        ∃ ls, CarryIntents S s.opens.heap as ls ∧ b = joinLines ls) := by
  induction as generalizing s with
  | nil => exact ⟨[], Fills.refl E pfd s, rfl, fun _ => ⟨rfl, [], .nil, rfl⟩⟩
  | cons a as ih =>
    obtain ⟨b, hfill, huids, hticks, hb⟩ := writeIntent_spec S E pfd (s.opens.heap a) s
    rw [writeIntents]
    split
    · rename_i s₁ heq
      rw [heq] at hfill huids
      exact ⟨b, hfill, huids, by simp⟩
    · rename_i s₁ heq
      rw [heq] at hfill huids hticks hb
      obtain ⟨b', hfill', huids', hb'⟩ := ih s₁
      refine ⟨b ++ b', hfill.trans hfill', huids'.trans huids, fun hok => ?_⟩
      obtain ⟨hticks', ls, hls, rfl⟩ := hb' hok
      obtain ⟨now, line, rls, hline, hrls, rfl⟩ := hb rfl
      rw [hfill.toQuiet.opens_eq] at hls
      refine ⟨?_, line :: (rls ++ ls), .cons hline hrls hls, ?_⟩
      · rw [hticks', hticks, List.length_cons]
        omega
      · rw [← joinLines_append, List.cons_append]

/-! ## The rate windows -/

/-- Writing the rate records: rings are evicted, and the records are those of the evicted rings. -/
theorem writeRates_spec (S : Site) (E : Env) (pfd : ℕ) (th : UInt64) {vs : List UInt32}
    (hnd : vs.Nodup) (s : St) :
    ∃ b, Fills E pfd b s (writeRates S E pfd th vs s).2 ∧
      (writeRates S E pfd th vs s).2.ticks = s.ticks ∧
      (writeRates S E pfd th vs s).2.uids.chain = s.uids.chain ∧
      (∀ v, (writeRates S E pfd th vs s).2.uids.node v = s.uids.node v ∨
        v ∈ vs ∧ (writeRates S E pfd th vs s).2.uids.node v = (s.uids.node v).uidEvict th) ∧
      ((writeRates S E pfd th vs s).1 = true →
        (∀ v ∈ vs,
          (writeRates S E pfd th vs s).2.uids.node v = (s.uids.node v).uidEvict th) ∧
        b = joinLines (rateLines S (writeRates S E pfd th vs s).2.uids vs)) := by
  induction vs generalizing s with
  | nil => exact ⟨[], Fills.refl E pfd s, rfl, rfl, fun v => Or.inl rfl, fun _ => ⟨by simp, rfl⟩⟩
  | cons v vs ih =>
    obtain ⟨hv, hnd⟩ := List.nodup_cons.mp hnd
    have hevict := Fills.uids E pfd s (s.uids.evictUid v th)
    set s₁ : St := { s with uids := s.uids.evictUid v th } with hs₁
    have hself : s₁.uids.node v = (s.uids.node v).uidEvict th := Function.update_self _ _ _
    have hother : ∀ u, u ≠ v → s₁.uids.node u = s.uids.node u := fun u hu =>
      Function.update_of_ne hu _ _
    -- What the rest of the loop does, seen from the start.
    have later : ∀ {b₀ s₂}, Fills E pfd b₀ s s₂ → s₂.ticks = s.ticks → s₂.uids = s₁.uids →
        ∃ b, Fills E pfd (b₀ ++ b) s (writeRates S E pfd th vs s₂).2 ∧
          (writeRates S E pfd th vs s₂).2.ticks = s.ticks ∧
          (writeRates S E pfd th vs s₂).2.uids.chain = s.uids.chain ∧
          (∀ u, (writeRates S E pfd th vs s₂).2.uids.node u = s.uids.node u ∨
            u ∈ v :: vs ∧
              (writeRates S E pfd th vs s₂).2.uids.node u = (s.uids.node u).uidEvict th) ∧
          (writeRates S E pfd th vs s₂).2.uids.node v = (s.uids.node v).uidEvict th ∧
          ((writeRates S E pfd th vs s₂).1 = true →
            (∀ u ∈ v :: vs,
              (writeRates S E pfd th vs s₂).2.uids.node u = (s.uids.node u).uidEvict th) ∧
            b = joinLines (rateLines S (writeRates S E pfd th vs s₂).2.uids vs)) := by
      intro b₀ s₂ hfill hticks huids
      obtain ⟨b, hfill', hticks', hchain, hnode, hok⟩ := ih hnd s₂
      rw [huids] at hchain hnode hok
      have hlast : (writeRates S E pfd th vs s₂).2.uids.node v = (s.uids.node v).uidEvict th := by
        rcases hnode v with h | ⟨h, -⟩
        · rw [h, hself]
        · exact absurd h hv
      refine ⟨b, hfill.trans hfill', hticks'.trans hticks, hchain, fun u => ?_, hlast,
        fun hres => ⟨fun u hu => ?_, (hok hres).2⟩⟩
      · by_cases hu : u = v
        · exact Or.inr ⟨by simp [hu], hu ▸ hlast⟩
        · rw [← hother u hu]
          rcases hnode u with h | ⟨hm, h⟩
          · exact Or.inl h
          · exact Or.inr ⟨by simp [hm], h⟩
      · by_cases huv : u = v
        · exact huv ▸ hlast
        · rw [(hok hres).1 u (by simpa [huv] using hu), hother u huv]
    rw [writeRates]
    simp only [← hs₁]
    by_cases hn : (s₁.uids.node v).n = 0
    · rw [if_pos hn]
      obtain ⟨b, hfill, hticks, hchain, hnode, hlast, hok⟩ := later hevict rfl rfl
      refine ⟨b, hfill, hticks, hchain, hnode, fun hres => ⟨(hok hres).1, ?_⟩⟩
      have hn' : ((writeRates S E pfd th vs s₁).2.uids.node v).n = 0 := by rw [hlast, ← hself, hn]
      rw [(hok hres).2, rateLines, rateLines, List.filter_cons_of_neg (by simpa using hn')]
    · rw [if_neg hn]
      obtain ⟨b₀, hfill₀, huids₀, hticks₀, hb₀⟩ := appendPending_spec E pfd
        (isLine_rabBuildRate (J := S.codec) v (s₁.uids.entries v)).newline_notMem s₁
      split
      · rename_i s₂ heq
        rw [heq] at hfill₀ huids₀ hticks₀
        refine ⟨b₀, hevict.trans hfill₀, hticks₀, ?_, fun u => ?_, by simp⟩
        · rw [huids₀]
          rfl
        · rw [huids₀]
          by_cases hu : u = v
          · exact Or.inr ⟨by simp [hu], hu ▸ hself⟩
          · exact Or.inl (hother u hu)
      · rename_i s₂ heq
        rw [heq] at hfill₀ huids₀ hticks₀ hb₀
        obtain ⟨b, hfill, hticks, hchain, hnode, hlast, hok⟩ :=
          later (hevict.trans hfill₀) hticks₀ huids₀
        refine ⟨b₀ ++ b, hfill, hticks, hchain, hnode, fun hres => ⟨(hok hres).1, ?_⟩⟩
        have hn' : ((writeRates S E pfd th vs s₂).2.uids.node v).n ≠ 0 := by
          rw [hlast, ← hself]
          exact hn
        have hent : (writeRates S E pfd th vs s₂).2.uids.entries v = s₁.uids.entries v := by
          rw [UidTable.entries, hlast, ← hself, UidTable.entries]
        rw [hb₀ rfl, (hok hres).2, ← joinLines_append, List.singleton_append]
        conv_rhs => rw [rateLines, List.filter_cons_of_pos (by simpa using hn'), List.map_cons, hent]
        rfl

/-- The uids whose windows a rotation carries. -/
def carriedUids (s : St) : List UInt32 :=
  if s.cfg.rateMaxInWindow = 0 then [] else s.uids.chain.walk nbktUid

theorem nodup_carriedUids {s : St} (h : s.uids.Ok s.cfg) : (carriedUids s).Nodup := by
  unfold carriedUids
  split
  · exact List.nodup_nil
  · exact h.placed.nodup_walk _

/-- A uid that is not carried has no window. -/
theorem node_of_notMem_carriedUids {s : St} (h : s.uids.Ok s.cfg)
    (hon : s.cfg.rateMaxInWindow ≠ 0) {v : UInt32} (hv : v ∉ carriedUids s) :
    s.uids.node v = UidState.zero (ringCap s.cfg) := by
  rw [carriedUids, if_neg hon, h.placed.mem_walk huid_lt] at hv
  exact h.absent v hv

theorem UidState.uidEvict_zero (cap : UInt32) (th : UInt64) :
    (UidState.zero cap).uidEvict th = UidState.zero cap := rfl

/-- Writing all rate windows. -/
theorem writeRateCarries_spec (S : Site) (E : Env) (pfd : ℕ) {s : St} (h : s.uids.Ok s.cfg) :
    ∃ b, Fills E pfd b s (writeRateCarries S E pfd s).2 ∧
      (writeRateCarries S E pfd s).2.ticks =
        s.ticks + (if s.cfg.rateMaxInWindow = 0 then 0 else 1) ∧
      UidTable.Evicts s.cfg (winTh s.cfg (writeRateCarries S E pfd s).2.lastClock) s.uids
        (writeRateCarries S E pfd s).2.uids ∧
      ((writeRateCarries S E pfd s).1 = true →
        b = joinLines (rateLines S (writeRateCarries S E pfd s).2.uids (carriedUids s)) ∧
        (s.cfg.rateMaxInWindow ≠ 0 → ∀ v, (writeRateCarries S E pfd s).2.uids.node v =
          (s.uids.node v).uidEvict (winTh s.cfg (writeRateCarries S E pfd s).2.lastClock))) := by
  by_cases hoff : s.cfg.rateMaxInWindow = 0
  · simp only [writeRateCarries, if_pos hoff]
    refine ⟨[], Fills.refl E pfd s, rfl, .refl h _, fun _ => ⟨?_, fun hon => absurd hoff hon⟩⟩
    rw [carriedUids, if_pos hoff]
    rfl
  · obtain ⟨b, hfill, hticks, hchain, hnode, hok⟩ := writeRates_spec S E pfd
      (winTh s.cfg (s.readClock E).1) (nodup_carriedUids h) (s.readClock E).2
    have heq : writeRateCarries S E pfd s = writeRates S E pfd (winTh s.cfg (s.readClock E).1)
        (carriedUids s) (s.readClock E).2 := by
      rw [writeRateCarries, if_neg hoff, carriedUids, if_neg hoff]
      rfl
    rw [← heq] at hfill hticks hchain hnode hok
    -- The clock is read once, before the first record.
    have hclock : (writeRateCarries S E pfd s).2.lastClock = (s.readClock E).1 := by
      rcases hfill.clock with ⟨-, hc⟩ | ⟨ht, -⟩
      · exact hc
      · omega
    have hnode' : ∀ v, (writeRateCarries S E pfd s).2.uids.node v = s.uids.node v ∨
        v ∈ carriedUids s ∧ (writeRateCarries S E pfd s).2.uids.node v =
          (s.uids.node v).uidEvict (winTh s.cfg (s.readClock E).1) := hnode
    rw [hclock]
    refine ⟨b, (Fills.readClock E pfd s).trans hfill, ?_, ⟨⟨?_, fun v hv => ?_⟩, fun v => ?_⟩,
      fun hres => ⟨(hok hres).2, fun _ v => ?_⟩⟩
    · rw [hticks, if_neg hoff]
      rfl
    · rw [hchain]
      exact h.placed
    · rw [hchain] at hv
      have hzero := h.absent v hv
      rcases hnode' v with hn | ⟨-, hn⟩
      · rw [hn, hzero]
      · rw [hn, hzero, UidState.uidEvict_zero]
    · rcases hnode' v with hn | ⟨-, hn⟩
      · exact Or.inl hn
      · exact Or.inr hn
    · by_cases hv : v ∈ carriedUids s
      · exact (hok hres).1 v hv
      · rcases hnode' v with hn | ⟨hm, -⟩
        · rw [hn, node_of_notMem_carriedUids h hoff hv, UidState.uidEvict_zero]
        · exact absurd hm hv

/-! ## The whole segment -/

/-- Writing the new segment. -/
theorem fillPending_spec (S : Site) (E : Env) (pfd : ℕ) {s : St} (h : s.uids.Ok s.cfg) :
    ∃ b, Fills E pfd b s (fillPending S E pfd s).2 ∧
      UidTable.Evicts s.cfg (winTh s.cfg (fillPending S E pfd s).2.lastClock) s.uids
        (fillPending S E pfd s).2.uids ∧
      ((fillPending S E pfd s).1 = true →
        (fillPending S E pfd s).2.ticks =
          s.ticks + s.opens.walk.length + (if s.cfg.rateMaxInWindow = 0 then 0 else 1) ∧
        (∃ ls, CarryIntents S s.opens.heap s.opens.walk ls ∧
          b = joinLines (ls ++ rateLines S (fillPending S E pfd s).2.uids (carriedUids s))) ∧
        (s.cfg.rateMaxInWindow ≠ 0 → ∀ v, (fillPending S E pfd s).2.uids.node v =
          (s.uids.node v).uidEvict (winTh s.cfg (fillPending S E pfd s).2.lastClock))) := by
  obtain ⟨b, hfill, huids, hb⟩ := writeIntents_spec S E pfd s.opens.walk s
  unfold fillPending
  split
  · rename_i s₁ heq
    rw [heq] at hfill huids
    refine ⟨b, hfill, ?_, by simp⟩
    rw [huids]
    exact .refl h _
  · rename_i s₁ heq
    rw [heq] at hfill huids hb
    have hcfg := hfill.toQuiet.cfg_eq
    have h₁ : s₁.uids.Ok s₁.cfg := by rwa [huids, hcfg]
    have hcarried : carriedUids s₁ = carriedUids s := by rw [carriedUids, carriedUids, hcfg, huids]
    obtain ⟨b', hfill', hticks', hev, hres'⟩ := writeRateCarries_spec S E pfd h₁
    rw [hcfg, huids] at hev hres'
    rw [hcfg] at hticks'
    rw [hcarried] at hres'
    obtain ⟨hticks, ls, hls, rfl⟩ := hb rfl
    refine ⟨joinLines ls ++ b', hfill.trans hfill', hev, fun hok => ⟨?_, ⟨ls, hls, ?_⟩, ?_⟩⟩
    · rw [hticks', hticks]
    · rw [(hres' hok).1, joinLines_append]
    · exact (hres' hok).2

end AuditBroker
