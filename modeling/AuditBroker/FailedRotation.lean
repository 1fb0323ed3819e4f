import AuditBroker.Retention
import AuditBroker.RotationCalls

/-!
# Rotations that fail

A rotation that fails before the rename cleans up after itself: it removes the pending segment, and,
once it has tried to link the archive, the archive name as well.  This says what is left of the sink
and of the archives, for any directory, any clock and any failing calls.  Nothing is lost unless the
archive name was taken, and then removed with the file it named, or a stale pending segment that could
not be removed was another name of the sink or of an archive, and was written to.
-/

namespace AuditBroker

open Foundation

variable {S : Site} {E : Env} {s s' : St} {pfd : ℕ}

/-! ## The point of the link -/

/-- `rotate` from the opened pending segment up to the link: the time that names the archive, and the
state with the lock taken; nothing if it has failed by then. -/
def linkPoint (S : Site) (E : Env) (pfd : ℕ) (s : St) : Option (UInt64 × St) :=
  match fillPending S E pfd s with
  | (false, _) => none
  | (true, s) =>
    let (ts, s) := s.readClock E
    if S.archTooLong ts then none
    else
      match World.plain E .flock s.toWorld with
      | (false, _) => none
      | (true, w) => some (ts, { s with toWorld := w })

/-- The cleanup after a failed link removes a file of this name: the name is that of the archive, and
the second call after the link, which unlinks it, succeeds. -/
def Cleans (S : Site) (E : Env) (pfd : ℕ) (s : St) (name : Bytes) : Prop :=
  ∃ ts s₁, linkPoint S E pfd s = some (ts, s₁) ∧ name = S.archName ts ∧
    E.outcome .unlink { s₁.toWorld with calls := s₁.calls + 2 } = .ok

/-- In terms of the state before: the segment is written, the archive's clock reading names it, and
the lock is taken. -/
theorem cleans_iff {name : Bytes} :
    Cleans S E pfd s name ↔ AllBuildable S E s.opens.heap s.opens.walk s.ticks ∧
      S.archTooLong (E.clock (archTick s)) = false ∧
      E.Serves (lineCalls (carriedLines E s) ++ [.flock]) s.calls ∧
      name = S.archName (E.clock (archTick s)) ∧
      E.outcomeAt .unlink (s.calls + 4 * carriedLines E s + 3) = .ok := by
  obtain ⟨hiff, hdone⟩ := fillPending_iff S E pfd s
  rw [Cleans, linkPoint, Env.serves_append, length_lineCalls]
  rcases hfill : fillPending S E pfd s with ⟨_ | _, s₁⟩
  · rw [hfill] at hiff
    have hnot := mt hiff.mpr (by simp)
    simp only [reduceCtorEq, false_and, exists_false, false_iff]
    exact fun h => hnot ⟨h.1, h.2.2.1.1⟩
  rw [hfill] at hiff hdone
  obtain ⟨hbuild, hserves⟩ := hiff.mp rfl
  obtain ⟨hcalls, hticks⟩ := hdone rfl
  have hclock : (s₁.readClock E).1 = E.clock (archTick s) := congrArg E.clock hticks
  simp only [hclock, Env.Serves, hbuild, hserves, true_and, and_true]
  cases hlong : S.archTooLong (E.clock (archTick s)) with
  | true => simp
  | false =>
    cases hlock : E.outcomeAt .flock (s.calls + 4 * carriedLines E s) with
    | fail k =>
      rw [← hcalls] at hlock
      simp [World.plain_of_fail (w := (s₁.readClock E).2.toWorld) hlock]
    | ok =>
      rw [← hcalls] at hlock
      simp only [World.plain_of_ok (w := (s₁.readClock E).2.toWorld) hlock, Bool.false_eq_true,
        if_false, true_and, Option.some.injEq, Prod.mk.injEq]
      rw [show s.calls + 4 * carriedLines E s + 3 = s₁.calls + 1 + 2 by rw [hcalls]]
      constructor
      · rintro ⟨ts, s₂, ⟨rfl, rfl⟩, hname, hout⟩
        exact ⟨hname, hout⟩
      · rintro ⟨hname, hout⟩
        exact ⟨_, _, ⟨rfl, rfl⟩, hname, hout⟩

namespace World

variable {name n src dst : Bytes} {i : ℕ}

theorem lookup_unlink (E : Env) (w : World) (hi : w.fs.lookup n = some i) :
    (unlink E name w).2.fs.lookup n =
      if n = name ∧ E.outcome .unlink w = .ok then none else some i := by
  unfold unlink
  by_cases hn : n = name
  · subst hn
    rw [hi]
    cases hout : E.outcome .unlink w with
    | ok => simp [tickFs, Fs.lookup_remove_self]
    | fail k => simp [tick, hi]
  · rw [if_neg (by tauto)]
    split
    · exact (Fs.lookup_remove_of_ne hn).trans hi
    · exact hi

theorem calls_unlink (E : Env) (w : World) : (unlink E name w).2.calls = w.calls + 1 := by
  unfold unlink
  split <;> rfl

/-- A name that is taken is not linked again. -/
theorem link_of_taken (E : Env) (w : World) (h : w.fs.lookup dst = some i) :
    link E src dst w = (false, w.tick) := by
  rw [link, h]
  split
  · rename_i hnone
    cases hnone
  · rfl

end World

/-- The files that were there, after a link or a rename that failed: only the archive may be gone. -/
theorem swapSegment_failed {ts : UInt64} (hlook : s.fs.lookup S.pendingName = some pfd)
    (hfail : (swapSegment S E pfd ts s).1 = false)
    (hp : (swapSegment S E pfd ts s).2.poisoned = false) :
    ∃ w, (swapSegment S E pfd ts s).2 = { s with toWorld := w } ∧ w.fs.node = s.fs.node ∧
      ∀ name i, name ≠ S.pendingName → s.fs.lookup name = some i →
        w.fs.lookup name = if name = S.archName ts ∧
          E.outcome .unlink { s.toWorld with calls := s.calls + 2 } = .ok then none else some i := by
  have hka : ¬(S.archName ts ≠ S.pendingName ∧ S.archName ts ≠ S.archName ts) := by simp
  rcases swapSegment_cases (fun n => n ≠ S.pendingName ∧ n ≠ S.archName ts) (fun _ => False)
    (E := E) (by simp) hka hlook with ⟨-, w, hw, hframe⟩ | ⟨w₁, w, -, -, -, -, -, -, heq⟩
  · refine ⟨w, hw, funext fun i => hframe.node i id, fun name i hname hi => ?_⟩
    by_cases harch : name = S.archName ts
    · -- The archive name was taken: the link failed, and the cleanup unlinks it.
      subst harch
      have hlink : World.link E S.base (S.archName ts) s.toWorld = (false, s.toWorld.tick) :=
        World.link_of_taken E s.toWorld hi
      have hw' : w = (World.unlink E (S.archName ts)
          (World.unlink E S.pendingName s.toWorld.tick).2).2 := by
        have := congrArg St.toWorld hw
        rw [swapSegment, hlink] at this
        exact this.symm
      have hi' : (World.unlink E S.pendingName s.toWorld.tick).2.fs.lookup (S.archName ts) =
          some i := by
        rw [World.lookup_unlink E s.toWorld.tick (i := i) hi, if_neg (by tauto)]
      have hout : E.outcome .unlink (World.unlink E S.pendingName s.toWorld.tick).2 =
          E.outcome .unlink { s.toWorld with calls := s.calls + 2 } := by
        rw [Env.outcome, Env.outcome, World.calls_unlink]
        rfl
      rw [hw', World.lookup_unlink E _ hi', hout]
    · rw [if_neg (by tauto), hframe.lookup name ⟨hname, harch⟩, hi]
  · -- After the rename a rotation fails only by poisoning the broker.
    rw [heq, (adoptSegment_spec (fun _ => False) S E pfd { s with toWorld := w }
      (fun _ h => h.elim)).2.2.1] at hfail
    rw [heq] at hp
    simp [hp] at hfail

/-- The same from the opened pending segment on. -/
theorem rotateInto_failed (hlook : s.fs.lookup S.pendingName = some pfd)
    (hfail : (rotateInto S E pfd s).1 = false)
    (hp : (rotateInto S E pfd s).2.poisoned = false) :
    Quiet E s (rotateInto S E pfd s).2 ∧
      (rotateInto S E pfd s).2.fs.node = (fillPending S E pfd s).2.fs.node ∧
      ∀ name i, name ≠ S.pendingName → s.fs.lookup name = some i →
        (Cleans S E pfd s name ∧ (rotateInto S E pfd s).2.fs.lookup name = none) ∨
        (¬Cleans S E pfd s name ∧ (rotateInto S E pfd s).2.fs.lookup name = some i) := by
  obtain ⟨b, hfill, -⟩ := exists_fills_fillPending S E pfd s
  have hlookup : ∀ name, (fillPending S E pfd s).2.fs.lookup name = s.fs.lookup name := by
    intro name
    rw [hfill.fs]
    rfl
  have hnode : ∀ w : World, (World.unlink E S.pendingName w).2.fs.node = w.fs.node := by
    intro w
    have hframe : Fs.Frame (fun _ => False) (fun _ => False) w.fs
        (World.unlink E S.pendingName w).2.fs := World.frame_unlink E w id
    exact funext fun i => hframe.node i id
  have hgone : ∀ (w : World) name i, name ≠ S.pendingName → w.fs.lookup name = some i →
      (World.unlink E S.pendingName w).2.fs.lookup name = some i := by
    intro w name i hname hi
    rw [World.lookup_unlink E w hi, if_neg (by tauto)]
  unfold rotateInto Cleans linkPoint at *
  split at hfail
  · rename_i s₁ heq
    rw [heq] at hfill hlookup hp ⊢
    refine ⟨hfill.toQuiet.trans (.world E s₁ _), hnode _, fun name i hname hi => Or.inr ⟨?_, ?_⟩⟩
    · simp
    · exact hgone _ name i hname ((hlookup name).trans hi)
  rename_i s₁ heq
  rw [heq] at hfill hlookup hp ⊢
  have hquiet : ∀ w, Quiet E s { (s₁.readClock E).2 with toWorld := w } := fun w =>
    (hfill.toQuiet.trans (.readClock E s₁)).trans (.world E _ w)
  simp only at hfail hp ⊢
  by_cases hlong : S.archTooLong (s₁.readClock E).1 = true
  · simp only [hlong, if_true] at hfail hp ⊢
    refine ⟨hquiet _, hnode _, fun name i hname hi => Or.inr ⟨by simp, ?_⟩⟩
    exact hgone _ name i hname ((hlookup name).trans hi)
  rw [Bool.not_eq_true] at hlong
  simp only [hlong, Bool.false_eq_true, if_false] at hfail hp ⊢
  split at hfail
  · rename_i w hlock
    have hfs : w.fs = s₁.fs := World.fs_of_plain hlock
    simp only [hlock] at hp ⊢
    refine ⟨hquiet _, ?_, fun name i hname hi => Or.inr ⟨by simp, ?_⟩⟩
    · exact (hnode w).trans (congrArg Fs.node hfs)
    · refine hgone w name i hname ?_
      rw [hfs]
      exact (hlookup name).trans hi
  · rename_i w hlock
    have hfs : w.fs = s₁.fs := World.fs_of_plain hlock
    simp only [hlock] at hp ⊢
    have hlook₁ : w.fs.lookup S.pendingName = some pfd := by
      rw [hfs, hlookup, hlook]
    obtain ⟨w', hw', hnode', hleft⟩ :=
      swapSegment_failed (s := { (s₁.readClock E).2 with toWorld := w }) hlook₁ hfail hp
    rw [hw']
    refine ⟨hquiet w', hnode'.trans (congrArg Fs.node hfs), fun name i hname hi => ?_⟩
    have hi' : w.fs.lookup name = some i := by
      rw [hfs]
      exact (hlookup name).trans hi
    rw [hleft name i hname hi']
    simp only [Option.some.injEq, Prod.mk.injEq]
    by_cases hclean : name = S.archName (s₁.readClock E).1 ∧
        E.outcome .unlink { w with calls := w.calls + 2 } = .ok
    · exact Or.inl ⟨⟨_, _, ⟨rfl, rfl⟩, hclean⟩, if_pos hclean⟩
    · refine Or.inr ⟨?_, if_neg hclean⟩
      rintro ⟨ts, s₂, ⟨rfl, rfl⟩, hname', hout⟩
      exact hclean ⟨hname', hout⟩

/-! ## What a failed rotation loses -/

/-- The names of the sink and of its archives. -/
def Site.Keeps (S : Site) (name : Bytes) : Prop := name = S.base ∨ archSuffixValue S name ≠ none

theorem Site.Keeps.ne_pendingName {name : Bytes} (h : S.Keeps name) : name ≠ S.pendingName := by
  rintro rfl
  rcases h with h | h
  · exact S.pendingName_ne_base h
  · exact h (archSuffixValue_pendingName S)

/-- The broker keeps its intents, its descriptor and its segment size; the sink and every archive
are still there with the same bytes. -/
structure Lossless (S : Site) (s s' : St) : Prop where
  opens : s'.opens = s.opens
  fd : s'.fd = s.fd
  segBytes : s'.segBytes = s.segBytes
  files : ∀ name i, S.Keeps name → s.fs.lookup name = some i →
    ∃ j, s'.fs.lookup name = some j ∧ (s'.fs.node j).bytes = (s.fs.node i).bytes

/-- The pending segment that `rotate` opens, if it does. -/
def pendingOpened (S : Site) (E : Env) (s : St) : Option (ℕ × St) :=
  if S.pendingTooLong then none
  else
    match World.rabSinkOpen E S.euid S.pendingName (unlinkPending S E s).toWorld with
    | (none, _) => none
    | (some pfd, w) => some (pfd, { s with toWorld := w })

/-- The stale pending segment, if the first call of the rotation, which unlinks it, fails. -/
def pendingLeft (S : Site) (E : Env) (s : St) : Option ℕ :=
  if E.outcomeAt .unlink s.calls = .ok then none else s.fs.lookup S.pendingName

/-- The number of the first call that writes to the pending segment. -/
def fillCall (S : Site) (E : Env) (s : St) : ℕ :=
  s.calls + 1 + (openCalls (pendingLeft S E s)).length

/-- The rotation opens a pending segment. -/
structure OpensPending (S : Site) (E : Env) (s : St) : Prop where
  short : S.pendingTooLong = false
  openable : s.fs.Openable (pendingLeft S E s)
  opens : E.Serves (openCalls (pendingLeft S E s)) (s.calls + 1)

/-- The rotation comes to the link, at the clock reading that names the archive. -/
structure ReachesLink (S : Site) (E : Env) (s : St) : Prop extends OpensPending S E s where
  buildable : AllBuildable S E s.opens.heap s.opens.walk s.ticks
  arch_short : S.archTooLong (E.clock (archTick s)) = false
  fills : E.Serves (lineCalls (carriedLines E s) ++ [.flock]) (fillCall S E s)

/-- The rotation comes to the link, the archive name is taken, and the third call from there, which
unlinks it, succeeds. -/
def Clobbers (S : Site) (E : Env) (s : St) : Prop :=
  ReachesLink S E s ∧ s.fs.lookup (S.archName (E.clock (archTick s))) ≠ none ∧
    E.outcomeAt .unlink (fillCall S E s + 4 * carriedLines E s + 3) = .ok

/-- The stale pending segment is still there and is another name of the sink or of an archive, and
the rotation opens it and writes the first byte of the new segment to it. -/
def Fouls (S : Site) (E : Env) (s : St) : Prop :=
  OpensPending S E s ∧
    (∃ i name, pendingLeft S E s = some i ∧ S.Keeps name ∧ s.fs.lookup name = some i) ∧
    Begins S E s ∧ E.Lands (fillCall S E s)

theorem lookup_unlinkPending (S : Site) (E : Env) (s : St) :
    (unlinkPending S E s).fs.lookup S.pendingName = pendingLeft S E s := by
  rw [pendingLeft, unlinkPending, World.unlink, Env.outcome_eq]
  cases E.outcomeAt .unlink s.calls with
  | fail k => simp [World.tick]
  | ok =>
    cases hl : s.fs.lookup S.pendingName with
    | none => simpa [World.tick] using hl
    | some i => simp [World.tickFs, Fs.lookup_remove_self]

/-- A pending segment is opened under these conditions on the state before; it is the one that was
left there, or the next inode. -/
theorem exists_pendingOpened_iff :
    (∃ s₀, pendingOpened S E s = some (pfd, s₀)) ↔
      OpensPending S E s ∧ pfd = (pendingLeft S E s).getD s.fs.next := by
  have hnode : ∀ i, (unlinkPending S E s).fs.node i = s.fs.node i := by
    have hframe : Fs.Frame (fun _ => False) (fun _ => False) s.fs (unlinkPending S E s).fs :=
      frame_unlinkPending S E s id
    exact fun i => hframe.node i id
  have hopenable : ∀ x, (unlinkPending S E s).fs.Openable x ↔ s.fs.Openable x := by
    rintro (_ | i)
    · exact Iff.rfl
    · rw [Fs.Openable, Fs.Openable, hnode]
  have hiff := World.rabSinkOpen_iff E S.euid S.pendingName (unlinkPending S E s).toWorld pfd
  have hnext : (unlinkPending S E s).fs.next = s.fs.next := World.next_unlink E s.toWorld
  have hcalls : (unlinkPending S E s).calls = s.calls + 1 := World.calls_unlink E s.toWorld
  rw [lookup_unlinkPending, hopenable, hnext, hcalls] at hiff
  rw [pendingOpened]
  cases hlong : S.pendingTooLong with
  | true =>
    simp only [if_true, reduceCtorEq, exists_false, false_iff]
    rintro ⟨⟨hshort, -, -⟩, -⟩
    simp [hlong] at hshort
  | false =>
    rw [if_neg (by simp)]
    have hsplit : OpensPending S E s ∧ pfd = (pendingLeft S E s).getD s.fs.next ↔
        pfd = (pendingLeft S E s).getD s.fs.next ∧ s.fs.Openable (pendingLeft S E s) ∧
          E.Serves (openCalls (pendingLeft S E s)) (s.calls + 1) :=
      ⟨fun h => ⟨h.2, h.1.openable, h.1.opens⟩, fun h => ⟨⟨hlong, h.2.1, h.2.2⟩, h.1⟩⟩
    rw [hsplit, ← hiff]
    split
    · rename_i w heq
      simp [heq]
    · rename_i i w heq
      simp [heq]

theorem calls_pendingOpened {s₀ : St} (h : pendingOpened S E s = some (pfd, s₀)) :
    s₀.calls = fillCall S E s := by
  unfold pendingOpened at h
  split at h
  · cases h
  split at h
  · cases h
  rename_i pfd' w heq
  obtain ⟨rfl, rfl⟩ := Prod.mk.inj (Option.some.inj h)
  have hcalls := World.calls_rabSinkOpen heq
  rw [lookup_unlinkPending] at hcalls
  have hunlink : (unlinkPending S E s).calls = s.calls + 1 := World.calls_unlink E s.toWorld
  rw [fillCall, ← hunlink]
  exact hcalls

theorem archSuffixValue_archName (S : Site) (ts : UInt64) :
    archSuffixValue S (S.archName ts) = some ts :=
  archSuffixValue_eq_some_iff.mpr ⟨decimal ts.toNat, rfl, decimal_ne_nil _,
    fun _ hc => isDigit_of_mem_decimal hc, decimalValue_decimal _, ts.toNat_lt⟩

theorem Cleans.archSuffixValue_ne_none {name : Bytes} (h : Cleans S E pfd s name) :
    archSuffixValue S name ≠ none := by
  obtain ⟨ts, s₁, -, rfl, -⟩ := h
  simp [archSuffixValue_archName]

theorem Cleans.keeps {name : Bytes} (h : Cleans S E pfd s name) : S.Keeps name :=
  Or.inr h.archSuffixValue_ne_none

/-- The calls that open the pending segment keep the other names and every inode in use. -/
theorem frame_openPending (S : Site) (E : Env) (s : St) :
    Fs.Frame (· ≠ S.pendingName) (s.fs.next ≤ ·) s.fs
      (World.rabSinkOpen E S.euid S.pendingName (unlinkPending S E s).toWorld).2.fs := by
  have hunlink : Fs.Frame (· ≠ S.pendingName) (s.fs.next ≤ ·) s.fs (unlinkPending S E s).fs :=
    frame_unlinkPending S E s (by simp)
  have hnext : (unlinkPending S E s).fs.next = s.fs.next := World.next_unlink E s.toWorld
  exact hunlink.trans (World.frame_rabSinkOpen E S.euid _ (by simp) hnext.ge)

/-- The state after the pending segment has been opened, and the rest of the rotation. -/
theorem pendingOpened_spec {s₀ : St} (h : pendingOpened S E s = some (pfd, s₀)) :
    (∃ w, s₀ = { s with toWorld := w }) ∧ s₀.fs.lookup S.pendingName = some pfd ∧
      (∀ name, name ≠ S.pendingName → s₀.fs.lookup name = s.fs.lookup name) ∧
      (∀ i, i < s.fs.next → s₀.fs.node i = s.fs.node i) ∧
      rotate S E s = rotateInto S E pfd s₀ := by
  unfold pendingOpened at h
  split at h
  · cases h
  rename_i hlong
  have hframe := frame_openPending S E s
  split at h
  · cases h
  rename_i pfd' w heq
  obtain ⟨rfl, rfl⟩ := Prod.mk.inj (Option.some.inj h)
  rw [heq] at hframe
  refine ⟨⟨w, rfl⟩, ?_, fun name hname => hframe.lookup name hname,
    fun i hi => hframe.node i (by omega), ?_⟩
  · exact (openPending_spec (fun _ => True) (fun _ _ => trivial) (Or.inr fun _ _ => trivial) heq).2.1
  · rw [rotate, if_neg hlong]
    simp only [heq]
    rfl

/-- What `Clobbers` says of the run of the rotation. -/
theorem clobbers_iff :
    Clobbers S E s ↔ ∃ pfd s₀ name i, pendingOpened S E s = some (pfd, s₀) ∧
      s.fs.lookup name = some i ∧ Cleans S E pfd s₀ name := by
  constructor
  · rintro ⟨hreach, htaken, hunlink⟩
    obtain ⟨s₀, hopen⟩ := exists_pendingOpened_iff.mpr ⟨hreach.toOpensPending, rfl⟩
    obtain ⟨i, hi⟩ := Option.ne_none_iff_exists'.mp htaken
    obtain ⟨⟨w, rfl⟩, -⟩ := pendingOpened_spec hopen
    refine ⟨_, _, _, i, hopen, hi, cleans_iff.mpr ⟨hreach.buildable, hreach.arch_short, ?_, rfl, ?_⟩⟩
    · rw [calls_pendingOpened hopen]
      exact hreach.fills
    · rw [calls_pendingOpened hopen]
      exact hunlink
  · rintro ⟨pfd, s₀, name, i, hopen, hi, hclean⟩
    obtain ⟨⟨w, rfl⟩, -⟩ := pendingOpened_spec hopen
    obtain ⟨hbuild, hshort, hserves, rfl, hunlink⟩ := cleans_iff.mp hclean
    rw [calls_pendingOpened hopen] at hserves hunlink
    refine ⟨⟨(exists_pendingOpened_iff.mp ⟨_, hopen⟩).1, hbuild, hshort, hserves⟩, ?_, hunlink⟩
    exact Option.ne_none_iff_exists'.mpr ⟨i, hi⟩

/-- What `Fouls` says of the run of the rotation. -/
theorem fouls_iff (hfs : s.fs.Ok) :
    Fouls S E s ↔ ∃ pfd s₀ name, pendingOpened S E s = some (pfd, s₀) ∧ S.Keeps name ∧
      s.fs.lookup name = some pfd ∧
      ((fillPending S E pfd s₀).2.fs.node pfd).bytes ≠ (s.fs.node pfd).bytes := by
  have hgrow : ∀ {pfd s₀ name}, pendingOpened S E s = some (pfd, s₀) →
      s.fs.lookup name = some pfd →
      (((fillPending S E pfd s₀).2.fs.node pfd).bytes ≠ (s.fs.node pfd).bytes ↔
        Begins S E s ∧ E.Lands (fillCall S E s)) := by
    intro pfd s₀ name hopen hi
    obtain ⟨⟨w, hw⟩, -, -, hinodes, -⟩ := pendingOpened_spec hopen
    obtain ⟨b, hfill, hb⟩ := exists_fills_fillPending S E pfd s₀
    have hbytes : ((fillPending S E pfd s₀).2.fs.node pfd).bytes = (s.fs.node pfd).bytes ++ b := by
      have hself : (s₀.fs.extend pfd b).node pfd = _ := Function.update_self _ _ _
      rw [hfill.fs, ← hinodes pfd (hfs.lookup_lt hi), hself]
    have hbegins : Begins S E s₀ ↔ Begins S E s := by
      subst hw
      exact Iff.rfl
    rw [calls_pendingOpened hopen, hbegins] at hb
    rw [hbytes, ne_eq, List.append_right_eq_self, hb, not_not]
  constructor
  · rintro ⟨hopens, ⟨i, name, hleft, hkeep, hi⟩, hbegins⟩
    obtain ⟨s₀, hopen⟩ := exists_pendingOpened_iff.mpr ⟨hopens, rfl⟩
    rw [hleft, Option.getD_some] at hopen
    exact ⟨i, s₀, name, hopen, hkeep, hi, (hgrow hopen hi).mpr hbegins⟩
  · rintro ⟨pfd, s₀, name, hopen, hkeep, hi, hbytes⟩
    obtain ⟨hopens, hpfd⟩ := exists_pendingOpened_iff.mp ⟨s₀, hopen⟩
    refine ⟨hopens, ⟨pfd, name, ?_, hkeep, hi⟩, (hgrow hopen hi).mp hbytes⟩
    -- an inode that had a name is not the next one
    cases hleft : pendingLeft S E s with
    | some i =>
      rw [hleft, Option.getD_some] at hpfd
      rw [hpfd]
    | none =>
      rw [hleft, Option.getD_none] at hpfd
      exact absurd (hfs.lookup_lt hi) (by omega)

/-- A rotation that does not open the pending segment changes nothing else. -/
theorem rotate_of_not_opened (h : pendingOpened S E s = none) :
    Quiet E s (rotate S E s).2 ∧
      Fs.Frame (· ≠ S.pendingName) (s.fs.next ≤ ·) s.fs (rotate S E s).2.fs := by
  unfold pendingOpened at h
  unfold rotate
  split at h
  · rename_i hlong
    rw [if_pos hlong]
    exact ⟨.refl E s, .refl _ _ _⟩
  rename_i hlong
  have hframe := frame_openPending S E s
  rw [if_neg hlong]
  split at h
  · rename_i w heq
    rw [heq] at hframe
    simp only [heq]
    exact ⟨.world E s w, hframe⟩
  · cases h

/-- Over any directory, clock and failing calls, and in any state: a rotation that returns -1 without
poisoning the broker leaves the open intents, their receipts, the descriptor, the segment size, the
bytes at the sink path and all archives as they were, if and only if it does not come to the link with
an archive name that is taken and that it can unlink, and does not write to the sink or to an archive
through a stale pending segment. -/
theorem failed_rotation_lossless (hfs : s.fs.Ok) (hfail : (rotate S E s).1 = false)
    (hp : (rotate S E s).2.poisoned = false) :
    Lossless S s (rotate S E s).2 ↔ ¬Clobbers S E s ∧ ¬Fouls S E s := by
  rw [clobbers_iff, fouls_iff hfs]
  cases hopen : pendingOpened S E s with
  | none =>
    obtain ⟨hquiet, hframe⟩ := rotate_of_not_opened hopen
    refine ⟨fun _ => ⟨?_, ?_⟩, fun _ => ⟨hquiet.opens_eq, hquiet.fd_eq, by rw [hquiet.rest], ?_⟩⟩
    · rintro ⟨pfd, s₀, name, i, h, -⟩
      cases h
    · rintro ⟨pfd, s₀, name, h, -⟩
      cases h
    · intro name i hname hi
      refine ⟨i, (hframe.lookup name hname.ne_pendingName).trans hi, ?_⟩
      exact congrArg Inode.bytes (hframe.node i (not_le.mpr (hfs.lookup_lt hi)))
  | some x =>
    obtain ⟨pfd, s₀⟩ := x
    obtain ⟨⟨w, hw⟩, hlook, hnames, hinodes, heq⟩ := pendingOpened_spec hopen
    rw [heq] at hfail hp ⊢
    obtain ⟨hquiet, hnode, hleft⟩ := rotateInto_failed hlook hfail hp
    obtain ⟨b, hfill, -⟩ := exists_fills_fillPending S E pfd s₀
    constructor
    · intro h
      constructor
      · rintro ⟨pfd', s₀', name, i, hopen', hi, hclean⟩
        obtain ⟨rfl, rfl⟩ := Prod.mk.inj (Option.some.inj hopen')
        have hname := hclean.keeps.ne_pendingName
        obtain ⟨j, hj, -⟩ := h.files name i hclean.keeps hi
        rcases hleft name i hname ((hnames name hname).trans hi) with ⟨-, hnone⟩ | ⟨hnot, -⟩
        · simp [hnone] at hj
        · exact hnot hclean
      · rintro ⟨pfd', s₀', name, hopen', hkeep, hi, hbytes⟩
        obtain ⟨rfl, rfl⟩ := Prod.mk.inj (Option.some.inj hopen')
        have hname := hkeep.ne_pendingName
        obtain ⟨j, hj, hsame⟩ := h.files name pfd hkeep hi
        rcases hleft name pfd hname ((hnames name hname).trans hi) with ⟨-, hnone⟩ | ⟨-, hsome⟩
        · simp [hnone] at hj
        · rw [hsome, Option.some_inj] at hj
          rw [← hj, hnode] at hsame
          exact hbytes hsame
    · rintro ⟨hclob, hfoul⟩
      have hq : Quiet E s (rotateInto S E pfd s₀).2 := (hw ▸ Quiet.world E s w).trans hquiet
      refine ⟨hq.opens_eq, hq.fd_eq, by rw [hq.rest], fun name i hkeep hi => ⟨i, ?_, ?_⟩⟩
      · have hname := hkeep.ne_pendingName
        rcases hleft name i hname ((hnames name hname).trans hi) with ⟨hclean, -⟩ | ⟨-, hsome⟩
        · exact absurd ⟨pfd, s₀, name, i, rfl, hi, hclean⟩ hclob
        · exact hsome
      · rw [hnode]
        by_cases hpfd : i = pfd
        · subst hpfd
          by_contra hne
          exact hfoul ⟨i, s₀, name, rfl, hkeep, hi, hne⟩
        · rw [hfill.fs]
          have hother : (s₀.fs.extend pfd b).node i = s₀.fs.node i := Function.update_of_ne hpfd _ _
          rw [hother, hinodes i (hfs.lookup_lt hi)]

/-- The sample environment, with a rename that fails. -/
def Sample.stuck : Env :=
  { env 3000000 2 with io := fun c _ => if c = .rename then .fail 0 else .ok }

/-- In the sample run, a rename that fails loses nothing. -/
theorem failed_rotation_lossless_stuck :
    (rotate Sample.site Sample.stuck
      (run Sample.site (St.initial Sample.fs) Sample.openRun).begin_).1 = false ∧
    Lossless Sample.site (run Sample.site (St.initial Sample.fs) Sample.openRun).begin_
      (rotate Sample.site Sample.stuck
        (run Sample.site (St.initial Sample.fs) Sample.openRun).begin_).2 := by
  obtain ⟨hfail, hp, hdir, hnext, hundo, hleft⟩ :
      (rotate Sample.site Sample.stuck
        (run Sample.site (St.initial Sample.fs) Sample.openRun).begin_).1 = false ∧
      (rotate Sample.site Sample.stuck
        (run Sample.site (St.initial Sample.fs) Sample.openRun).begin_).2.poisoned = false ∧
      (run Sample.site (St.initial Sample.fs) Sample.openRun).begin_.fs.dir =
        [(Sample.site.base, 0)] ∧
      (run Sample.site (St.initial Sample.fs) Sample.openRun).begin_.fs.next = 1 ∧
      (run Sample.site (St.initial Sample.fs) Sample.openRun).begin_.fs.undo = none ∧
      pendingLeft Sample.site Sample.stuck
        (run Sample.site (St.initial Sample.fs) Sample.openRun).begin_ = none := by
    decide +kernel
  have hok : (run Sample.site (St.initial Sample.fs) Sample.openRun).begin_.fs.Ok :=
    ⟨by simp [hdir, hnext], by simp [hundo]⟩
  refine ⟨hfail, (failed_rotation_lossless hok hfail hp).mpr ⟨?_, ?_⟩⟩
  · rintro ⟨-, htaken, -⟩
    obtain ⟨i, hi⟩ := Option.ne_none_iff_exists'.mp htaken
    have hmem := Fs.mem_of_lookup hi
    rw [hdir, List.mem_singleton] at hmem
    exact Site.archName_ne_base _ _ (Prod.mk.inj hmem).1
  · rintro ⟨-, ⟨i, name, hi, -⟩, -⟩
    simp [hleft] at hi

/-- A record after which the segment is rotated. -/
def Sample.rotatedRun : List Event :=
  [.start (env 1000000 0) { config with rotateBytes := 1 } false,
    .request (env 2000000 1) (actor 1000) (emitBody (lit "probe"))]

/-- Two rotations at one clock reading: the second finds the archive name taken, fails, and removes
the archive of the first, with the records in it. -/
theorem failed_rotation_removes_archive :
    ∃ i, (run Sample.site (St.initial Sample.fs) Sample.rotatedRun).begin_.fs.lookup
        (Sample.site.archName 2000000) = some i ∧
      ((run Sample.site (St.initial Sample.fs) Sample.rotatedRun).begin_.fs.node i).bytes ≠ [] ∧
      (rotate Sample.site (Sample.env 2000000 2)
        (run Sample.site (St.initial Sample.fs) Sample.rotatedRun).begin_).1 = false ∧
      (rotate Sample.site (Sample.env 2000000 2)
        (run Sample.site (St.initial Sample.fs) Sample.rotatedRun).begin_).2.poisoned = false ∧
      (rotate Sample.site (Sample.env 2000000 2)
        (run Sample.site (St.initial Sample.fs) Sample.rotatedRun).begin_).2.fs.lookup
          (Sample.site.archName 2000000) = none :=
  ⟨0, by decide +kernel⟩

end AuditBroker
