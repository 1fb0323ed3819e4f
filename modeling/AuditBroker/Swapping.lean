import AuditBroker.Filling

/-!
# What rotation does

Up to the rename a rotation touches nothing but the pending segment and the archive name, evicts
rings and reads the clock, whatever fails and wherever the process is killed.  `rotate_cases` says
that it either stops there, or renames a segment with the carried records over the sink;
`adoptSegment_spec` says what it does after the rename.
-/

namespace AuditBroker

open Foundation

variable {S : Site} {E : Env} {s s' : St}

/-! ## Names -/

namespace Site

theorem pendingName_ne_base (S : Site) : S.pendingName ≠ S.base := by
  intro h
  have hlen := congrArg List.length h
  rw [pendingName, List.length_append] at hlen
  have hpos : 0 < (lit ".pending").length := by decide
  omega

theorem archName_ne_base (S : Site) (ts : UInt64) : S.archName ts ≠ S.base := by
  intro h
  have hlen := congrArg List.length h
  rw [archName, List.length_append, List.length_append] at hlen
  have hpos : 0 < (lit ".").length := by decide
  omega

theorem archName_ne_pendingName (S : Site) (ts : UInt64) : S.archName ts ≠ S.pendingName := by
  intro h
  rw [archName, pendingName, List.append_assoc, List.append_cancel_left_eq] at h
  have htail : decimal ts.toNat = lit "pending" := by
    have hsplit : lit ".pending" = lit "." ++ lit "pending" := by decide
    rw [hsplit] at h
    exact List.append_cancel_left h
  have hdigit := isDigit_of_mem_decimal (n := ts.toNat) (c := 112) (by rw [htail]; decide)
  exact absurd hdigit (by decide)

end Site

/-- The sink is not an archive. -/
theorem archSuffixValue_base (S : Site) : archSuffixValue S S.base = none := by
  have hpre : ¬(S.base ++ lit ".").isPrefixOf S.base = true := by
    rw [List.isPrefixOf_iff_prefix]
    intro h
    have hlen := h.length_le
    rw [List.length_append] at hlen
    have hpos : 0 < (lit ".").length := by decide
    omega
  rw [archSuffixValue, if_neg hpre]

/-! ## Retention -/

/-- The directory scan reads only, and finds archives only. -/
theorem scanArchives_spec (S : Site) (E : Env) (dir : List (Bytes × ℕ)) (w : World) :
    (scanArchives S E dir w).2.fs = w.fs ∧
      ∀ a ∈ (scanArchives S E dir w).1, archSuffixValue S a.name ≠ none := by
  induction dir generalizing w with
  | nil => exact ⟨rfl, by simp [scanArchives]⟩
  | cons x dir ih =>
    obtain ⟨name, i⟩ := x
    rw [scanArchives]
    split
    · exact ih w
    rename_i suffix hsuffix
    split
    · exact ih w
    split
    · rename_i w₁ hstat
      obtain ⟨hfs, hmem⟩ := ih w₁
      exact ⟨hfs.trans (World.fs_of_plain hstat), hmem⟩
    rename_i w₁ hstat
    obtain ⟨hfs, hmem⟩ := ih w₁
    have hfs' := hfs.trans (World.fs_of_plain hstat)
    simp only
    split
    · refine ⟨hfs', fun a ha => ?_⟩
      rcases List.mem_cons.mp ha with rfl | ha
      · simp [hsuffix]
      · exact hmem a ha
    · exact ⟨hfs', hmem⟩

section Frames

variable {keep : Bytes → Prop} {own : ℕ → Prop}

theorem frame_pruneLoop (S : Site) (E : Env) (cfg : Config) {ents : List Archive}
    (hents : ∀ a ∈ ents, ¬keep a.name) (archives : ℕ) (total : UInt64) (pruned : Bool)
    (w : World) : Fs.Frame keep own w.fs (pruneLoop S E cfg ents archives total pruned w).2.fs := by
  induction ents generalizing archives total pruned w with
  | nil => exact .refl _ _ _
  | cons a ents ih =>
    have ih := fun arch tot pr w => ih (fun b hb => hents b (by simp [hb])) arch tot pr w
    have hunlink : Fs.Frame keep own w.fs (World.unlink E a.name w).2.fs :=
      World.frame_unlink E w (hents a (by simp))
    rw [pruneLoop]
    split
    · exact .refl _ _ _
    split
    · exact ih _ _ _ w
    split
    · rename_i w₁ heq
      rw [heq] at hunlink
      exact hunlink.trans (ih _ _ _ w₁)
    · rename_i w₁ heq
      rw [heq] at hunlink
      exact hunlink.trans (ih _ _ _ w₁)

/-- Retention removes archives only. -/
theorem frame_applyRetention (S : Site) (E : Env) (cfg : Config) (segBytes : UInt64) (w : World)
    (hk : ∀ name, keep name → archSuffixValue S name = none) :
    Fs.Frame keep own w.fs (applyRetention S E cfg segBytes w).fs := by
  unfold applyRetention
  split
  · exact .refl _ _ _
  split
  · exact .refl _ _ _
  split
  · rename_i w₁ hdir
    rw [World.fs_of_plain hdir]
    exact .refl _ _ _
  rename_i w₁ hdir
  obtain ⟨hfs, hmem⟩ := scanArchives_spec S E w₁.fs.dir w₁
  have hents : ∀ a ∈ (scanArchives S E w₁.fs.dir w₁).1.insertionSort
      (fun a b => a.suffix ≤ b.suffix), ¬keep a.name := by
    intro a ha hka
    exact hmem a ((List.mem_insertionSort _).mp ha) (hk _ hka)
  have hprune : ∀ {ents : List Archive}, (∀ a ∈ ents, ¬keep a.name) → ∀ arch tot pr,
      Fs.Frame keep own w.fs (pruneLoop S E cfg ents arch tot pr
        (scanArchives S E w₁.fs.dir w₁).2).2.fs := by
    intro ents hents arch tot pr
    rw [← hfs.trans (World.fs_of_plain hdir)]
    exact frame_pruneLoop S E cfg hents arch tot pr _
  simp only
  split
  · rename_i w₂ heq
    have hfs₂ : w₂.fs = _ := (congrArg (fun r => r.2.fs) heq).symm
    have hframe : Fs.Frame keep own w.fs w₂.fs := hfs₂ ▸ hprune hents _ _ _
    exact hframe.trans (World.frame_rabFsyncParentDir E w₂)
  · rename_i w₂ heq
    have hfs₂ : w₂.fs = _ := (congrArg (fun r => r.2.fs) heq).symm
    exact hfs₂ ▸ hprune hents _ _ _

/-- The pending segment is removed. -/
theorem frame_unlinkPending (S : Site) (E : Env) (s : St) (hk : ¬keep S.pendingName) :
    Fs.Frame keep own s.fs (unlinkPending S E s).fs :=
  World.frame_unlink E s.toWorld hk

end Frames

/-! ## Before the rename -/

/-- The number of the clock reading that names the archive. -/
def archTick (s : St) : ℕ :=
  s.ticks + s.opens.walk.length + if s.cfg.rateMaxInWindow = 0 then 0 else 1

/-- What a rotation has changed so far: rings were evicted at a clock reading of this event. -/
structure Carries (E : Env) (s s' : St) : Prop extends Quiet E s s' where
  evicts : ∃ now, UidTable.Evicts s.cfg (winTh s.cfg now) s.uids s'.uids ∧
    (now = s.lastClock ∨ ∃ k, s.ticks ≤ k ∧ k < s'.ticks ∧ now = E.clock k)

theorem Quiet.carries (h : Quiet E s s') (hs : s.uids.Ok s.cfg) (huids : s'.uids = s.uids) :
    Carries E s s' := by
  refine ⟨h, s.lastClock, ?_, Or.inl rfl⟩
  rw [huids]
  exact .refl hs _

theorem Carries.trans_quiet {s'' : St} (h : Carries E s s') (h' : Quiet E s' s'')
    (huids : s''.uids = s'.uids) : Carries E s s'' := by
  obtain ⟨now, hev, hnow⟩ := h.evicts
  refine ⟨h.toQuiet.trans h', now, huids ▸ hev, ?_⟩
  rcases hnow with hnow | ⟨k, hk, hk', hnow⟩
  · exact Or.inl hnow
  · exact Or.inr ⟨k, hk, hk'.trans_le h'.ticks_le, hnow⟩

theorem Fills.carries {pfd : ℕ} {b : Bytes} (h : Fills E pfd b s s')
    (hev : UidTable.Evicts s.cfg (winTh s.cfg s'.lastClock) s.uids s'.uids) :
    Carries E s s' := by
  refine ⟨h.toQuiet, s'.lastClock, hev, ?_⟩
  rcases h.clock with ⟨-, hc⟩ | ⟨ht, hc⟩
  · exact Or.inl hc
  · exact Or.inr ⟨_, by omega, by omega, hc⟩

/-- From `s`, with the pending segment `pfd` opened, to `s'`, where that segment is about to be
renamed over the sink: it got the carried records of the open intents and of the evicted rings. -/
structure Prepared (S : Site) (E : Env) (s s' : St) (pfd : ℕ) : Prop extends Carries E s s' where
  lookup_pending : s'.fs.lookup S.pendingName = some pfd
  undo : s'.fs.undo = none
  stale : s'.fs.stale = none
  meta_eq : (s'.fs.node pfd).kind = (s.fs.node pfd).kind ∧
    (s'.fs.node pfd).worldWritable = (s.fs.node pfd).worldWritable
  bytes_eq : ∃ ls, CarryIntents S s.opens.heap s.opens.walk ls ∧
    (s'.fs.node pfd).bytes =
      (s.fs.node pfd).bytes ++ joinLines (ls ++ rateLines S s'.uids (carriedUids s))
  /-- All rings were evicted at one clock reading. -/
  rings : s.cfg.rateMaxInWindow ≠ 0 → ∃ k, s.ticks ≤ k ∧ k < s'.ticks ∧
    ∀ v, s'.uids.node v = (s.uids.node v).uidEvict (winTh s.cfg (E.clock k))

section Cases

variable (keep : Bytes → Prop) (own : ℕ → Prop) {pfd : ℕ}

/-- Linking the archive and renaming the new segment: a failure leaves the kept names alone. -/
theorem swapSegment_cases {ts : UInt64} (hkp : ¬keep S.pendingName) (hka : ¬keep (S.archName ts))
    (hlook : s.fs.lookup S.pendingName = some pfd) :
    ((swapSegment S E pfd ts s).1 = false ∧
      ∃ w, (swapSegment S E pfd ts s).2 = { s with toWorld := w } ∧
        Fs.Frame keep own s.fs w.fs) ∨
    ∃ w₁ w : World, Fs.Frame keep own s.fs w₁.fs ∧ w₁.fs.lookup S.pendingName = some pfd ∧
      w₁.fs.node = s.fs.node ∧ w₁.fs.undo = none ∧ w₁.fs.stale = none ∧
      w.fs = w₁.fs.move S.pendingName S.base pfd ∧
      swapSegment S E pfd ts s = adoptSegment S E pfd { s with toWorld := w } := by
  set l := World.link E S.base (S.archName ts) s.toWorld with hl
  set f := if l.1 then World.rabFsyncParentDir E l.2 else (false, l.2) with hf
  -- The two calls before the rename keep every name but that of the archive, and every inode.
  have hframe : ∀ (k : Bytes → Prop) (o : ℕ → Prop), ¬k (S.archName ts) →
      Fs.Frame k o s.fs f.2.fs := by
    intro k o hk
    have hlink : Fs.Frame k o s.fs l.2.fs := World.frame_link E s.toWorld hk
    rw [hf]
    split
    · exact hlink.trans (World.frame_rabFsyncParentDir E l.2)
    · exact hlink
  have hlook₁ : f.2.fs.lookup S.pendingName = some pfd := by
    rw [← hlook]
    exact (hframe (· = S.pendingName) (fun _ => False) (S.archName_ne_pendingName ts)).lookup _ rfl
  have hnode : f.2.fs.node = s.fs.node := funext fun i =>
    (hframe (fun _ => False) (fun _ => False) id).node i id
  unfold swapSegment
  simp only [← hl, ← hf]
  by_cases hf1 : f.1 = false
  · rw [if_pos hf1]
    refine Or.inl ⟨rfl, _, rfl, ?_⟩
    have hpending : Fs.Frame keep own f.2.fs (World.unlink E S.pendingName f.2).2.fs :=
      World.frame_unlink E f.2 hkp
    exact ((hframe _ _ hka).trans hpending).trans (World.frame_unlink E _ hka)
  · rw [if_neg hf1]
    obtain ⟨hundo, hstale⟩ := World.durable_of_sync hf1
    split
    · rename_i w heq
      have hfs : w.fs = f.2.fs := by
        unfold World.rename at heq
        split at heq
        · simp at heq
        · rw [Prod.mk.injEq] at heq
          exact heq.2 ▸ rfl
      refine Or.inl ⟨rfl, _, rfl, (hframe _ _ hka).trans ?_⟩
      rw [← hfs]
      exact World.frame_unlink E w hkp
    · rename_i w heq
      refine Or.inr ⟨f.2, w, hframe _ _ hka, hlook₁, hnode, hundo, hstale, ?_, rfl⟩
      unfold World.rename at heq
      split at heq
      · rename_i i _ hi
        rw [hlook₁, Option.some_inj] at hi
        subst hi
        rw [Prod.mk.injEq] at heq
        exact heq.2 ▸ rfl
      · simp at heq

/-- From the opened pending segment on, a rotation stops before the rename, or renames the prepared
segment. -/
theorem rotateInto_cases (hs : s.uids.Ok s.cfg) (hkp : ¬keep S.pendingName)
    (hka : ¬keep (S.archName (E.clock (archTick s)))) (hpfd : own pfd)
    (hlook : s.fs.lookup S.pendingName = some pfd) :
    ((rotateInto S E pfd s).1 = false ∧ Carries E s (rotateInto S E pfd s).2 ∧
      Fs.Frame keep own s.fs (rotateInto S E pfd s).2.fs) ∨
    ∃ (s₁ : St) (w : World), Prepared S E s s₁ pfd ∧ Fs.Frame keep own s.fs s₁.fs ∧
      w.fs = s₁.fs.move S.pendingName S.base pfd ∧
      rotateInto S E pfd s = adoptSegment S E pfd { s₁ with toWorld := w } := by
  obtain ⟨b, hfill, hev, hok⟩ := fillPending_spec S E pfd hs
  have hframe : Fs.Frame keep own s.fs (fillPending S E pfd s).2.fs := hfill.frame hpfd
  unfold rotateInto
  split
  · rename_i s₁ heq
    rw [heq] at hfill hev hframe
    exact Or.inl ⟨rfl, (hfill.carries hev).trans_quiet (.world E s₁ _) rfl,
      hframe.trans (frame_unlinkPending S E s₁ hkp)⟩
  rename_i s₁ heq
  rw [heq] at hfill hev hframe hok
  have hcarries : Carries E s s₁ := hfill.carries hev
  obtain ⟨hticks, ⟨ls, hls, hb⟩, hrings⟩ := hok rfl
  have hts : (s₁.readClock E).1 = E.clock (archTick s) := congrArg E.clock hticks
  rw [← hts] at hka
  have hread : ∀ w, Carries E s { (s₁.readClock E).2 with toWorld := w } := fun w =>
    hcarries.trans_quiet ((Quiet.readClock E s₁).trans (.world E _ w)) rfl
  simp only
  split
  · exact Or.inl ⟨rfl, hread _, hframe.trans (frame_unlinkPending S E (s₁.readClock E).2 hkp)⟩
  split
  · rename_i w₁ hlock
    have hfs : w₁.fs = s₁.fs := World.fs_of_plain hlock
    rw [← hfs] at hframe
    exact Or.inl ⟨rfl, hread _, hframe.trans (World.frame_unlink E w₁ hkp)⟩
  rename_i w₁ hlock
  have hfs : w₁.fs = s₁.fs := World.fs_of_plain hlock
  have hlook₁ : w₁.fs.lookup S.pendingName = some pfd := by
    rw [hfs, hfill.fs]
    exact hlook
  rw [← hfs] at hframe
  rcases swapSegment_cases keep own (E := E) (s := { (s₁.readClock E).2 with toWorld := w₁ }) hkp
    hka hlook₁ with ⟨hres, w₂, hw₂, hframe₂⟩ |
      ⟨w₂, w₃, hframe₂, hlook₂, hnode, hundo, hstale, hmove, heq₃⟩
  · refine Or.inl ⟨hres, ?_, ?_⟩
    · rw [hw₂]
      exact hread w₂
    · rw [hw₂]
      exact hframe.trans hframe₂
  · have hnode₂ : w₂.fs.node pfd = (s.fs.extend pfd b).node pfd := by
      rw [hnode, ← hfill.fs, ← hfs]
    refine Or.inr ⟨{ (s₁.readClock E).2 with toWorld := w₂ }, w₃,
      ⟨hread w₂, hlook₂, hundo, hstale, ?_, ⟨ls, hls, ?_⟩, fun hon => ?_⟩, hframe.trans hframe₂,
      hmove, heq₃⟩
    · simp [hnode₂, Fs.extend]
    · rw [hnode₂, Fs.node_extend_self, hb]
      rfl
    · -- With rate limits on, the clock was read before the rings were evicted.
      rcases hfill.clock with ⟨ht, -⟩ | ⟨ht, hc⟩
      · rw [ht, if_neg hon] at hticks
        omega
      · refine ⟨s₁.ticks - 1, Nat.le_sub_one_of_lt ht, ?_, fun v => ?_⟩
        · change s₁.ticks - 1 < s₁.ticks + 1
          omega
        · rw [← hc]
          exact hrings hon v

/-- The pending segment that `rotate` opens: new, unless a stale one could not be removed. -/
theorem openPending_spec {w : World} (hown : ∀ n, s.fs.next ≤ n → own n)
    (hpend : E.UnlinksWork ∨ ∀ i, s.fs.lookup S.pendingName = some i → own i)
    (h : World.rabSinkOpen E S.euid S.pendingName (unlinkPending S E s).toWorld = (some pfd, w)) :
    own pfd ∧ w.fs.lookup S.pendingName = some pfd ∧
      (E.UnlinksWork → pfd = s.fs.next ∧ (w.fs.node pfd).kind = .regular ∧
        (w.fs.node pfd).worldWritable = false ∧ (w.fs.node pfd).bytes = []) := by
  have hnext : (unlinkPending S E s).fs.next = s.fs.next := World.next_unlink E s.toWorld
  rcases World.rabSinkOpen_eq_some h with ⟨hnone, hi, hfs⟩ | ⟨hsome, hfs, -⟩
  · rw [hnext] at hi
    refine ⟨hown _ hi.ge, ?_, fun _ => ?_⟩
    · rw [hfs, hi, ← hnext]
      exact Fs.lookup_create_self S.euid hnone
    · have hnode : w.fs.node pfd =
          { bytes := [], kind := .regular, owner := S.euid, worldWritable := false } := by
        rw [hfs, hi, ← hnext]
        exact Function.update_self _ _ _
      rw [hnode]
      exact ⟨hi, rfl, rfl, rfl⟩
  · -- Where unlinks work, a stale segment that is still there means that the process has been
    -- killed, and opening it fails.
    have hstale : ¬E.UnlinksWork := by
      intro hE
      rcases hE.lookup_eq_none S.pendingName s.toWorld with hnone | hdead
      · exact absurd (hnone.symm.trans hsome) (by simp)
      · have hout : E.outcome .openExcl (unlinkPending S E s).toWorld = .fail 0 := by
          refine World.outcome_of_dead hdead ?_
          rw [unlinkPending, World.unlink]
          split
          · exact Nat.le_succ _
          · exact Nat.le_succ _
        rw [World.rabSinkOpen, hout] at h
        simp at h
    refine ⟨?_, by rw [hfs, hsome], fun hE => absurd hE hstale⟩
    exact hpend.resolve_left hstale _ (World.lookup_of_unlink hsome)

/-- A rotation stops before the rename, and then the kept names and the inodes that are not its own
are unchanged; or it renames a prepared segment over the sink. -/
theorem rotate_cases (hs : s.uids.Ok s.cfg) (hkp : ¬keep S.pendingName)
    (hka : ¬keep (S.archName (E.clock (archTick s)))) (hown : ∀ n, s.fs.next ≤ n → own n)
    (hpend : E.UnlinksWork ∨ ∀ i, s.fs.lookup S.pendingName = some i → own i) :
    ((rotate S E s).1 = false ∧ Carries E s (rotate S E s).2 ∧
      Fs.Frame keep own s.fs (rotate S E s).2.fs) ∨
    ∃ (pfd : ℕ) (w₀ : World) (s₁ : St) (w : World),
      Prepared S E { s with toWorld := w₀ } s₁ pfd ∧ Fs.Frame keep own s.fs s₁.fs ∧
      (E.UnlinksWork → pfd = s.fs.next ∧ (w₀.fs.node pfd).kind = .regular ∧
        (w₀.fs.node pfd).worldWritable = false ∧ (w₀.fs.node pfd).bytes = []) ∧
      w.fs = s₁.fs.move S.pendingName S.base pfd ∧
      rotate S E s = adoptSegment S E pfd { s₁ with toWorld := w } := by
  unfold rotate
  split
  · exact Or.inl ⟨rfl, (Quiet.refl E s).carries hs rfl, .refl _ _ _⟩
  have hframe : Fs.Frame keep own s.fs (unlinkPending S E s).fs := frame_unlinkPending S E s hkp
  have hnext : (unlinkPending S E s).fs.next = s.fs.next := World.next_unlink E s.toWorld
  have hopen : Fs.Frame keep own (unlinkPending S E s).fs
      (World.rabSinkOpen E S.euid S.pendingName (unlinkPending S E s).toWorld).2.fs :=
    World.frame_rabSinkOpen E S.euid _ hkp (hown _ hnext.ge)
  simp only
  split
  · rename_i w heq
    rw [heq] at hopen
    exact Or.inl ⟨rfl, (Quiet.world E s w).carries hs rfl, hframe.trans hopen⟩
  rename_i pfd w heq
  rw [heq] at hopen
  obtain ⟨hpfd, hlook, hfresh⟩ := openPending_spec own hown hpend heq
  have hs₀ : ({ s with toWorld := w } : St).uids.Ok ({ s with toWorld := w } : St).cfg := hs
  rcases rotateInto_cases keep own hs₀ hkp hka hpfd hlook with
    ⟨hres, hcarries, hframe'⟩ | ⟨s₁, w₁, hprep, hframe', hmove, heq'⟩
  · refine Or.inl ⟨hres, ?_, (hframe.trans hopen).trans hframe'⟩
    exact ⟨(Quiet.world E s w).trans hcarries.toQuiet, hcarries.evicts⟩
  · exact Or.inr ⟨pfd, w, s₁, w₁, hprep, (hframe.trans hopen).trans hframe', hfresh, hmove, heq'⟩

end Cases

/-! ## After the rename -/

/-- After the rename only archives go away: the sink stays the new segment, no content changes, and
the broker is poisoned exactly when the rename could not be made durable. -/
theorem adoptSegment_spec (keep : Bytes → Prop) (S : Site) (E : Env) (pfd : ℕ) (s : St)
    (hk : ∀ name, keep name → archSuffixValue S name = none) :
    (adoptSegment S E pfd s).2 =
        { s with toWorld := (adoptSegment S E pfd s).2.toWorld, fd := pfd,
                 poisoned := (adoptSegment S E pfd s).2.poisoned,
                 segBytes := (adoptSegment S E pfd s).2.segBytes } ∧
      Fs.Frame keep (fun _ => False) s.fs (adoptSegment S E pfd s).2.fs ∧
      (adoptSegment S E pfd s).1 = !(adoptSegment S E pfd s).2.poisoned ∧
      ((adoptSegment S E pfd s).2.poisoned = false →
        s.poisoned = false ∧ (adoptSegment S E pfd s).2.fs.undo = none) ∧
      ((adoptSegment S E pfd s).2.fs.undo = none ∨
        (adoptSegment S E pfd s).2.fs.undo = s.fs.undo) := by
  set r := World.rabFsyncParentDir E s.toWorld with hr
  have hsync : Fs.Frame keep (fun _ => False) s.fs r.2.fs :=
    World.frame_rabFsyncParentDir E s.toWorld
  have hundo : r.1 = true ∧ r.2.fs.undo = none ∨ r.1 = false ∧ r.2.fs = s.fs := by
    rw [hr, World.rabFsyncParentDir]
    split
    · exact Or.inl ⟨rfl, rfl⟩
    · exact Or.inr ⟨rfl, rfl⟩
  have hret : ∀ seg w, Fs.Frame keep (fun _ => False) w.fs (applyRetention S E s.cfg seg w).fs :=
    fun seg w => frame_applyRetention S E _ _ _ hk
  have hstat : (World.plain E .fstat r.2).2.fs = r.2.fs := rfl
  refine ⟨rfl, ?_, rfl, fun hp => ?_, ?_⟩
  · simp only [adoptSegment, ← hr]
    split
    · exact hsync
    · rw [← hstat] at hsync
      exact hsync.trans (hret _ _)
  · have hp' : (s.poisoned || !r.1) = false := hp
    obtain ⟨hs, hr1⟩ := Bool.or_eq_false_iff.mp hp'
    refine ⟨hs, ?_⟩
    rcases hundo with ⟨-, hnone⟩ | ⟨hfalse, -⟩
    · rw [← hstat] at hnone
      simp only [adoptSegment, ← hr, hp', Bool.false_eq_true, if_false]
      exact (hret _ _).undo hnone
    · simp [hfalse] at hr1
  · by_cases hp : (s.poisoned || !r.1) = true
    · simp only [adoptSegment, ← hr, hp, if_true]
      rcases hundo with ⟨-, hnone⟩ | ⟨-, hfs⟩
      · exact Or.inl hnone
      · exact Or.inr (congrArg Fs.undo hfs)
    · rcases hundo with ⟨-, hnone⟩ | ⟨hfalse, -⟩
      · rw [← hstat] at hnone
        left
        simp only [adoptSegment, ← hr, if_neg hp]
        exact (hret _ _).undo hnone
      · simp [hfalse] at hp

end AuditBroker
