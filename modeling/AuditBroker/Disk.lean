import AuditBroker.Steps

/-!
# What a crash leaves at the sink's path

A crash leaves the present directory, or the one before a rename that no directory sync has made
durable.  Such a rename may be one of this process, or one that was still uncertain when the process
started (`Fs.stale`); runs undo only the former, so `Fs.dirs` has those two, and `Fs.crashDirs` all
that a crash may leave.  `OnDisk` says of every file that may then stand at the sink's path
that its complete lines have a property.  Appends, rotations and a start are described by their effect
on that file; in particular a rotation either leaves it alone (`Stays`) or puts the carried records in
its place (`Turns`).
-/

namespace AuditBroker

open Foundation

/-! ## The file at the sink's path -/

namespace Fs

/-- The directories that a start after a crash may find: the present one, and the one before a rename
of the process that crashed. -/
def dirs (fs : Fs) : List (List (Bytes × ℕ)) := fs.dir :: fs.undo.toList

/-- All directories that a crash may leave: also the one before a rename of an earlier process. -/
def crashDirs (fs : Fs) : List (List (Bytes × ℕ)) := fs.dirs ++ fs.stale.toList

/-- The files under one of these directories. -/
def settled (fs : Fs) (d : List (Bytes × ℕ)) : Fs := { fs with dir := d, undo := none }

theorem crashDirs_of_stale {fs : Fs} (h : fs.stale = none) : fs.crashDirs = fs.dirs := by
  rw [crashDirs, h, Option.toList_none, List.append_nil]

end Fs

/-- The file at the sink's path. -/
def sinkFile (S : Site) (fs : Fs) : Option Inode := (fs.lookup S.base).map fs.node

/-- The complete lines of the file at the sink's path. -/
def sinkLines (f : Option Inode) : List Bytes := f.elim [] fun n => (splitLines n.bytes).1

/-- The file at the sink's path can be opened, and its complete lines have a property. -/
structure SinkOk (Q : List Bytes → Prop) (f : Option Inode) : Prop where
  regular : ∀ n, f = some n → n.kind = .regular ∧ n.worldWritable = false
  lines : Q (sinkLines f)

/-- Every file that a crash may leave at the sink's path is in order. -/
def OnDisk (S : Site) (Q : List Bytes → Prop) (fs : Fs) : Prop :=
  ∀ d ∈ fs.dirs, SinkOk Q (sinkFile S (fs.settled d))

section Disk

variable {S : Site} {Q Q' : List Bytes → Prop} {fs fs' : Fs} {i : ℕ}

theorem SinkOk.imp {f : Option Inode} (h : SinkOk Q f) (hQ : ∀ ls, Q ls → Q' ls) : SinkOk Q' f :=
  ⟨h.regular, hQ _ h.lines⟩

theorem OnDisk.imp (h : OnDisk S Q fs) (hQ : ∀ ls, Q ls → Q' ls) : OnDisk S Q' fs :=
  fun d hd => (h d hd).imp hQ

theorem onDisk_iff_of_undo (hundo : fs.undo = none) :
    OnDisk S Q fs ↔ SinkOk Q (sinkFile S fs) := by
  have hdirs : fs.dirs = [fs.dir] := by rw [Fs.dirs, hundo]; rfl
  unfold OnDisk
  rw [hdirs]
  simp only [List.mem_singleton, forall_eq]
  exact Iff.rfl

theorem OnDisk.sinkFile (h : OnDisk S Q fs) : SinkOk Q (sinkFile S fs) :=
  h fs.dir (List.mem_cons_self ..)

/-- A crash leaves one of the directories, and the files as they are. -/
theorem OnDisk.of_mem_dirs (h : OnDisk S Q fs) (hd : fs'.dir ∈ fs.dirs) (hnode : fs'.node = fs.node)
    (hundo : fs'.undo = none) : OnDisk S Q fs' := by
  rw [onDisk_iff_of_undo hundo]
  have hfile : AuditBroker.sinkFile S fs' = AuditBroker.sinkFile S (fs.settled fs'.dir) := by
    rw [AuditBroker.sinkFile, AuditBroker.sinkFile, hnode]
    rfl
  rw [hfile]
  exact h _ hd

/-- Where the name of the sink and its file are kept, the sink is. -/
theorem sinkFile_of_frame {own : ℕ → Prop} (hok : fs.Ok) (h : Fs.Frame (· = S.base) own fs fs')
    (hown : ∀ i, own i → fs.next ≤ i) : sinkFile S fs' = sinkFile S fs := by
  rw [AuditBroker.sinkFile, AuditBroker.sinkFile, h.lookup S.base rfl]
  cases hl : fs.lookup S.base with
  | none => rfl
  | some i =>
    have hlt := hok.lookup_lt hl
    rw [Option.map_some, Option.map_some, h.node i fun ho => absurd (hown i ho) (by omega)]

theorem OnDisk.of_frame {own : ℕ → Prop} (hd : OnDisk S Q fs) (hok : fs.Ok)
    (h : Fs.Frame (· = S.base) own fs fs') (hown : ∀ i, own i → fs.next ≤ i)
    (hundo : fs.undo = none) : OnDisk S Q fs' := by
  rw [onDisk_iff_of_undo (h.undo hundo), sinkFile_of_frame hok h hown]
  exact hd.sinkFile

theorem sinkFile_extend (hl : fs.lookup S.base = some i) (b : Bytes) :
    sinkFile S (fs.extend i b) =
      some { fs.node i with bytes := (fs.node i).bytes ++ b } := by
  have hl' : (fs.extend i b).lookup S.base = some i := hl
  rw [AuditBroker.sinkFile, hl', Option.map_some]
  simp [Fs.extend]

end Disk

/-! ## A process whose sink is in order -/

/-- The append descriptor of a process is the file at the sink's path, durably, and that file ends
with a complete line. -/
structure SinkReady (S : Site) (s : St) : Prop where
  lookup : s.fs.lookup S.base = some s.fd
  undo : s.fs.undo = none
  whole : (splitLines (s.fs.node s.fd).bytes).2 = []

section Append

variable {S : Site} {Q Q' : List Bytes → Prop} {E : Env} {s s' : St} {e : Entry}

theorem SinkReady.sinkFile_eq (h : SinkReady S s) :
    sinkFile S s.fs = some (s.fs.node s.fd) := by
  rw [sinkFile, h.lookup, Option.map_some]

theorem SinkReady.congr (h : SinkReady S s) (hfs : s'.fs = s.fs) (hfd : s'.fd = s.fd) :
    SinkReady S s' := by
  refine ⟨?_, ?_, ?_⟩
  · rw [hfs, hfd]
    exact h.lookup
  · rw [hfs]
    exact h.undo
  · rw [hfs, hfd]
    exact h.whole

/-- A torn line changes no complete line. -/
theorem SinkReady.torn (h : SinkReady S s) (hd : OnDisk S Q s.fs) {b : Bytes}
    (hb : newline ∉ b) : OnDisk S Q (s.fs.extend s.fd b) := by
  have hundo : (s.fs.extend s.fd b).undo = none := h.undo
  rw [onDisk_iff_of_undo hundo, sinkFile_extend h.lookup]
  have hold := hd.sinkFile
  rw [h.sinkFile_eq] at hold
  refine ⟨?_, ?_⟩
  · rintro n ⟨⟩
    exact hold.regular (s.fs.node s.fd) rfl
  · have hlines := hold.lines
    simp only [sinkLines, Option.elim_some] at hlines ⊢
    rw [splitLines_append_fragment _ hb]
    exact hlines

/-- A complete line is one more line. -/
theorem SinkReady.line (h : SinkReady S s) (hd : OnDisk S Q s.fs) {line : Bytes}
    (hline : newline ∉ line) (hQ : ∀ ls, Q ls → Q' (ls ++ [line])) :
    OnDisk S Q' (s.fs.extend s.fd (line ++ [newline])) := by
  have hundo : (s.fs.extend s.fd (line ++ [newline])).undo = none := h.undo
  have hold := hd.sinkFile
  rw [h.sinkFile_eq] at hold
  rw [onDisk_iff_of_undo hundo, sinkFile_extend h.lookup]
  refine ⟨?_, ?_⟩
  · rintro n ⟨⟩
    exact hold.regular (s.fs.node s.fd) rfl
  · have hlines := hQ _ hold.lines
    simp only [sinkLines, Option.elim_some] at hlines ⊢
    rw [splitLines_append_line h.whole hline]
    exact hlines

theorem SinkReady.ready_line (h : SinkReady S s) {line : Bytes} (hline : newline ∉ line)
    (hfs : s'.fs = s.fs.extend s.fd (line ++ [newline])) (hfd : s'.fd = s.fd) :
    SinkReady S s' := by
  refine ⟨?_, ?_, ?_⟩
  · rw [hfd, hfs]
    exact h.lookup
  · rw [hfs]
    exact h.undo
  · rw [hfd, hfs, Fs.node_extend_self, splitLines_append_line h.whole hline]

end Append

/-! ## Rotation -/

section Rotation

variable {S : Site} {Q : List Bytes → Prop} {E : Env} {s s' : St}

/-- A rotation that leaves the sink alone. -/
structure Stays (S : Site) (E : Env) (s s' : St) : Prop extends Carries E s s' where
  frame : Fs.Frame (· = S.base) (s.fs.next ≤ ·) s.fs s'.fs

/-- A rotation that puts the carried records at the sink's path. -/
structure Turns (S : Site) (E : Env) (s s' : St) : Prop extends Rotates E s s' where
  fs_ok : s'.fs.Ok
  lookup : s'.fs.lookup S.base = some s'.fd
  regular : (s'.fs.node s'.fd).kind = .regular ∧ (s'.fs.node s'.fd).worldWritable = false
  bytes_eq : ∃ ls, CarryIntents S s.opens.heap s.opens.walk ls ∧
    (s'.fs.node s'.fd).bytes = joinLines (ls ++ rateLines S s'.uids (carriedUids s))
  /-- All rings were evicted at one clock reading. -/
  rings : s.cfg.rateMaxInWindow ≠ 0 → ∃ k, s.ticks ≤ k ∧ k < s'.ticks ∧
    ∀ v, s'.uids.node v = (s.uids.node v).uidEvict (winTh s.cfg (E.clock k))
  /-- A crash may bring the old segment back only if the directory sync failed. -/
  undo : s'.fs.undo = none ∨ s'.poisoned = true ∧
    ∃ d, s'.fs.undo = some d ∧ sinkFile S (s'.fs.settled d) = sinkFile S s.fs
  /-- The directory was synced before the rename. -/
  stale : s'.fs.stale = none

/-- A rotation leaves the sink alone and reports failure, or puts the carried records there. -/
theorem rotate_stays_or_turns (hE : E.UnlinksWork) (hs : s.uids.Ok s.cfg) (hfs : s.fs.Ok) :
    ((rotate S E s).1 = false ∧ Stays S E s (rotate S E s).2) ∨
      ((rotate S E s).1 = !(rotate S E s).2.poisoned ∧ Turns S E s (rotate S E s).2) := by
  have hrot := rotate_rotates S E hs
  rcases rotate_cases (S := S) (E := E) (· = S.base) (s.fs.next ≤ ·) hs
    (fun h => S.pendingName_ne_base h) (fun h => S.archName_ne_base _ h) (fun _ h => h)
    (Or.inl hE) with ⟨hres, hcarries, hframe⟩ | ⟨pfd, w₀, s₁, w, hprep, hframe, hfresh, hmove, heq⟩
  · exact Or.inl ⟨hres, hcarries, hframe⟩
  right
  obtain ⟨hpfd, hkind, hww, hempty⟩ := hfresh hE
  obtain ⟨hrest, hframe', hres, hsynced, hundo⟩ :=
    adoptSegment_spec (· = S.base) S E pfd { s₁ with toWorld := w }
      (fun name h => h ▸ archSuffixValue_base S)
  rw [← heq] at hrest hframe' hres hsynced hundo
  have hfd : (rotate S E s).2.fd = pfd := by rw [hrest]
  have huids : (rotate S E s).2.uids = s₁.uids := by rw [hrest]
  -- No content changes after the new segment is complete.
  have hnode : (rotate S E s).2.fs.node = s₁.fs.node := by
    funext i
    rw [hframe'.node i not_false, show ({ s₁ with toWorld := w } : St).fs = w.fs from rfl, hmove,
      Fs.node_move]
  have hlt : pfd < s₁.fs.next := (hframe.ok hfs).lookup_lt hprep.lookup_pending
  have hlookup : w.fs.lookup S.base = some pfd := hmove ▸ Fs.lookup_move_dst
  -- The new segment is another file than the sink, so the rename takes place.
  have hother : s₁.fs.lookup S.base ≠ some pfd := fun hsame =>
    absurd (hfs.lookup_lt ((hframe.lookup S.base rfl).symm.trans hsame)) (by omega)
  rw [Fs.move_of_ne hother] at hmove
  refine ⟨hres, hrot, ?_, ?_, ?_, ?_, fun hon => ?_, ?_, ?_⟩
  · refine hframe'.ok ⟨?_, ?_⟩
    · intro x hx
      change x ∈ w.fs.dir at hx
      change x.2 < w.fs.next
      rw [hmove] at hx ⊢
      rcases List.mem_append.mp hx with hx | hx
      · exact (hframe.ok hfs).dir_lt x (List.mem_filter.mp hx).1
      · rw [List.mem_singleton.mp hx]
        exact hlt
    · intro d hd x hx
      change w.fs.undo = some d at hd
      change x.2 < w.fs.next
      rw [hmove] at hd ⊢
      exact (hframe.ok hfs).dir_lt x (Option.some.inj hd ▸ hx)
  · rw [hframe'.lookup S.base rfl, hfd]
    exact hlookup
  · rw [hfd, hnode, hprep.meta_eq.1, hprep.meta_eq.2]
    exact ⟨hkind, hww⟩
  · obtain ⟨ls, hls, hbytes⟩ := hprep.bytes_eq
    refine ⟨ls, hls, ?_⟩
    rw [hfd, hnode, huids, hbytes, hempty, List.nil_append]
    rfl
  · obtain ⟨k, hk, hk', hring⟩ := hprep.rings hon
    refine ⟨k, hk, ?_, fun v => ?_⟩
    · rw [hrest]
      exact hk'
    · rw [huids]
      exact hring v
  · rcases hundo with hundo | hundo
    · exact Or.inl hundo
    · have hd : (rotate S E s).2.fs.undo = some s₁.fs.dir := by
        rw [hundo, show ({ s₁ with toWorld := w } : St).fs = w.fs from rfl, hmove]
      refine Or.inr ⟨?_, s₁.fs.dir, hd, ?_⟩
      · by_contra hp
        have hnone := (hsynced (by simpa using hp)).2
        rw [hd] at hnone
        simp at hnone
      · rw [← sinkFile_of_frame hfs hframe fun _ h => h, sinkFile, sinkFile, Fs.settled, hnode]
        rfl
  · refine hframe'.stale ?_
    change w.fs.stale = none
    rw [hmove]
    exact hprep.stale

theorem Stays.onDisk (h : Stays S E s s') (hr : SinkReady S s) (hfs : s.fs.Ok)
    (hd : OnDisk S Q s.fs) : OnDisk S Q s'.fs ∧ s'.fs.Ok ∧ SinkReady S s' := by
  refine ⟨hd.of_frame hfs h.frame (fun _ hi => hi) hr.undo, h.frame.ok hfs, ?_, h.frame.undo hr.undo,
    ?_⟩
  · rw [h.fd_eq, h.frame.lookup S.base rfl, hr.lookup]
  · have hlt := hfs.lookup_lt hr.lookup
    rw [h.fd_eq, h.frame.node s.fd (by omega)]
    exact hr.whole

/-- The lines of the segment that a rotation puts in place. -/
theorem Turns.splitLines_eq (h : Turns S E s s') :
    ∃ ls, CarryIntents S s.opens.heap s.opens.walk ls ∧
      splitLines (s'.fs.node s'.fd).bytes = (ls ++ rateLines S s'.uids (carriedUids s), []) := by
  obtain ⟨ls, hls, hbytes⟩ := h.bytes_eq
  refine ⟨ls, hls, ?_⟩
  rw [hbytes, ← List.append_nil (joinLines _)]
  refine splitLines_joinLines (fun l hl => ?_) (by simp)
  rcases List.mem_append.mp hl with hl | hl
  · exact (hls.isLine l hl).newline_notMem
  · exact (isLine_rateLines S _ _ l hl).newline_notMem

theorem Turns.onDisk (h : Turns S E s s') (hd : OnDisk S Q s.fs)
    (hQ : ∀ ls, CarryIntents S s.opens.heap s.opens.walk ls →
      Q (ls ++ rateLines S s'.uids (carriedUids s))) :
    OnDisk S Q s'.fs ∧ (s'.poisoned = false → SinkReady S s') := by
  obtain ⟨ls, hls, hsplit⟩ := h.splitLines_eq
  have hnew : SinkOk Q (sinkFile S s'.fs) := by
    rw [sinkFile, h.lookup, Option.map_some]
    refine ⟨?_, ?_⟩
    · rintro n ⟨⟩
      exact h.regular
    · simp only [sinkLines, Option.elim_some, hsplit]
      exact hQ ls hls
  constructor
  · rcases h.undo with hundo | ⟨-, d, hundo, hold⟩
    · rw [onDisk_iff_of_undo hundo]
      exact hnew
    · intro d' hd'
      have hdirs : s'.fs.dirs = [s'.fs.dir, d] := by rw [Fs.dirs, hundo]; rfl
      rw [hdirs] at hd'
      simp only [List.mem_cons, List.not_mem_nil, or_false] at hd'
      rcases hd' with rfl | rfl
      · exact hnew
      · rw [hold]
        exact hd.sinkFile
  · intro hp
    refine ⟨h.lookup, ?_, by rw [hsplit]⟩
    rcases h.undo with hundo | ⟨hpois, -⟩
    · exact hundo
    · rw [hp] at hpois
      simp at hpois

end Rotation

/-! ## Starting -/

section Start

variable {S : Site} {Q : List Bytes → Prop} {E : Env} {cfg : Config} {w w' : World} {s s' : St}

/-- The sink, possibly without its torn tail. -/
def Trimmed (f f' : Option Inode) : Prop :=
  f' = f ∨ ∃ n, f = some n ∧ f' = some { n with bytes := joinLines (splitLines n.bytes).1 }

theorem Trimmed.sinkOk {f f' : Option Inode} (h : Trimmed f f') (hf : SinkOk Q f) :
    SinkOk Q f' := by
  rcases h with rfl | ⟨n, rfl, rfl⟩
  · exact hf
  · refine ⟨?_, ?_⟩
    · rintro n' ⟨⟩
      exact hf.regular n rfl
    · have hlines := hf.lines
      simp only [sinkLines, Option.elim_some] at hlines ⊢
      rw [splitLines_joinLines_splitLines]
      exact hlines

/-- The content that `slurp_segment` returns is that of the sink. -/
theorem slurpSegment_spec (S : Site) (E : Env) (w : World) :
    (slurpSegment S E w).2.fs = w.fs ∧
      ∀ buf, (slurpSegment S E w).1 = .ok buf →
        buf = (sinkFile S w.fs).elim [] Inode.bytes := by
  unfold slurpSegment sinkFile
  split
  · exact ⟨rfl, by simp⟩
  · rename_i hl
    rw [hl]
    exact ⟨rfl, by simp⟩
  · rename_i i _ hl
    rw [hl]
    simp only [Option.map_some, Option.elim_some]
    split
    · exact ⟨rfl, by simp⟩
    · exact ⟨rfl, by simp⟩
    split
    · rename_i w₁ hstat
      have hfs₁ : w₁.fs = w.tick.fs := World.fs_of_plain hstat
      exact ⟨hfs₁, by simp⟩
    rename_i w₁ hstat
    have hfs₁ : w₁.fs = w.tick.fs := World.fs_of_plain hstat
    replace hfs₁ : w₁.fs = w.fs := hfs₁
    rw [hfs₁]
    split
    · exact ⟨hfs₁, by simp⟩
    split
    · rename_i hempty
      exact ⟨hfs₁, by simp [hempty]⟩
    split
    · rename_i w₂ hread
      exact ⟨(World.fs_of_plain hread).trans hfs₁, by simp⟩
    · rename_i w₂ hread
      have hfs₂ : w₂.fs = w.fs := (World.fs_of_plain hread).trans hfs₁
      rw [hfs₂]
      split
      · exact ⟨hfs₂, by simp⟩
      · exact ⟨hfs₂, by simp⟩

theorem length_le_of_slurpSegment {buf : Bytes}
    (h : slurpSegment S E w = (.ok buf, w')) : buf.length ≤ maxSegmentBytes := by
  unfold slurpSegment at h
  split at h
  · cases h
  · cases h
    exact Nat.zero_le _
  · simp only at h
    split at h
    · cases h
    · cases h
    · split at h
      · cases h
      split at h
      · cases h
      rename_i hle
      split at h
      · cases h
        exact Nat.zero_le _
      split at h
      · cases h
      rename_i hread
      split at h
      · cases h
      · cases h
        have hfs : ∀ {c : Call} {v v' : World} {b : Bool}, World.plain E c v = (b, v') →
            v'.fs = v.fs := by
          intro c v v' b hv
          rw [← (Prod.mk.inj hv).2]
          rfl
        rw [hfs hread]
        exact not_lt.mp hle

/-- `truncate_to` changes nothing, or cuts the sink. -/
theorem truncateTo_spec (S : Site) (E : Env) (len : ℕ) (w : World) :
    ((truncateTo S E len w).1 = false ∧ (truncateTo S E len w).2.fs = w.fs) ∨
      ∃ i, w.fs.lookup S.base = some i ∧ (truncateTo S E len w).2.fs = w.fs.truncate i len := by
  unfold truncateTo
  split
  · rename_i w₁ i hopen hl
    have hfs₁ : w₁.fs = w.fs := World.fs_of_plain hopen
    split
    · exact Or.inl ⟨rfl, hfs₁⟩
    · refine Or.inr ⟨i, hl, ?_⟩
      change w₁.fs.truncate i len = _
      rw [hfs₁]
  · rename_i b w₁ l hopen
    exact Or.inl ⟨rfl, World.fs_of_plain ‹_›⟩

/-- Reconstruction keeps the complete lines of the sink; when it succeeds, it has replayed them, and
no torn tail is left. -/
theorem reconstruct_spec (S : Site) (E : Env) (cfg : Config) (w : World) :
    Fs.Frame (fun _ => True) (fun i => w.fs.lookup S.base = some i) w.fs
        (reconstruct S E cfg w).2.fs ∧
      Trimmed (sinkFile S w.fs) (sinkFile S (reconstruct S E cfg w).2.fs) ∧
      ∀ t, (reconstruct S E cfg w).1 = .ok t →
        (∃ total R, replayLines S (Replay.init cfg total) (sinkLines (sinkFile S w.fs)) = .ok R ∧
          t = R.tables) ∧
        ∀ n, sinkFile S (reconstruct S E cfg w).2.fs = some n → (splitLines n.bytes).2 = [] := by
  obtain ⟨hslurp, hbuf⟩ := slurpSegment_spec S E w
  unfold reconstruct
  split
  · rename_i e w₁ heq
    rw [heq] at hslurp
    simp only at hslurp ⊢
    rw [hslurp]
    exact ⟨.refl _ _ _, Or.inl rfl, by simp⟩
  rename_i buf w₁ heq
  rw [heq] at hslurp hbuf
  replace hbuf := hbuf buf rfl
  have hlines : (splitLines buf).1 = sinkLines (sinkFile S w.fs) := by
    rw [hbuf]
    cases sinkFile S w.fs <;> rfl
  have hsame : w₁.fs = w.fs := hslurp
  simp only
  split
  · rw [hsame]
    exact ⟨.refl _ _ _, Or.inl rfl, by simp⟩
  rename_i R hR
  rw [hlines] at hR
  split
  · rename_i htail
    rw [hsame]
    refine ⟨.refl _ _ _, Or.inl rfl, fun t ht => ⟨⟨_, R, hR, (Except.ok.inj ht).symm⟩, ?_⟩⟩
    intro n hn
    rw [hbuf, hn] at htail
    exact htail
  rename_i htail
  -- The torn tail is cut off: what remains are the complete lines.
  have htrunc := truncateTo_spec S E (buf.length - (splitLines buf).2.length) w₁
  rw [hsame] at htrunc
  have hcut : ∀ w₂ : World, (∃ i, w.fs.lookup S.base = some i ∧
      w₂.fs = w.fs.truncate i (buf.length - (splitLines buf).2.length)) →
      Fs.Frame (fun _ => True) (fun i => w.fs.lookup S.base = some i) w.fs w₂.fs ∧
        ∃ n, sinkFile S w.fs = some n ∧
          sinkFile S w₂.fs = some { n with bytes := joinLines (splitLines n.bytes).1 } := by
    rintro w₂ ⟨i, hl, hfs⟩
    have hfile : sinkFile S w.fs = some (w.fs.node i) := by rw [sinkFile, hl, Option.map_some]
    rw [hfile] at hbuf
    simp only [Option.elim_some] at hbuf
    refine ⟨?_, _, hfile, ?_⟩
    · rw [hfs]
      refine ⟨fun _ _ => rfl, fun j hj => ?_, le_rfl, id, id, fun h => ⟨h.dir_lt, h.undo_lt⟩⟩
      refine Function.update_of_ne ?_ _ _
      rintro rfl
      exact hj hl
    · have hl₂ : w₂.fs.lookup S.base = some i := by rw [hfs]; exact hl
      rw [sinkFile, hl₂, Option.map_some, hfs]
      simp only [Fs.truncate, Function.update_self]
      rw [← hbuf, take_sub_splitLines]
  split
  · rename_i w₂ heq₂
    rw [heq₂] at htrunc
    rcases htrunc with ⟨-, hfs⟩ | hcut'
    · simp only at hfs ⊢
      rw [hfs]
      exact ⟨.refl _ _ _, Or.inl rfl, by simp⟩
    · obtain ⟨hframe, n, hn, hn'⟩ := hcut w₂ hcut'
      exact ⟨hframe, Or.inr ⟨n, hn, hn'⟩, by simp⟩
  · rename_i w₂ heq₂
    rw [heq₂] at htrunc
    rcases htrunc with ⟨hres, -⟩ | hcut'
    · simp at hres
    · obtain ⟨hframe, n, hn, hn'⟩ := hcut w₂ hcut'
      refine ⟨hframe, Or.inr ⟨n, hn, hn'⟩, fun t ht =>
        ⟨⟨_, R, hR, (Except.ok.inj ht).symm⟩, fun n' hn'' => ?_⟩⟩
      rw [hn'] at hn''
      rw [← Option.some.inj hn'', splitLines_joinLines_splitLines]

/-- `rab_sink_open` changes nothing, or creates an empty file under an unused name. -/
theorem fs_rabSinkOpen (E : Env) (euid : UInt32) (name : Bytes) (hundo : w.fs.undo = none) :
    (World.rabSinkOpen E euid name w).2.fs = w.fs ∨
      w.fs.lookup name = none ∧ ∃ st,
        (World.rabSinkOpen E euid name w).2.fs = { w.fs.create name euid with stale := st } := by
  unfold World.rabSinkOpen
  split
  · exact Or.inl rfl
  · rename_i hnone
    refine Or.inr ⟨hnone, ?_⟩
    simp only
    split
    · exact ⟨_, World.fs_of_plain ‹_›⟩
    rename_i w₁ h₁
    have hfs₁ : w₁.fs = w.fs.create name euid := World.fs_of_plain h₁
    split
    · exact ⟨_, (World.fs_of_plain ‹_›).trans hfs₁⟩
    rename_i w₂ h₂
    have hfs₂ : w₂.fs = w.fs.create name euid := (World.fs_of_plain h₂).trans hfs₁
    have hsync : ∃ st, (World.rabFsyncParentDir E w₂).2.fs =
        { w.fs.create name euid with stale := st } := by
      rw [World.rabFsyncParentDir]
      split
      · refine ⟨none, ?_⟩
        change w₂.fs.synced = _
        rw [hfs₂]
        simp [Fs.create, Fs.synced, hundo]
      · exact ⟨_, hfs₂⟩
    split
    · rename_i w₃ h₃
      rw [h₃] at hsync
      exact hsync
    · rename_i w₃ h₃
      rw [h₃] at hsync
      exact hsync
  · rename_i i _ _
    left
    split
    · rename_i w₁ h₁
      have hfs₁ : w₁.fs = w.tick.fs := World.fs_of_plain h₁
      exact hfs₁
    rename_i w₁ h₁
    have hfs₁ : w₁.fs = w.tick.fs := World.fs_of_plain h₁
    split
    · exact hfs₁
    split
    · exact (World.fs_of_plain ‹_›).trans hfs₁
    · rename_i w₂ h₂
      split
      · exact (World.fs_of_plain h₂).trans hfs₁
      · exact (World.fs_of_plain h₂).trans hfs₁

/-- A started process: it has replayed the sink, and appends to it. -/
structure Started (S : Site) (cfg : Config) (s s' : St) : Prop where
  cfg_ok : cfg.check = none
  ready : SinkReady S s'
  replay : ∃ total R, replayLines S (Replay.init cfg total) (sinkLines (sinkFile S s.fs)) = .ok R ∧
    s'.toTables = R.tables
  rest : s' = { s with
    toTables := s'.toTables, toWorld := s'.toWorld, alive := true, fd := s'.fd, host := s'.host
    gwin := { start := 0, bytes := 0 }, segBytes := s'.segBytes, poisoned := false
    landed := none }

/-- A start keeps what is on disk; it is refused, or the new process has replayed the sink. -/
theorem rabBrokerOpen_spec (S : Site) (E : Env) (cfg : Config) (hundo : s.fs.undo = none)
    (hfs : s.fs.Ok) :
    ((rabBrokerOpen S E cfg s).2.fs.Ok ∧ (rabBrokerOpen S E cfg s).2.fs.undo = none ∧
      ∀ Q, OnDisk S Q s.fs → OnDisk S Q (rabBrokerOpen S E cfg s).2.fs) ∧
    ((rabBrokerOpen S E cfg s).1 ≠ none ∧
        (rabBrokerOpen S E cfg s).2 =
          { s with toWorld := (rabBrokerOpen S E cfg s).2.toWorld } ∨
      (rabBrokerOpen S E cfg s).1 = none ∧ Started S cfg s (rabBrokerOpen S E cfg s).2) := by
  unfold rabBrokerOpen
  split
  · exact ⟨⟨hfs, hundo, fun _ h => h⟩, Or.inl ⟨by simp, rfl⟩⟩
  rename_i hcfg
  set s₁ := if S.pendingTooLong then s else unlinkPending S E s with hs₁
  -- Removing a stale pending segment does not touch the sink.
  have hrest : s₁ = { s with toWorld := s₁.toWorld } := by
    rw [hs₁]
    split <;> rfl
  have hframe : Fs.Frame (· = S.base) (fun _ => False) s.fs s₁.fs := by
    rw [hs₁]
    split
    · exact .refl _ _ _
    · exact frame_unlinkPending S E s fun h => S.pendingName_ne_base h
  have hsink : sinkFile S s₁.fs = sinkFile S s.fs :=
    sinkFile_of_frame hfs hframe fun _ h => h.elim
  have hfs₁ := hframe.ok hfs
  have hundo₁ := hframe.undo hundo
  obtain ⟨hframe₂, htrim, hok⟩ := reconstruct_spec S E cfg s₁.toWorld
  rw [show sinkFile S s₁.toWorld.fs = sinkFile S s.fs from hsink] at htrim hok
  have hdisk₂ : ∀ Q, OnDisk S Q s.fs → OnDisk S Q (reconstruct S E cfg s₁.toWorld).2.fs :=
    fun Q hQ => (onDisk_iff_of_undo (hframe₂.undo hundo₁)).mpr (htrim.sinkOk hQ.sinkFile)
  have hfs₂ := hframe₂.ok hfs₁
  have hundo₂ := hframe₂.undo hundo₁
  simp only
  split
  · rename_i e w heq
    rw [heq] at hdisk₂ hfs₂ hundo₂
    exact ⟨⟨hfs₂, hundo₂, hdisk₂⟩, Or.inl ⟨by simp, by rw [hrest]⟩⟩
  rename_i t w heq
  rw [heq] at hdisk₂ hfs₂ hundo₂ hok htrim
  obtain ⟨hreplay, hwhole⟩ := hok t rfl
  have hopen := fs_rabSinkOpen E S.euid S.base hundo₂
  -- A created sink is empty, like the missing one was for reconstruction.
  have hdisk₃ : ∀ w₃ : World, w₃.fs = w.fs ∨ w.fs.lookup S.base = none ∧
      (∃ st, w₃.fs = { w.fs.create S.base S.euid with stale := st }) →
      w₃.fs.Ok ∧ w₃.fs.undo = none ∧ ∀ Q, OnDisk S Q s.fs → OnDisk S Q w₃.fs := by
    rintro w₃ (h | ⟨hnone, st, h⟩)
    · rw [h]
      exact ⟨hfs₂, hundo₂, hdisk₂⟩
    · have hframe₃ : Fs.Frame (fun _ => False) (fun _ => True) w.fs (w.fs.create S.base S.euid) :=
        Fs.frame_create S.euid not_false trivial
      have hfs₃ := hframe₃.ok hfs₂
      have hundo₃ : w₃.fs.undo = none := by
        rw [h]
        exact hundo₂
      refine ⟨?_, hundo₃, fun Q hQ => ?_⟩
      · rw [h]
        exact ⟨hfs₃.dir_lt, hfs₃.undo_lt⟩
      rw [onDisk_iff_of_undo hundo₃, h]
      change SinkOk Q (sinkFile S (w.fs.create S.base S.euid))
      rw [sinkFile, Fs.lookup_create_self S.euid hnone, Option.map_some]
      have hold := (hdisk₂ Q hQ).sinkFile
      simp only [sinkFile, hnone, Option.map_none] at hold
      refine ⟨?_, ?_⟩
      · rintro n ⟨⟩
        simp [Fs.create]
      · simpa [sinkLines, Fs.create, splitLines] using hold.lines
  split
  · rename_i w₃ heq₃
    rw [heq₃] at hopen
    exact ⟨hdisk₃ w₃ hopen, Or.inl ⟨by simp, by rw [hrest]⟩⟩
  · rename_i fd w₃ heq₃
    rw [heq₃] at hopen
    refine ⟨hdisk₃ w₃ hopen, Or.inr ⟨rfl, hcfg, ?_, hreplay, by rw [hrest]⟩⟩
    rcases World.rabSinkOpen_eq_some heq₃ with ⟨hnone, hfd, hfs₃⟩ | ⟨hl, hfs₃, -⟩
    · refine ⟨?_, (hdisk₃ w₃ hopen).2.1, ?_⟩
      · change w₃.fs.lookup S.base = some fd
        rw [hfs₃, hfd]
        exact Fs.lookup_create_self S.euid hnone
      · change (splitLines (w₃.fs.node fd).bytes).2 = []
        rw [hfs₃, hfd]
        simp [Fs.create, Fs.synced, splitLines]
    · refine ⟨?_, (hdisk₃ w₃ hopen).2.1, ?_⟩
      · change w₃.fs.lookup S.base = some fd
        rw [hfs₃, hl]
      · change (splitLines (w₃.fs.node fd).bytes).2 = []
        rw [hfs₃]
        exact hwhole (w.fs.node fd) (by simp only [sinkFile, hl, Option.map_some])

end Start

end AuditBroker
