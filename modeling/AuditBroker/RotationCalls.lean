import AuditBroker.Swapping

/-!
# The calls of a rotation

A rotation makes its system calls in an order that only depends on the state it starts from, as long
as they succeed: those that open the pending segment, four for each line that it carries over, and the
lock.  `Env.Serves` says of the environment that calls of given kinds, with consecutive numbers, all
succeed; with it the success of each part of a rotation is a condition on the state before it and on
the outcomes of its calls.  The same is said of the first byte that reaches the pending segment.
-/

namespace AuditBroker

open Foundation

variable {S : Site} {E : Env} {s : St} {pfd : ℕ}

/-! ## Sequences of calls -/

namespace Env

/-- The outcome of a call, by its number within the event. -/
def outcomeAt (E : Env) (c : Call) (n : ℕ) : Io := if E.dead n then .fail 0 else E.io c n

/-- Calls of these kinds, one after the other from number `n` on, succeed. -/
def Serves (E : Env) : List Call → ℕ → Prop
  | [], _ => True
  | c :: cs, n => E.outcomeAt c n = .ok ∧ E.Serves cs (n + 1)

/-- The first byte of an append whose calls start with number `n` lands in the file. -/
def Lands (E : Env) (n : ℕ) : Prop :=
  E.outcomeAt .flock n = .ok ∧ E.outcomeAt .write (n + 1) ≠ .fail 0

theorem outcome_eq (E : Env) (c : Call) (w : World) : E.outcome c w = E.outcomeAt c w.calls := rfl

theorem serves_append (E : Env) (cs cs' : List Call) (n : ℕ) :
    E.Serves (cs ++ cs') n ↔ E.Serves cs n ∧ E.Serves cs' (n + cs.length) := by
  induction cs generalizing n with
  | nil => simp [Serves]
  | cons c cs ih =>
    rw [List.cons_append, Serves, Serves, ih, List.length_cons, and_assoc]
    rw [show n + 1 + cs.length = n + (cs.length + 1) by omega]

end Env

/-- The calls of `rab_sink_append`. -/
def appendCalls : List Call := [.flock, .write, .writeNewline, .fdatasync]

/-- The calls that append so many lines. -/
def lineCalls : ℕ → List Call
  | 0 => []
  | n + 1 => appendCalls ++ lineCalls n

theorem length_lineCalls (n : ℕ) : (lineCalls n).length = 4 * n := by
  induction n with
  | zero => rfl
  | succ n ih =>
    rw [lineCalls, List.length_append, ih]
    change 4 + 4 * n = _
    omega

theorem lineCalls_add (m n : ℕ) : lineCalls (m + n) = lineCalls m ++ lineCalls n := by
  induction m with
  | zero => rw [Nat.zero_add, lineCalls, List.nil_append]
  | succ m ih => rw [Nat.succ_add, lineCalls, lineCalls, ih, List.append_assoc]

theorem serves_lineCalls_add (E : Env) (m n k : ℕ) :
    E.Serves (lineCalls (m + n)) k ↔
      E.Serves (lineCalls m) k ∧ E.Serves (lineCalls n) (k + 4 * m) := by
  rw [lineCalls_add, Env.serves_append, length_lineCalls]

/-- Where a line is written, its first byte lands. -/
theorem lands_of_serves {n k : ℕ} (hn : n ≠ 0) (h : E.Serves (lineCalls n) k) : E.Lands k := by
  obtain ⟨n, rfl⟩ := Nat.exists_eq_succ_of_ne_zero hn
  rw [lineCalls, Env.serves_append] at h
  obtain ⟨hlock, hwrite, -⟩ := h.1
  refine ⟨hlock, fun hfail => ?_⟩
  rw [hwrite] at hfail
  cases hfail

/-! ## Single calls -/

namespace World

variable {w : World} {c : Call} {k i : ℕ} {b : Bytes}

theorem plain_of_ok (h : E.outcomeAt c w.calls = .ok) : plain E c w = (true, w.tick) := by
  rw [plain, Env.outcome_eq, h]
  rfl

theorem plain_of_fail (h : E.outcomeAt c w.calls = .fail k) : plain E c w = (false, w.tick) := by
  rw [plain, Env.outcome_eq, h]
  rfl

theorem write_of_ok (h : E.outcomeAt c w.calls = .ok) :
    write E c i b w = (true, w.tickFs (w.fs.extend i b)) := by
  rw [write, Env.outcome_eq, h]

theorem write_of_fail (h : E.outcomeAt c w.calls = .fail k) :
    write E c i b w = (false, w.tickFs (w.fs.extend i (b.take k))) := by
  rw [write, Env.outcome_eq, h]

/-- An append is durable if and only if its four calls succeed. -/
theorem rabSinkAppend_durable_iff (E : Env) (i : ℕ) {line : Bytes} (hline : newline ∉ line)
    (w : World) :
    ((rabSinkAppend E i line w).1 = .durable ↔ E.Serves appendCalls w.calls) ∧
      ((rabSinkAppend E i line w).1 = .durable →
        (rabSinkAppend E i line w).2.calls = w.calls + 4) := by
  have hcont : ¬line.contains 10 = true := by simpa using hline
  rw [rabSinkAppend, if_neg hcont]
  simp only [appendCalls, Env.Serves]
  cases hlock : E.outcomeAt .flock w.calls with
  | fail k => simp [plain_of_fail hlock]
  | ok =>
    simp only [plain_of_ok hlock]
    cases hwrite : E.outcomeAt .write (w.calls + 1) with
    | fail k => simp [write_of_fail (w := w.tick) hwrite]
    | ok =>
      simp only [write_of_ok (w := w.tick) hwrite, Env.outcome_eq]
      cases hnl : E.outcomeAt .writeNewline (w.calls + 1 + 1) with
      | fail k => cases k <;> simp [tickFs, tick, hnl]
      | ok =>
        cases hsync : E.outcomeAt .fdatasync (w.calls + 1 + 1 + 1) with
        | fail k =>
          have hlast : ∀ fs, plain E .fdatasync ⟨fs, w.calls + 1 + 1 + 1⟩ = (false, _) :=
            fun fs => plain_of_fail hsync
          simp [tickFs, tick, hnl, write, Env.outcome_eq, hlast]
        | ok => simp [tickFs, tick, hnl, write, plain, Env.outcome_eq, hsync]

/-- What an append writes is empty unless its first byte lands. -/
theorem exists_extend_rabSinkAppend (E : Env) (i : ℕ) {line : Bytes} (hline : newline ∉ line)
    (hne : line ≠ []) (w : World) :
    ∃ b, (rabSinkAppend E i line w).2.fs = w.fs.extend i b ∧ (b = [] ↔ ¬E.Lands w.calls) := by
  have hcont : ¬line.contains 10 = true := by simpa using hline
  rw [rabSinkAppend, if_neg hcont]
  cases hlock : E.outcomeAt .flock w.calls with
  | fail k =>
    simp only [plain_of_fail hlock]
    exact ⟨[], (Fs.extend_nil _ _).symm, by simp [Env.Lands, hlock]⟩
  | ok =>
    simp only [plain_of_ok hlock]
    cases hwrite : E.outcomeAt .write (w.calls + 1) with
    | fail k =>
      simp only [write_of_fail (w := w.tick) hwrite]
      refine ⟨line.take k, rfl, ?_⟩
      simp [Env.Lands, hlock, hwrite, List.take_eq_nil_iff, hne]
    | ok =>
      simp only [write_of_ok (w := w.tick) hwrite]
      -- whatever becomes of the newline, the line is there
      have hlands : E.Lands w.calls := ⟨hlock, by simp [hwrite]⟩
      have hrest : ∀ (x : Bytes) (fs : Fs), fs = (w.fs.extend i line).extend i x →
          ∃ b, fs = w.fs.extend i b ∧ (b = [] ↔ ¬E.Lands w.calls) := by
        intro x fs hfs
        exact ⟨line ++ x, hfs.trans (Fs.extend_extend _ _), by simp [hne, hlands]⟩
      split
      · rename_i hnl heq
        exact hrest _ _ (fs_of_write_fail hnl heq)
      · rename_i hnl heq
        exact hrest _ _ (fs_of_write_fail hnl heq)
      · rename_i hnl heq
        have hfs := fs_of_write_ok hnl heq
        split
        · rename_i hsync
          exact hrest _ _ ((fs_of_plain hsync).trans hfs)
        · rename_i hsync
          exact hrest _ _ ((fs_of_plain hsync).trans hfs)

end World

/-! ## Opening the pending segment -/

/-- The calls of `rab_sink_open`, by what the name stands for. -/
def openCalls : Option ℕ → List Call
  | none => [.openExcl, .fchmod, .fstat, .fsyncDir]
  | some _ => [.openExcl, .openExisting, .fstat]

/-- `rab_sink_open` does not refuse what the name stands for. -/
def Fs.Openable (fs : Fs) : Option ℕ → Prop
  | none => True
  | some i => (fs.node i).kind = .regular ∧ (fs.node i).worldWritable = false

namespace World

variable {name : Bytes} {euid : UInt32} {w : World}

theorem rabFsyncParentDir_of_ok (h : E.outcomeAt .fsyncDir w.calls = .ok) :
    rabFsyncParentDir E w = (true, w.tickFs w.fs.synced) := by
  rw [rabFsyncParentDir, Env.outcome_eq, h]

theorem rabFsyncParentDir_of_fail {k : ℕ} (h : E.outcomeAt .fsyncDir w.calls = .fail k) :
    rabFsyncParentDir E w = (false, w.tick) := by
  rw [rabFsyncParentDir, Env.outcome_eq, h]

/-- A name that is not taken is opened if and only if the calls succeed. -/
theorem rabSinkOpen_of_none (E : Env) (euid : UInt32) (h : w.fs.lookup name = none) :
    ((rabSinkOpen E euid name w).1 = some w.fs.next ∧
        (rabSinkOpen E euid name w).2.calls = w.calls + 4 ∧ E.Serves (openCalls none) w.calls) ∨
      ((rabSinkOpen E euid name w).1 = none ∧ ¬E.Serves (openCalls none) w.calls) := by
  rw [rabSinkOpen, h, Env.outcome_eq]
  simp only [openCalls, Env.Serves]
  cases hexcl : E.outcomeAt .openExcl w.calls with
  | fail k => simp
  | ok =>
    set w₁ := w.tickFs (w.fs.create name euid)
    simp only
    cases hchmod : E.outcomeAt .fchmod (w.calls + 1) with
    | fail k => simp [plain_of_fail (w := w₁) hchmod]
    | ok =>
      simp only [plain_of_ok (w := w₁) hchmod]
      cases hstat : E.outcomeAt .fstat (w.calls + 1 + 1) with
      | fail k => simp [plain_of_fail (w := w₁.tick) hstat]
      | ok =>
        simp only [plain_of_ok (w := w₁.tick) hstat]
        cases hsync : E.outcomeAt .fsyncDir (w.calls + 1 + 1 + 1) with
        | fail k => simp [rabFsyncParentDir_of_fail (w := w₁.tick.tick) hsync]
        | ok =>
          simp only [rabFsyncParentDir_of_ok (w := w₁.tick.tick) hsync]
          exact Or.inl ⟨trivial, rfl, by simp⟩

/-- A file that is there is opened if and only if it is not refused and the calls succeed. -/
theorem rabSinkOpen_of_some (E : Env) (euid : UInt32) {i : ℕ} (h : w.fs.lookup name = some i) :
    ((rabSinkOpen E euid name w).1 = some i ∧
        (rabSinkOpen E euid name w).2.calls = w.calls + 3 ∧
        w.fs.Openable (some i) ∧ E.Serves (openCalls (some i)) w.calls) ∨
      ((rabSinkOpen E euid name w).1 = none ∧
        ¬(w.fs.Openable (some i) ∧ E.Serves (openCalls (some i)) w.calls)) := by
  rw [rabSinkOpen, h, Env.outcome_eq]
  simp only [openCalls, Env.Serves, Fs.Openable]
  cases hexcl : E.outcomeAt .openExcl w.calls with
  | fail k => simp
  | ok =>
    simp only
    cases hopen : E.outcomeAt .openExisting (w.calls + 1) with
    | fail k => simp [plain_of_fail (w := w.tick) hopen]
    | ok =>
      simp only [plain_of_ok (w := w.tick) hopen]
      by_cases hkind : (w.fs.node i).kind = .regular
      · have hkind' : ¬(w.tick.tick.fs.node i).kind ≠ .regular := not_not.mpr hkind
        rw [if_neg hkind']
        cases hstat : E.outcomeAt .fstat (w.calls + 1 + 1) with
        | fail k => simp [plain_of_fail (w := w.tick.tick) hstat]
        | ok =>
          simp only [plain_of_ok (w := w.tick.tick) hstat]
          cases hww : (w.fs.node i).worldWritable with
          | false =>
            have hww' : ¬(w.tick.tick.tick.fs.node i).worldWritable = true := by
              change ¬(w.fs.node i).worldWritable = true
              simp [hww]
            rw [if_neg hww']
            exact Or.inl ⟨rfl, rfl, by simp [hkind]⟩
          | true =>
            rw [if_pos (show (w.tick.tick.tick.fs.node i).worldWritable = true from hww)]
            simp
      · rw [if_pos (show (w.tick.tick.fs.node i).kind ≠ .regular from hkind)]
        simp [hkind]

/-- A sink is opened if and only if it is not refused and the calls succeed; a name that is not taken
is given the next inode. -/
theorem rabSinkOpen_iff (E : Env) (euid : UInt32) (name : Bytes) (w : World) (i : ℕ) :
    (rabSinkOpen E euid name w).1 = some i ↔
      i = (w.fs.lookup name).getD w.fs.next ∧ w.fs.Openable (w.fs.lookup name) ∧
        E.Serves (openCalls (w.fs.lookup name)) w.calls := by
  cases hl : w.fs.lookup name with
  | none =>
    rcases rabSinkOpen_of_none E euid hl with ⟨hopen, -, hserves⟩ | ⟨hopen, hserves⟩
    · simp [hopen, hserves, Fs.Openable, eq_comm]
    · simp [hopen, hserves]
  | some j =>
    rcases rabSinkOpen_of_some E euid hl with ⟨hopen, -, hserves⟩ | ⟨hopen, hserves⟩
    · simp [hopen, hserves, eq_comm]
    · simp [hopen, hserves]

theorem calls_rabSinkOpen {i : ℕ} {w' : World} (h : rabSinkOpen E euid name w = (some i, w')) :
    w'.calls = w.calls + (openCalls (w.fs.lookup name)).length := by
  cases hl : w.fs.lookup name with
  | none =>
    rcases rabSinkOpen_of_none E euid hl with ⟨-, hcalls, -⟩ | ⟨hopen, -⟩
    · rw [h] at hcalls
      exact hcalls
    · simp [h] at hopen
  | some j =>
    rcases rabSinkOpen_of_some E euid hl with ⟨-, hcalls, -⟩ | ⟨hopen, -⟩
    · rw [h] at hcalls
      exact hcalls
    · simp [h] at hopen

end World

/-! ## The pending segment -/

/-- A line of the pending segment is written if and only if its calls succeed. -/
theorem appendPending_iff (E : Env) (pfd : ℕ) {line : Bytes} (hline : newline ∉ line) (s : St) :
    ((appendPending E pfd line s).1 = true ↔ E.Serves (lineCalls 1) s.calls) ∧
      ((appendPending E pfd line s).1 = true →
        (appendPending E pfd line s).2.calls = s.calls + 4 * 1) := by
  obtain ⟨hiff, hcalls⟩ := World.rabSinkAppend_durable_iff E pfd hline s.toWorld
  have hres : (appendPending E pfd line s).1 = true ↔
      (World.rabSinkAppend E pfd line s.toWorld).1 = .durable := by
    rw [appendPending]
    exact beq_iff_eq
  rw [hres]
  exact ⟨hiff, hcalls⟩

/-- The pending segment grows by a line unless its first byte does not land. -/
theorem exists_fills_appendPending (E : Env) (pfd : ℕ) {J : JsonCodec} {line : Bytes}
    (hline : IsLine J line) (s : St) :
    ∃ b, Fills E pfd b s (appendPending E pfd line s).2 ∧ (b = [] ↔ ¬E.Lands s.calls) := by
  obtain ⟨b, hfs, hb⟩ :=
    World.exists_extend_rabSinkAppend E pfd hline.newline_notMem hline.ne_nil s.toWorld
  exact ⟨b, ⟨.world E s _, hfs⟩, hb⟩

/-- What is written after the first byte does not matter for whether there is one. -/
theorem append_eq_nil_iff_not {b b' : Bytes} {p : Prop} (hb : b = [] ↔ ¬p) (hp : p) :
    b ++ b' = [] ↔ ¬p := by
  have hne : b ≠ [] := fun h => hb.mp h hp
  simp [hne, hp]

/-! ## The intents -/

/-- `rab_build_checkpoint` for an open intent. -/
def Intent.checkpoint (J : JsonCodec) (it : Intent) (now : UInt64) : Option Bytes :=
  rabBuildCheckpoint J it.cid.bytes it.binding.bytes it.actor now it.operation.bytes
    it.resource.bytes it.scope.bytes

/-- The number of lines that carry an open intent. -/
def Intent.lineCount (it : Intent) : ℕ := if it.receipt.isSome then 2 else 1

theorem lineCount_ne_zero (it : Intent) : it.lineCount ≠ 0 := by
  unfold Intent.lineCount
  split <;> simp

/-- The lines that carry an open intent can be built. -/
def Intent.Buildable (S : Site) (it : Intent) (now : UInt64) : Prop :=
  (it.checkpoint S.codec now).isSome = true ∧ (receiptCarry S it).isSome = true

/-- The lines that carry the open intents at these addresses can be built; the clock is read for each of
them, from reading `k` on. -/
def AllBuildable (S : Site) (E : Env) (heap : ℕ → Intent) : List ℕ → ℕ → Prop
  | [], _ => True
  | a :: as, k => (heap a).Buildable S (E.clock k) ∧ AllBuildable S E heap as (k + 1)

/-- The checkpoints of an intent are written if and only if they can be built and their calls
succeed. -/
theorem writeIntent_iff (S : Site) (E : Env) (pfd : ℕ) (it : Intent) (s : St) :
    ((writeIntent S E pfd it s).1 = true ↔
        it.Buildable S (E.clock s.ticks) ∧ E.Serves (lineCalls it.lineCount) s.calls) ∧
      ((writeIntent S E pfd it s).1 = true →
        (writeIntent S E pfd it s).2.calls = s.calls + 4 * it.lineCount) := by
  unfold writeIntent
  simp only
  split
  · rename_i hnone
    have hnot : it.checkpoint S.codec (E.clock s.ticks) = none := hnone
    simp [Intent.Buildable, hnot]
  rename_i line hline
  have hsome : it.checkpoint S.codec (E.clock s.ticks) = some line := hline
  obtain ⟨hiff, hcalls⟩ := appendPending_iff E pfd (isLine_rabBuildCheckpoint hline).newline_notMem
    (s.readClock E).2
  have hclock : (s.readClock E).2.calls = s.calls := rfl
  rw [hclock] at hiff hcalls
  split
  · -- the first line fails
    rename_i s₁ heq
    rw [heq] at hiff
    have hnot : ¬E.Serves (lineCalls it.lineCount) s.calls := by
      intro hserves
      have hcount : it.lineCount = 1 + (it.lineCount - 1) := by
        have hpos := lineCount_ne_zero it
        omega
      rw [hcount, serves_lineCalls_add] at hserves
      exact absurd (hiff.mpr hserves.1) (by simp)
    simp [hnot]
  rename_i s₁ heq
  rw [heq] at hiff hcalls
  have hfirst := hiff.mp rfl
  replace hcalls : s₁.calls = s.calls + 4 * 1 := hcalls rfl
  split
  · rename_i hr
    have hcount : it.lineCount = 1 := by simp [Intent.lineCount, hr]
    rw [hcount]
    simp [Intent.Buildable, hsome, receiptCarry, hr, hfirst, hcalls]
  rename_i r hr
  have hcount : it.lineCount = 1 + 1 := by simp [Intent.lineCount, hr]
  rw [hcount]
  split
  · rename_i hnone
    simp [Intent.Buildable, receiptCarry, hr, hnone]
  rename_i rl hrl
  obtain ⟨hiff', hcalls'⟩ := appendPending_iff E pfd (isLine_receiptLine hrl).newline_notMem s₁
  rw [hcalls] at hiff' hcalls'
  refine ⟨?_, fun hok => ?_⟩
  · rw [hiff', serves_lineCalls_add]
    simp [Intent.Buildable, hsome, receiptCarry, hr, hrl, hfirst]
  · rw [hcalls' hok]

/-- The pending segment grows by the checkpoints of an intent unless there is none, or its first byte
does not land. -/
theorem exists_fills_writeIntent (S : Site) (E : Env) (pfd : ℕ) (it : Intent) (s : St) :
    ∃ b, Fills E pfd b s (writeIntent S E pfd it s).2 ∧
      (b = [] ↔ ¬((it.checkpoint S.codec (E.clock s.ticks)).isSome = true ∧ E.Lands s.calls)) := by
  have hclock := Fills.readClock E pfd s
  unfold writeIntent
  simp only
  split
  · rename_i hnone
    have hnot : it.checkpoint S.codec (E.clock s.ticks) = none := hnone
    exact ⟨[], hclock, by simp [hnot]⟩
  rename_i line hline
  have hsome : it.checkpoint S.codec (E.clock s.ticks) = some line := hline
  obtain ⟨b, hfill, hb⟩ := exists_fills_appendPending E pfd (isLine_rabBuildCheckpoint hline)
    (s.readClock E).2
  have hcalls : (s.readClock E).2.calls = s.calls := rfl
  rw [hcalls] at hb
  rw [hsome, Option.isSome_some, eq_self_iff_true, true_and]
  split
  · rename_i s₁ heq
    rw [heq] at hfill
    exact ⟨b, hclock.trans hfill, hb⟩
  rename_i s₁ heq
  obtain ⟨hiff, -⟩ := appendPending_iff E pfd (isLine_rabBuildCheckpoint hline).newline_notMem
    (s.readClock E).2
  rw [heq] at hfill hiff
  -- the first line is written, so its first byte landed
  have hlands : E.Lands s.calls := lands_of_serves one_ne_zero (hiff.mp rfl)
  split
  · exact ⟨b, hclock.trans hfill, hb⟩
  split
  · exact ⟨b, hclock.trans hfill, hb⟩
  rename_i rl hrl
  obtain ⟨b', hfill', -⟩ := appendPending_spec E pfd (isLine_receiptLine hrl).newline_notMem s₁
  exact ⟨_, (hclock.trans hfill).trans hfill', append_eq_nil_iff_not hb hlands⟩

/-- The number of lines that carry the open intents at these addresses. -/
def intentLines (heap : ℕ → Intent) (as : List ℕ) : ℕ := (as.map fun a => (heap a).lineCount).sum

/-- The checkpoints of all intents are written if and only if they can be built and their calls
succeed. -/
theorem writeIntents_iff (S : Site) (E : Env) (pfd : ℕ) (as : List ℕ) (s : St) :
    ((writeIntents S E pfd as s).1 = true ↔ AllBuildable S E s.opens.heap as s.ticks ∧
        E.Serves (lineCalls (intentLines s.opens.heap as)) s.calls) ∧
      ((writeIntents S E pfd as s).1 = true →
        (writeIntents S E pfd as s).2.calls = s.calls + 4 * intentLines s.opens.heap as) := by
  induction as generalizing s with
  | nil => simp [writeIntents, AllBuildable, intentLines, lineCalls, Env.Serves]
  | cons a as ih =>
    obtain ⟨hiff, hcalls⟩ := writeIntent_iff S E pfd (s.opens.heap a) s
    obtain ⟨b, hfill, -, hticks, -⟩ := writeIntent_spec S E pfd (s.opens.heap a) s
    have hcount : intentLines s.opens.heap (a :: as) =
        (s.opens.heap a).lineCount + intentLines s.opens.heap as := by
      simp [intentLines]
    rw [writeIntents, AllBuildable, hcount, serves_lineCalls_add]
    split
    · rename_i s₁ heq
      rw [heq] at hiff
      have hnot : ¬((s.opens.heap a).Buildable S (E.clock s.ticks) ∧
          E.Serves (lineCalls (s.opens.heap a).lineCount) s.calls) := fun h =>
        absurd (hiff.mpr h) (by simp)
      refine ⟨⟨fun h => absurd h (by simp), fun h => ?_⟩, fun h => absurd h (by simp)⟩
      exact absurd ⟨h.1.1, h.2.1⟩ hnot
    · rename_i s₁ heq
      rw [heq] at hiff hcalls hfill hticks
      obtain ⟨hbuild, hserves⟩ := hiff.mp rfl
      obtain ⟨hiff', hcalls'⟩ := ih s₁
      have hopens : s₁.opens = s.opens := hfill.opens_eq
      have hcalls₁ : s₁.calls = s.calls + 4 * (s.opens.heap a).lineCount := hcalls rfl
      rw [hopens, hcalls₁] at hiff' hcalls'
      rw [show s₁.ticks = s.ticks + 1 from hticks] at hiff'
      refine ⟨?_, fun hok => ?_⟩
      · rw [hiff']
        tauto
      · rw [hcalls' hok]
        omega

/-- The pending segment grows by the checkpoints of the intents unless the first of them cannot be
built, or its first byte does not land. -/
theorem exists_fills_writeIntents (S : Site) (E : Env) (pfd a : ℕ) (as : List ℕ) (s : St) :
    ∃ b, Fills E pfd b s (writeIntents S E pfd (a :: as) s).2 ∧
      (b = [] ↔ ¬(((s.opens.heap a).checkpoint S.codec (E.clock s.ticks)).isSome = true ∧
        E.Lands s.calls)) := by
  obtain ⟨b, hfill, hb⟩ := exists_fills_writeIntent S E pfd (s.opens.heap a) s
  rw [writeIntents]
  split
  · rename_i s₁ heq
    rw [heq] at hfill
    exact ⟨b, hfill, hb⟩
  · rename_i s₁ heq
    obtain ⟨hiff, -⟩ := writeIntent_iff S E pfd (s.opens.heap a) s
    rw [heq] at hfill hiff
    obtain ⟨b', hfill', -⟩ := writeIntents_spec S E pfd as s₁
    refine ⟨b ++ b', hfill.trans hfill', ?_⟩
    -- the first intent is written, so its first byte landed
    obtain ⟨hbuild, hserves⟩ := hiff.mp rfl
    have hlands : E.Lands s.calls := lands_of_serves (lineCount_ne_zero _) hserves
    exact append_eq_nil_iff_not hb ⟨hbuild.1, hlands⟩

/-! ## The rate windows -/

/-- The number of rings that are not empty after eviction. -/
def rateCount (th : UInt64) (t : UidTable) (vs : List UInt32) : ℕ :=
  vs.countP fun v => ((t.node v).uidEvict th).n ≠ 0

theorem node_evictUid (t : UidTable) (v : UInt32) (th : UInt64) :
    (t.evictUid v th).node v = (t.node v).uidEvict th := Function.update_self _ _ _

/-- Evicting a ring does not change what eviction leaves of the rings. -/
theorem rateCount_evictUid (th : UInt64) (t : UidTable) (v : UInt32) (vs : List UInt32) :
    rateCount th (t.evictUid v th) vs = rateCount th t vs := by
  unfold rateCount
  congr 1
  funext u
  by_cases hu : u = v
  · subst hu
    rw [node_evictUid, UidState.uidEvict_uidEvict, if_pos (UInt64.le_refl th)]
  · have hnode : (t.evictUid v th).node u = t.node u := Function.update_of_ne hu _ _
    rw [hnode]

/-- The rate records are written if and only if their calls succeed. -/
theorem writeRates_iff (S : Site) (E : Env) (pfd : ℕ) (th : UInt64) (vs : List UInt32) (s : St) :
    ((writeRates S E pfd th vs s).1 = true ↔
        E.Serves (lineCalls (rateCount th s.uids vs)) s.calls) ∧
      ((writeRates S E pfd th vs s).1 = true →
        (writeRates S E pfd th vs s).2.calls = s.calls + 4 * rateCount th s.uids vs ∧
          (writeRates S E pfd th vs s).2.ticks = s.ticks) := by
  induction vs generalizing s with
  | nil => simp [writeRates, rateCount, lineCalls, Env.Serves]
  | cons v vs ih =>
    set s₁ : St := { s with uids := s.uids.evictUid v th } with hs₁
    have hrest : rateCount th s₁.uids vs = rateCount th s.uids vs :=
      rateCount_evictUid th s.uids v vs
    have hself : s₁.uids.node v = (s.uids.node v).uidEvict th := node_evictUid s.uids v th
    rw [writeRates]
    simp only [← hs₁]
    by_cases hn : (s₁.uids.node v).n = 0
    · have hcount : rateCount th s.uids (v :: vs) = rateCount th s.uids vs := by
        rw [hself] at hn
        simp [rateCount, hn]
      rw [if_pos hn, hcount, ← hrest]
      exact ih s₁
    · have hcount : rateCount th s.uids (v :: vs) = 1 + rateCount th s.uids vs := by
        rw [hself] at hn
        simp [rateCount, hn, Nat.add_comm]
      rw [if_neg hn, hcount, serves_lineCalls_add]
      have hline := (isLine_rabBuildRate (J := S.codec) v (s₁.uids.entries v)).newline_notMem
      obtain ⟨hiff, hcalls⟩ := appendPending_iff E pfd hline s₁
      obtain ⟨b, -, huids, hticks, -⟩ := appendPending_spec E pfd hline s₁
      split
      · rename_i s₂ heq
        rw [heq] at hiff
        have hnot : ¬E.Serves (lineCalls 1) s.calls := fun h => absurd (hiff.mpr h) (by simp)
        simp [hnot]
      · rename_i s₂ heq
        rw [heq] at hiff hcalls huids hticks
        obtain ⟨hiff', hcalls'⟩ := ih s₂
        have hcalls₂ : s₂.calls = s.calls + 4 * 1 := hcalls rfl
        rw [show s₂.uids = s₁.uids from huids, hrest, hcalls₂] at hiff' hcalls'
        refine ⟨?_, fun hok => ⟨?_, (hcalls' hok).2.trans hticks⟩⟩
        · have hfirst : E.Serves (lineCalls 1) s.calls := hiff.mp rfl
          rw [hiff']
          tauto
        · rw [(hcalls' hok).1]
          omega

/-- The pending segment grows by the rate records unless there are none, or the first byte does not
land. -/
theorem exists_fills_writeRates (S : Site) (E : Env) (pfd : ℕ) (th : UInt64) (vs : List UInt32)
    (s : St) :
    ∃ b, Fills E pfd b s (writeRates S E pfd th vs s).2 ∧
      (b = [] ↔ ¬(rateCount th s.uids vs ≠ 0 ∧ E.Lands s.calls)) := by
  induction vs generalizing s with
  | nil => exact ⟨[], .refl E pfd s, by simp [rateCount]⟩
  | cons v vs ih =>
    set s₁ : St := { s with uids := s.uids.evictUid v th } with hs₁
    have hevict : Fills E pfd [] s s₁ := .uids E pfd s _
    have hself : s₁.uids.node v = (s.uids.node v).uidEvict th := node_evictUid s.uids v th
    rw [writeRates]
    simp only [← hs₁]
    by_cases hn : (s₁.uids.node v).n = 0
    · have hcount : rateCount th s.uids (v :: vs) = rateCount th s₁.uids vs := by
        rw [show s₁.uids = s.uids.evictUid v th from rfl, rateCount_evictUid]
        rw [hself] at hn
        simp [rateCount, hn]
      rw [if_pos hn, hcount]
      obtain ⟨b, hfill, hb⟩ := ih s₁
      exact ⟨b, hevict.trans hfill, hb⟩
    · have hcount : rateCount th s.uids (v :: vs) ≠ 0 := by
        rw [hself] at hn
        simp [rateCount, hn]
      rw [if_neg hn]
      have hline := isLine_rabBuildRate (J := S.codec) v (s₁.uids.entries v)
      obtain ⟨b, hfill, hb⟩ := exists_fills_appendPending E pfd hline s₁
      replace hb : b = [] ↔ ¬(rateCount th s.uids (v :: vs) ≠ 0 ∧ E.Lands s.calls) := by
        simpa [hcount] using hb
      split
      · rename_i s₂ heq
        rw [heq] at hfill
        exact ⟨b, hevict.trans hfill, hb⟩
      · rename_i s₂ heq
        obtain ⟨hiff, -⟩ := appendPending_iff E pfd hline.newline_notMem s₁
        rw [heq] at hfill hiff
        have hlands : E.Lands s.calls := lands_of_serves one_ne_zero (hiff.mp rfl)
        obtain ⟨b', hfill', -⟩ := ih s₂
        exact ⟨b ++ b', (hevict.trans hfill).trans hfill',
          append_eq_nil_iff_not hb ⟨hcount, hlands⟩⟩

theorem writeRateCarries_eq (S : Site) (E : Env) (pfd : ℕ) (hon : s.cfg.rateMaxInWindow ≠ 0) :
    writeRateCarries S E pfd s =
      writeRates S E pfd (winTh s.cfg (E.clock s.ticks)) (carriedUids s) (s.readClock E).2 := by
  rw [writeRateCarries, if_neg hon, carriedUids, if_neg hon]
  rfl

theorem writeRateCarries_iff (S : Site) (E : Env) (pfd : ℕ) (s : St) :
    ((writeRateCarries S E pfd s).1 = true ↔
        E.Serves (lineCalls (rateCount (winTh s.cfg (E.clock s.ticks)) s.uids (carriedUids s)))
          s.calls) ∧
      ((writeRateCarries S E pfd s).1 = true →
        (writeRateCarries S E pfd s).2.calls = s.calls +
            4 * rateCount (winTh s.cfg (E.clock s.ticks)) s.uids (carriedUids s) ∧
          (writeRateCarries S E pfd s).2.ticks =
            s.ticks + if s.cfg.rateMaxInWindow = 0 then 0 else 1) := by
  by_cases hoff : s.cfg.rateMaxInWindow = 0
  · simp [writeRateCarries, carriedUids, hoff, rateCount, lineCalls, Env.Serves]
  · rw [writeRateCarries_eq S E pfd hoff, if_neg hoff]
    exact writeRates_iff S E pfd _ (carriedUids s) (s.readClock E).2

theorem exists_fills_writeRateCarries (S : Site) (E : Env) (pfd : ℕ) (s : St) :
    ∃ b, Fills E pfd b s (writeRateCarries S E pfd s).2 ∧
      (b = [] ↔ ¬(rateCount (winTh s.cfg (E.clock s.ticks)) s.uids (carriedUids s) ≠ 0 ∧
        E.Lands s.calls)) := by
  by_cases hoff : s.cfg.rateMaxInWindow = 0
  · simp only [writeRateCarries, carriedUids, if_pos hoff]
    exact ⟨[], .refl E pfd s, by simp [rateCount]⟩
  · rw [writeRateCarries_eq S E pfd hoff]
    obtain ⟨b, hb, hnil⟩ := exists_fills_writeRates S E pfd (winTh s.cfg (E.clock s.ticks))
      (carriedUids s) (s.readClock E).2
    exact ⟨b, (Fills.readClock E pfd s).trans hb, hnil⟩

/-! ## The whole segment -/

/-- The threshold at which a rotation evicts the rings. -/
def carryTh (E : Env) (s : St) : UInt64 :=
  winTh s.cfg (E.clock (s.ticks + s.opens.walk.length))

/-- The number of lines that a rotation carries over. -/
def carriedLines (E : Env) (s : St) : ℕ :=
  intentLines s.opens.heap s.opens.walk + rateCount (carryTh E s) s.uids (carriedUids s)

/-- There is a first line to carry over: that of the first intent can be built, or there is no intent
and a ring is not empty. -/
def Begins (S : Site) (E : Env) (s : St) : Prop :=
  match s.opens.walk with
  | a :: _ => ((s.opens.heap a).checkpoint S.codec (E.clock s.ticks)).isSome = true
  | [] => rateCount (carryTh E s) s.uids (carriedUids s) ≠ 0

/-- The new segment is written if and only if its lines can be built and their calls succeed. -/
theorem fillPending_iff (S : Site) (E : Env) (pfd : ℕ) (s : St) :
    ((fillPending S E pfd s).1 = true ↔ AllBuildable S E s.opens.heap s.opens.walk s.ticks ∧
        E.Serves (lineCalls (carriedLines E s)) s.calls) ∧
      ((fillPending S E pfd s).1 = true →
        (fillPending S E pfd s).2.calls = s.calls + 4 * carriedLines E s ∧
          (fillPending S E pfd s).2.ticks = archTick s) := by
  obtain ⟨hiff, hcalls⟩ := writeIntents_iff S E pfd s.opens.walk s
  obtain ⟨b, hfill, huids, hok⟩ := writeIntents_spec S E pfd s.opens.walk s
  rw [fillPending, carriedLines, serves_lineCalls_add]
  split
  · rename_i s₁ heq
    rw [heq] at hiff
    refine ⟨⟨fun h => absurd h (by simp), fun h => ?_⟩, fun h => absurd h (by simp)⟩
    exact absurd (hiff.mpr ⟨h.1, h.2.1⟩) (by simp)
  · rename_i s₁ heq
    rw [heq] at hiff hcalls hfill huids hok
    have hcalls₁ : s₁.calls = s.calls + 4 * intentLines s.opens.heap s.opens.walk := hcalls rfl
    have hticks₁ : s₁.ticks = s.ticks + s.opens.walk.length := (hok rfl).1
    have hcarried : carriedUids s₁ = carriedUids s := by
      rw [carriedUids, carriedUids, hfill.cfg_eq, show s₁.uids = s.uids from huids]
    obtain ⟨hiff', hcalls'⟩ := writeRateCarries_iff S E pfd s₁
    rw [hcarried, hfill.cfg_eq, show s₁.uids = s.uids from huids, hticks₁, hcalls₁] at hiff' hcalls'
    refine ⟨?_, fun hres => ⟨?_, (hcalls' hres).2⟩⟩
    · have hfirst := hiff.mp rfl
      rw [hiff', carryTh]
      tauto
    · rw [(hcalls' hres).1, carryTh]
      omega

/-- The pending segment grows unless there is no first line to carry over, or its first byte does not
land. -/
theorem exists_fills_fillPending (S : Site) (E : Env) (pfd : ℕ) (s : St) :
    ∃ b, Fills E pfd b s (fillPending S E pfd s).2 ∧
      (b = [] ↔ ¬(Begins S E s ∧ E.Lands s.calls)) := by
  unfold Begins
  cases hwalk : s.opens.walk with
  | nil =>
    have hfill : fillPending S E pfd s = writeRateCarries S E pfd s := by
      rw [fillPending, hwalk]
      rfl
    rw [hfill, carryTh, hwalk, List.length_nil, Nat.add_zero]
    exact exists_fills_writeRateCarries S E pfd s
  | cons a as =>
    obtain ⟨b, hfill, hb⟩ := exists_fills_writeIntents S E pfd a as s
    obtain ⟨hiff, -⟩ := writeIntents_iff S E pfd (a :: as) s
    rw [fillPending, hwalk]
    split
    · rename_i s₁ heq
      rw [heq] at hfill
      exact ⟨b, hfill, hb⟩
    · rename_i s₁ heq
      rw [heq] at hfill hiff
      obtain ⟨⟨hbuild, -⟩, hserves⟩ := hiff.mp rfl
      have hcount : intentLines s.opens.heap (a :: as) ≠ 0 := by
        have hpos := lineCount_ne_zero (s.opens.heap a)
        simp [intentLines, hpos]
      have hlands : E.Lands s.calls := lands_of_serves hcount hserves
      obtain ⟨b', hfill', -⟩ := exists_fills_writeRateCarries S E pfd s₁
      exact ⟨b ++ b', hfill.trans hfill', append_eq_nil_iff_not hb ⟨hbuild.1, hlands⟩⟩

end AuditBroker
