import AuditBroker.Census
import AuditBroker.Foundation.Cover
import AuditBroker.Shelf

/-!
# The archives and the sink hold the history

The history of a broker is spread over files: a rotation turns the sink into the newest archive and
starts a new sink with the records of what is still open.  `Chronicle` says that nothing is missing
in between: the archives in the order of their numbers, and then the sink, hold the history from
some position to its end without a gap, and hold nothing else but carried records.  This is kept by
appends, by rotations and restarts with failing calls and kills, and by retention, which only moves
the position on.
-/

namespace AuditBroker

open Foundation

variable {S : Site} {E : Env} {C : Ctx} {s s' : St} {J : List Entry} {n n' : Inode} {fs fs' : Fs}
  {a b i first : ℕ} {start stop : ℕ → ℕ}

/-! ## Carried records -/

/-- A record that a rotation carries into the new segment.  It stands for no event of its own. -/
def IsCarried (S : Site) (line : Bytes) : Prop :=
  lineStr S line "record_type" = some (lit "broker_checkpoint") ∨
    lineStr S line "record_type" = some (lit "broker_rate") ∨
    lineStr S line "record_type" = some (lit "broker_receipt") ∧
      member? (lineMembers S line) "checkpoint" = some (.bool true)

/-- No line of the history is a carried record. -/
theorem not_isCarried_of_guard {e : Entry} (hJ : Guarded (EntryGuard S) J)
    (hg : EntryGuard S J e) : ¬IsCarried S e.line := by
  have haudit : ∀ phase, e.phase? = some phase → ¬IsCarried S e.line := by
    rintro phase hphase (h | h | ⟨h, -⟩)
    all_goals
      rw [(lineStr_audit hg phase hphase).1] at h
      exact absurd h (by decide)
  rcases hact : e.act with ⟨cid, oi⟩ | cid | cid | ⟨cid, r⟩
  · exact haudit phaseIntent (by rw [Entry.phase?, hact])
  · exact haudit phaseOutcome (by rw [Entry.phase?, hact])
  · exact haudit e.req.phase (by rw [Entry.phase?, hact])
  · obtain ⟨htype, hckpt, -⟩ := lineStr_receipt hJ hg hact
    rintro (h | h | ⟨-, h⟩)
    · rw [htype] at h
      exact absurd h (by decide)
    · rw [htype] at h
      exact absurd h (by decide)
    · rw [hckpt] at h
      exact absurd h (by simp)

theorem lineMembers_of_loadb {line : Bytes} {ms : Members}
    (h : S.codec.loadb line = some (.obj ms)) : lineMembers S line = ms := by
  rw [lineMembers, h]
  rfl

theorem isCarried_checkpoint {cid : Buf cidMax} {binding : Buf bindingMax} {actor : Actor}
    {now : UInt64} {op res : Buf metaMax} {sc : Buf scopeMax} {line : Bytes}
    (h : rabBuildCheckpoint S.codec cid.bytes binding.bytes actor now op.bytes res.bytes sc.bytes =
      some line) : IsCarried S line := by
  obtain ⟨brk, hbrk, h⟩ := Option.bind_eq_some_iff.mp h
  obtain ⟨c, hc, rfl⟩ := Option.map_eq_some_iff.mp h
  obtain ⟨hwf, hdepth⟩ := wf_brokerObject hbrk
  refine Or.inl ?_
  rw [lineStr, lineMembers_of_loadb (S.codec.loadb_dumps _ (wf_obj_of_names
    ["schema_version", "record_type", "correlation_id", "broker"] (.refl _) (by decide) ?_) ?_)]
  · rfl
  · simp only [List.map_cons, List.map_nil, List.forall_mem_cons]
    exact ⟨rfl, by decide, wf_of_jsonString hc, hwf, by simp⟩
  · obtain ⟨rfl, -⟩ := jsonString_buf_eq_some hc
    rw [Json.depth]
    simp only [depthMembers, hdepth, maxLoadDepth]
    simp [Json.depth]

theorem isCarried_rate (S : Site) (uid : UInt32) (entries : List (UInt64 × UInt64)) :
    IsCarried S (rabBuildRate S.codec uid entries) := by
  have hu := uid.toNat_lt
  have hitems : ∀ f : UInt64 × UInt64 → UInt64,
      (Json.arr (entries.map fun e => u64Item (f e))).wf = true := by
    intro f
    rw [Json.wf, wfItems_iff]
    intro v hv
    obtain ⟨e, -, rfl⟩ := List.mem_map.mp hv
    exact wf_u64Item _
  refine Or.inr (Or.inl ?_)
  rw [lineStr, rabBuildRate, lineMembers_of_loadb (S.codec.loadb_dumps _ (wf_obj_of_names
    ["schema_version", "record_type", "uid", "times_us", "bytes"] (.refl _) (by decide) ?_) ?_)]
  · rfl
  · simp only [List.map_cons, List.map_nil, List.forall_mem_cons]
    refine ⟨rfl, by decide, ?_, hitems Prod.fst, hitems Prod.snd, by simp⟩
    simp only [Json.wf, decide_eq_true_eq]
    omega
  · simp [Json.depth, depthMembers, depthItems_u64Item, maxLoadDepth]

theorem isCarried_receipt {cid : Buf cidMax} {r : Receipt} {line : Bytes}
    (hschema : r.planSchema = planSchemaV1) (h : receiptLine S.codec cid true r = some line) :
    IsCarried S line := by
  obtain ⟨-, hload⟩ := loadb_rabBuildReceipt (by rw [hschema]; decide) h
  refine Or.inr (Or.inr ?_)
  rw [lineStr, lineMembers_of_loadb hload]
  exact ⟨rfl, rfl⟩

/-- What a rotation carries forward from the open intents are carried records. -/
theorem CarryIntents.isCarried {o : OpenSet} (ho : Carriable o) {as : List ℕ} {ls : List Bytes}
    (h : CarryIntents S o.heap as ls) (has : ∀ a ∈ as, o.Open a) :
    ∀ line ∈ ls, IsCarried S line := by
  induction h with
  | nil => simp
  | @cons a as now line rls ls hline hrls _ ih =>
    intro l hl
    simp only [List.mem_cons, List.mem_append] at hl
    rcases hl with rfl | hl | hl
    · exact isCarried_checkpoint hline
    · unfold receiptCarry at hrls
      split at hrls
      · rw [← Option.some.inj hrls] at hl
        simp at hl
      · rename_i r hr
        obtain ⟨rl, hrl, rfl⟩ := Option.map_eq_some_iff.mp hrls
        rw [List.mem_singleton.mp hl]
        exact isCarried_receipt (ho.receipt a r (has a (by simp)) hr).1 hrl
    · exact ih (fun b hb => has b (by simp [hb])) l hl

theorem isCarried_rateLines (S : Site) (t : UidTable) (vs : List UInt32) :
    ∀ line ∈ rateLines S t vs, IsCarried S line := by
  intro line hline
  obtain ⟨v, -, rfl⟩ := List.mem_map.mp hline
  exact isCarried_rate S v _

/-! ## What a file holds -/

/-- A regular file of the broker that holds, after carried records, the lines of the history from
position `a` to position `b`. -/
structure Holds (S : Site) (J : List Entry) (n : Inode) (a b : ℕ) : Prop where
  file : n.kind = .regular ∧ n.owner = S.euid
  le : a ≤ b
  le_length : b ≤ J.length
  lines : ∃ c, (∀ l ∈ c, IsCarried S l) ∧
    (splitLines n.bytes).1 = c ++ ((J.take b).drop a).map Entry.line

/-- The same file, up to a torn tail. -/
structure SameFile (n n' : Inode) : Prop where
  kind : n'.kind = n.kind
  owner : n'.owner = n.owner
  lines : (splitLines n'.bytes).1 = (splitLines n.bytes).1

theorem SameFile.of_eq (h : n' = n) : SameFile n n' := by
  rw [h]
  exact ⟨rfl, rfl, rfl⟩

theorem Holds.same (h : Holds S J n a b) (hn : SameFile n n') : Holds S J n' a b where
  file := ⟨hn.kind.trans h.file.1, hn.owner.trans h.file.2⟩
  le := h.le
  le_length := h.le_length
  lines := hn.lines ▸ h.lines

/-- The history goes on elsewhere. -/
theorem Holds.append (h : Holds S J n a b) (J' : List Entry) : Holds S (J ++ J') n a b where
  file := h.file
  le := h.le
  le_length := h.le_length.trans (by simp)
  lines := by
    rw [List.take_append_of_le_length h.le_length]
    exact h.lines

/-- The history goes on in this file. -/
theorem Holds.line (h : Holds S J n a J.length) {e : Entry} (hkind : n'.kind = n.kind)
    (howner : n'.owner = n.owner)
    (hlines : (splitLines n'.bytes).1 = (splitLines n.bytes).1 ++ [e.line]) :
    Holds S (J ++ [e]) n' a (J ++ [e]).length where
  file := ⟨hkind.trans h.file.1, howner.trans h.file.2⟩
  le := h.le.trans (by simp)
  le_length := le_rfl
  lines := by
    obtain ⟨c, hc, hl⟩ := h.lines
    refine ⟨c, hc, ?_⟩
    rw [hlines, hl, List.take_length, List.take_length, List.drop_append_of_le_length h.le,
      List.map_append, List.append_assoc]
    rfl

/-- A new segment with carried records only. -/
theorem holds_carried (J : List Entry) {c : List Bytes} (hc : ∀ l ∈ c, IsCarried S l)
    (hfile : n.kind = .regular ∧ n.owner = S.euid) (hlines : (splitLines n.bytes).1 = c) :
    Holds S J n J.length J.length where
  file := hfile
  le := le_rfl
  le_length := le_rfl
  lines := ⟨c, hc, by
    rw [hlines, List.take_length, List.drop_length, List.map_nil, List.append_nil]⟩

/-! ## Chronicles -/

/-- The inodes of the archives in the order of the directory, then that of the sink. -/
def volumes (S : Site) (fs : Fs) (i : ℕ) : List ℕ := (shelf S fs.dir).map Prod.snd ++ [i]

theorem volumes_of_shelf (h : shelf S fs'.dir = shelf S fs.dir) (i : ℕ) :
    volumes S fs' i = volumes S fs i := by
  rw [volumes, volumes, h]

theorem mem_volumes_self (S : Site) (fs : Fs) (i : ℕ) : i ∈ volumes S fs i := by
  simp [volumes]

theorem getLast?_volumes (S : Site) (fs : Fs) (i : ℕ) : (volumes S fs i).getLast? = some i := by
  simp [volumes]

/-- The archives, one after another, and then the sink hold the history from position `first` on. -/
structure Chronicle (S : Site) (J : List Entry) (fs : Fs) (first i : ℕ) (start stop : ℕ → ℕ) :
    Prop where
  lookup : fs.lookup S.base = some i
  unbroken : Unbroken start stop J.length first (volumes S fs i)
  holds : ∀ j ∈ volumes S fs i, Holds S J (fs.node j) (start j) (stop j)

namespace Chronicle

theorem sink (h : Chronicle S J fs first i start stop) :
    start i ≤ J.length ∧ stop i = J.length :=
  h.unbroken.of_mem_getLast? (getLast?_volumes S fs i)

/-- Nothing but torn tails has changed. -/
theorem same (h : Chronicle S J fs first i start stop) (hshelf : shelf S fs'.dir = shelf S fs.dir)
    (hlook : fs'.lookup S.base = fs.lookup S.base)
    (hnode : ∀ j ∈ volumes S fs i, SameFile (fs.node j) (fs'.node j)) :
    Chronicle S J fs' first i start stop where
  lookup := hlook.trans h.lookup
  unbroken := volumes_of_shelf hshelf i ▸ h.unbroken
  holds j hj := by
    rw [volumes_of_shelf hshelf i] at hj
    exact (h.holds j hj).same (hnode j hj)

/-- A line is appended to the sink.  If the sink is also an archive, that archive grows with it. -/
theorem line (h : Chronicle S J fs first i start stop) {e : Entry} (hline : newline ∉ e.line)
    (hwhole : (splitLines (fs.node i).bytes).2 = []) :
    Chronicle S (J ++ [e]) (fs.extend i (e.line ++ [newline])) first i start
      (Function.update stop i (J ++ [e]).length) where
  lookup := h.lookup
  unbroken := by
    refine h.unbroken.grow (fun _ _ => rfl) (fun j _ => ?_) fun j hj => ?_
    · by_cases hji : j = i
      · rw [hji, Function.update_self, h.sink.2]
        simp
      · rw [Function.update_of_ne hji]
    · have hji : j = i := Option.some.inj
        ((Option.mem_def.mp hj).symm.trans (getLast?_volumes S fs i))
      rw [hji, Function.update_self]
  holds j hj := by
    have hold := h.holds j hj
    by_cases hji : j = i
    · subst hji
      rw [h.sink.2] at hold
      rw [Function.update_self]
      refine hold.line (by simp [Fs.extend]) (by simp [Fs.extend]) ?_
      rw [Fs.node_extend_self, splitLines_append_line hwhole hline]
    · rw [Function.update_of_ne hji]
      have hnode : (fs.extend i (e.line ++ [newline])).node j = fs.node j :=
        Function.update_of_ne hji _ _
      rw [hnode]
      exact hold.append [e]

/-- The sink gets the name of an archive, and stays the sink. -/
theorem linked (h : Chronicle S J fs first i start stop) {name : Bytes}
    (hshelf : shelf S fs'.dir = shelf S fs.dir ++ [(name, i)])
    (hlook : fs'.lookup S.base = fs.lookup S.base)
    (hnode : ∀ j ∈ volumes S fs i, SameFile (fs.node j) (fs'.node j)) :
    Chronicle S J fs' first i start stop := by
  have hvol : volumes S fs' i = volumes S fs i ++ [i] := by
    rw [volumes, hshelf, List.map_append]
    rfl
  refine ⟨hlook.trans h.lookup, ?_, fun j hj => ?_⟩
  · rw [hvol]
    refine h.unbroken.concat (fun j hj => ?_) h.sink.1 h.sink.2
    rw [Option.some.inj ((Option.mem_def.mp hj).symm.trans (getLast?_volumes S fs i))]
  · have hj : j ∈ volumes S fs i := by
      rw [hvol, List.mem_append, List.mem_singleton] at hj
      rcases hj with hj | rfl
      · exact hj
      · exact mem_volumes_self S fs j
    exact (h.holds j hj).same (hnode j hj)

/-- The sink becomes the newest archive, a new segment takes its place, and some of the oldest
archives go. -/
theorem swapped (h : Chronicle S J fs first i start stop) (fs' : Fs) {name : Bytes} {k fd : ℕ}
    (hshelf : shelf S fs'.dir = (shelf S fs.dir ++ [(name, i)]).drop k)
    (hlook : fs'.lookup S.base = some fd) (hfd : fd ∉ volumes S fs i)
    (hnode : ∀ j ∈ volumes S fs i, SameFile (fs.node j) (fs'.node j))
    (hnew : Holds S J (fs'.node fd) J.length J.length) :
    ∃ first', Chronicle S J fs' first' fd (Function.update start fd J.length)
      (Function.update stop fd J.length) ∧ (k = 0 → first' = first) := by
  have hvol : volumes S fs' fd = (volumes S fs i).drop k ++ [fd] := by
    rw [volumes, hshelf, List.map_drop, List.map_append]
    rfl
  have hold : ∀ j ∈ volumes S fs i, ∀ f : ℕ → ℕ, Function.update f fd J.length j = f j := by
    intro j hj f
    have hne : j ≠ fd := fun hjf => hfd (hjf ▸ hj)
    exact Function.update_of_ne hne _ _
  -- the old volumes are what they were; the new one holds nothing yet
  have hunb : Unbroken (Function.update start fd J.length) (Function.update stop fd J.length)
      J.length first (volumes S fs i) := by
    refine h.unbroken.grow (fun j hj => hold j hj start) (fun j hj => (hold j hj stop).ge)
      fun j hj => ?_
    have hji : j = i := Option.some.inj
      ((Option.mem_def.mp hj).symm.trans (getLast?_volumes S fs i))
    rw [hji, hold i (mem_volumes_self S fs i), h.sink.2]
  have hholds : ∀ j ∈ volumes S fs' fd, Holds S J (fs'.node j)
      (Function.update start fd J.length j) (Function.update stop fd J.length j) := by
    intro j hj
    rw [hvol, List.mem_append, List.mem_singleton] at hj
    rcases hj with hj | rfl
    · have hj := List.mem_of_mem_drop hj
      rw [hold j hj, hold j hj]
      exact (h.holds j hj).same (hnode j hj)
    · rw [Function.update_self, Function.update_self]
      exact hnew
  by_cases hnil : (volumes S fs i).drop k = []
  · refine ⟨Function.update start fd J.length fd, ⟨hlook, ?_, hholds⟩, fun hk => ?_⟩
    · rw [hvol, hnil]
      exact .last (by rw [Function.update_self]) (Function.update_self _ _ _)
    · rw [hk, List.drop_zero] at hnil
      exact absurd hnil h.unbroken.ne_nil
  · obtain ⟨first', hfirst, hzero⟩ : ∃ first', Unbroken (Function.update start fd J.length)
        (Function.update stop fd J.length) J.length first' ((volumes S fs i).drop k) ∧
        (k = 0 → first' = first) := by
      rcases Nat.eq_zero_or_pos k with rfl | hpos
      · exact ⟨first, hunb, fun _ => rfl⟩
      · rw [← List.take_append_drop k (volumes S fs i)] at hunb
        obtain ⟨first', hfirst⟩ := hunb.of_append hnil
        exact ⟨first', hfirst, fun hk => absurd hk hpos.ne'⟩
    refine ⟨first', ⟨hlook, ?_, hholds⟩, hzero⟩
    rw [hvol]
    refine hfirst.concat (fun j hj => ?_) (by rw [Function.update_self])
      (Function.update_self _ _ _)
    rw [Function.update_self]
    exact (hfirst.of_mem_getLast? hj).1

end Chronicle

/-! ## The directories that a crash may leave -/

/-- The files under a directory: there is neither a file nor a history yet, or the archives, which
are in the order of their numbers, and the sink hold the history; from its beginning if nothing is
ever removed. -/
structure Chronicled (S : Site) (J : List Entry) (fs : Fs) (keepsAll : Prop) : Prop where
  ordered : Ordered S fs.dir
  named : ∀ x ∈ shelf S fs.dir, x.1 = S.archName (S.suffix x)
  history : (J = [] ∧ shelf S fs.dir = [] ∧ fs.lookup S.base = none) ∨
    ∃ first i start stop, Chronicle S J fs first i start stop ∧ (keepsAll → first = 0)

/-- Every directory that a crash may leave is in order, and no archive is from the future. -/
structure Archived (S : Site) (keepsAll : Prop) (s : St) : Prop where
  chronicled : ∀ d ∈ s.fs.dirs, Chronicled S s.journal (s.fs.settled d) keepsAll
  dated : ∀ d ∈ s.fs.dirs, ∀ x ∈ shelf S d, S.suffix x ≤ s.lastClock

variable {K : Prop}

theorem Fs.settled_self (h : fs.undo = none) : fs.settled fs.dir = fs := by
  rw [Fs.settled, ← h]

theorem archived_iff_of_undo (h : s.fs.undo = none) :
    Archived S K s ↔ Chronicled S s.journal s.fs K ∧
      ∀ x ∈ shelf S s.fs.dir, S.suffix x ≤ s.lastClock := by
  have hdirs : s.fs.dirs = [s.fs.dir] := by rw [Fs.dirs, h]; rfl
  constructor
  · rintro ⟨hchron, hdated⟩
    have hdir : s.fs.dir ∈ s.fs.dirs := by simp [hdirs]
    exact ⟨Fs.settled_self h ▸ hchron s.fs.dir hdir, hdated s.fs.dir hdir⟩
  · rintro ⟨hchron, hdated⟩
    refine ⟨fun d hd => ?_, fun d hd => ?_⟩
    · rw [hdirs, List.mem_singleton] at hd
      rw [hd, Fs.settled_self h]
      exact hchron
    · rw [hdirs, List.mem_singleton] at hd
      exact hd ▸ hdated

theorem Archived.congr (h : Archived S K s) (hj : s'.journal = s.journal) (hfs : s'.fs = s.fs)
    (hclock : s.lastClock ≤ s'.lastClock) : Archived S K s' := by
  refine ⟨fun d hd => ?_, fun d hd x hx => ?_⟩
  · rw [hj, hfs]
    exact h.chronicled d (hfs ▸ hd)
  · exact UInt64.le_trans (h.dated d (hfs ▸ hd) x hx) hclock

/-- A process that can append has a chronicle that ends in its sink. -/
theorem Archived.chronicle (h : Archived S K s) (hr : SinkReady S s) :
    Ordered S s.fs.dir ∧ (∀ x ∈ shelf S s.fs.dir, x.1 = S.archName (S.suffix x)) ∧
      ∃ first start stop, Chronicle S s.journal s.fs first s.fd start stop ∧ (K → first = 0) := by
  obtain ⟨⟨hord, hnamed, hhist⟩, -⟩ := (archived_iff_of_undo hr.undo).mp h
  refine ⟨hord, hnamed, ?_⟩
  rcases hhist with ⟨-, -, hnone⟩ | ⟨first, i, start, stop, hchron, hfirst⟩
  · exact absurd (hnone.symm.trans hr.lookup) (by simp)
  · obtain rfl : i = s.fd := Option.some.inj (hchron.lookup.symm.trans hr.lookup)
    exact ⟨first, start, stop, hchron, hfirst⟩

/-! ## Appends -/

theorem sameFile_extend {b : Bytes} (hb : newline ∉ b) (j : ℕ) :
    SameFile (fs.node j) ((fs.extend i b).node j) := by
  by_cases hji : j = i
  · subst hji
    refine ⟨by simp [Fs.extend], by simp [Fs.extend], ?_⟩
    rw [Fs.node_extend_self, splitLines_append_fragment _ hb]
  · exact .of_eq (Function.update_of_ne hji _ _)

/-- An append, complete or torn. -/
theorem Archived.appendLine (h : Archived S K s) (hr : SinkReady S s) (E : Env) {e : Entry}
    (hline : newline ∉ e.line) : Archived S K (s.appendLine E e).2 := by
  obtain ⟨hord, hnamed, first, start, stop, hchron, hfirst⟩ := h.chronicle hr
  have hdated := ((archived_iff_of_undo hr.undo).mp h).2
  obtain ⟨b, hfs, hb⟩ := World.rabSinkAppend_spec E s.fd s.toWorld hline
  have hwhole : ∀ s' : St, s'.journal = s.journal ++ [e] → s'.lastClock = s.lastClock →
      s'.fs = s.fs.extend s.fd (e.line ++ [newline]) → Archived S K s' := by
    intro s' hj hclock hfs'
    rw [archived_iff_of_undo (by rw [hfs']; exact hr.undo), hj, hclock, hfs']
    exact ⟨⟨hord, hnamed, Or.inr ⟨first, s.fd, start, _, hchron.line hline hr.whole, hfirst⟩⟩,
      hdated⟩
  unfold St.appendLine
  split
  · rename_i w heq
    rw [heq] at hfs hb
    obtain rfl : b = e.line ++ [newline] := by simpa using hb
    exact hwhole _ rfl rfl hfs
  · rename_i w heq
    rw [heq] at hfs hb
    obtain rfl : b = e.line ++ [newline] := by simpa using hb
    exact hwhole _ rfl rfl hfs
  · rename_i w heq
    rw [heq] at hfs hb
    have hfrag : newline ∉ b := by simpa using hb
    have hfs' : w.fs = s.fs.extend s.fd b := hfs
    rw [archived_iff_of_undo (by change w.fs.undo = none; rw [hfs']; exact hr.undo)]
    change Chronicled S s.journal w.fs K ∧ ∀ x ∈ shelf S w.fs.dir, S.suffix x ≤ s.lastClock
    rw [hfs']
    exact ⟨⟨hord, hnamed, Or.inr ⟨first, s.fd, start, stop,
      hchron.same rfl rfl fun j _ => sameFile_extend hfrag j, hfirst⟩⟩, hdated⟩

/-! ## Rotations -/

/-- Retention can see every archive, if it removes any. -/
def Prunes (S : Site) (E : Env) (cfg : Config) : Prop := cfg.KeepsAll ∨ Lists S E

/-- The archives of a directory are in the order of their numbers and have the names of these, and
none is later than `t`. -/
structure Shelved (S : Site) (d : List (Bytes × ℕ)) (t : UInt64) : Prop where
  ordered : Ordered S d
  named : ∀ x ∈ shelf S d, x.1 = S.archName (S.suffix x)
  dated : ∀ x ∈ shelf S d, S.suffix x ≤ t

theorem Shelved.of_drop {d d' : List (Bytes × ℕ)} {t t' : UInt64} {k : ℕ} (h : Shelved S d t)
    (hshelf : shelf S d' = (shelf S d).drop k) (ht : t ≤ t') : Shelved S d' t' := by
  have hmem : ∀ x ∈ shelf S d', x ∈ shelf S d := fun x hx =>
    List.mem_of_mem_drop (hshelf ▸ hx)
  refine ⟨?_, fun x hx => h.named x (hmem x hx), fun x hx => ?_⟩
  · rw [Ordered, hshelf]
    exact h.ordered.sublist (List.drop_sublist _ _)
  · exact UInt64.le_trans (h.dated x (hmem x hx)) ht

/-- A new archive that is later than all others. -/
theorem Shelved.concat {d : List (Bytes × ℕ)} {t ts : UInt64} (h : Shelved S d t) (hts : t < ts)
    (i : ℕ) : Shelved S (d ++ [(S.archName ts, i)]) ts := by
  have hcases : ∀ x ∈ shelf S (d ++ [(S.archName ts, i)]),
      x ∈ shelf S d ∨ x = (S.archName ts, i) := by
    intro x hx
    rw [shelf_concat_archName, List.mem_append, List.mem_singleton] at hx
    exact hx
  refine ⟨?_, fun x hx => ?_, fun x hx => ?_⟩
  · rw [Ordered, shelf_concat_archName, List.pairwise_append]
    refine ⟨h.ordered, List.pairwise_singleton _ _, fun x hx y hy => ?_⟩
    rw [List.mem_singleton.mp hy, suffix_archName]
    exact UInt64.lt_of_le_of_lt (h.dated x hx) hts
  · rcases hcases x hx with hx | rfl
    · exact h.named x hx
    · rw [suffix_archName]
  · rcases hcases x hx with hx | rfl
    · exact UInt64.le_trans (h.dated x hx) (UInt64.le_of_lt hts)
    · rw [suffix_archName]
      exact UInt64.le_refl _

theorem Archived.shelved (h : Archived S K s) (hr : SinkReady S s) :
    Shelved S s.fs.dir s.lastClock := by
  obtain ⟨⟨hord, hnamed, -⟩, hdated⟩ := (archived_iff_of_undo hr.undo).mp h
  exact ⟨hord, hnamed, hdated⟩

/-- The archives and the sink are files that have been created. -/
theorem volumes_lt (hfs : fs.Ok) (hlook : fs.lookup S.base = some i) :
    ∀ j ∈ volumes S fs i, j < fs.next := by
  intro j hj
  rcases List.mem_append.mp hj with hj | hj
  · obtain ⟨x, hx, rfl⟩ := List.mem_map.mp hj
    exact hfs.dir_lt x (List.mem_of_mem_filter hx)
  · rw [List.mem_singleton.mp hj]
    exact hfs.lookup_lt hlook

/-- Retention takes the archives for archives, and so it does with the sink once it is one. -/
theorem Chronicle.isArchive (h : Chronicle S J fs first i start stop)
    (hnamed : ∀ x ∈ shelf S fs.dir, x.1 = S.archName (S.suffix x)) (ts : UInt64) :
    ∀ x ∈ shelf S fs.dir ++ [(S.archName ts, i)],
      fs.IsArchive S x ∧ x.1 = S.archName (S.suffix x) := by
  intro x hx
  rcases List.mem_append.mp hx with hx | hx
  · have hfile := (h.holds x.2 (List.mem_append_left _ (List.mem_map_of_mem hx))).file
    exact ⟨⟨by simp [archSuffixValue_of_mem_shelf hx], hfile⟩, hnamed x hx⟩
  · rw [List.mem_singleton.mp hx, suffix_archName]
    exact ⟨⟨by simp [archSuffixValue_archName], (h.holds i (mem_volumes_self S fs i)).file⟩, rfl⟩

/-- Once the archive is named, its name is the last clock reading. -/
theorem lastClock_rotate (hs : s.uids.Ok s.cfg) (hticks : (rotate S E s).2.ticks = archTick s + 1) :
    (rotate S E s).2.lastClock = E.clock (archTick s) := by
  rcases (rotate_rotates S E hs).clock with ⟨hsame, -⟩ | ⟨-, hclock⟩
  · rw [archTick] at hticks
    omega
  · rw [hclock, hticks, Nat.add_sub_cancel]

/-- The sink is as it was, and may have the name of an archive as well. -/
theorem Archived.of_stopped (h : Archived S K s) (hr : SinkReady S s) {name : Bytes}
    (hundo : s'.fs.undo = none) (hj : s'.journal = s.journal)
    (hlook : s'.fs.lookup S.base = s.fs.lookup S.base)
    (hnode : ∀ j ∈ volumes S s.fs s.fd, SameFile (s.fs.node j) (s'.fs.node j))
    (hshelf : shelf S s'.fs.dir = shelf S s.fs.dir ∨
      shelf S s'.fs.dir = shelf S s.fs.dir ++ [(name, s.fd)])
    (hshelved : Shelved S s'.fs.dir s'.lastClock) : Archived S K s' := by
  obtain ⟨-, -, first, start, stop, hchron, hfirst⟩ := h.chronicle hr
  have hchron' : Chronicle S s.journal s'.fs first s.fd start stop := by
    rcases hshelf with hsame | hmore
    · exact hchron.same hsame hlook hnode
    · exact hchron.linked hmore hlook hnode
  rw [archived_iff_of_undo hundo, hj]
  exact ⟨⟨hshelved.ordered, hshelved.named,
    Or.inr ⟨first, s.fd, start, stop, hchron', hfirst⟩⟩, hshelved.dated⟩

/-- A new sink of carried records stands where the old one was.  In the directory that a crash may
bring back, the old one is the sink and an archive. -/
theorem Archived.of_swapped (h : Archived S K s) (hr : SinkReady S s) (hfs : s.fs.Ok)
    (hswap : Swapped S E s s.fd s') (hj : s'.journal = s.journal)
    (hlook : s'.fs.lookup S.base = some s'.fd)
    (hnew : Holds S s.journal (s'.fs.node s'.fd) s.journal.length s.journal.length)
    (hK : K → s.cfg.KeepsAll)
    (hshelved : ∀ {d k}, shelf S d = (shelf S s.fs.dir ++ [archEntry S E s s.fd]).drop k →
      Shelved S d s'.lastClock) : Archived S K s' := by
  obtain ⟨-, -, first, start, stop, hchron, hfirst⟩ := h.chronicle hr
  obtain ⟨k, hk, hkeep⟩ := hswap.shelf_eq
  have hlt := volumes_lt hfs hr.lookup
  have hnode : ∀ j ∈ volumes S s.fs s.fd, SameFile (s.fs.node j) (s'.fs.node j) := fun j hj =>
    .of_eq (hswap.node j (hlt j hj))
  have hfd : s'.fd ∉ volumes S s.fs s.fd := fun hmem => (hlt _ hmem).ne hswap.fd
  refine ⟨fun d hd => ?_, fun d hd => ?_⟩
  · rw [hj]
    rcases List.mem_cons.mp hd with rfl | hd
    · have hdir := hshelved hk
      obtain ⟨first', hchron', hzero⟩ :=
        hchron.swapped (s'.fs.settled _) hk hlook hfd hnode hnew
      refine ⟨hdir.ordered, hdir.named, Or.inr ⟨first', _, _, _, hchron', fun hall => ?_⟩⟩
      rw [hzero (hkeep (hK hall)), hfirst hall]
    · obtain ⟨hmore, hold⟩ := hswap.undo d (Option.mem_toList.mp hd)
      have hdir := hshelved (k := 0) hmore
      exact ⟨hdir.ordered, hdir.named, Or.inr ⟨first, s.fd, start, stop,
        hchron.linked hmore (hold.trans hr.lookup.symm) hnode, hfirst⟩⟩
  · rcases List.mem_cons.mp hd with rfl | hd
    · exact (hshelved hk).dated
    · exact (hshelved (k := 0) (hswap.undo d (Option.mem_toList.mp hd)).1).dated

/-- A rotation, whatever fails in it. -/
theorem Archived.rotate (h : Archived S K s) (hr : SinkReady S s) (hp : s.poisoned = false)
    (hfs : s.fs.Ok) (hok : s.toTables.Ok) (hcarry : Carriable s.opens) (hE : E.UnlinksWork)
    (hprunes : Prunes S E s.cfg)
    (hK : K → s.cfg.KeepsAll) (hclock : s.lastClock ≤ (rotate S E s).2.lastClock)
    (hnew : archTick s < (rotate S E s).2.ticks → s.lastClock < E.clock (archTick s)) :
    Archived S K (rotate S E s).2 := by
  have hs : s.uids.Ok s.cfg := hok.uids
  have hshelved := h.shelved hr
  obtain ⟨-, -, first, start, stop, hchron, -⟩ := h.chronicle hr
  have hdrop : ∀ {d k}, (AuditBroker.rotate S E s).2.ticks = archTick s + 1 →
      shelf S d = (shelf S s.fs.dir ++ [archEntry S E s s.fd]).drop k →
      Shelved S d (AuditBroker.rotate S E s).2.lastClock := by
    intro d k hticks hshelf
    rw [lastClock_rotate hs hticks]
    rw [archEntry, ← shelf_concat_archName] at hshelf
    exact (hshelved.concat (hnew (by omega)) s.fd).of_drop hshelf (UInt64.le_refl _)
  have hcases := rotate_shelf (S := S) hE hs hfs hr.undo hr.lookup
    (fun hlt => (hshelved.concat (hnew hlt) s.fd).ordered)
    (hprunes.imp_right fun hl => ⟨hl, hchron.isArchive hshelved.named _⟩)
  rcases rotate_stays_or_turns (S := S) hE hs hfs with ⟨-, hstays⟩ | ⟨hres, hturns⟩
  · rcases hcases with hstop | hswap
    · have hj : (AuditBroker.rotate S E s).2.journal = s.journal := by rw [hstays.rest]
      apply h.of_stopped hr (hstays.frame.undo hr.undo) hj (hstays.frame.lookup S.base rfl)
      · intro j hj
        have hlt := volumes_lt hfs hr.lookup j hj
        exact .of_eq (hstays.frame.node j (by omega))
      · exact hstop.shelf_eq.imp_right And.right
      · rcases hstop.shelf_eq with hsame | ⟨hticks, hmore⟩
        · exact hshelved.of_drop (k := 0) hsame hclock
        · exact hdrop (k := 0) hticks hmore
    · -- The descriptor of a rotation that renamed the new segment is a new one.
      have hfd := hstays.fd_eq.symm.trans hswap.fd
      exact absurd hfd (hfs.lookup_lt hr.lookup).ne
  · rcases hcases with hstop | hswap
    · -- A rotation that stopped reports failure without poisoning the broker.
      rw [hstop.failed, hstop.poisoned, hp] at hres
      simp at hres
    · obtain ⟨ls, hls, hsplit⟩ := hturns.splitLines_eq
      have hcarried : ∀ l ∈ ls ++ rateLines S (AuditBroker.rotate S E s).2.uids (carriedUids s),
          IsCarried S l := by
        intro l hl
        rcases List.mem_append.mp hl with hl | hl
        · exact hls.isCarried hcarry (fun a ha => hok.opens.mem_walk.mp ha) l hl
        · exact isCarried_rateLines S _ _ l hl
      apply h.of_swapped hr hfs hswap hturns.journal_eq hturns.lookup _ hK
      · exact hdrop hswap.ticks
      · exact holds_carried _ hcarried hswap.file (by rw [hsplit])

/-! ## Requests -/

/-- The clock readings that are still to come before number `T` are later than the last one, and
each is later than those before it. -/
structure Ahead (E : Env) (T : ℕ) (s : St) : Prop where
  last : ∀ k, s.ticks ≤ k → k < T → s.lastClock < E.clock k
  strict : ∀ j k, s.ticks ≤ j → j < k → k < T → E.clock j < E.clock k

/-- Readings were taken, or not. -/
def Ticked (E : Env) (s s' : St) : Prop :=
  s'.ticks = s.ticks ∧ s'.lastClock = s.lastClock ∨
    s.ticks < s'.ticks ∧ s'.lastClock = E.clock (s'.ticks - 1)

theorem Ticked.ticks_le (h : Ticked E s s') : s.ticks ≤ s'.ticks := by
  rcases h with ⟨heq, -⟩ | ⟨hlt, -⟩
  · exact heq.ge
  · exact hlt.le

theorem Ahead.ticked {T : ℕ} (h : Ahead E T s) (ht : Ticked E s s') (hT : s'.ticks ≤ T) :
    Ahead E T s' ∧ s.lastClock ≤ s'.lastClock := by
  rcases ht with ⟨hticks, hlast⟩ | ⟨hticks, hlast⟩
  · refine ⟨⟨fun k hk hkT => ?_, fun j k hj => h.strict j k (hticks ▸ hj)⟩, ?_⟩
    · rw [hlast]
      exact h.last k (hticks ▸ hk) hkT
    · rw [hlast]
      exact UInt64.le_refl _
  · refine ⟨⟨fun k hk hkT => ?_, fun j k hj => h.strict j k (hticks.le.trans hj)⟩, ?_⟩
    · rw [hlast]
      exact h.strict _ k (by omega) (by omega) hkT
    · rw [hlast]
      exact UInt64.le_of_lt (h.last _ (by omega) (by omega))

/-- Every small step of a handler takes readings, or not. -/
theorem Step.ticked (h : Step S C s s') (hok : s.uids.Ok s.cfg) : Ticked C.env s s' := by
  rcases h with _ | _ | ⟨-, hallowed, -, -⟩
  · exact (Quiet.readClock C.env s).clock
  · exact Or.inl ⟨rfl, rfl⟩
  · rename_i line act install
    obtain ⟨t, hev, hq | ⟨-, ⟨s₂, happ, heq⟩ | ⟨s₂, happ, heq⟩⟩⟩ :=
      commit_cases (S := S) (C := C) hok line act install
    · rw [hq]
      exact Or.inl ⟨rfl, rfl⟩
    all_goals
      have hsame := appendLine_same C.env (C.entry s line act) { s with uids := t }
      rw [happ] at hsame
      rw [heq]
    · exact Or.inl ⟨hsame.ticks, hsame.lastClock⟩
    · have huids : s₂.uids.Ok s₂.cfg := by
        rw [hsame.tables]
        exact hev.ok
      obtain ⟨hicfg, hiok⟩ := hallowed.install_uids huids
      rw [← hicfg] at hiok
      have hcharge : (s₂.charge install (C.entry s line act)).uids.Ok
          (s₂.charge install (C.entry s line act)).cfg := (hiok.rateNote_spec _ _ _).1
      have hclock := (maybeRotate_rotates S C.env hcharge).clock
      have hticks : (s₂.charge install (C.entry s line act)).ticks = s.ticks := hsame.ticks
      have hlast : (s₂.charge install (C.entry s line act)).lastClock = s.lastClock :=
        hsame.lastClock
      rw [hticks, hlast] at hclock
      exact hclock

/-- A small step of a handler. -/
theorem Step.archived (h : Step S C s s') (hC : C.Parsed S) (hf : FreshCid C s)
    (hE : C.env.UnlinksWork) (hl : Live S s) (ha : Archived S K s) (hprunes : Prunes S C.env s.cfg)
    (hK : K → s.cfg.KeepsAll) {T : ℕ} (hahead : Ahead C.env T s) (hT : s'.ticks ≤ T) :
    Archived S K s' := by
  have hticked := h.ticked hl.tables.uids
  obtain ⟨-, hle⟩ := hahead.ticked hticked hT
  cases h with
  | clock => exact ha.congr rfl rfl hle
  | check => exact ha.congr rfl rfl hle
  | @commit line act install healthy allowed clocked rate =>
    obtain ⟨t, hev, hq | ⟨hbytes, happ⟩⟩ :=
      commit_cases (S := S) (C := C) hl.tables.uids line act install
    · rw [hq]
      exact ha.congr rfl rfl (UInt64.le_refl _)
    have hcheck : Move S C s { s with uids := t } := .check hev
    have hl₁ := hcheck.live hC hf hl
    have ha₁ : Archived S K { s with uids := t } := ha.congr rfl rfl (UInt64.le_refl _)
    have ok : Appendable S C { s with uids := t } line act install :=
      ⟨healthy, allowed.of_evicts hev, rate.evicts hev, hbytes⟩
    have happend := ha₁.appendLine (hl₁.ready healthy).1 C.env
      (e := C.entry s line act) allowed.isLine.newline_notMem
    rcases happ with ⟨s₂, happ, heq⟩ | ⟨s₂, happ, heq⟩
    · rw [heq]
      rw [happ] at happend
      exact happend
    · rw [heq] at hT hle ⊢
      rw [happ] at happend
      have hl₂ := ((appendLine_move ok).2 s₂ happ).live hC (hcheck.freshCid hf) hl₁
      have ha₂ : Archived S K (s₂.charge install (C.entry s line act)) :=
        happend.congr rfl rfl (UInt64.le_refl _)
      have hp₂ : (s₂.charge install (C.entry s line act)).poisoned = false :=
        (appendLine_durable happ).2.1.trans healthy
      have hsame := appendLine_same C.env (C.entry s line act) { s with uids := t }
      rw [happ] at hsame
      have hcfg : (s₂.charge install (C.entry s line act)).cfg = s.cfg := by
        have huids : s₂.uids.Ok s₂.cfg := by
          rw [hsame.tables]
          exact hev.ok
        change (install s₂.toTables).cfg = s.cfg
        rw [(allowed.install_uids huids).1, hsame.tables]
      have hticks₂ : (s₂.charge install (C.entry s line act)).ticks = s.ticks := hsame.ticks
      have hlast₂ : (s₂.charge install (C.entry s line act)).lastClock = s.lastClock :=
        hsame.lastClock
      unfold maybeRotate at hT hle ⊢
      split
      · exact ha₂
      · rename_i hon
        rw [if_neg hon] at hT hle
        have hcarry := carriable_of_ledger hl₂.guarded hl₂.tables.opens (hl₂.view_eq hp₂)
        refine ha₂.rotate (hl₂.ready hp₂).1 hp₂ hl₂.fs_ok hl₂.tables hcarry hE (hcfg ▸ hprunes)
          (fun hk => hcfg ▸ hK hk) (hlast₂ ▸ hle) fun hlt => ?_
        rw [hlast₂]
        refine hahead.last _ ?_ (hlt.trans_le hT)
        rw [archTick, hticks₂]
        omega

/-- The steps of a handler. -/
theorem Steps.archived (h : Steps S C s s') (hC : C.Parsed S) (hf : FreshCid C s)
    (hE : C.env.UnlinksWork) (hl : Live S s) (ha : Archived S K s) (hprunes : Prunes S C.env s.cfg)
    (hK : K → s.cfg.KeepsAll) {T : ℕ} (hahead : Ahead C.env T s) (hT : s'.ticks ≤ T) :
    Archived S K s' ∧ Ahead C.env T s' := by
  induction h with
  | refl => exact ⟨ha, hahead⟩
  | @tail s₁ s₂ hsteps hstep ih =>
    obtain ⟨hmoves, -⟩ := Steps.moves hE hl.kept hsteps
    have hl₁ := hmoves.live hC hf hl
    have hcfg := (Steps.grows hsteps hl.tables.uids).1.cfg
    have hticked := hstep.ticked hl₁.tables.uids
    obtain ⟨ha₁, hahead₁⟩ := ih (hticked.ticks_le.trans hT)
    rw [← hcfg] at hprunes hK
    exact ⟨hstep.archived hC (hmoves.freshCid hf) hE hl₁ ha₁ hprunes hK hahead₁ hT,
      (hahead₁.ticked hticked hT).1⟩

/-! ## Starts -/

/-- What a start does to the files: torn tails may go, and a missing sink may be created. -/
structure Reopened (S : Site) (fs fs' : Fs) : Prop where
  shelf_eq : shelf S fs'.dir = shelf S fs.dir
  same : ∀ j < fs.next, SameFile (fs.node j) (fs'.node j)
  sink : fs'.lookup S.base = fs.lookup S.base ∨ fs.lookup S.base = none ∧
    ∃ i, fs'.lookup S.base = some i ∧ (fs'.node i).kind = .regular ∧
      (fs'.node i).owner = S.euid ∧ (fs'.node i).bytes = []

theorem SameFile.trans {n'' : Inode} (h : SameFile n n') (h' : SameFile n' n'') :
    SameFile n n'' :=
  ⟨h'.kind.trans h.kind, h'.owner.trans h.owner, h'.lines.trans h.lines⟩

theorem dir_reconstruct (S : Site) (E : Env) (cfg : Config) (w : World) :
    (reconstruct S E cfg w).2.fs.dir = w.fs.dir := by
  obtain ⟨hslurp, -⟩ := slurpSegment_spec S E w
  have htrunc : ∀ len w₁, w₁.fs = w.fs → (truncateTo S E len w₁).2.fs.dir = w.fs.dir := by
    intro len w₁ hw
    rcases truncateTo_spec S E len w₁ with ⟨-, hfs⟩ | ⟨i, -, hfs⟩
    · rw [hfs, hw]
    · rw [hfs, ← hw]
      rfl
  unfold reconstruct
  rcases heq : slurpSegment S E w with ⟨_ | buf, w₁⟩
  · rw [heq] at hslurp
    exact congrArg Fs.dir hslurp
  rw [heq] at hslurp
  simp only
  split
  · exact congrArg Fs.dir hslurp
  split
  · exact congrArg Fs.dir hslurp
  have hlen := htrunc (buf.length - (splitLines buf).2.length) w₁ hslurp
  split
  · rename_i w₂ heq₂
    rw [heq₂] at hlen
    exact hlen
  · rename_i w₂ heq₂
    rw [heq₂] at hlen
    exact hlen

theorem sameFile_reconstruct (S : Site) (E : Env) (cfg : Config) (w : World) (j : ℕ) :
    SameFile (w.fs.node j) ((reconstruct S E cfg w).2.fs.node j) := by
  obtain ⟨hframe, htrim, -⟩ := reconstruct_spec S E cfg w
  by_cases hj : w.fs.lookup S.base = some j
  · have hj' := (hframe.lookup S.base trivial).trans hj
    rw [sinkFile, sinkFile, hj, hj', Option.map_some, Option.map_some] at htrim
    rcases htrim with heq | ⟨m, hm, heq⟩
    · exact .of_eq (Option.some.inj heq)
    · rw [Option.some.inj heq, ← Option.some.inj hm]
      exact ⟨rfl, rfl, by simp only [splitLines_joinLines_splitLines]⟩
  · exact .of_eq (hframe.node j hj)

theorem reopened_rabBrokerOpen (S : Site) (E : Env) (cfg : Config) (hundo : s.fs.undo = none) :
    Reopened S s.fs (rabBrokerOpen S E cfg s).2.fs := by
  have hrefl : Reopened S s.fs s.fs := ⟨rfl, fun _ _ => .of_eq rfl, Or.inl rfl⟩
  unfold rabBrokerOpen
  split
  · exact hrefl
  set s₁ := if S.pendingTooLong then s else unlinkPending S E s with hs₁
  -- A stale pending segment may go.
  have hframe₁ : Fs.Frame (· = S.base) (fun _ => False) s.fs s₁.fs := by
    rw [hs₁]
    split
    · exact .refl _ _ _
    · exact frame_unlinkPending S E s fun h => S.pendingName_ne_base h
  have hshelf₁ : shelf S s₁.fs.dir = shelf S s.fs.dir := by
    rw [hs₁]
    split
    · rfl
    · exact shelf_unlink E s.toWorld (ne_of_mem_shelf (archSuffixValue_pendingName S))
  -- The torn tail may go.
  have hdir₂ := dir_reconstruct S E cfg s₁.toWorld
  have hsame₂ := sameFile_reconstruct S E cfg s₁.toWorld
  have hframe₂ := (reconstruct_spec S E cfg s₁.toWorld).1
  have hre : Reopened S s.fs (reconstruct S E cfg s₁.toWorld).2.fs := by
    refine ⟨?_, fun j _ => ?_, Or.inl ?_⟩
    · rw [hdir₂]
      exact hshelf₁
    · exact (SameFile.of_eq (hframe₁.node j id)).trans (hsame₂ j)
    · exact (hframe₂.lookup S.base trivial).trans (hframe₁.lookup S.base rfl)
  have hundo₂ := hframe₂.undo (hframe₁.undo hundo)
  have hnext₂ : s.fs.next ≤ (reconstruct S E cfg s₁.toWorld).2.fs.next :=
    hframe₁.next_le.trans hframe₂.next_le
  simp only
  rcases heq : reconstruct S E cfg s₁.toWorld with ⟨_ | t, w⟩
  · rw [heq] at hre
    exact hre
  rw [heq] at hre hundo₂ hnext₂
  simp only at hre hundo₂ hnext₂ ⊢
  -- A missing sink is created.
  have hopen : Reopened S s.fs (World.rabSinkOpen E S.euid S.base w).2.fs := by
    rcases fs_rabSinkOpen E S.euid S.base hundo₂ with hfs | ⟨hnone, _, hfs⟩
    · rw [hfs]
      exact hre
    · rw [hfs]
      refine ⟨?_, fun j hj => ?_, Or.inr ⟨?_, w.fs.next, ?_, ?_⟩⟩
      · change shelf S (w.fs.dir ++ [(S.base, w.fs.next)]) = _
        rw [shelf_append, shelf_singleton_of_none (archSuffixValue_base S), List.append_nil]
        exact hre.shelf_eq
      · have hne : j ≠ w.fs.next := by omega
        exact (hre.same j hj).trans (.of_eq (Function.update_of_ne hne _ _))
      · rcases hre.sink with hl | ⟨hl, -⟩
        · exact hl.symm.trans hnone
        · exact hl
      · exact Fs.lookup_create_self S.euid hnone
      · simp [Fs.create]
  rcases heq₃ : World.rabSinkOpen E S.euid S.base w with ⟨_ | fd, w₃⟩
  · rw [heq₃] at hopen
    exact hopen
  · rw [heq₃] at hopen
    exact hopen

theorem Chronicled.reopened (h : Chronicled S J fs K) (hok : fs.Ok) (hre : Reopened S fs fs') :
    Chronicled S J fs' K := by
  refine ⟨?_, ?_, ?_⟩
  · rw [Ordered, hre.shelf_eq]
    exact h.ordered
  · rw [hre.shelf_eq]
    exact h.named
  rcases h.history with ⟨rfl, hnil, hnone⟩ | ⟨first, i, start, stop, hchron, hfirst⟩
  · rcases hre.sink with hsame | ⟨-, i, hlook, hkind, howner, hbytes⟩
    · exact Or.inl ⟨rfl, hre.shelf_eq.trans hnil, hsame.trans hnone⟩
    · -- The new sink holds the empty history.
      have hvol : volumes S fs' i = [i] := by
        rw [volumes, hre.shelf_eq, hnil]
        rfl
      refine Or.inr ⟨0, i, fun _ => 0, fun _ => 0, ⟨hlook, ?_, fun j hj => ?_⟩, fun _ => rfl⟩
      · rw [hvol]
        exact .last le_rfl rfl
      · rw [hvol, List.mem_singleton] at hj
        rw [hj]
        exact holds_carried (c := []) [] (by simp) ⟨hkind, howner⟩ (by rw [hbytes]; rfl)
  · right
    refine ⟨first, i, start, stop, hchron.same hre.shelf_eq ?_ fun j hj => hre.same j ?_, hfirst⟩
    · refine hre.sink.resolve_right fun hnone => ?_
      exact absurd (hnone.1.symm.trans hchron.lookup) (by simp)
    · rcases List.mem_append.mp hj with hj | hj
      · obtain ⟨x, hx, rfl⟩ := List.mem_map.mp hj
        exact hok.dir_lt x (List.mem_of_mem_filter hx)
      · rw [List.mem_singleton.mp hj]
        exact hok.lookup_lt hchron.lookup

theorem Archived.restart (h : Archived S K s) (hinv : Inv S s) (env : Env) (cfg : Config)
    (rollback : Bool) : Archived S K (step S s (.start env cfg rollback)).2 := by
  obtain ⟨hsound, hundo⟩ := hinv.toSound.settle rollback
  have hundo₁ : (s.found rollback).fs.undo = none := hundo
  -- The start finds one of the directories that a crash may leave.
  obtain ⟨d, hd, st, hfs⟩ : ∃ d ∈ s.fs.dirs, ∃ st,
      (s.found rollback).fs = { s.fs.settled d with stale := st } := by
    refine ⟨if rollback then s.fs.undo.getD s.fs.dir else s.fs.dir, ?_, _, rfl⟩
    unfold Fs.dirs
    rcases rollback with _ | _
    · simp
    · rcases s.fs.undo with _ | d <;> simp
  have hre := reopened_rabBrokerOpen S env cfg hundo₁
  obtain ⟨⟨-, hundo₂, -⟩, hopen⟩ := rabBrokerOpen_spec S env cfg hundo₁ hsound.fs_ok
  have hrest : (rabBrokerOpen S env cfg (s.found rollback)).2.journal = s.journal ∧
      (rabBrokerOpen S env cfg (s.found rollback)).2.lastClock = s.lastClock := by
    rcases hopen with ⟨-, hrest⟩ | ⟨-, hstarted⟩
    · rw [hrest]
      exact ⟨rfl, rfl⟩
    · rw [hstarted.rest]
      exact ⟨rfl, rfl⟩
  have hok : (s.found rollback).fs.Ok := hsound.fs_ok
  rw [hfs] at hok hre
  have hchron := (h.chronicled d hd).reopened ⟨hok.dir_lt, hok.undo_lt⟩
    ⟨hre.shelf_eq, hre.same, hre.sink⟩
  rw [step_start]
  refine (archived_iff_of_undo hundo₂).mpr ⟨?_, ?_⟩ |>.congr rfl rfl (UInt64.le_refl _)
  · rw [hrest.1]
    exact hchron
  · rw [hrest.2, hre.shelf_eq]
    exact h.dated d hd

/-! ## Runs -/

/-- No start configures retention. -/
def KeepsAll (evs : List Event) : Prop :=
  ∀ env cfg rollback, .start env cfg rollback ∈ evs → cfg.KeepsAll

/-- The clock advances: every reading that a process takes is later than the one before it. -/
def TickingRun (S : Site) (s₀ : St) (evs : List Event) : Prop :=
  ∀ n env peer body, evs[n]? = some (.request env peer body) →
    (run S s₀ (evs.take n)).alive = true → ∀ k < (run S s₀ (evs.take (n + 1))).ticks,
      (run S s₀ (evs.take n)).lastClock < env.clock k ∧ ∀ j < k, env.clock j < env.clock k

variable {s₀ : St} {evs evs' : List Event}

theorem TickingRun.of_append (h : TickingRun S s₀ (evs ++ evs')) : TickingRun S s₀ evs := by
  intro n env peer body hev halive k hk
  have hlt : n < evs.length := (List.getElem?_eq_some_iff.mp hev).1
  have htake : ∀ m ≤ evs.length, (evs ++ evs').take m = evs.take m := fun m hm =>
    List.take_append_of_le_length hm
  have hall := h n env peer body (by rw [List.getElem?_append_left hlt, hev])
  rw [htake n hlt.le, htake (n + 1) hlt] at hall
  exact hall halive k hk

/-- The last request of a run. -/
theorem TickingRun.ahead {env : Env} {peer : Actor} {body : Bytes}
    (h : TickingRun S s₀ (evs ++ [.request env peer body]))
    (halive : (run S s₀ evs).alive = true) :
    Ahead env (run S s₀ (evs ++ [.request env peer body])).ticks (run S s₀ evs).begin_ := by
  have hlast := h evs.length env peer body (by simp)
  rw [List.take_left, List.take_of_length_le (by simp)] at hlast
  exact ⟨fun k _ hk => (hlast halive k hk).1, fun j k _ hjk hk => (hlast halive k hk).2 j hjk⟩

/-- One event. -/
theorem Archived.step (h : Archived S K (run S s₀ evs)) {ev : Event}
    (htraced : Traced S s₀ evs (run S s₀ evs)) (hE : ev.env.UnlinksWork)
    (hids : FreshIds S (evs ++ [ev])) (hticks : TickingRun S s₀ (evs ++ [ev]))
    (hprunes : ∀ env peer body, ev = .request env peer body → (run S s₀ evs).alive = true →
      Prunes S env (run S s₀ evs).cfg)
    (hK : K → (run S s₀ evs).alive = true → (run S s₀ evs).cfg.KeepsAll) :
    Archived S K (run S s₀ (evs ++ [ev])) := by
  rw [run_concat]
  rcases ev with ⟨env, peer, body⟩ | ⟨env, cfg, rollback⟩
  · by_cases halive : (run S s₀ evs).alive = true
    · have hahead := hticks.ahead halive
      rw [run_concat] at hahead
      have hbegin : Archived S K (run S s₀ evs).begin_ := h.congr rfl rfl (UInt64.le_refl _)
      simp only [AuditBroker.step, if_pos halive] at hahead ⊢
      unfold connHandle at hahead ⊢
      split
      · exact hbegin.congr rfl rfl (UInt64.le_refl _)
      · rename_i req hreq
        rw [hreq] at hahead
        have hlive := (htraced.inv.live halive).begin_
        have hhandled := rabBrokerHandle_handled (S := S) (C := { env, peer, req })
          hlive.tables.uids htraced.unwritten
        have hdone := Steps.archived hhandled.steps ⟨body, hreq⟩ (htraced.freshCid hids hreq) hE
          hlive hbegin (hprunes env peer body rfl halive) (fun hk => hK hk halive) hahead le_rfl
        exact hdone.1.congr rfl rfl (UInt64.le_refl _)
    · simp only [AuditBroker.step, if_neg halive]
      exact h.congr rfl rfl (UInt64.le_refl _)
  · exact h.restart htraced.inv env cfg rollback

section Runs

variable {fs : Fs}

/-- A living process has the configuration of a start. -/
theorem exists_start_of_alive (halive : (run S (St.initial fs) evs).alive = true) :
    ∃ env rollback, .start env (run S (St.initial fs) evs).cfg rollback ∈ evs := by
  induction evs using List.reverseRecOn with
  | nil => cases halive
  | append_singleton evs ev ih =>
    have hdated := dated_run S fs evs
    rw [run_concat] at halive ⊢
    have hbefore : (run S (St.initial fs) evs).alive = true →
        (step S (run S (St.initial fs) evs) ev).2.cfg = (run S (St.initial fs) evs).cfg →
        ∃ env rollback, .start env (step S (run S (St.initial fs) evs) ev).2.cfg rollback ∈
          evs ++ [ev] := by
      intro hold hcfg
      obtain ⟨env, rollback, hmem⟩ := ih hold
      exact ⟨env, rollback, List.mem_append_left _ (hcfg ▸ hmem)⟩
    rcases ev with ⟨env, peer, body⟩ | ⟨env, cfg, rollback⟩
    · by_cases hold : (run S (St.initial fs) evs).alive = true
      · refine hbefore hold ?_
        simp only [step, if_pos hold]
        unfold connHandle
        split
        · rfl
        · rename_i req hreq
          have huids : (run S (St.initial fs) evs).begin_.uids.Ok
            (run S (St.initial fs) evs).begin_.cfg := hdated.uids hold
          have hhandled := rabBrokerHandle_handled (S := S) (C := { env, peer, req }) huids
            hdated.unwritten
          exact (hhandled.steps.grows huids).1.cfg
      · simp only [step, if_neg hold] at halive
        exact absurd halive hold
    · rw [step_start] at halive ⊢
      rcases hopen : rabBrokerOpen S env cfg ((run S (St.initial fs) evs).found rollback) with
        ⟨_ | e, s'⟩
      · obtain ⟨-, hcfg, -⟩ := coherent_rabBrokerOpen hopen
        refine ⟨env, rollback, ?_⟩
        change Event.start env s'.cfg rollback ∈ _
        rw [hcfg]
        simp
      · rw [hopen] at halive
        have hdead : s'.alive = false := alive_of_refused hopen
        simp [St.finish, hdead] at halive

theorem archived_initial (hsink : EmptySink S fs)
    (howner : ∀ n, sinkFile S fs = some n → n.owner = S.euid) (hshelf : shelf S fs.dir = []) :
    Archived S K (St.initial fs) := by
  rw [archived_iff_of_undo hsink.undo]
  change Chronicled S [] fs K ∧ ∀ x ∈ shelf S fs.dir, S.suffix x ≤ 0
  refine ⟨⟨?_, by simp [hshelf], ?_⟩, by simp [hshelf]⟩
  · rw [Ordered, hshelf]
    exact List.Pairwise.nil
  rcases hlook : fs.lookup S.base with _ | i
  · exact Or.inl ⟨rfl, hshelf, rfl⟩
  · have hfile : sinkFile S fs = some (fs.node i) := by rw [sinkFile, hlook, Option.map_some]
    obtain ⟨hkind, -, hbytes⟩ := hsink.empty _ hfile
    have hvol : volumes S fs i = [i] := by
      rw [volumes, hshelf]
      rfl
    refine Or.inr ⟨0, i, fun _ => 0, fun _ => 0, ⟨hlook, ?_, fun j hj => ?_⟩, fun _ => rfl⟩
    · rw [hvol]
      exact .last le_rfl rfl
    · rw [hvol, List.mem_singleton] at hj
      rw [hj]
      exact holds_carried (c := []) [] (by simp) ⟨hkind, howner _ hfile⟩ (by rw [hbytes]; rfl)

theorem archived_run (hsink : EmptySink S fs)
    (howner : ∀ n, sinkFile S fs = some n → n.owner = S.euid) (hshelf : shelf S fs.dir = [])
    (hunlinks : UnlinksRun evs) (hids : FreshIds S evs) (hticks : TickingRun S (St.initial fs) evs)
    (hprunes : KeepsAll evs ∨ ∀ ev ∈ evs, Lists S ev.env) (hK : K → KeepsAll evs) :
    Archived S K (run S (St.initial fs) evs) := by
  induction evs using List.reverseRecOn with
  | nil => exact archived_initial hsink howner hshelf
  | append_singleton evs ev ih =>
    have hbefore : KeepsAll (evs ++ [ev]) → KeepsAll evs := fun h env cfg rollback hmem =>
      h env cfg rollback (List.mem_append_left _ hmem)
    have hold := ih hunlinks.of_append hids.of_append hticks.of_append
      (hprunes.imp hbefore fun h ev hev => h ev (List.mem_append_left _ hev))
      (fun hk => hbefore (hK hk))
    have hkeeps : KeepsAll (evs ++ [ev]) → (run S (St.initial fs) evs).alive = true →
        (run S (St.initial fs) evs).cfg.KeepsAll := by
      intro h halive
      obtain ⟨env, rollback, hmem⟩ := exists_start_of_alive halive
      exact hbefore h env _ rollback hmem
    have htraced := traced_run hsink hunlinks.of_append hids.of_append
    refine hold.step htraced hunlinks.last hids hticks ?_ (fun hk => hkeeps (hK hk))
    rintro env peer body rfl halive
    exact hprunes.imp (fun h => hkeeps h halive) fun h =>
      h (.request env peer body) (by simp)

end Runs

/-- With nothing removed, every line of the history is in the sink or in an archive. -/
theorem Chronicled.exists_file (h : Chronicled S J fs K) (hK : K) {e : Entry} (he : e ∈ J) :
    ∃ x ∈ fs.dir, S.Keeps x.1 ∧ e.line ∈ (splitLines (fs.node x.2).bytes).1 := by
  rcases h.history with ⟨rfl, -⟩ | ⟨first, i, start, stop, hchron, hfirst⟩
  · simp at he
  obtain ⟨p, hp, rfl⟩ := List.getElem_of_mem he
  have hfirst := hfirst hK
  obtain ⟨j, hj, hstart, hstop⟩ := hchron.unbroken.exists_mem (p := p) (by omega) hp
  obtain ⟨c, -, hlines⟩ := (hchron.holds j hj).lines
  have hline : J[p].line ∈ (splitLines (fs.node j).bytes).1 := by
    rw [hlines]
    refine List.mem_append_right _ (List.mem_map_of_mem ?_)
    rw [List.mem_iff_getElem?]
    refine ⟨p - start j, ?_⟩
    rw [List.getElem?_drop, Nat.add_sub_cancel' hstart, List.getElem?_take_of_lt hstop,
      List.getElem?_eq_getElem hp]
  rcases List.mem_append.mp hj with hj | hj
  · obtain ⟨x, hx, rfl⟩ := List.mem_map.mp hj
    exact ⟨x, List.mem_of_mem_filter hx, Or.inr (by simp [archSuffixValue_of_mem_shelf hx]), hline⟩
  · rw [List.mem_singleton.mp hj] at hline
    exact ⟨(S.base, i), Fs.mem_of_lookup hchron.lookup, Or.inl rfl, hline⟩

/-- After every run from an empty sink, with failing calls, kills, rollbacks of a rename and
restarts, under both directories that a crash of the last process may leave: the archives in the order
of their numbers and then the sink hold the history to its end without a gap, and nothing else but
carried records; no line of the history is a carried record.  Without retention they hold all of the
history.  The clock has to advance between two readings, and retention, if there is any, must be able
to look at every archive.  A rename that one process left unsynced and that the next one found in place
(`Fs.stale`) is taken to stay. -/
theorem history_unbroken (hsink : EmptySink S fs)
    (howner : ∀ n, sinkFile S fs = some n → n.owner = S.euid) (hshelf : shelf S fs.dir = [])
    (hunlinks : UnlinksRun evs) (hids : FreshIds S evs) (hticks : TickingRun S (St.initial fs) evs)
    (hprunes : KeepsAll evs ∨ ∀ ev ∈ evs, Lists S ev.env) {s : St}
    (hs : s = run S (St.initial fs) evs) :
    (∀ e ∈ s.journal, ¬IsCarried S e.line) ∧
    ∀ d ∈ s.fs.dirs, Chronicled S s.journal (s.fs.settled d) (KeepsAll evs) ∧
      (KeepsAll evs → ∀ e ∈ s.journal,
        ∃ x ∈ d, S.Keeps x.1 ∧ e.line ∈ (splitLines (s.fs.node x.2).bytes).1) := by
  subst hs
  have harch := archived_run hsink howner hshelf hunlinks hids hticks hprunes (K := KeepsAll evs) id
  refine ⟨fun e he => ?_, fun d hd => ⟨harch.chronicled d hd, fun hkeep e he => ?_⟩⟩
  · obtain ⟨J₁, J₂, -, hJ₁, hg⟩ :=
      (traced_run hsink hunlinks hids).inv.guarded.exists_of_mem he
    exact not_isCarried_of_guard hJ₁ hg
  · exact (harch.chronicled d hd).exists_file hkeep he

namespace Sample

/-- No call fails, and the clock advances by a microsecond from reading to reading. -/
def ticking (t : UInt64) (k : UInt8) : Env := { env t k with clock := fun n => t + UInt64.ofNat n }

/-- Two records, each of which makes the segment rotate. -/
def shelvedRun : List Event :=
  [.start (ticking 1000000 0)
      { config with rotateBytes := 1, retainSegments := 0, retainBytes := 0 } false,
    .request (ticking 2000000 1) (actor 1000) (emitBody (lit "probe")),
    .request (ticking 3000000 2) (actor 1000) (emitBody (lit "probe"))]

theorem freshIds_shelvedRun : FreshIds site shelvedRun := by decide +kernel

theorem unlinksRun_shelvedRun : UnlinksRun shelvedRun := by
  simp only [UnlinksRun, shelvedRun, List.forall_mem_cons]
  exact ⟨fun _ => rfl, fun _ => rfl, fun _ => rfl, by simp⟩

theorem keepsAll_shelvedRun : KeepsAll shelvedRun := by
  intro env cfg rollback h
  simp only [shelvedRun, List.mem_cons, Event.start.injEq, reduceCtorEq, List.not_mem_nil,
    or_false] at h
  rw [h.2.1]
  exact ⟨rfl, rfl⟩

/-- The clock readings up to a number are later than an instant, and each is later than those
before it. -/
def advances (E : Env) (last : UInt64) (T : ℕ) : Bool :=
  (List.range T).all fun k =>
    decide (last < E.clock k) && (List.range k).all fun j => decide (E.clock j < E.clock k)

theorem of_advances {E : Env} {last : UInt64} {T k : ℕ} (h : advances E last T = true)
    (hk : k < T) : last < E.clock k ∧ ∀ j < k, E.clock j < E.clock k := by
  simp only [advances, List.all_eq_true, List.mem_range, Bool.and_eq_true, decide_eq_true_eq] at h
  exact h k hk

theorem tickingRun_shelvedRun : TickingRun site (St.initial Sample.fs) shelvedRun := by
  intro n env peer body hev _ k hk
  rcases n with _ | _ | _ | n
  · exact absurd (Option.some.inj hev) (by simp)
  · obtain ⟨rfl, -⟩ := Event.request.inj (Option.some.inj hev)
    exact of_advances (by decide +kernel) hk
  · obtain ⟨rfl, -⟩ := Event.request.inj (Option.some.inj hev)
    exact of_advances (by decide +kernel) hk
  · simp [shelvedRun] at hev

end Sample

/-- The theorem at a run with two archives. -/
theorem history_unbroken_shelvedRun :
    ((∀ e ∈ (run Sample.site (St.initial Sample.fs) Sample.shelvedRun).journal,
        ¬IsCarried Sample.site e.line) ∧
      ∀ d ∈ (run Sample.site (St.initial Sample.fs) Sample.shelvedRun).fs.dirs,
        Chronicled Sample.site (run Sample.site (St.initial Sample.fs) Sample.shelvedRun).journal
          ((run Sample.site (St.initial Sample.fs) Sample.shelvedRun).fs.settled d)
          (KeepsAll Sample.shelvedRun) ∧
        (KeepsAll Sample.shelvedRun →
          ∀ e ∈ (run Sample.site (St.initial Sample.fs) Sample.shelvedRun).journal,
            ∃ x ∈ d, Sample.site.Keeps x.1 ∧ e.line ∈ (splitLines
              ((run Sample.site (St.initial Sample.fs) Sample.shelvedRun).fs.node x.2).bytes).1)) ∧
    (shelf Sample.site
      (run Sample.site (St.initial Sample.fs) Sample.shelvedRun).fs.dir).length = 2 ∧
    (run Sample.site (St.initial Sample.fs) Sample.shelvedRun).journal.length = 2 :=
  ⟨history_unbroken Sample.emptySink (fun n hn => by cases hn) rfl Sample.unlinksRun_shelvedRun
    Sample.freshIds_shelvedRun Sample.tickingRun_shelvedRun (Or.inl Sample.keepsAll_shelvedRun) rfl,
    by decide +kernel, by decide +kernel⟩

end AuditBroker
