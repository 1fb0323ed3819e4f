import AuditBroker.FailedRotation

/-!
# The archives in the sink's directory

What a rotation does to the archives, for any failing calls and any kill: the old segment may get
an archive name, whether or not the rotation goes on to replace the sink, and retention then removes
some of the oldest archives.  The clock reading in the name is that of the rotation, so with a clock
that advances every archive is newer than those before it.
-/

namespace AuditBroker

open Foundation

variable {S : Site} {E : Env} {s : St} {w : World} {i : ℕ} {d : List (Bytes × ℕ)} {name : Bytes}
  {ts : UInt64}

/-! ## Shelves -/

/-- The archives of a directory, in its order. -/
def shelf (S : Site) (d : List (Bytes × ℕ)) : List (Bytes × ℕ) :=
  d.filter fun x => (archSuffixValue S x.1).isSome

theorem shelf_append (S : Site) (d d' : List (Bytes × ℕ)) :
    shelf S (d ++ d') = shelf S d ++ shelf S d' := List.filter_append ..

theorem shelf_singleton_of_none (h : archSuffixValue S name = none) (i : ℕ) :
    shelf S [(name, i)] = [] := by
  simp [shelf, h]

theorem shelf_singleton_archName (S : Site) (ts : UInt64) (i : ℕ) :
    shelf S [(S.archName ts, i)] = [(S.archName ts, i)] := by
  simp [shelf, archSuffixValue_archName]

theorem shelf_concat_archName (S : Site) (d : List (Bytes × ℕ)) (ts : UInt64) (i : ℕ) :
    shelf S (d ++ [(S.archName ts, i)]) = shelf S d ++ [(S.archName ts, i)] := by
  rw [shelf_append, shelf_singleton_archName]

theorem suffix_archName (S : Site) (ts : UInt64) (i : ℕ) : S.suffix (S.archName ts, i) = ts := by
  rw [Site.suffix, archSuffixValue_archName, Option.getD_some]

theorem archSuffixValue_of_mem_shelf {x : Bytes × ℕ} (h : x ∈ shelf S d) :
    archSuffixValue S x.1 = some (S.suffix x) := by
  obtain ⟨v, hv⟩ := Option.isSome_iff_exists.mp (List.mem_filter.mp h).2
  rw [Site.suffix, hv, Option.getD_some]

/-- Names that are not those of archives do not matter. -/
theorem shelf_filter {p : Bytes × ℕ → Bool} (h : ∀ x ∈ shelf S d, p x = true) :
    shelf S (d.filter p) = shelf S d := by
  rw [shelf, List.filter_comm]
  exact List.filter_eq_self.mpr h

theorem shelf_filter_ne (h : ∀ x ∈ shelf S d, x.1 ≠ name) :
    shelf S (d.filter fun x => x.1 != name) = shelf S d :=
  shelf_filter fun x hx => bne_iff_ne.mpr (h x hx)

theorem ne_of_mem_shelf (hname : archSuffixValue S name = none) :
    ∀ x ∈ shelf S d, x.1 ≠ name := by
  rintro x hx rfl
  rw [archSuffixValue_of_mem_shelf hx] at hname
  simp at hname

theorem shelf_unlink (E : Env) (w : World) (h : ∀ x ∈ shelf S w.fs.dir, x.1 ≠ name) :
    shelf S (World.unlink E name w).2.fs.dir = shelf S w.fs.dir := by
  unfold World.unlink
  split
  · exact shelf_filter_ne h
  · rfl

theorem shelf_unlink_pendingName (S : Site) (E : Env) (w : World) :
    shelf S (World.unlink E S.pendingName w).2.fs.dir = shelf S w.fs.dir :=
  shelf_unlink E w (ne_of_mem_shelf (archSuffixValue_pendingName S))

theorem dir_rabFsyncParentDir (E : Env) (w : World) :
    (World.rabFsyncParentDir E w).2.fs.dir = w.fs.dir := by
  unfold World.rabFsyncParentDir
  split <;> rfl

theorem node_rabFsyncParentDir (E : Env) (w : World) :
    (World.rabFsyncParentDir E w).2.fs.node = w.fs.node := by
  unfold World.rabFsyncParentDir
  split <;> rfl

theorem shelf_rabSinkOpen (E : Env) (euid : UInt32) (hundo : w.fs.undo = none)
    (h : archSuffixValue S name = none) :
    shelf S (World.rabSinkOpen E euid name w).2.fs.dir = shelf S w.fs.dir := by
  rcases fs_rabSinkOpen E euid name hundo with hfs | ⟨-, _, hfs⟩
  · rw [hfs]
  · rw [hfs]
    change shelf S (w.fs.dir ++ [(name, w.fs.next)]) = _
    rw [shelf_append, shelf_singleton_of_none h, List.append_nil]

theorem shelf_move (fs : Fs) (i : ℕ) :
    shelf S (fs.move S.pendingName S.base i).dir = shelf S fs.dir := by
  unfold Fs.move
  split
  · rfl
  rw [shelf_append, shelf_singleton_of_none (archSuffixValue_base S), List.append_nil]
  refine shelf_filter fun x hx => ?_
  rw [Bool.and_eq_true, bne_iff_ne, bne_iff_ne]
  exact ⟨ne_of_mem_shelf (archSuffixValue_pendingName S) x hx,
    ne_of_mem_shelf (archSuffixValue_base S) x hx⟩

/-! ## Retention -/

/-- Nothing is ever removed. -/
def Config.KeepsAll (cfg : Config) : Prop := cfg.retainSegments = 0 ∧ cfg.retainBytes = 0

/-- The directory scan can look at every file, and has room for the path of every archive of this
broker. -/
structure Lists (S : Site) (E : Env) : Prop where
  stats : ∀ n, E.io .lstat n = .ok
  short : ∀ ts, S.entryTooLong (S.archName ts) = false

theorem outcome_of_ok {c : Call} (h : ∀ n, E.io c n = .ok) (w : World) :
    E.outcome c w = .ok ∨ E.dead w.calls = true := by
  by_cases hdead : E.dead w.calls = true
  · exact Or.inr hdead
  · rw [Env.outcome, if_neg hdead]
    exact Or.inl (h _)

theorem dead_mono {n m : ℕ} (h : E.dead n = true) (hle : n ≤ m) : E.dead m = true := by
  unfold Env.dead at h ⊢
  split at h
  · rename_i k _
    exact decide_eq_true ((of_decide_eq_true h).trans hle)
  · exact absurd h (by simp)

theorem calls_le_scanArchives (S : Site) (E : Env) (d : List (Bytes × ℕ)) (w : World) :
    w.calls ≤ (scanArchives S E d w).2.calls := by
  induction d generalizing w with
  | nil => exact le_rfl
  | cons x d ih =>
    have hstat : ∀ {b w₁}, World.plain E .lstat w = (b, w₁) →
        w.calls ≤ (scanArchives S E d w₁).2.calls := by
      rintro b w₁ h
      rw [← (Prod.mk.inj h).2]
      exact (Nat.le_succ _).trans (ih w.tick)
    rw [scanArchives]
    split
    · exact ih w
    split
    · exact ih w
    split
    · exact hstat ‹_›
    simp only
    split
    · exact hstat ‹_›
    · exact hstat ‹_›

/-- The scan lists the archives, unless the process is killed on the way. -/
theorem scanArchives_shelf (hstat : ∀ n, E.io .lstat n = .ok)
    (hfiles : ∀ x ∈ shelf S d, w.fs.IsArchive S x ∧ S.entryTooLong x.1 = false) :
    (scanArchives S E d w).1 = (shelf S d).map (w.fs.archive S) ∨
      E.dead (scanArchives S E d w).2.calls = true := by
  induction d generalizing w with
  | nil => exact Or.inl rfl
  | cons x d ih =>
    obtain ⟨name, i⟩ := x
    rw [scanArchives]
    rcases hsuffix : archSuffixValue S name with _ | v
    · have hshelf : shelf S ((name, i) :: d) = shelf S d := by simp [shelf, hsuffix]
      rw [hshelf] at hfiles ⊢
      exact ih hfiles
    · have hshelf : shelf S ((name, i) :: d) = (name, i) :: shelf S d := by simp [shelf, hsuffix]
      rw [hshelf] at hfiles ⊢
      obtain ⟨hfile, hlong⟩ := hfiles (name, i) (by simp)
      have ih := ih (w := w.tick) fun x hx => hfiles x (by simp [hx])
      simp only at hlong
      simp only [hlong, Bool.false_eq_true, if_false]
      rcases outcome_of_ok hstat w with hok | hdead
      · have hplain : World.plain E .lstat w = (true, w.tick) := by
          rw [World.plain, hok]
          rfl
        have hnode : (w.tick.fs.node i).kind = .regular ∧ (w.tick.fs.node i).owner = S.euid :=
          hfile.2
        simp only [hplain, if_pos hnode, List.map_cons]
        refine ih.imp_left fun hscan => ?_
        rw [hscan, Fs.archive, Site.suffix, hsuffix, Option.getD_some]
        rfl
      · right
        have hle := calls_le_scanArchives S E d w.tick
        have hdead' := dead_mono hdead ((Nat.le_succ _).trans hle)
        have hplain : World.plain E .lstat w = (false, w.tick) := by
          rw [World.plain, World.outcome_of_dead hdead le_rfl]
          rfl
        simp only [hplain]
        exact hdead'

/-- A process that has been killed removes nothing. -/
theorem pruneLoop_of_dead (S : Site) (cfg : Config) (ents : List Archive) (archives : ℕ)
    (total : UInt64) (pruned : Bool) (h : E.dead w.calls = true) :
    (pruneLoop S E cfg ents archives total pruned w).2.fs = w.fs := by
  induction ents generalizing archives total pruned w with
  | nil => rfl
  | cons a ents ih =>
    have hunlink : World.unlink E a.name w = (false, w.tick) := by
      rw [World.unlink, World.outcome_of_dead h le_rfl]
    rw [pruneLoop]
    split
    · rfl
    split
    · exact ih archives total pruned h
    · rw [hunlink]
      exact ih archives total pruned (w := w.tick) (dead_mono h (Nat.le_succ _))

/-- The loop removes the first archives of its list. -/
theorem pruneLoop_takes (fs : Fs) (hE : E.UnlinksWork) (cfg : Config) {es : List (Bytes × ℕ)}
    (archives : ℕ) (total : UInt64) (pruned : Bool) (hlong : ∀ e ∈ es, S.entryTooLong e.1 = false)
    (hnd : (es.map Prod.fst).Nodup) (hdir : ∀ e ∈ es, w.fs.lookup e.1 ≠ none) :
    ∃ k, (pruneLoop S E cfg (es.map (fs.archive S)) archives total pruned w).2.fs =
      w.fs.without ((es.take k).map Prod.fst) := by
  induction es generalizing archives total pruned w with
  | nil => exact ⟨0, (Fs.without_nil _).symm⟩
  | cons e es ih =>
    rw [List.map_cons, pruneLoop]
    split
    · exact ⟨0, (Fs.without_nil _).symm⟩
    have hshort : S.entryTooLong (fs.archive S e).name = false := hlong e (by simp)
    rw [if_neg (by simp [hshort])]
    rcases outcome_of_ok hE w with hok | hdead
    · obtain ⟨i, hi⟩ := Option.ne_none_iff_exists'.mp (hdir e (by simp))
      have hunlink : World.unlink E (fs.archive S e).name w =
          (true, w.tickFs (w.fs.remove e.1)) := by
        change World.unlink E e.1 w = _
        rw [World.unlink, hok, hi]
      rw [List.map_cons, List.nodup_cons] at hnd
      obtain ⟨k, hk⟩ := ih (archives - 1) (total - (fs.archive S e).size) true
        (w := w.tickFs (w.fs.remove e.1)) (fun f hf => hlong f (by simp [hf])) hnd.2
        (fun f hf => by
          have hne : f.1 ≠ e.1 := fun h => hnd.1 (h ▸ List.mem_map_of_mem hf)
          change (w.fs.remove e.1).lookup f.1 ≠ none
          rw [Fs.lookup_remove_of_ne hne]
          exact hdir f (by simp [hf]))
      rw [hunlink]
      exact ⟨k + 1, hk.trans (Fs.without_remove _ _ _)⟩
    · have hunlink : World.unlink E (fs.archive S e).name w = (false, w.tick) := by
        rw [World.unlink, World.outcome_of_dead hdead le_rfl]
      rw [hunlink]
      refine ⟨0, ?_⟩
      rw [List.take_zero, List.map_nil, Fs.without_nil]
      exact pruneLoop_of_dead S cfg _ _ _ _ (w := w.tick) (dead_mono hdead (Nat.le_succ _))

/-- The archives are in the order of their numbers, with no number twice. -/
def Ordered (S : Site) (d : List (Bytes × ℕ)) : Prop :=
  (shelf S d).Pairwise fun x y => S.suffix x < S.suffix y

theorem Ordered.nodup (h : Ordered S d) : ((shelf S d).map Prod.fst).Nodup := by
  rw [List.Nodup, List.pairwise_map]
  refine h.imp fun {x y} hlt heq => ?_
  have hsuffix : S.suffix x = S.suffix y := by rw [Site.suffix, Site.suffix, heq]
  exact UInt64.lt_irrefl _ (hsuffix ▸ hlt)

/-- Retention removes the oldest archives, if anything. -/
theorem shelf_applyRetention (hE : E.UnlinksWork) (cfg : Config) (segBytes : UInt64)
    (hord : Ordered S w.fs.dir)
    (hlists : cfg.KeepsAll ∨ Lists S E ∧
      ∀ x ∈ shelf S w.fs.dir, w.fs.IsArchive S x ∧ x.1 = S.archName (S.suffix x)) :
    ∃ k, shelf S (applyRetention S E cfg segBytes w).fs.dir = (shelf S w.fs.dir).drop k ∧
      (cfg.KeepsAll → k = 0) := by
  unfold applyRetention
  split
  · exact ⟨0, rfl, fun _ => rfl⟩
  rename_i hon
  obtain ⟨hlist, hfiles⟩ := hlists.resolve_left hon
  have hshort : ∀ x ∈ shelf S w.fs.dir, S.entryTooLong x.1 = false := fun x hx => by
    rw [(hfiles x hx).2]
    exact hlist.short _
  split
  · exact ⟨0, rfl, fun _ => rfl⟩
  split
  · rename_i w₁ hdir
    rw [World.fs_of_plain hdir]
    exact ⟨0, rfl, fun _ => rfl⟩
  rename_i w₁ hdir
  have hfs₁ : w₁.fs = w.fs := World.fs_of_plain hdir
  have hscan₁ : (scanArchives S E w₁.fs.dir w₁).2.fs = w.fs :=
    (scanArchives_spec S E w₁.fs.dir w₁).1.trans hfs₁
  set ents := (scanArchives S E w₁.fs.dir w₁).1.insertionSort fun a b => a.suffix ≤ b.suffix
    with hents
  have hprune : ∀ archives total pruned, ∃ k, shelf S (pruneLoop S E cfg ents archives total pruned
      (scanArchives S E w₁.fs.dir w₁).2).2.fs.dir = (shelf S w.fs.dir).drop k := by
    intro archives total pruned
    rcases scanArchives_shelf (S := S) (d := w₁.fs.dir) (w := w₁) hlist.stats
      (fun x hx => by rw [hfs₁] at hx ⊢; exact ⟨(hfiles x hx).1, hshort x hx⟩) with hscan | hdead
    · -- The scan is in the order of the numbers already.
      have hsort : ents = (shelf S w.fs.dir).map (w.fs.archive S) := by
        rw [hents, hscan, hfs₁]
        apply List.Pairwise.insertionSort_eq
        rw [List.pairwise_map]
        exact hord.imp fun hlt => UInt64.le_of_lt hlt
      have hthere : ∀ e ∈ shelf S w.fs.dir,
          (scanArchives S E w₁.fs.dir w₁).2.fs.lookup e.1 ≠ none := by
        intro e he
        have hmem : e ∈ w.fs.dir := List.mem_of_mem_filter he
        rw [hscan₁, Fs.lookup, ne_eq, Option.map_eq_none_iff, List.find?_eq_none]
        intro h
        exact absurd (h e hmem) (by simp)
      rw [hsort]
      obtain ⟨k, hk⟩ := pruneLoop_takes w.fs hE cfg archives total pruned hshort
        hord.nodup hthere
      refine ⟨k, ?_⟩
      rw [hk, hscan₁]
      change shelf S (w.fs.dir.filter _) = _
      rw [shelf, List.filter_comm]
      exact filter_notMem_take hord.nodup k
    · refine ⟨0, ?_⟩
      rw [pruneLoop_of_dead S cfg _ _ _ _ hdead, hscan₁]
      rfl
  obtain ⟨k, hk⟩ := hprune ents.length (ents.foldl (fun t a => t + a.size) segBytes) false
  refine ⟨k, ?_, fun hoff => absurd hoff hon⟩
  simp only
  split
  · rename_i w₂ heq
    rw [heq] at hk
    rw [dir_rabFsyncParentDir]
    exact hk
  · rename_i w₂ heq
    rw [heq] at hk
    exact hk

/-! ## Rotation -/

/-- The old segment has got an archive name, or nothing has changed. -/
def Linked (S : Site) (ts : UInt64) (i : ℕ) (d d' : List (Bytes × ℕ)) : Prop :=
  shelf S d' = shelf S d ∨ shelf S d' = shelf S d ++ [(S.archName ts, i)]

/-- `link` of a name that is there. -/
theorem link_cases {src : Bytes} (E : Env) (dst : Bytes) (h : w.fs.lookup src = some i) :
    (World.link E src dst w).1 = false ∧ (World.link E src dst w).2.fs = w.fs ∨
      (World.link E src dst w).1 = true ∧ (World.link E src dst w).2.fs = w.fs.addName dst i := by
  unfold World.link
  split
  · rename_i j _ hj _
    rw [h, Option.some_inj] at hj
    rw [← hj]
    exact Or.inr ⟨rfl, rfl⟩
  · exact Or.inl ⟨rfl, rfl⟩

theorem fs_of_rename {src dst : Bytes} {w' : World} (h : World.rename E src dst w = (false, w')) :
    w'.fs = w.fs := by
  unfold World.rename at h
  split at h
  · simp at h
  · rw [← (Prod.mk.inj h).2]
    rfl

theorem exists_move_of_rename {src dst : Bytes} {w' : World}
    (h : World.rename E src dst w = (true, w')) : ∃ j, w'.fs = w.fs.move src dst j := by
  unfold World.rename at h
  split at h
  · rename_i j _ _
    rw [← (Prod.mk.inj h).2]
    exact ⟨j, rfl⟩
  · simp at h

/-- The cleanup takes back the archive name, if it was given and can be removed. -/
theorem linked_unlink {ts : UInt64} (E : Env) (hnew : ∀ x ∈ shelf S d, x.1 ≠ S.archName ts)
    (h : Linked S ts i d w.fs.dir) :
    Linked S ts i d (World.unlink E (S.archName ts) w).2.fs.dir := by
  rcases h with hsame | hmore
  · left
    rw [shelf_unlink E w (hsame ▸ hnew), hsame]
  · unfold World.unlink
    split
    · left
      change shelf S (w.fs.dir.filter _) = _
      rw [shelf, List.filter_comm]
      change (shelf S w.fs.dir).filter _ = _
      rw [hmore, List.filter_append, List.filter_eq_self.mpr fun x hx =>
        bne_iff_ne.mpr (hnew x hx)]
      simp
    · exact Or.inr hmore

/-- Linking the archive and renaming the new segment. -/
theorem swapSegment_shelf (pfd : ℕ) (hbase : s.fs.lookup S.base = some i)
    (hnew : ∀ x ∈ shelf S s.fs.dir, x.1 ≠ S.archName ts) :
    ((swapSegment S E pfd ts s).1 = false ∧
      ∃ w, (swapSegment S E pfd ts s).2 = { s with toWorld := w } ∧
        Linked S ts i s.fs.dir w.fs.dir) ∨
    ∃ w : World, swapSegment S E pfd ts s = adoptSegment S E pfd { s with toWorld := w } ∧
      w.fs.node = s.fs.node ∧
      shelf S w.fs.dir = shelf S s.fs.dir ++ [(S.archName ts, i)] ∧
      ∀ d, w.fs.undo = some d → shelf S d = shelf S s.fs.dir ++ [(S.archName ts, i)] ∧
        (w.fs.settled d).lookup S.base = some i := by
  set l := World.link E S.base (S.archName ts) s.toWorld with hl
  set f := if l.1 then World.rabFsyncParentDir E l.2 else (false, l.2) with hf
  have hcall : f.2.fs.node = s.fs.node ∧
      (f.1 = false ∧ shelf S f.2.fs.dir = shelf S s.fs.dir ∨
        shelf S f.2.fs.dir = shelf S s.fs.dir ++ [(S.archName ts, i)]) := by
    rcases link_cases (w := s.toWorld) E (S.archName ts) hbase with ⟨hl1, hfs⟩ | ⟨hl1, hfs⟩
    · rw [← hl] at hl1 hfs
      rw [hf, hl1, if_neg (by simp), hfs]
      exact ⟨rfl, Or.inl ⟨rfl, rfl⟩⟩
    · rw [← hl] at hl1 hfs
      rw [hf, hl1, if_pos rfl, dir_rabFsyncParentDir, node_rabFsyncParentDir, hfs]
      exact ⟨rfl, Or.inr (shelf_concat_archName S s.fs.dir ts i)⟩
  obtain ⟨hnode, hshelf⟩ := hcall
  have hbase₁ : f.2.fs.lookup S.base = some i := by
    have hframe : Fs.Frame (· = S.base) (fun _ => False) s.fs l.2.fs :=
      World.frame_link E s.toWorld fun h => S.archName_ne_base ts h
    have hsync : Fs.Frame (· = S.base) (fun _ => False) l.2.fs
        (World.rabFsyncParentDir E l.2).2.fs := World.frame_rabFsyncParentDir E l.2
    rw [← hbase, ← hframe.lookup S.base rfl, hf]
    split
    · exact hsync.lookup S.base rfl
    · rfl
  unfold swapSegment
  simp only [← hl, ← hf]
  by_cases hf1 : f.1 = false
  · rw [if_pos hf1]
    refine Or.inl ⟨rfl, _, rfl, ?_⟩
    apply linked_unlink E hnew
    have hclean := shelf_unlink_pendingName S E f.2
    exact (hshelf.imp_left And.right).imp hclean.trans hclean.trans
  · rw [if_neg hf1]
    have hmore := hshelf.resolve_left fun h => hf1 h.1
    split
    · rename_i w₁ heq
      refine Or.inl ⟨rfl, _, rfl, Or.inr ?_⟩
      rw [shelf_unlink_pendingName, fs_of_rename heq, hmore]
    · rename_i w₁ heq
      obtain ⟨j, hmove⟩ := exists_move_of_rename heq
      right
      refine ⟨w₁, rfl, ?_⟩
      rw [hmove]
      refine ⟨Fs.node_move.trans hnode, (shelf_move _ _).trans hmore, fun d hd => ?_⟩
      unfold Fs.move at hd
      split at hd
      · rw [(World.durable_of_sync hf1).1] at hd
        simp at hd
      · obtain rfl := Option.some.inj hd
        refine ⟨hmore, ?_⟩
        exact hbase₁

theorem ticks_swapSegment (S : Site) (E : Env) (pfd : ℕ) (ts : UInt64) (s : St) :
    (swapSegment S E pfd ts s).2.ticks = s.ticks := by
  set l := World.link E S.base (S.archName ts) s.toWorld with hl
  set f := if l.1 then World.rabFsyncParentDir E l.2 else (false, l.2) with hf
  unfold swapSegment
  simp only [← hl, ← hf]
  split
  · rfl
  split <;> rfl

/-- The name that a rotation gives to the old segment. -/
def archEntry (S : Site) (E : Env) (s : St) (i : ℕ) : Bytes × ℕ :=
  (S.archName (E.clock (archTick s)), i)

/-- A rotation that stopped before the rename: the old segment may have got its archive name, if the
clock was read for it. -/
structure Stopped (S : Site) (E : Env) (s : St) (i : ℕ) (r : Bool × St) : Prop where
  failed : r.1 = false
  poisoned : r.2.poisoned = s.poisoned
  shelf_eq : shelf S r.2.fs.dir = shelf S s.fs.dir ∨
    r.2.ticks = archTick s + 1 ∧ shelf S r.2.fs.dir = shelf S s.fs.dir ++ [archEntry S E s i]

/-- A rotation that renamed the new segment: the old one is the newest archive, in the directory
that a crash may bring back as well. -/
structure Renamed (S : Site) (E : Env) (s : St) (i pfd : ℕ) (s₁ : St) : Prop where
  quiet : Quiet E s s₁
  ticks : s₁.ticks = archTick s + 1
  node : ∃ b, s₁.fs.node = (s.fs.extend pfd b).node
  shelf_eq : shelf S s₁.fs.dir = shelf S s.fs.dir ++ [archEntry S E s i]
  undo : ∀ d, s₁.fs.undo = some d → shelf S d = shelf S s.fs.dir ++ [archEntry S E s i] ∧
    (s₁.fs.settled d).lookup S.base = some i

theorem rotateInto_shelf (pfd : ℕ) (hs : s.uids.Ok s.cfg) (hbase : s.fs.lookup S.base = some i)
    (hnew : archTick s < (rotateInto S E pfd s).2.ticks →
      ∀ x ∈ shelf S s.fs.dir, x.1 ≠ S.archName (E.clock (archTick s))) :
    Stopped S E s i (rotateInto S E pfd s) ∨
      ∃ s₁, Renamed S E s i pfd s₁ ∧ rotateInto S E pfd s = adoptSegment S E pfd s₁ := by
  obtain ⟨b, hfill, -, hok⟩ := fillPending_spec S E pfd hs
  have hpending : ∀ s : St, shelf S (unlinkPending S E s).fs.dir = shelf S s.fs.dir := fun s =>
    shelf_unlink_pendingName S E s.toWorld
  unfold rotateInto at hnew ⊢
  rcases hres : fillPending S E pfd s with ⟨_ | _, s₁⟩
  · rw [hres] at hfill
    simp only
    refine Or.inl ⟨rfl, hfill.poisoned_eq, Or.inl ?_⟩
    rw [hpending, hfill.fs]
    rfl
  rw [hres] at hfill hok hnew
  obtain ⟨hticks, -⟩ := hok rfl
  have hts : (s₁.readClock E).1 = E.clock (archTick s) := congrArg E.clock hticks
  have hdir : ∀ w : World, w.fs = s₁.fs → shelf S w.fs.dir = shelf S s.fs.dir := fun w hw => by
    rw [hw, hfill.fs]
    rfl
  have hquiet : Quiet E s (s₁.readClock E).2 := hfill.toQuiet.trans (Quiet.readClock E s₁)
  have htick : (s₁.readClock E).2.ticks = archTick s + 1 := congrArg (· + 1) hticks
  simp only [hts] at hnew ⊢
  split
  · refine Or.inl ⟨rfl, hquiet.poisoned_eq, Or.inl ?_⟩
    rw [hpending]
    exact hdir s₁.toWorld rfl
  rename_i hshort
  rw [if_neg hshort] at hnew
  rcases hlock : World.plain E .flock (s₁.readClock E).2.toWorld with ⟨_ | _, w₁⟩
  · have hfs : w₁.fs = s₁.fs := World.fs_of_plain hlock
    refine Or.inl ⟨rfl, hquiet.poisoned_eq, Or.inl ?_⟩
    simp only
    rw [hpending]
    exact hdir w₁ hfs
  have hfs : w₁.fs = s₁.fs := World.fs_of_plain hlock
  rw [hlock] at hnew
  simp only at hnew ⊢
  have hbase₁ : ({ (s₁.readClock E).2 with toWorld := w₁ } : St).fs.lookup S.base = some i := by
    change w₁.fs.lookup S.base = some i
    rw [hfs, hfill.fs]
    exact hbase
  have hlt : archTick s < (swapSegment S E pfd (E.clock (archTick s))
      { (s₁.readClock E).2 with toWorld := w₁ }).2.ticks := by
    rw [ticks_swapSegment]
    exact Nat.lt_of_lt_of_eq (Nat.lt_succ_self _) htick.symm
  have hnew₁ : ∀ x ∈ shelf S ({ (s₁.readClock E).2 with toWorld := w₁ } : St).fs.dir,
      x.1 ≠ S.archName (E.clock (archTick s)) := by
    rw [show shelf S ({ (s₁.readClock E).2 with toWorld := w₁ } : St).fs.dir = _ from hdir w₁ hfs]
    exact hnew hlt
  have hshelf : shelf S ({ (s₁.readClock E).2 with toWorld := w₁ } : St).fs.dir =
      shelf S s.fs.dir := hdir w₁ hfs
  rcases swapSegment_shelf (E := E) pfd hbase₁ hnew₁ with
    ⟨hfail, w₂, heq, hlinked⟩ | ⟨w₂, heq, hnode, hmore, hundo⟩
  · left
    rw [Linked, hshelf] at hlinked
    refine ⟨hfail, ?_, ?_⟩
    · rw [heq]
      exact hquiet.poisoned_eq
    · rw [heq]
      exact hlinked.imp_right fun h => ⟨htick, h⟩
  · right
    rw [hshelf] at hmore hundo
    refine ⟨{ (s₁.readClock E).2 with toWorld := w₂ },
      ⟨hquiet.trans (.world E _ w₂), htick, ⟨b, ?_⟩, hmore, hundo⟩, heq⟩
    change w₂.fs.node = _
    rw [hnode, ← hfill.fs]
    exact congrArg Fs.node hfs

theorem Fs.IsArchive.of_node {fs fs' : Fs} {x : Bytes × ℕ} (h : fs.IsArchive S x)
    (hnode : fs'.node x.2 = fs.node x.2) : fs'.IsArchive S x := by
  rw [Fs.IsArchive, hnode]
  exact h

/-- After the rename retention may remove some of the oldest archives. -/
theorem adoptSegment_shelf (pfd : ℕ) (hE : E.UnlinksWork) (hord : Ordered S s.fs.dir)
    (hlists : s.cfg.KeepsAll ∨ Lists S E ∧
      ∀ x ∈ shelf S s.fs.dir, s.fs.IsArchive S x ∧ x.1 = S.archName (S.suffix x)) :
    ∃ k, shelf S (adoptSegment S E pfd s).2.fs.dir = (shelf S s.fs.dir).drop k ∧
      (s.cfg.KeepsAll → k = 0) := by
  set r := World.rabFsyncParentDir E s.toWorld with hr
  have hdir : r.2.fs.dir = s.fs.dir := dir_rabFsyncParentDir E s.toWorld
  have hnode : r.2.fs.node = s.fs.node := node_rabFsyncParentDir E s.toWorld
  simp only [adoptSegment, ← hr]
  split
  · exact ⟨0, congrArg (shelf S) hdir, fun _ => rfl⟩
  · have hsame : (World.plain E .fstat r.2).2.fs = r.2.fs := rfl
    rw [← hdir]
    refine shelf_applyRetention hE s.cfg _ (hsame ▸ hdir ▸ hord) ?_
    rw [hsame, hdir]
    refine hlists.imp_right (And.imp_right fun h x hx => ⟨?_, (h x hx).2⟩)
    exact (h x hx).1.of_node (congrFun hnode x.2)

/-- What a rotation that renamed the new segment did to the archives in the end: retention removed
some of the oldest, and only if a crash cannot bring back the directory before the rename. -/
structure Swapped (S : Site) (E : Env) (s : St) (i : ℕ) (s' : St) : Prop where
  fd : s'.fd = s.fs.next
  ticks : s'.ticks = archTick s + 1
  file : (s'.fs.node s'.fd).kind = .regular ∧ (s'.fs.node s'.fd).owner = S.euid
  node : ∀ j < s.fs.next, s'.fs.node j = s.fs.node j
  shelf_eq : ∃ k, shelf S s'.fs.dir = (shelf S s.fs.dir ++ [archEntry S E s i]).drop k ∧
    (s.cfg.KeepsAll → k = 0)
  undo : ∀ d, s'.fs.undo = some d → shelf S d = shelf S s.fs.dir ++ [archEntry S E s i] ∧
    (s'.fs.settled d).lookup S.base = some i

/-- The pending segment was created, and nothing but the pending name has changed. -/
structure Created (S : Site) (s : St) (pfd : ℕ) (w : World) : Prop where
  fresh : pfd = s.fs.next
  file : (w.fs.node pfd).kind = .regular ∧ (w.fs.node pfd).owner = S.euid
  frame : Fs.Frame (· = S.base) (s.fs.next ≤ ·) s.fs w.fs
  shelf_eq : shelf S w.fs.dir = shelf S s.fs.dir

/-- Opening the pending segment changes no archive. -/
theorem shelf_openPending (S : Site) (E : Env) (hundo : s.fs.undo = none) :
    shelf S (World.rabSinkOpen E S.euid S.pendingName (unlinkPending S E s).toWorld).2.fs.dir =
      shelf S s.fs.dir := by
  have hclean : Fs.Frame (· = S.base) (s.fs.next ≤ ·) s.fs (unlinkPending S E s).fs :=
    frame_unlinkPending S E s fun h => S.pendingName_ne_base h
  exact (shelf_rabSinkOpen E S.euid (hclean.undo hundo) (archSuffixValue_pendingName S)).trans
    (shelf_unlink_pendingName S E s.toWorld)

theorem created_of_rabSinkOpen {pfd : ℕ} (hE : E.UnlinksWork) (hfs : s.fs.Ok)
    (hundo : s.fs.undo = none)
    (heq : World.rabSinkOpen E S.euid S.pendingName (unlinkPending S E s).toWorld =
      (some pfd, w)) : Created S s pfd w := by
  have hframe : Fs.Frame (· = S.base) (s.fs.next ≤ ·) s.fs
      (World.rabSinkOpen E S.euid S.pendingName (unlinkPending S E s).toWorld).2.fs :=
    (frame_unlinkPending S E s fun h => S.pendingName_ne_base h).trans
      (World.frame_rabSinkOpen E S.euid _ (fun h => S.pendingName_ne_base h)
        (World.next_unlink E s.toWorld).ge)
  have hshelf := shelf_openPending S E hundo
  rw [heq] at hframe hshelf
  obtain ⟨-, -, hfresh⟩ := openPending_spec (fun _ => True) (fun _ _ => trivial)
    (Or.inl hE) heq
  obtain ⟨hpfd, hkind, -⟩ := hfresh hE
  refine ⟨hpfd, ⟨hkind, ?_⟩, hframe, hshelf⟩
  rcases World.rabSinkOpen_eq_some heq with ⟨-, hi, hfs₁⟩ | ⟨hsome, hfs₁, -⟩
  · rw [hfs₁, hi]
    simp [Fs.create, Fs.synced]
  · have hlt : pfd < s.fs.next := hfs.lookup_lt (World.lookup_of_unlink hsome)
    exact absurd hpfd hlt.ne

/-- A new archive that is later than all others has a new name. -/
theorem Ordered.ne_archName {ts : UInt64} (h : Ordered S (d ++ [(S.archName ts, i)])) :
    ∀ x ∈ shelf S d, x.1 ≠ S.archName ts := by
  intro x hx heq
  rw [Ordered, shelf_concat_archName, List.pairwise_append] at h
  have hlt := h.2.2 x hx _ (List.mem_singleton_self _)
  rw [Site.suffix, heq, Site.suffix] at hlt
  exact UInt64.lt_irrefl _ hlt

/-- A rotation that renamed the new segment goes on to adopt it. -/
theorem Renamed.swapped {pfd : ℕ} {s₁ : St} (h : Renamed S E { s with toWorld := w } i pfd s₁)
    (hc : Created S s pfd w) (hE : E.UnlinksWork) (hfs : s.fs.Ok)
    (hbase : s.fs.lookup S.base = some i) (hord : Ordered S (s.fs.dir ++ [archEntry S E s i]))
    (hlists : s.cfg.KeepsAll ∨ Lists S E ∧ ∀ x ∈ shelf S s.fs.dir ++ [archEntry S E s i],
      s.fs.IsArchive S x ∧ x.1 = S.archName (S.suffix x)) :
    Swapped S E s i (adoptSegment S E pfd s₁).2 := by
  obtain ⟨b, hnode₁⟩ := h.node
  obtain ⟨hrest, hframe, -, -, hundo⟩ :=
    adoptSegment_spec (fun _ => False) S E pfd s₁ fun _ h => h.elim
  have hshelf₁ : shelf S s₁.fs.dir = shelf S s.fs.dir ++ [archEntry S E s i] :=
    hc.shelf_eq ▸ h.shelf_eq
  have hord₁ : Ordered S s₁.fs.dir := by
    rw [Ordered, archEntry, shelf_concat_archName] at hord
    rw [Ordered, hshelf₁]
    exact hord
  -- The content of the old files is untouched; the archives are among them.
  have hold : ∀ j < s.fs.next, s₁.fs.node j = s.fs.node j := by
    intro j hlt
    have hne : j ≠ pfd := fun heq => absurd (heq.trans hc.fresh) hlt.ne
    rw [hnode₁]
    exact (Function.update_of_ne hne _ _).trans (hc.frame.node j (by omega))
  have harch : ∀ x ∈ shelf S s.fs.dir ++ [archEntry S E s i], x.2 < s.fs.next := by
    intro x hx
    rcases List.mem_append.mp hx with hx | hx
    · exact hfs.dir_lt x (List.mem_of_mem_filter hx)
    · rw [List.mem_singleton.mp hx]
      exact hfs.lookup_lt hbase
  have hlists₁ : s₁.cfg.KeepsAll ∨ Lists S E ∧
      ∀ x ∈ shelf S s₁.fs.dir, s₁.fs.IsArchive S x ∧ x.1 = S.archName (S.suffix x) := by
    rw [h.quiet.cfg_eq, hshelf₁]
    refine hlists.imp_right (And.imp_right fun hall x hx => ⟨?_, (hall x hx).2⟩)
    exact (hall x hx).1.of_node (hold x.2 (harch x hx))
  have hfd : (adoptSegment S E pfd s₁).2.fd = pfd := by rw [hrest]
  obtain ⟨k, hk, hkeep⟩ := adoptSegment_shelf pfd hE hord₁ hlists₁
  refine ⟨hfd.trans hc.fresh, ?_, ?_, fun j hj => (hframe.node j not_false).trans (hold j hj),
    ⟨k, hshelf₁ ▸ hk, fun hall => hkeep ?_⟩, fun d hd => ?_⟩
  · rw [hrest]
    exact h.ticks
  · rw [hfd, hframe.node pfd not_false, hnode₁]
    simp only [Fs.extend, Function.update_self]
    exact hc.file
  · rw [h.quiet.cfg_eq]
    exact hall
  · rcases hundo with hnone | hsame
    · rw [hnone] at hd
      simp at hd
    · rw [← hc.shelf_eq]
      exact h.undo d (hsame ▸ hd)

/-- What a rotation does to the archives. -/
theorem rotate_shelf (hE : E.UnlinksWork) (hs : s.uids.Ok s.cfg) (hfs : s.fs.Ok)
    (hundo : s.fs.undo = none) (hbase : s.fs.lookup S.base = some i)
    (hnew : archTick s < (rotate S E s).2.ticks →
      Ordered S (s.fs.dir ++ [archEntry S E s i]))
    (hlists : s.cfg.KeepsAll ∨ Lists S E ∧ ∀ x ∈ shelf S s.fs.dir ++ [archEntry S E s i],
      s.fs.IsArchive S x ∧ x.1 = S.archName (S.suffix x)) :
    Stopped S E s i (rotate S E s) ∨ Swapped S E s i (rotate S E s).2 := by
  have hopen := shelf_openPending S E hundo
  unfold rotate at hnew ⊢
  split
  · exact Or.inl ⟨rfl, rfl, Or.inl rfl⟩
  rename_i hshort
  rw [if_neg hshort] at hnew
  simp only at hnew ⊢
  split
  · rename_i w heq
    rw [heq] at hopen
    exact Or.inl ⟨rfl, rfl, Or.inl hopen⟩
  rename_i pfd w heq
  have hc := created_of_rabSinkOpen hE hfs hundo heq
  rw [heq] at hnew
  rcases rotateInto_shelf (E := E) (s := { s with toWorld := w }) pfd hs
    ((hc.frame.lookup S.base rfl).trans hbase)
    (fun hlt x hx => (hnew hlt).ne_archName x (hc.shelf_eq ▸ hx)) with hstop | ⟨s₁, hren, heq₁⟩
  · left
    refine ⟨hstop.failed, hstop.poisoned, ?_⟩
    rw [← hc.shelf_eq]
    exact hstop.shelf_eq
  · right
    change Swapped S E s i (rotateInto S E pfd { s with toWorld := w }).2
    rw [heq₁]
    apply hren.swapped hc hE hfs hbase (hnew _) hlists
    have hticks : (adoptSegment S E pfd s₁).2.ticks = s₁.ticks := by
      rw [(adoptSegment_spec (fun _ => False) S E pfd s₁ fun _ h => h.elim).1]
    change archTick s < (rotateInto S E pfd { s with toWorld := w }).2.ticks
    rw [heq₁, hticks, hren.ticks]
    exact Nat.lt_succ_self _

end AuditBroker
