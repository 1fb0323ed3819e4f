import AuditBroker.Restart
import Mathlib.Algebra.BigOperators.Group.List.Basic

/-!
# What retention removes

`apply_retention` counts the archives beside the sink, sorts them by the number in their name and
removes them from the front while a bound is exceeded.  Its running count and its running total are
the number and the size of the archives still there, so it stops exactly where the archives left fit
both bounds for the first time.
-/

namespace AuditBroker

open Foundation

variable {S : Site} {E : Env} {cfg : Config} {fs : Fs}

/-! ## Archives -/

/-- The name of an archive: the sink's name, a dot and a decimal number below `2 ^ 64`. -/
def Site.NamesArchive (S : Site) (name : Bytes) (n : ℕ) : Prop :=
  ∃ ds, name = S.base ++ lit "." ++ ds ∧ ds ≠ [] ∧ (∀ c ∈ ds, isDigit c = true) ∧
    decimalValue ds = n ∧ n < 2 ^ 64

theorem archSuffixValue_eq_some_iff {name : Bytes} {v : UInt64} :
    archSuffixValue S name = some v ↔ S.NamesArchive name v.toNat := by
  rw [archSuffixValue, Option.ite_none_right_eq_some, parseU64Strict,
    Option.ite_none_right_eq_some, List.isPrefixOf_iff_prefix]
  constructor
  · rintro ⟨⟨ds, rfl⟩, h⟩
    have hdrop : (S.base ++ lit "." ++ ds).drop (S.base.length + 1) = ds := by
      rw [List.append_assoc, ← List.drop_drop, List.drop_left]
      rfl
    rw [hdrop, List.all_eq_true] at h
    obtain ⟨⟨hne, hall, hlt⟩, hv⟩ := h
    obtain rfl := Option.some.inj hv
    rw [UInt64.toNat_ofNat_of_lt' hlt]
    exact ⟨ds, rfl, hne, hall, rfl, hlt⟩
  · rintro ⟨ds, rfl, hne, hall, hv, hlt⟩
    have hdrop : (S.base ++ lit "." ++ ds).drop (S.base.length + 1) = ds := by
      rw [List.append_assoc, ← List.drop_drop, List.drop_left]
      rfl
    refine ⟨⟨ds, rfl⟩, ?_⟩
    rw [hdrop, List.all_eq_true, hv]
    exact ⟨⟨hne, hall, hlt⟩, by rw [UInt64.ofNat_toNat]⟩

/-- The pending segment is not an archive. -/
theorem archSuffixValue_pendingName (S : Site) : archSuffixValue S S.pendingName = none := by
  cases h : archSuffixValue S S.pendingName with
  | none => rfl
  | some v =>
    obtain ⟨ds, hname, -, hall, -⟩ := archSuffixValue_eq_some_iff.mp h
    have hsplit : lit ".pending" = lit "." ++ lit "pending" := by decide
    rw [Site.pendingName, hsplit, List.append_assoc, List.append_cancel_left_eq] at hname
    have hp : (112 : UInt8) ∈ ds := by
      rw [← List.append_cancel_left hname]
      decide
    exact absurd (hall _ hp) (by decide)

/-- The entry is a regular file of the broker with the name of an archive. -/
def Fs.IsArchive (S : Site) (fs : Fs) (e : Bytes × ℕ) : Prop :=
  archSuffixValue S e.1 ≠ none ∧ (fs.node e.2).kind = .regular ∧ (fs.node e.2).owner = S.euid

instance (S : Site) (fs : Fs) (e : Bytes × ℕ) : Decidable (fs.IsArchive S e) :=
  inferInstanceAs (Decidable (_ ∧ _ ∧ _))

/-- The archives in the sink's directory. -/
def Fs.archives (S : Site) (fs : Fs) : List (Bytes × ℕ) := fs.dir.filter fun e => fs.IsArchive S e

/-- The archives whose path fits the buffer of `apply_retention`. -/
def Fs.listed (S : Site) (fs : Fs) : List (Bytes × ℕ) :=
  fs.dir.filter fun e => fs.IsArchive S e ∧ S.entryTooLong e.1 = false

/-- The number in the name of an archive. -/
def Site.suffix (S : Site) (e : Bytes × ℕ) : UInt64 := (archSuffixValue S e.1).getD 0

/-- The size of a file. -/
def Fs.size (fs : Fs) (e : Bytes × ℕ) : ℕ := (fs.node e.2).bytes.length

/-- What `apply_retention` notes about an archive. -/
def Fs.archive (S : Site) (fs : Fs) (e : Bytes × ℕ) : Archive where
  name := e.1
  suffix := S.suffix e
  size := UInt64.ofNat (fs.size e)

/-- Both bounds hold for an active segment and archives of these sizes; a zero bound is none. -/
def Config.Fits (cfg : Config) (active : ℕ) (sizes : List ℕ) : Prop :=
  (cfg.retainSegments = 0 ∨ sizes.length ≤ cfg.retainSegments.toNat) ∧
    (cfg.retainBytes = 0 ∨ active + sizes.sum ≤ cfg.retainBytes.toNat)

instance (cfg : Config) (active : ℕ) (sizes : List ℕ) : Decidable (cfg.Fits active sizes) :=
  inferInstanceAs (Decidable (_ ∧ _))

theorem Config.Fits.perm {active : ℕ} {l l' : List ℕ} (h : cfg.Fits active l) (hp : l.Perm l') :
    cfg.Fits active l' := by
  rw [Config.Fits, ← hp.length_eq, ← hp.sum_eq]
  exact h

/-! ## The scan -/

/-- Without faults the scan lists the archives whose path fits, and nothing else. -/
theorem scanArchives_of_faultless (hE : E.Faultless) (dir : List (Bytes × ℕ)) (w : World) :
    (scanArchives S E dir w).1 =
      (dir.filter fun e => w.fs.IsArchive S e ∧ S.entryTooLong e.1 = false).map
        (w.fs.archive S) := by
  induction dir generalizing w with
  | nil => rfl
  | cons e dir ih =>
    obtain ⟨name, i⟩ := e
    have hnext : w.tick.fs = w.fs := rfl
    rw [scanArchives]
    cases hsuffix : archSuffixValue S name with
    | none =>
      rw [List.filter_cons_of_neg (by simp [Fs.IsArchive, hsuffix])]
      exact ih w
    | some v =>
      simp only [hE.plain]
      cases hlong : S.entryTooLong name with
      | true =>
        rw [List.filter_cons_of_neg (by simp [hlong])]
        exact ih w
      | false =>
        by_cases hfile : (w.fs.node i).kind = .regular ∧ (w.fs.node i).owner = S.euid
        · have hv : S.suffix (name, i) = v := by rw [Site.suffix, hsuffix, Option.getD_some]
          rw [List.filter_cons_of_pos (by simp [Fs.IsArchive, hsuffix, hlong, hfile]),
            List.map_cons, Fs.archive, hv]
          simp only [hnext, hfile, and_self, if_true, Bool.false_eq_true, if_false]
          rw [ih w.tick]
          rfl
        · rw [List.filter_cons_of_neg (by simp [Fs.IsArchive, hlong]; tauto)]
          simp only [hnext, hfile, if_false, Bool.false_eq_true]
          exact ih w.tick

/-! ## The pruning loop -/

/-- The archives that the pruning loop removes, each with the count and the total before it. -/
def pruneTrace (S : Site) (E : Env) (cfg : Config) :
    List Archive → ℕ → UInt64 → World → List (Archive × ℕ × UInt64)
  | [], _, _, _ => []
  | a :: rest, archives, total, w =>
    let overCount := cfg.retainSegments ≠ 0 ∧ cfg.retainSegments.toNat < archives
    let overBytes := cfg.retainBytes ≠ 0 ∧ cfg.retainBytes < total
    if ¬overCount ∧ ¬overBytes then []
    else if S.entryTooLong a.name then pruneTrace S E cfg rest archives total w
    else
      match World.unlink E a.name w with
      | (true, w) =>
        (a, archives, total) :: pruneTrace S E cfg rest (archives - 1) (total - a.size) w
      | (false, w) => pruneTrace S E cfg rest archives total w

/-- The removals of `apply_retention`. -/
def retentionTrace (S : Site) (E : Env) (cfg : Config) (segBytes : UInt64) (w : World) :
    List (Archive × ℕ × UInt64) :=
  if cfg.retainSegments = 0 ∧ cfg.retainBytes = 0 then []
  else if (S.dirPath.getD []).length ≥ pathMax then []
  else
    match World.plain E .opendir w with
    | (false, _) => []
    | (true, w) =>
      let scan := scanArchives S E w.fs.dir w
      let ents := scan.1.insertionSort fun a b => a.suffix ≤ b.suffix
      let total := ents.foldl (fun t a => t + a.size) segBytes
      pruneTrace S E cfg ents ents.length total scan.2

/-- Without the names of a list. -/
def Fs.without (fs : Fs) (names : List Bytes) : Fs :=
  { fs with dir := fs.dir.filter fun e => e.1 ∉ names }

theorem Fs.without_nil (fs : Fs) : fs.without [] = fs := by
  simp [Fs.without]

theorem Fs.without_remove (fs : Fs) (name : Bytes) (names : List Bytes) :
    (fs.remove name).without names = fs.without (name :: names) := by
  simp only [Fs.without, Fs.remove, List.filter_filter, Fs.mk.injEq, and_true]
  refine List.filter_congr fun e _ => ?_
  by_cases h : e.1 = name <;> simp [h]

/-- The loop's test is the two bounds, as long as its counters are right. -/
theorem fits_iff (cfg : Config) {active archives : ℕ} {total : UInt64} {sizes : List ℕ}
    (hcount : archives = sizes.length) (htotal : total.toNat = active + sizes.sum) :
    (¬(cfg.retainSegments ≠ 0 ∧ cfg.retainSegments.toNat < archives) ∧
      ¬(cfg.retainBytes ≠ 0 ∧ cfg.retainBytes < total)) ↔ cfg.Fits active sizes := by
  rw [Config.Fits, UInt64.lt_iff_toNat_lt, htotal, hcount, not_and_or, not_and_or, not_lt, not_lt,
    not_ne_iff, not_ne_iff]

/-- What the loop did: it removed the first `n` archives, each of them with a bound exceeded. -/
structure Pruned (cfg : Config) (active : ℕ) (fs : Fs) (es : List (Bytes × ℕ)) (n : ℕ)
    (trace : List (Archive × ℕ × UInt64)) (before after : Fs) : Prop where
  after_eq : after = before.without ((es.take n).map Prod.fst)
  names : trace.map (fun x => x.1.name) = (es.take n).map Prod.fst
  counters : ∀ x ∈ trace, 1 ≤ x.2.1 ∧ x.1.size ≤ x.2.2
  enough : cfg.Fits active ((es.drop n).map fs.size) ∨ es.drop n = []
  needed : ∀ i < n, i < es.length → ¬cfg.Fits active ((es.drop i).map fs.size)

/-- The archives of the list are still in the directory when the loop gets to them. -/
theorem pruneLoop_of_faultless (cfg : Config) (hE : E.Faultless) {es : List (Bytes × ℕ)}
    {active : ℕ} (archives : ℕ) (total : UInt64) (pruned : Bool) (w : World)
    (hlong : ∀ e ∈ es, S.entryTooLong e.1 = false)
    (hnd : (es.map Prod.fst).Nodup) (hdir : ∀ e ∈ es, w.fs.lookup e.1 ≠ none)
    (hcount : archives = es.length) (htotal : total.toNat = active + (es.map fs.size).sum) :
    ∃ n, Pruned cfg active fs es n
      (pruneTrace S E cfg (es.map (fs.archive S)) archives total w) w.fs
      (pruneLoop S E cfg (es.map (fs.archive S)) archives total pruned w).2.fs := by
  induction es generalizing archives total pruned w with
  | nil => exact ⟨0, (Fs.without_nil _).symm, rfl, by simp [pruneTrace], .inr rfl, by simp⟩
  | cons e es ih =>
    have hsize : (UInt64.ofNat (fs.size e)).toNat = fs.size e := by
      have hlt := total.toNat_lt
      rw [htotal, List.map_cons, List.sum_cons] at hlt
      exact UInt64.toNat_ofNat_of_lt' (show fs.size e < 2 ^ 64 by omega)
    have hlen : archives = ((e :: es).map fs.size).length := by rwa [List.length_map]
    have htest := fits_iff cfg hlen htotal
    rw [List.map_cons, pruneLoop, pruneTrace]
    by_cases hfits : cfg.Fits active ((e :: es).map fs.size)
    · rw [if_pos (htest.mpr hfits), if_pos (htest.mpr hfits)]
      exact ⟨0, (Fs.without_nil _).symm, rfl, by simp, .inl hfits, by simp⟩
    rw [if_neg (mt htest.mp hfits), if_neg (mt htest.mp hfits)]
    rw [List.map_cons, List.sum_cons] at htotal
    rw [List.length_cons] at hcount
    have hle : UInt64.ofNat (fs.size e) ≤ total := by
      rw [UInt64.le_iff_toNat_le, hsize]
      omega
    have hshort : S.entryTooLong (fs.archive S e).name = false := hlong e (by simp)
    obtain ⟨i, hi⟩ := Option.ne_none_iff_exists'.mp (hdir e (by simp))
    have hunlink : World.unlink E (fs.archive S e).name w =
        (true, w.tickFs (w.fs.remove e.1)) := by
      change World.unlink E e.1 w = _
      rw [World.unlink, hE.outcome, hi]
    rw [List.map_cons, List.nodup_cons] at hnd
    simp only [hshort, Bool.false_eq_true, if_false, hunlink]
    -- the counters stay right: this archive was counted, and its size is part of the total
    obtain ⟨n, hn⟩ := ih (archives - 1) (total - (fs.archive S e).size) true
      (w.tickFs (w.fs.remove e.1))
      (fun f hf => hlong f (by simp [hf])) hnd.2
      (fun f hf => by
        have hne : f.1 ≠ e.1 := fun h => hnd.1 (h ▸ List.mem_map_of_mem hf)
        change (w.fs.remove e.1).lookup f.1 ≠ none
        rw [Fs.lookup_remove_of_ne hne]
        exact hdir f (by simp [hf]))
      (by omega)
      (by
        change (total - UInt64.ofNat (fs.size e)).toNat = _
        rw [UInt64.toNat_sub_of_le _ _ hle, hsize]
        omega)
    refine ⟨n + 1, ?_, ?_, ?_, hn.enough, ?_⟩
    · rw [hn.after_eq]
      exact Fs.without_remove _ _ _
    · rw [List.map_cons, hn.names]
      rfl
    · rintro x hx
      rcases List.mem_cons.mp hx with rfl | hx
      · exact ⟨by simp only; omega, hle⟩
      · exact hn.counters x hx
    · rintro (_ | i) hi hlen
      · exact hfits
      · exact hn.needed i (by omega) (by simpa using hlen)

/-! ## Retention as a whole -/

/-- `removed` is the least that has to go for both bounds to hold, oldest first. -/
structure Retained (S : Site) (cfg : Config) (active : ℕ) (fs fs' : Fs)
    (removed : List (Bytes × ℕ)) : Prop where
  /-- Only archives are removed, the sink and the pending segment in particular are not. -/
  files : ∀ e ∈ removed, (∃ n, S.NamesArchive e.1 n) ∧ (fs.node e.2).kind = .regular ∧
    (fs.node e.2).owner = S.euid ∧ e.1 ≠ S.base ∧ e.1 ≠ S.pendingName
  /-- Everything else stays as it is. -/
  dir : fs'.dir = fs.dir.filter fun e => e.1 ∉ removed.map Prod.fst
  node : fs'.node = fs.node
  split : (removed ++ fs'.listed S).Perm (fs.listed S)
  oldest : ∀ r ∈ removed, ∀ k ∈ fs'.listed S, S.suffix r ≤ S.suffix k
  enough : cfg.Fits active ((fs'.listed S).map fs.size) ∨ fs'.listed S = []
  needed : ∀ e, removed.getLast? = some e → ¬cfg.Fits active ((e :: fs'.listed S).map fs.size)

theorem Fs.isArchive_of_mem_listed {e : Bytes × ℕ} (h : e ∈ fs.listed S) : fs.IsArchive S e := by
  have hp := (List.mem_filter.mp h).2
  simp only [decide_eq_true_eq] at hp
  exact hp.1

theorem Fs.IsArchive.file {e : Bytes × ℕ} (h : fs.IsArchive S e) :
    (∃ n, S.NamesArchive e.1 n) ∧ (fs.node e.2).kind = .regular ∧ (fs.node e.2).owner = S.euid ∧
      e.1 ≠ S.base ∧ e.1 ≠ S.pendingName := by
  obtain ⟨hname, hkind, howner⟩ := h
  obtain ⟨v, hv⟩ := Option.ne_none_iff_exists'.mp hname
  refine ⟨⟨_, archSuffixValue_eq_some_iff.mp hv⟩, hkind, howner, ?_, ?_⟩
  · intro h
    exact hname (h ▸ archSuffixValue_base S)
  · intro h
    exact hname (h ▸ archSuffixValue_pendingName S)

/-- Nothing to do. -/
theorem Retained.refl {active : ℕ}
    (h : cfg.Fits active ((fs.listed S).map fs.size) ∨ fs.listed S = []) :
    Retained S cfg active fs fs [] where
  files := by simp
  dir := by simp
  node := rfl
  split := .refl _
  oldest := by simp
  enough := h
  needed := by simp

/-- What is left of a list without repetitions when the names of its start are taken out. -/
theorem filter_notMem_take {es : List (Bytes × ℕ)} (hnd : (es.map Prod.fst).Nodup) (n : ℕ) :
    (es.filter fun e => e.1 ∉ (es.take n).map Prod.fst) = es.drop n := by
  conv_lhs => rw [← List.take_append_drop n es]
  rw [List.filter_append]
  rw [← List.take_append_drop n es, List.map_append, List.nodup_append] at hnd
  have htake : ((es.take n).filter fun e => e.1 ∉ (es.take n).map Prod.fst) = [] := by
    rw [List.filter_eq_nil_iff]
    intro e he
    simp only [decide_not, Bool.not_eq_true', decide_eq_false_iff_not, not_not]
    exact List.mem_map_of_mem he
  have hdrop : ((es.drop n).filter fun e => e.1 ∉ (es.take n).map Prod.fst) = es.drop n := by
    rw [List.filter_eq_self]
    intro e he
    rw [decide_eq_true_eq]
    intro hmem
    exact hnd.2.2 _ hmem _ (List.mem_map_of_mem he) rfl
  rw [List.take_append_drop, htake, hdrop, List.nil_append]

/-- The first `n` of the sorted archives are removed, each of them with a bound exceeded. -/
theorem Retained.of_pruned {active n : ℕ} {es : List (Bytes × ℕ)} {fs' : Fs}
    {trace : List (Archive × ℕ × UInt64)} (hnames : (fs.dir.map Prod.fst).Nodup)
    (hperm : es.Perm (fs.listed S)) (hsorted : es.Pairwise fun a b => S.suffix a ≤ S.suffix b)
    (h : Pruned cfg active fs es n trace fs fs') : Retained S cfg active fs fs' (es.take n) := by
  have hnd : (es.map Prod.fst).Nodup :=
    (hperm.map _).nodup_iff.mpr (hnames.sublist (List.filter_sublist.map _))
  have hlisted : (fs'.listed S).Perm (es.drop n) := by
    rw [h.after_eq, ← filter_notMem_take hnd n]
    refine .trans (.of_eq ?_) (hperm.symm.filter _)
    change (List.filter _ (List.filter _ _)) = List.filter _ (List.filter _ _)
    rw [List.filter_filter, List.filter_filter]
    exact List.filter_congr fun e _ => Bool.and_comm _ _
  have hmem : ∀ e ∈ es.take n, fs.IsArchive S e := fun e he =>
    Fs.isArchive_of_mem_listed (hperm.mem_iff.mp (List.mem_of_mem_take he))
  refine
    { files := fun e he => (hmem e he).file
      dir := by rw [h.after_eq]; rfl
      node := by rw [h.after_eq]; rfl
      split := ?_
      oldest := ?_
      enough := ?_
      needed := ?_ }
  · refine .trans ?_ hperm
    conv_rhs => rw [← List.take_append_drop n es]
    exact hlisted.append_left _
  · intro r hr k hk
    rw [← List.take_append_drop n es, List.pairwise_append] at hsorted
    exact hsorted.2.2 r hr k (hlisted.mem_iff.mp hk)
  · rcases h.enough with hfits | hnil
    · exact .inl (hfits.perm (hlisted.map _).symm)
    · exact .inr (List.perm_nil.mp (hnil ▸ hlisted))
  · intro e he hfits
    -- the last one removed is the head of what was left just before
    obtain ⟨pre, hpre⟩ := List.getLast?_eq_some_iff.mp he
    have hes : es = pre ++ e :: es.drop n := by
      conv_lhs => rw [← List.take_append_drop n es, hpre]
      rw [List.append_assoc, List.singleton_append]
    have hlt : pre.length < n := by
      have hlen := congrArg List.length hpre
      rw [List.length_take, List.length_append, List.length_singleton] at hlen
      omega
    have hdrop : es.drop pre.length = e :: es.drop n := by
      conv_lhs => rw [hes]
      exact List.drop_left
    refine h.needed pre.length hlt ?_ ?_
    · have hlen := congrArg List.length hes
      rw [List.length_append, List.length_cons] at hlen
      omega
    · rw [hdrop]
      exact hfits.perm ((hlisted.cons e).map _)

theorem toNat_foldl_size (S : Site) (fs : Fs) (active : UInt64) (es : List (Bytes × ℕ))
    (h : active.toNat + (es.map fs.size).sum < 2 ^ 64) :
    ((es.map (fs.archive S)).foldl (fun t a => t + a.size) active).toNat =
      active.toNat + (es.map fs.size).sum := by
  induction es generalizing active with
  | nil => rfl
  | cons e es ih =>
    rw [List.map_cons, List.sum_cons] at h
    have hsize : (UInt64.ofNat (fs.size e)).toNat = fs.size e :=
      UInt64.toNat_ofNat_of_lt' (show fs.size e < 2 ^ 64 by omega)
    have hadd : (active + UInt64.ofNat (fs.size e)).toNat = active.toNat + fs.size e := by
      rw [UInt64.toNat_add, hsize, Nat.mod_eq_of_lt (by omega)]
    rw [List.map_cons, List.foldl_cons, List.map_cons, List.sum_cons]
    change ((es.map (fs.archive S)).foldl _ (active + UInt64.ofNat (fs.size e))).toNat = _
    rw [ih _ (by rw [hadd]; omega), hadd]
    omega

/-- The directory sync at the end changes no entry. -/
theorem Retained.synced {active : ℕ} {w : World} {removed : List (Bytes × ℕ)}
    (h : Retained S cfg active fs w.fs removed) :
    Retained S cfg active fs (World.rabFsyncParentDir E w).2.fs removed := by
  have hdir : (World.rabFsyncParentDir E w).2.fs.dir = w.fs.dir := by
    unfold World.rabFsyncParentDir
    split <;> rfl
  have hnode : (World.rabFsyncParentDir E w).2.fs.node = w.fs.node := by
    unfold World.rabFsyncParentDir
    split <;> rfl
  have hlisted : (World.rabFsyncParentDir E w).2.fs.listed S = w.fs.listed S := by
    rw [Fs.listed, Fs.listed, hdir]
    refine List.filter_congr fun e _ => ?_
    rw [decide_eq_decide, Fs.IsArchive, Fs.IsArchive, hnode]
  exact ⟨h.files, hdir.trans h.dir, hnode.trans h.node, hlisted ▸ h.split, hlisted ▸ h.oldest,
    hlisted ▸ h.enough, hlisted ▸ h.needed⟩

/-- With no archive to count, nothing changes. -/
theorem applyRetention_of_listed_eq_nil (hE : E.Faultless) (cfg : Config) (segBytes : UInt64)
    {w : World} (h : w.fs.listed S = []) : (applyRetention S E cfg segBytes w).fs = w.fs := by
  have hscan : (scanArchives S E w.tick.fs.dir w.tick).1 = [] := by
    rw [scanArchives_of_faultless hE, List.map_eq_nil_iff]
    exact h
  unfold applyRetention
  split
  · rfl
  split
  · rfl
  simp only [hE.plain, hscan, List.insertionSort_nil, pruneLoop]
  exact (scanArchives_spec S E w.tick.fs.dir w.tick).1

/-- A directory whose own path is too long has no archive with a path that fits. -/
theorem Fs.listed_eq_nil (h : (S.dirPath.getD []).length ≥ pathMax) : fs.listed S = [] := by
  rw [Fs.listed, List.filter_eq_nil_iff]
  intro e _
  have hlong : S.entryTooLong e.1 = true := by
    unfold Site.entryTooLong
    cases hdir : S.dirPath with
    | none => simp [hdir] at h
    | some d =>
      rw [hdir, Option.getD_some] at h
      cases d with
      | nil => simp at h
      | cons c d =>
        simp only [List.length_append, decide_eq_true_eq]
        omega
  simp [hlong]

/-- Without faults retention removes the least it must of the archives whose path fits, oldest first
and nothing else; its counters never go below zero. -/
theorem retention_minimal (hE : E.Faultless) (cfg : Config) (segBytes : UInt64) (w : World)
    (hnames : (w.fs.dir.map Prod.fst).Nodup)
    (hsum : segBytes.toNat + ((w.fs.listed S).map w.fs.size).sum < 2 ^ 64) :
    ∃ removed, Retained S cfg segBytes.toNat w.fs (applyRetention S E cfg segBytes w).fs removed ∧
      (retentionTrace S E cfg segBytes w).map (fun x => x.1.name) = removed.map Prod.fst ∧
      ∀ x ∈ retentionTrace S E cfg segBytes w, 1 ≤ x.2.1 ∧ x.1.size ≤ x.2.2 := by
  unfold applyRetention retentionTrace
  split
  · rename_i hzero
    exact ⟨[], .refl (.inl ⟨.inl hzero.1, .inl hzero.2⟩), rfl, by simp⟩
  split
  · rename_i hlong
    exact ⟨[], .refl (.inr (Fs.listed_eq_nil hlong)), rfl, by simp⟩
  simp only [hE.plain]
  let es := (w.fs.listed S).insertionSort fun a b => S.suffix a ≤ S.suffix b
  have hperm : es.Perm (w.fs.listed S) := List.perm_insertionSort _ _
  have hents : (scanArchives S E w.tick.fs.dir w.tick).1.insertionSort
      (fun a b => a.suffix ≤ b.suffix) = es.map (w.fs.archive S) := by
    rw [scanArchives_of_faultless hE]
    exact (List.map_insertionSort (fun a b => S.suffix a ≤ S.suffix b)
      (fun a b : Archive => a.suffix ≤ b.suffix) (w.fs.archive S) (w.fs.listed S)
      fun _ _ _ _ => Iff.rfl).symm
  have hlong : ∀ e ∈ es, S.entryTooLong e.1 = false := by
    intro e he
    have hp := (List.mem_filter.mp (hperm.mem_iff.mp he)).2
    simp only [decide_eq_true_eq] at hp
    exact hp.2
  have hfs : (scanArchives S E w.tick.fs.dir w.tick).2.fs = w.fs :=
    (scanArchives_spec S E w.tick.fs.dir w.tick).1
  have hdir : ∀ e ∈ es, (scanArchives S E w.tick.fs.dir w.tick).2.fs.lookup e.1 ≠ none := by
    intro e he
    have hmem : e ∈ w.fs.dir := List.mem_of_mem_filter (hperm.mem_iff.mp he)
    rw [hfs, Fs.lookup, ne_eq, Option.map_eq_none_iff, List.find?_eq_none]
    intro h
    exact absurd (h e hmem) (by simp)
  have htotal := toNat_foldl_size S w.fs segBytes es (by rwa [(hperm.map _).sum_eq])
  rw [hents, List.length_map]
  obtain ⟨n, hn⟩ := pruneLoop_of_faultless cfg hE es.length _ false _ hlong
    ((hperm.map _).nodup_iff.mpr (hnames.sublist (List.filter_sublist.map _))) hdir rfl htotal
  rw [hfs] at hn
  have hsorted : es.Pairwise fun a b => S.suffix a ≤ S.suffix b := List.pairwise_insertionSort _ _
  have hret := Retained.of_pruned hnames hperm hsorted hn
  refine ⟨es.take n, ?_, hn.names, hn.counters⟩
  split
  · rename_i w₁ heq
    rw [heq] at hret
    exact hret.synced
  · rename_i w₁ heq
    rw [heq] at hret
    exact hret

namespace Sample

/-- The sink, a pending segment and two archives, of which the lexically first is the newer one. -/
def archived : World where
  fs :=
    { dir := [(lit "audit.jsonl", 0), (lit "audit.jsonl.20", 1), (lit "audit.jsonl.3", 2),
        (lit "audit.jsonl.pending", 3)]
      node := fun i =>
        { bytes := List.replicate i 0, kind := .regular, owner := 0, worldWritable := false }
      next := 4
      undo := none }
  calls := 0

/-- One archive may stay. -/
def keepOne : Config := { config with retainSegments := 1, retainBytes := 0 }

/-- A sink whose path leaves room for a rotation's archive name, but not for much more. -/
def deepSite : Site := { site with dirPath := some (List.replicate 4070 97), base := lit "s" }

/-- Archive names with leading zeros. -/
def padded (d : UInt8) : Bytes := lit "s." ++ (List.replicate 29 48 ++ [d])

/-- The sink and two archives with such names. -/
def paddedWorld : World where
  fs :=
    { dir := [(lit "s", 0), (padded 49, 1), (padded 50, 2)]
      node := fun i =>
        { bytes := List.replicate i 0, kind := .regular, owner := 0, worldWritable := false }
      next := 3
      undo := none }
  calls := 0

theorem entryTooLong_padded (d : UInt8) : deepSite.entryTooLong (padded d) = true := by
  have hdir : deepSite.dirPath = some (97 :: List.replicate 4069 97) := rfl
  have hbase : (lit "s.").length = 2 := by decide
  have hslash : (lit "/").length = 1 := by decide
  rw [Site.entryTooLong, hdir]
  simp only [padded, List.length_append, List.length_cons, List.length_replicate, List.length_nil,
    hbase, hslash, decide_eq_true_eq]
  norm_num

end Sample

/-- Of two archives the one with the smaller number is removed, whatever the order of the names. -/
theorem retention_minimal_two :
    (∃ removed, Retained Sample.site Sample.keepOne (0 : UInt64).toNat Sample.archived.fs
        (applyRetention Sample.site (Sample.env 1 0) Sample.keepOne 0 Sample.archived).fs removed ∧
      (retentionTrace Sample.site (Sample.env 1 0) Sample.keepOne 0 Sample.archived).map
        (fun x => x.1.name) = removed.map Prod.fst ∧
      ∀ x ∈ retentionTrace Sample.site (Sample.env 1 0) Sample.keepOne 0 Sample.archived,
        1 ≤ x.2.1 ∧ x.1.size ≤ x.2.2) ∧
    (applyRetention Sample.site (Sample.env 1 0) Sample.keepOne 0 Sample.archived).fs.dir =
      [(lit "audit.jsonl", 0), (lit "audit.jsonl.20", 1), (lit "audit.jsonl.pending", 3)] :=
  ⟨retention_minimal (Sample.faultless 1 0) _ _ _ (by decide +kernel) (by decide +kernel),
    by decide +kernel⟩

/-- Archives whose path does not fit `PATH_MAX` are neither counted nor removed: two of them stay
where one may, although a rotation of this sink works. -/
theorem long_archives_kept :
    (∀ e ∈ Sample.paddedWorld.fs.dir.tail, Sample.paddedWorld.fs.IsArchive Sample.deepSite e) ∧
    Sample.deepSite.pendingTooLong = false ∧ Sample.deepSite.archTooLong 1700000000000000 = false ∧
    (applyRetention Sample.deepSite (Sample.env 1 0) Sample.keepOne 0 Sample.paddedWorld).fs.dir =
      Sample.paddedWorld.fs.dir ∧
    ¬Sample.keepOne.Fits 0 ((Sample.paddedWorld.fs.archives Sample.deepSite).map
      Sample.paddedWorld.fs.size) := by
  have hpath : Sample.deepSite.path.length = 4072 := by
    change (List.replicate 4070 97 ++ lit "/" ++ lit "s").length = 4072
    rw [List.length_append, List.length_append, List.length_replicate]
    decide
  have hsink : archSuffixValue Sample.deepSite (lit "s") = none := archSuffixValue_base _
  have hlisted : Sample.paddedWorld.fs.listed Sample.deepSite = [] := by
    rw [Fs.listed, List.filter_eq_nil_iff]
    simp [Sample.paddedWorld, Sample.entryTooLong_padded, Fs.IsArchive, hsink]
  refine ⟨by decide +kernel, ?_, ?_, ?_, by decide +kernel⟩
  · rw [Site.pendingTooLong, List.length_append, hpath]
    decide
  · rw [Site.archTooLong, List.length_append, List.length_append, hpath]
    decide +kernel
  · rw [applyRetention_of_listed_eq_nil (Sample.faultless 1 0) _ _ hlisted]

end AuditBroker
