import AuditBroker.Sink
import Mathlib.Data.List.Basic

/-!
# What the system calls leave alone

`Fs.Frame keep own fs fs'` says that going from `fs` to `fs'` kept the names `keep` and the content of
every inode outside `own`.  Every call but `rename` has such a frame, and frames compose, so what a
whole sequence of calls does to the rest of the directory is read off the names and inodes it uses.
-/

namespace AuditBroker

open Foundation

/-! ## Lookup -/

namespace Fs

variable {fs fs' fs'' : Fs} {name n src dst : Bytes} {i : ℕ}

theorem mem_of_lookup (h : fs.lookup name = some i) : (name, i) ∈ fs.dir := by
  rw [lookup, Option.map_eq_some_iff] at h
  obtain ⟨x, hx, rfl⟩ := h
  have hname : x.1 = name := by simpa using List.find?_some hx
  exact hname ▸ List.mem_of_find?_eq_some hx

theorem lookup_create_of_ne (owner : UInt32) (h : n ≠ name) :
    (fs.create name owner).lookup n = fs.lookup n := by
  simp [lookup, create, List.find?_append, Ne.symm h]

theorem lookup_create_self (owner : UInt32) (h : fs.lookup name = none) :
    (fs.create name owner).lookup name = some fs.next := by
  rw [lookup, Option.map_eq_none_iff] at h
  simp [lookup, create, List.find?_append, h]

theorem lookup_remove_of_ne (h : n ≠ name) : (fs.remove name).lookup n = fs.lookup n := by
  unfold lookup remove
  rw [List.find?_filter]
  congr 2
  funext x
  by_cases hx : x.1 = n
  · simp [hx, h]
  · simp [hx]

theorem lookup_remove_self : (fs.remove name).lookup name = none := by
  unfold lookup remove
  simp [List.find?_filter]

theorem lookup_addName_of_ne (h : n ≠ name) : (fs.addName name i).lookup n = fs.lookup n := by
  simp [lookup, addName, List.find?_append, Ne.symm h]

theorem move_of_ne (h : fs.lookup dst ≠ some i) :
    fs.move src dst i =
      { fs with
        dir := (fs.dir.filter fun e => e.1 != src && e.1 != dst) ++ [(dst, i)]
        undo := some fs.dir } :=
  if_neg h

theorem lookup_move_dst : (fs.move src dst i).lookup dst = some i := by
  by_cases hdst : fs.lookup dst = some i
  · rwa [move, if_pos hdst]
  have hnone : (fs.dir.filter fun x => x.1 != src && x.1 != dst).find? (fun x => x.1 == dst) =
      none := by
    rw [List.find?_eq_none]
    intro x hx
    simp only [List.mem_filter, Bool.and_eq_true, bne_iff_ne] at hx
    simp [hx.2.2]
  rw [move_of_ne hdst, lookup, List.find?_append, hnone]
  simp

theorem node_move : (fs.move src dst i).node = fs.node := by
  unfold move
  split <;> rfl

/-- Two writes are one. -/
theorem extend_extend (a b : Bytes) : (fs.extend i a).extend i b = fs.extend i (a ++ b) := by
  simp [extend, List.append_assoc]

theorem extend_nil (fs : Fs) (i : ℕ) : fs.extend i [] = fs := by
  simp [extend]

theorem node_extend_self (b : Bytes) :
    ((fs.extend i b).node i).bytes = (fs.node i).bytes ++ b := by
  simp [extend]

/-! ## Frames -/

/-- Every inode in use is allocated. -/
structure Ok (fs : Fs) : Prop where
  dir_lt : ∀ x ∈ fs.dir, x.2 < fs.next
  undo_lt : ∀ d, fs.undo = some d → ∀ x ∈ d, x.2 < fs.next

theorem Ok.lookup_lt (h : fs.Ok) (hl : fs.lookup name = some i) : i < fs.next :=
  h.dir_lt _ (mem_of_lookup hl)

/-- What changed is not in `keep`, or an inode in `own`. -/
structure Frame (keep : Bytes → Prop) (own : ℕ → Prop) (fs fs' : Fs) : Prop where
  lookup : ∀ name, keep name → fs'.lookup name = fs.lookup name
  node : ∀ i, ¬own i → fs'.node i = fs.node i
  next_le : fs.next ≤ fs'.next
  undo : fs.undo = none → fs'.undo = none
  stale : fs.stale = none → fs'.stale = none
  ok : fs.Ok → fs'.Ok

variable {keep : Bytes → Prop} {own : ℕ → Prop}

theorem Frame.refl (keep : Bytes → Prop) (own : ℕ → Prop) (fs : Fs) : Frame keep own fs fs :=
  ⟨fun _ _ => rfl, fun _ _ => rfl, le_rfl, id, id, id⟩

theorem Frame.trans (h : Frame keep own fs fs') (h' : Frame keep own fs' fs'') :
    Frame keep own fs fs'' where
  lookup name hk := (h'.lookup name hk).trans (h.lookup name hk)
  node i hi := (h'.node i hi).trans (h.node i hi)
  next_le := h.next_le.trans h'.next_le
  undo := h'.undo ∘ h.undo
  stale := h'.stale ∘ h.stale
  ok := h'.ok ∘ h.ok

theorem frame_extend (b : Bytes) (hi : own i) : Frame keep own fs (fs.extend i b) where
  lookup _ _ := rfl
  node j hj := by
    have hne : j ≠ i := fun h => hj (by rwa [h])
    exact Function.update_of_ne hne _ _
  next_le := le_rfl
  undo := id
  stale := id
  ok h := ⟨h.dir_lt, h.undo_lt⟩

theorem frame_remove (hk : ¬keep name) : Frame keep own fs (fs.remove name) where
  lookup _ hm := lookup_remove_of_ne fun h => hk (h ▸ hm)
  node _ _ := rfl
  next_le := le_rfl
  undo := id
  stale := id
  ok h := ⟨fun x hx => h.dir_lt x (List.mem_of_mem_filter hx), h.undo_lt⟩

theorem frame_create (owner : UInt32) (hk : ¬keep name) (ho : own fs.next) :
    Frame keep own fs (fs.create name owner) where
  lookup n hn := lookup_create_of_ne owner fun h => hk (h ▸ hn)
  node j hj := by
    have hne : j ≠ fs.next := fun h => hj (by rwa [h])
    exact Function.update_of_ne hne _ _
  next_le := Nat.le_succ _
  undo := id
  stale := id
  ok h := by
    refine ⟨fun x hx => ?_, fun d hd x hx => Nat.lt_succ_of_lt (h.undo_lt d hd x hx)⟩
    rcases List.mem_append.mp hx with hx | hx
    · exact Nat.lt_succ_of_lt (h.dir_lt x hx)
    · rw [List.mem_singleton] at hx
      exact hx ▸ Nat.lt_succ_self _

theorem frame_addName (hk : ¬keep name) (hi : fs.lookup n = some i) :
    Frame keep own fs (fs.addName name i) where
  lookup m hm := lookup_addName_of_ne fun h => hk (h ▸ hm)
  node _ _ := rfl
  next_le := le_rfl
  undo := id
  stale := id
  ok h := by
    refine ⟨fun x hx => ?_, h.undo_lt⟩
    rcases List.mem_append.mp hx with hx | hx
    · exact h.dir_lt x hx
    · rw [List.mem_singleton] at hx
      exact hx ▸ h.lookup_lt hi

theorem frame_synced (fs : Fs) : Frame keep own fs fs.synced where
  lookup _ _ := rfl
  node _ _ := rfl
  next_le := le_rfl
  undo _ := rfl
  stale _ := rfl
  ok h := ⟨h.dir_lt, fun d hd => absurd hd (by simp [synced])⟩

end Fs

/-! ## The calls -/

namespace World

variable {keep : Bytes → Prop} {own : ℕ → Prop} {name src dst : Bytes} {i : ℕ}

/-- A call that only succeeds or fails leaves the directory alone. -/
theorem fs_of_plain {E : Env} {c : Call} {w w' : World} {b : Bool} (h : plain E c w = (b, w')) :
    w'.fs = w.fs := by
  rw [plain, Prod.mk.injEq] at h
  rw [← h.2]
  rfl

theorem frame_unlink (E : Env) (w : World) (hk : ¬keep name) :
    Fs.Frame keep own w.fs (unlink E name w).2.fs := by
  unfold unlink
  split
  · exact Fs.frame_remove hk
  · exact .refl _ _ _

/-- A name that is there after an attempt to remove it was there before. -/
theorem lookup_of_unlink {E : Env} {w : World}
    (h : (unlink E name w).2.fs.lookup name = some i) : w.fs.lookup name = some i := by
  unfold unlink at h
  split at h
  · exact absurd (Fs.lookup_remove_self.symm.trans h) (by simp)
  · exact h

theorem next_unlink (E : Env) (w : World) : (unlink E name w).2.fs.next = w.fs.next := by
  unfold unlink
  split <;> rfl

theorem frame_link (E : Env) (w : World) (hk : ¬keep dst) :
    Fs.Frame keep own w.fs (link E src dst w).2.fs := by
  unfold link
  split
  · rename_i hsrc _
    exact Fs.frame_addName hk hsrc
  · exact .refl _ _ _

theorem frame_rabFsyncParentDir (E : Env) (w : World) :
    Fs.Frame keep own w.fs (rabFsyncParentDir E w).2.fs := by
  unfold rabFsyncParentDir
  split
  · exact Fs.frame_synced _
  · exact .refl _ _ _

/-- After a directory sync that succeeded no earlier rename is uncertain. -/
theorem durable_of_sync {E : Env} {c : Bool} {w : World}
    (h : (if c then rabFsyncParentDir E w else (false, w)).1 ≠ false) :
    (if c then rabFsyncParentDir E w else (false, w)).2.fs.undo = none ∧
      (if c then rabFsyncParentDir E w else (false, w)).2.fs.stale = none := by
  cases c with
  | false => exact absurd rfl h
  | true =>
    rw [if_pos rfl] at h ⊢
    unfold rabFsyncParentDir at h ⊢
    split
    · exact ⟨rfl, rfl⟩
    · rename_i hfail
      rw [hfail] at h
      exact absurd rfl h

theorem fs_of_write_fail {E : Env} {c : Call} {b : Bytes} {w w' : World} {x : Bool} {k : ℕ}
    (ho : E.outcome c w = .fail k) (h : write E c i b w = (x, w')) :
    w'.fs = w.fs.extend i (b.take k) := by
  rw [write, ho, Prod.mk.injEq] at h
  rw [← h.2]
  rfl

theorem fs_of_write_ok {E : Env} {c : Call} {b : Bytes} {w w' : World} {x : Bool}
    (ho : E.outcome c w = .ok) (h : write E c i b w = (x, w')) :
    w'.fs = w.fs.extend i b := by
  rw [write, ho, Prod.mk.injEq] at h
  rw [← h.2]
  rfl

theorem fs_of_write {E : Env} {c : Call} {b : Bytes} {w w' : World} {x : Bool}
    (h : write E c i b w = (x, w')) :
    ∃ k, w'.fs = w.fs.extend i (b.take k) ∧ (x = true → b.take k = b) := by
  cases ho : E.outcome c w with
  | ok => exact ⟨b.length, by rw [fs_of_write_ok ho h, List.take_length], by simp⟩
  | fail k =>
    refine ⟨k, fs_of_write_fail ho h, fun hx => ?_⟩
    rw [write, ho, Prod.mk.injEq] at h
    exact absurd (h.1.trans hx) (by simp)

/-- What an append writes: the line and its newline, or a part of the line. -/
theorem rabSinkAppend_spec (E : Env) (i : ℕ) (w : World) {line : Bytes} (hline : 10 ∉ line) :
    ∃ b, (rabSinkAppend E i line w).2.fs = w.fs.extend i b ∧
      ((rabSinkAppend E i line w).1 = .torn ∧ 10 ∉ b ∨
        (rabSinkAppend E i line w).1 ≠ .torn ∧ b = line ++ [10]) := by
  have hcont : ¬line.contains 10 = true := by simpa using hline
  unfold rabSinkAppend
  rw [if_neg hcont]
  split
  · rename_i w₁ hlock
    exact ⟨[], by rw [fs_of_plain hlock, Fs.extend_nil], Or.inl ⟨rfl, by simp⟩⟩
  rename_i w₁ hlock
  split
  · rename_i w₂ hwrite
    obtain ⟨k, hk, -⟩ := fs_of_write hwrite
    refine ⟨line.take k, by rw [hk, fs_of_plain hlock], Or.inl ⟨rfl, ?_⟩⟩
    exact fun h => hline (List.mem_of_mem_take h)
  rename_i w₂ hwrite
  obtain ⟨k, hk, hall⟩ := fs_of_write hwrite
  have hfs₂ : w₂.fs = w.fs.extend i line := by rw [hk, hall rfl, fs_of_plain hlock]
  split
  · rename_i ho hnl
    refine ⟨line, ?_, Or.inl ⟨rfl, hline⟩⟩
    rw [fs_of_write_fail ho hnl, List.take_zero, Fs.extend_nil, hfs₂]
  · rename_i n ho hnl
    refine ⟨line ++ [10], ?_, Or.inr ⟨by simp, rfl⟩⟩
    rw [fs_of_write_fail ho hnl, hfs₂, Fs.extend_extend]
    simp
  · rename_i w₃ ho hnl
    have hfs₃ : w₃.fs = w.fs.extend i (line ++ [10]) := by
      rw [fs_of_write_ok ho hnl, hfs₂, Fs.extend_extend]
    split
    · rename_i hsync
      exact ⟨line ++ [10], (fs_of_plain hsync).trans hfs₃, Or.inr ⟨by simp, rfl⟩⟩
    · rename_i hsync
      exact ⟨line ++ [10], (fs_of_plain hsync).trans hfs₃, Or.inr ⟨by simp, rfl⟩⟩

theorem frame_of_sync {E : Env} {w w' : World} {b : Bool} (h : rabFsyncParentDir E w = (b, w')) :
    Fs.Frame keep own w.fs w'.fs := by
  have hframe : Fs.Frame keep own w.fs (rabFsyncParentDir E w).2.fs := frame_rabFsyncParentDir E w
  rwa [h] at hframe

theorem frame_rabSinkOpen (E : Env) (euid : UInt32) (w : World) (hk : ¬keep name)
    (ho : own w.fs.next) : Fs.Frame keep own w.fs (rabSinkOpen E euid name w).2.fs := by
  have hcreate : Fs.Frame keep own w.fs (w.fs.create name euid) := Fs.frame_create euid hk ho
  unfold rabSinkOpen
  split
  · exact .refl _ _ _
  · simp only
    split
    · rename_i hchmod
      exact (fs_of_plain hchmod).symm ▸ hcreate
    rename_i hchmod
    split
    · rename_i hstat
      rw [fs_of_plain hstat, fs_of_plain hchmod]
      exact hcreate
    rename_i w₁ hstat
    have hfs : w₁.fs = w.fs.create name euid := (fs_of_plain hstat).trans (fs_of_plain hchmod)
    rw [← hfs] at hcreate
    split
    · rename_i hsync
      exact hcreate.trans (frame_of_sync hsync)
    · rename_i hsync
      exact hcreate.trans (frame_of_sync hsync)
  · split
    · rename_i hopen
      rw [fs_of_plain hopen]
      exact .refl _ _ _
    rename_i hopen
    split
    · rw [fs_of_plain hopen]
      exact .refl _ _ _
    split
    · rename_i hstat
      rw [fs_of_plain hstat, fs_of_plain hopen]
      exact .refl _ _ _
    rename_i hstat
    split
    · rw [fs_of_plain hstat, fs_of_plain hopen]
      exact .refl _ _ _
    · rw [fs_of_plain hstat, fs_of_plain hopen]
      exact .refl _ _ _

/-- A sink that could be opened was created, or was there as a regular file. -/
theorem rabSinkOpen_eq_some {E : Env} {euid : UInt32} {w w' : World}
    (h : rabSinkOpen E euid name w = (some i, w')) :
    (w.fs.lookup name = none ∧ i = w.fs.next ∧
      w'.fs = (w.fs.create name euid).synced) ∨
    (w.fs.lookup name = some i ∧ w'.fs = w.fs ∧ (w.fs.node i).kind = .regular ∧
      (w.fs.node i).worldWritable = false) := by
  unfold rabSinkOpen at h
  split at h
  · simp at h
  · rename_i hnone
    simp only at h
    split at h
    · simp at h
    rename_i hchmod
    split at h
    · simp at h
    rename_i w₁ hstat
    have hfs : w₁.fs = w.fs.create name euid := (fs_of_plain hstat).trans (fs_of_plain hchmod)
    split at h
    · simp at h
    rename_i hsync
    simp only [Prod.mk.injEq, Option.some_inj] at h
    obtain ⟨rfl, rfl⟩ := h
    refine Or.inl ⟨hnone, rfl, ?_⟩
    unfold rabFsyncParentDir at hsync
    split at hsync
    · rw [Prod.mk.injEq] at hsync
      rw [← hsync.2, ← hfs]
      rfl
    · simp at hsync
  · rename_i j hsome
    split at h
    · simp at h
    rename_i w₁ hopen
    split at h
    · simp at h
    rename_i hkind
    split at h
    · simp at h
    rename_i w₂ hstat
    have hfs : w₁.fs = w.fs := by
      rw [fs_of_plain hopen]
      rfl
    have hfs₂ : w₂.fs = w.fs := (fs_of_plain hstat).trans hfs
    split at h
    · simp at h
    rename_i hww
    simp only [Prod.mk.injEq, Option.some_inj] at h
    obtain ⟨rfl, rfl⟩ := h
    rw [hfs] at hkind
    rw [hfs₂, Bool.not_eq_true] at hww
    exact Or.inr ⟨hsome, hfs₂, not_not.mp hkind, hww⟩

/-! ## Killed processes -/

/-- A killed process stays killed. -/
theorem outcome_of_dead {E : Env} {c : Call} {w : World} {n : ℕ} (h : E.dead n = true)
    (hle : n ≤ w.calls) : E.outcome c w = .fail 0 := by
  have hdead : E.dead w.calls = true := by
    unfold Env.dead at h ⊢
    cases hk : E.killAt with
    | none => simp [hk] at h
    | some k =>
      rw [hk] at h
      simp only [decide_eq_true_eq] at h ⊢
      omega
  rw [Env.outcome, if_pos hdead]

end World

/-- `unlink` fails only on a missing name, or because the process is killed. -/
def Env.UnlinksWork (E : Env) : Prop := ∀ n, E.io .unlink n = .ok

/-- After an `unlink` the name is unused, or the process has been killed. -/
theorem Env.UnlinksWork.lookup_eq_none {E : Env} (hE : E.UnlinksWork) (name : Bytes) (w : World) :
    (World.unlink E name w).2.fs.lookup name = none ∨ E.dead w.calls = true := by
  by_cases hdead : E.dead w.calls = true
  · exact Or.inr hdead
  left
  unfold World.unlink
  rw [Env.outcome, if_neg hdead, hE]
  cases hl : w.fs.lookup name with
  | none => exact hl
  | some i => exact Fs.lookup_remove_self

end AuditBroker
