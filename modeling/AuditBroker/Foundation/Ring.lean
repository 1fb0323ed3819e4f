import Mathlib.Data.Nat.ModEq
import Mathlib.Data.List.TakeWhile
import Mathlib.Data.UInt
import Mathlib.Logic.Function.Basic

/-!
# Circular buffers and sliding windows

`ringList a cap head n` is the content of a circular buffer: the `n` cells of the array `a` from
`head` on, indices taken modulo `cap`.  Writing the cell after the last one appends to the list
(`ringList_push`), moving the head drops the first element (`ringList_succ_head`).

A sliding window over a stream of timestamped items keeps the items that are not older than a
threshold.  `evict` drops the old items from the front; `Recent` says that a list is a final part of
a stream whose missing part is older than a threshold, which is all that a window needs to know of
its stream.
-/

namespace Foundation

variable {α : Type*}

/-! ## Circular buffers -/

/-- The `n` cells from `head` on, indices modulo `cap`. -/
def ringList (a : ℕ → α) (cap head n : ℕ) : List α :=
  (List.range n).map fun k => a ((head + k) % cap)

@[simp] theorem length_ringList (a : ℕ → α) (cap head n : ℕ) :
    (ringList a cap head n).length = n := by
  simp [ringList]

@[simp] theorem ringList_zero (a : ℕ → α) (cap head : ℕ) : ringList a cap head 0 = [] := rfl

/-- The last cell. -/
theorem ringList_succ (a : ℕ → α) (cap head n : ℕ) :
    ringList a cap head (n + 1) = ringList a cap head n ++ [a ((head + n) % cap)] := by
  simp [ringList, List.range_succ]

/-- The first cell, and the rest from the next cell on. -/
theorem ringList_succ_head {a : ℕ → α} {cap head n : ℕ} (h : head < cap) :
    ringList a cap head (n + 1) = a head :: ringList a cap ((head + 1) % cap) n := by
  rw [ringList, List.range_succ_eq_map, List.map_cons, Nat.add_zero, Nat.mod_eq_of_lt h,
    List.map_map]
  congr 1
  refine List.map_congr_left fun k _ => ?_
  simp only [Function.comp_apply, Nat.succ_eq_add_one, Nat.mod_add_mod]
  congr 2
  omega

/-- Cells of one buffer at different positions are different. -/
theorem ringSlot_ne {cap head k n : ℕ} (hk : k < n) (hn : n < cap) :
    (head + k) % cap ≠ (head + n) % cap := by
  intro h
  have hmod : k ≡ n [MOD cap] := Nat.ModEq.add_left_cancel' head h
  exact absurd (hmod.eq_of_lt_of_lt (by omega) hn) (by omega)

/-- Writing the cell after the last one appends. -/
theorem ringList_push {a : ℕ → α} {cap head n : ℕ} (x : α) (hn : n < cap) :
    ringList (Function.update a ((head + n) % cap) x) cap head (n + 1) =
      ringList a cap head n ++ [x] := by
  rw [ringList_succ, Function.update_self]
  congr 1
  refine List.map_congr_left fun k hk => ?_
  exact Function.update_of_ne (ringSlot_ne (List.mem_range.mp hk) hn) _ _

/-- An index computed in 32 bits is the intended one while the sum does not wrap around. -/
theorem toNat_ringSlot {head k cap : UInt32} (h : head.toNat + k.toNat < 2 ^ 32) :
    ((head + k) % cap).toNat = (head.toNat + k.toNat) % cap.toNat := by
  rw [UInt32.toNat_mod, UInt32.toNat_add, Nat.mod_eq_of_lt h]

/-! ## Sliding windows -/

section Window

variable (time : α → UInt64)

/-- Drop the items older than the threshold from the front. -/
def evict (th : UInt64) (l : List α) : List α := l.dropWhile fun x => time x < th

/-- `l` is a final part of the stream, and what is missing is older than the threshold. -/
def Recent (th : UInt64) (stream l : List α) : Prop :=
  ∃ old, stream = old ++ l ∧ ∀ x ∈ old, time x < th

variable {time} {th th' : UInt64} {stream l l' : List α}

theorem Recent.refl (th : UInt64) (l : List α) : Recent time th l l := ⟨[], rfl, by simp⟩

theorem Recent.mono (h : Recent time th stream l) (hth : th ≤ th') : Recent time th' stream l := by
  obtain ⟨old, rfl, hold⟩ := h
  exact ⟨old, rfl, fun x hx => UInt64.lt_of_lt_of_le (hold x hx) hth⟩

theorem Recent.append (h : Recent time th stream l) (x : α) :
    Recent time th (stream ++ [x]) (l ++ [x]) := by
  obtain ⟨old, rfl, hold⟩ := h
  exact ⟨old, by simp, hold⟩

/-- Eviction keeps a final part, and drops only what is older. -/
theorem recent_evict (h : Recent time th stream l) : Recent time th stream (evict time th l) := by
  obtain ⟨old, rfl, hold⟩ := h
  refine ⟨old ++ l.takeWhile fun x => time x < th, ?_, ?_⟩
  · rw [evict, List.append_assoc, List.takeWhile_append_dropWhile]
  · intro x hx
    rcases List.mem_append.mp hx with hx | hx
    · exact hold x hx
    · simpa using List.mem_takeWhile_imp hx

/-- Two final parts of one stream are the same after eviction. -/
theorem evict_eq_of_recent (h : Recent time th stream l) :
    evict time th l = evict time th stream := by
  obtain ⟨old, rfl, hold⟩ := h
  rw [evict, evict, List.dropWhile_append_of_pos]
  intro x hx
  simpa using hold x hx

/-- Dropping the first item is harmless when it is older than the threshold. -/
theorem Recent.tail {x : α} (h : Recent time th stream (x :: l)) (hx : time x < th) :
    Recent time th stream l := by
  obtain ⟨old, rfl, hold⟩ := h
  refine ⟨old ++ [x], by simp, ?_⟩
  intro y hy
  rcases List.mem_append.mp hy with hy | hy
  · exact hold y hy
  · rw [List.mem_singleton] at hy
    exact hy ▸ hx

end Window

end Foundation
