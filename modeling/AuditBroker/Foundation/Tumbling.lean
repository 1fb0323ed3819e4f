import Mathlib.Algebra.Order.BigOperators.Group.List
import Mathlib.Algebra.Order.Ring.Nat
import Mathlib.Data.List.Induction

/-!
# Tumbling windows

A tumbling window sums up sizes from its start on and starts anew with the first item that comes at
least `W` after its start; `0` is the start of no window.  An item is admitted when it fits what is
left of the window it falls into.

When items come in the order of their times, the sum is that of the items since the start.  It does
not exceed the limit.  Two starts are at least `W` apart, so an interval shorter than `W` meets at
most two windows, and the items in it have at most twice the limit.
-/

namespace Foundation

variable {ε : Type*} (time size : ε → ℕ)

/-- The total size of the items whose time has a property. -/
def totalOf (p : ℕ → Prop) [DecidablePred p] (l : List ε) : ℕ :=
  ((l.filter fun e => p (time e)).map size).sum

section Total

variable {time size} {p q r : ℕ → Prop} [DecidablePred p] [DecidablePred q] [DecidablePred r]
  {l : List ε} {e : ε}

@[simp] theorem totalOf_nil : totalOf time size p [] = 0 := rfl

theorem totalOf_concat_of_pos (h : p (time e)) :
    totalOf time size p (l ++ [e]) = totalOf time size p l + size e := by
  simp [totalOf, List.filter_append, h]

theorem totalOf_concat_of_neg (h : ¬p (time e)) :
    totalOf time size p (l ++ [e]) = totalOf time size p l := by
  simp [totalOf, List.filter_append, h]

theorem totalOf_eq_zero (h : ∀ e ∈ l, ¬p (time e)) : totalOf time size p l = 0 := by
  rw [totalOf, List.filter_eq_nil_iff.mpr fun e he => by simpa using h e he]
  rfl

variable (time size p) in
theorem totalOf_le_concat (l : List ε) (e : ε) :
    totalOf time size p l ≤ totalOf time size p (l ++ [e]) := by
  by_cases h : p (time e)
  · rw [totalOf_concat_of_pos h]
    exact Nat.le_add_right _ _
  · rw [totalOf_concat_of_neg h]

variable (time size) in
/-- A property that is covered by two others. -/
theorem totalOf_le_add (h : ∀ t, p t → q t ∨ r t) (l : List ε) :
    totalOf time size p l ≤ totalOf time size q l + totalOf time size r l := by
  induction l using List.reverseRecOn with
  | nil => exact le_rfl
  | append_singleton l e ih =>
    have hq := totalOf_le_concat time size q l e
    have hr := totalOf_le_concat time size r l e
    by_cases hp : p (time e)
    · rw [totalOf_concat_of_pos hp]
      rcases h _ hp with hqe | hre
      · rw [totalOf_concat_of_pos hqe]
        omega
      · rw [totalOf_concat_of_pos hre]
        omega
    · rw [totalOf_concat_of_neg hp]
      omega

theorem totalOf_mono (h : ∀ t, p t → q t) (l : List ε) :
    totalOf time size p l ≤ totalOf time size q l := by
  have hle := totalOf_le_add time size (r := fun _ => False) (fun t ht => Or.inl (h t ht)) l
  rwa [totalOf_eq_zero (p := fun _ => False) (by simp), Nat.add_zero] at hle

end Total

/-- The state of a tumbling window. -/
structure Tumble where
  start : ℕ
  sum : ℕ

namespace Tumble

variable (W : ℕ) (g : Tumble)

/-- What the window has used up at a time. -/
def used (t : ℕ) : ℕ := if g.start + W ≤ t then 0 else g.sum

/-- An item is summed up. -/
def note (t n : ℕ) : Tumble :=
  if g.start = 0 ∨ g.start + W ≤ t then ⟨t, n⟩ else ⟨g.start, g.sum + n⟩

end Tumble

/-- The window after the items of a list, all of them admitted. -/
structure Tumbled (W limit : ℕ) (l : List ε) (g : Tumble) : Prop where
  /-- Without a window there was no item. -/
  none : g.start = 0 → l = [] ∧ g.sum = 0
  /-- A window starts at the time of an item. -/
  start_mem : g.start ≠ 0 → ∃ e ∈ l, time e = g.start
  /-- Every item is in this window or in an earlier one. -/
  before : ∀ e ∈ l, time e < g.start + W
  sum_eq : g.sum = totalOf time size (g.start ≤ ·) l
  sum_le : g.sum ≤ limit
  /-- The items less than `W` before the start are in one window. -/
  last : ∀ a, g.start < a + W → totalOf time size (fun t => a ≤ t ∧ t < g.start) l ≤ limit
  /-- Any interval shorter than `W`. -/
  interval : ∀ a b, b < a + W → totalOf time size (fun t => a ≤ t ∧ t ≤ b) l ≤ 2 * limit

variable {time size} {W limit : ℕ} {l : List ε} {g : Tumble} {e : ε}

theorem tumbled_nil (W limit : ℕ) : Tumbled time size W limit [] ⟨0, 0⟩ where
  none _ := ⟨rfl, rfl⟩
  start_mem h := absurd rfl h
  before := by simp
  sum_eq := rfl
  sum_le := Nat.zero_le _
  last _ _ := Nat.zero_le _
  interval _ _ _ := Nat.zero_le _

/-- The items since a time within the current window. -/
theorem Tumbled.since_le (h : Tumbled time size W limit l g) {p : ℕ → Prop} [DecidablePred p]
    (hp : ∀ t, p t → g.start ≤ t) : totalOf time size p l ≤ limit :=
  (totalOf_mono hp l).trans (h.sum_eq ▸ h.sum_le)

/-- The first item of a new window. -/
theorem Tumbled.restart (h : Tumbled time size W limit l g) (hW : 0 < W) (hpos : 0 < time e)
    (hfresh : g.start = 0 ∨ g.start + W ≤ time e)
    (hsize : size e ≤ limit) : Tumbled time size W limit (l ++ [e]) ⟨time e, size e⟩ := by
  -- an item of the list is before the new start
  have hlt : ∀ e' ∈ l, time e' < time e := by
    intro e' he'
    rcases hfresh with hzero | hlate
    · rw [(h.none hzero).1] at he'
      cases he'
    · exact (h.before e' he').trans_le hlate
  -- an item less than `W` before it is in the window that ends
  have hold : ∀ (p : ℕ → Prop) [DecidablePred p] (a : ℕ), time e < a + W → (∀ t, p t → a ≤ t) →
      totalOf time size p l ≤ limit := by
    intro p _ a ha hp
    rcases hfresh with hzero | hlate
    · rw [(h.none hzero).1]
      exact Nat.zero_le _
    · exact h.since_le fun t ht => by
        have := hp t ht
        omega
  refine
    { none := fun h0 => absurd h0 (by simp only; omega)
      start_mem := fun _ => ⟨e, by simp, rfl⟩
      before := ?_
      sum_eq := ?_
      sum_le := hsize
      last := ?_
      interval := ?_ }
  · intro e' he'
    rcases List.mem_append.mp he' with he' | he'
    · have := hlt e' he'
      simp only
      omega
    · rw [List.mem_singleton.mp he']
      simp only
      omega
  · rw [totalOf_concat_of_pos le_rfl, totalOf_eq_zero fun e' he' => not_le.mpr (hlt e' he'),
      Nat.zero_add]
  · intro a ha
    rw [totalOf_concat_of_neg (by simp)]
    exact hold _ a ha fun t ht => ht.1
  · intro a b hab
    by_cases hin : a ≤ time e ∧ time e ≤ b
    · rw [totalOf_concat_of_pos hin]
      have := hold (fun t => a ≤ t ∧ t ≤ b) a (by omega) fun t ht => ht.1
      omega
    · rw [totalOf_concat_of_neg hin]
      exact h.interval a b hab

/-- A further item of the window. -/
theorem Tumbled.extend (h : Tumbled time size W limit l g)
    (hmono : ∀ e' ∈ l, time e' ≤ time e) (hstart : g.start ≠ 0) (hin : time e < g.start + W)
    (hsize : g.sum + size e ≤ limit) :
    Tumbled time size W limit (l ++ [e]) ⟨g.start, g.sum + size e⟩ := by
  have hle : g.start ≤ time e := by
    obtain ⟨e', he', heq⟩ := h.start_mem hstart
    exact heq ▸ hmono e' he'
  have hsum : g.sum + size e = totalOf time size (g.start ≤ ·) (l ++ [e]) := by
    rw [totalOf_concat_of_pos hle, h.sum_eq]
  have hlast : ∀ a, g.start < a + W →
      totalOf time size (fun t => a ≤ t ∧ t < g.start) (l ++ [e]) ≤ limit := by
    intro a ha
    rw [totalOf_concat_of_neg fun hlt => absurd hlt.2 (not_lt.mpr hle)]
    exact h.last a ha
  refine
    { none := fun h0 => absurd h0 hstart
      start_mem := fun _ => ?_
      before := ?_
      sum_eq := hsum
      sum_le := hsize
      last := hlast
      interval := ?_ }
  · obtain ⟨e', he', heq⟩ := h.start_mem hstart
    exact ⟨e', by simp [he'], heq⟩
  · intro e' he'
    rcases List.mem_append.mp he' with he' | he'
    · exact h.before e' he'
    · rw [List.mem_singleton.mp he']
      exact hin
  · intro a b hab
    by_cases hmem : a ≤ time e ∧ time e ≤ b
    · -- the items of this window, and those of the one before
      have hcover : ∀ t, a ≤ t ∧ t ≤ b → g.start ≤ t ∨ a ≤ t ∧ t < g.start := by
        intro t ht
        omega
      have hsplit := totalOf_le_add time size (q := (g.start ≤ ·)) hcover (l ++ [e])
      have := hlast a (by omega)
      omega
    · rw [totalOf_concat_of_neg hmem]
      exact h.interval a b hab

/-- An admitted item. -/
theorem Tumbled.concat (h : Tumbled time size W limit l g) (hW : 0 < W) (hpos : 0 < time e)
    (hmono : ∀ e' ∈ l, time e' ≤ time e) (hfits : g.used W (time e) + size e ≤ limit) :
    Tumbled time size W limit (l ++ [e]) (g.note W (time e) (size e)) := by
  unfold Tumble.used at hfits
  unfold Tumble.note
  split
  · rename_i hfresh
    exact h.restart hW hpos hfresh (by omega)
  · rename_i hfresh
    rw [not_or, not_le] at hfresh
    rw [if_neg (not_le.mpr hfresh.2)] at hfits
    exact h.extend hmono hfresh.1 hfresh.2 hfits

end Foundation
