import Mathlib.Data.List.Basic

/-!
# Pieces that cover a history

A history of `n` items is kept in pieces, each of which holds the items from its start to its stop.
`Unbroken` says that a list of pieces holds everything from a position on: each piece starts where
the one before it still reaches, and the last one reaches to the end.  Pieces may overlap.
-/

namespace Foundation

variable {ι : Type*} {start stop start' stop' : ι → ℕ} {n n' a : ℕ} {l l' : List ι} {j : ι}

/-- The pieces of a list, one after another, hold a history of `n` items from a position on. -/
inductive Unbroken (start stop : ι → ℕ) (n : ℕ) : ℕ → List ι → Prop
  | last {i : ι} (le : start i ≤ n) (stop_eq : stop i = n) : Unbroken start stop n (start i) [i]
  | cons {i : ι} {a : ℕ} {l : List ι} (le : start i ≤ a) (reach : a ≤ stop i)
      (rest : Unbroken start stop n a l) : Unbroken start stop n (start i) (i :: l)

namespace Unbroken

theorem ne_nil (h : Unbroken start stop n a l) : l ≠ [] := by
  rcases h with _ | _
  · exact List.cons_ne_nil _ _
  · exact List.cons_ne_nil _ _

/-- The last piece reaches to the end. -/
theorem of_mem_getLast? (h : Unbroken start stop n a l) {i : ι} (hi : i ∈ l.getLast?) :
    start i ≤ n ∧ stop i = n := by
  induction h with
  | last hle hstop =>
    obtain rfl := Option.some.inj (Option.mem_def.mp hi)
    exact ⟨hle, hstop⟩
  | @cons j b m _ _ hrest ih =>
    rw [List.getLast?_cons_of_ne_nil hrest.ne_nil] at hi
    exact ih hi

/-- Every item from that position on is in a piece. -/
theorem exists_mem (h : Unbroken start stop n a l) {p : ℕ} (ha : a ≤ p) (hn : p < n) :
    ∃ i ∈ l, start i ≤ p ∧ p < stop i := by
  induction h with
  | @last i _ hstop => exact ⟨i, by simp, ha, hstop ▸ hn⟩
  | @cons i b l _ hreach _ ih =>
    -- the item is in the first piece, or where the rest begins
    rcases Nat.lt_or_ge p b with hp | hp
    · exact ⟨i, by simp, ha, Nat.lt_of_lt_of_le hp hreach⟩
    · obtain ⟨j, hj, hmem⟩ := ih hp
      exact ⟨j, by simp [hj], hmem⟩

/-- The last pieces hold what is left. -/
theorem of_append (h : Unbroken start stop n a (l ++ l')) (hl : l' ≠ []) :
    ∃ b, Unbroken start stop n b l' := by
  induction l generalizing a with
  | nil => exact ⟨a, h⟩
  | cons i l ih =>
    rw [List.cons_append] at h
    rcases hrest : l ++ l' with _ | ⟨j, m⟩
    · exact absurd (List.append_eq_nil_iff.mp hrest).2 hl
    · rw [hrest] at h
      rcases h with _ | ⟨-, -, h⟩
      exact ih (hrest ▸ h)

/-- One more piece at the end. -/
theorem concat (h : Unbroken start stop n a l) (hle : ∀ i ∈ l.getLast?, start i ≤ start j)
    (hj : start j ≤ n) (hstop : stop j = n) : Unbroken start stop n a (l ++ [j]) := by
  induction h with
  | last _ hi => exact .cons (hle _ rfl) (Nat.le_trans hj (Nat.le_of_eq hi.symm)) (.last hj hstop)
  | cons hstart hreach hrest ih =>
    refine .cons hstart hreach (ih fun i hi => hle i ?_)
    rw [List.getLast?_cons_of_ne_nil hrest.ne_nil]
    exact hi

/-- The pieces, and with the last of them the history, may have grown. -/
theorem grow (h : Unbroken start stop n a l) (hstart : ∀ i ∈ l, start' i = start i)
    (hstop : ∀ i ∈ l, stop i ≤ stop' i) (hlast : ∀ i ∈ l.getLast?, stop' i = n') :
    Unbroken start' stop' n' a l := by
  induction h with
  | @last i hle hi =>
    have hn : n ≤ n' := by
      rw [← hi, ← hlast i rfl]
      exact hstop i (by simp)
    rw [← hstart i (by simp)]
    refine .last ?_ (hlast i rfl)
    rw [hstart i (by simp)]
    exact Nat.le_trans hle hn
  | @cons i b l hle hreach hrest ih =>
    rw [← hstart i (by simp)]
    refine .cons ?_ (Nat.le_trans hreach (hstop i (by simp)))
      (ih (fun j hj => hstart j (by simp [hj])) (fun j hj => hstop j (by simp [hj]))
        fun j hj => hlast j ?_)
    · rw [hstart i (by simp)]
      exact hle
    · rw [List.getLast?_cons_of_ne_nil hrest.ne_nil]
      exact hj

end Unbroken

end Foundation
